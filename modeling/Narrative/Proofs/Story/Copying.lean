import Narrative.Proofs.Content.Copies
import Narrative.Proofs.Expr.Accord
import Narrative.Proofs.NameMap
import Narrative.Proofs.Story.Naming
import Narrative.Proofs.Text

/-!
# Expressions in a copy of the content

In a copy of the content an expression has the same value and does the same to the memory, when it
names no position: the marks of the copied nodes are those of the nodes. Functions are called alike,
since what they mention is in the content, too.
-/

namespace Narrative

/-! ## What means the same in a copy -/

/-- A name that means the same in a copy of the content: it stands for no node by its position, nor
for the container being played, and is no reference. -/
structure Placeless (name : String) : Prop where
  /-- None of its parts is a number. -/
  unnumbered : Unnumbered name
  /-- It does not ask where play is. -/
  elsewhere : ∀ part ∈ idParts name,
    part ≠ "this".toList ∧ Builtin.ofName? (String.ofList part) ≠ some .isKnot
  /-- It is not written with an arrow. -/
  noReference : Stage.reference? name = none

instance (name : String) : Decidable (Placeless name) :=
  decidable_of_iff (Unnumbered name ∧ (∀ part ∈ idParts name,
      part ≠ "this".toList ∧ Builtin.ofName? (String.ofList part) ≠ some .isKnot) ∧
    Stage.reference? name = none)
    ⟨fun ⟨h, h', h''⟩ => ⟨h, h', h''⟩, fun ⟨h, h', h''⟩ => ⟨h, h', h''⟩⟩

/-- A value that means the same in a copy of the content. -/
def Value.IsPortable : Value → Prop
  | .container id => Unnumbered id
  | .object _ => False
  | _ => True

/-- A value that names no container and is no object means the same in every copy. -/
theorem Value.isPortable_of_isPlain {v : Value} (h : v.IsPlain) : v.IsPortable := by
  cases v with
  | container id => exact absurd rfl (h.1 id)
  | object key => exact absurd rfl (h.2 key)
  | _ => trivial

namespace Placeless

variable {name : String} (h : Placeless name)

include h

/-- A name that means the same in a copy is not that of the container being played. -/
theorem ne_this : name ≠ "this" := by
  rintro rfl
  exact (h.elsewhere "this".toList (by decide)).1 rfl

/-- It does not call the function that asks where play is. -/
theorem ofName?_ne : Builtin.ofName? name ≠ some .isKnot := by
  intro hname
  by_cases hdot : '.' ∈ name.toList
  · -- the name of no function of the language has a dot in it
    have hlower : '.' ∈ name.toList.map Char.toLower := List.mem_map.2 ⟨'.', hdot, rfl⟩
    rw [← String.toList_ofList (l := name.toList.map Char.toLower)] at hlower
    unfold Builtin.ofName? at hname
    split at hname <;> cases hname
    next heq =>
      rw [heq] at hlower
      revert hlower
      decide
  · have hparts := idParts_ofList hdot
    rw [String.ofList_toList] at hparts
    refine (h.elsewhere name.toList (by rw [hparts]; exact List.mem_singleton_self _)).2 ?_
    rwa [String.ofList_toList]

/-- What stands in front of the last dot means the same, too. -/
theorem object {object member : List Char}
    (hcut : Text.lastCut? '.' name.toList = some (object, member)) :
    Placeless (String.ofList object) := by
  have hname : name = String.ofList object ++ "." ++ String.ofList member := by
    rw [← String.toList_inj, Text.eq_of_lastCut? hcut]
    simp
  have hparts : idParts name = idParts (String.ofList object) ++ idParts (String.ofList member) :=
    (congrArg idParts hname).trans (idParts_dot ..)
  have hmem {part : List Char} (hpart : part ∈ idParts (String.ofList object)) :
      part ∈ idParts name := by
    rw [hparts]
    exact List.mem_append_left _ hpart
  refine ⟨fun part hpart => h.unnumbered part (hmem hpart),
    fun part hpart => h.elsewhere part (hmem hpart), ?_⟩
  have hnone := h.noReference
  unfold Stage.reference? at hnone ⊢
  rw [Option.map_eq_none_iff] at hnone ⊢
  rw [Text.eq_of_lastCut? hcut] at hnone
  rw [String.toList_ofList, Option.eq_none_iff_forall_ne_some]
  intro rest hafter
  rw [Text.eq_append_of_after? hafter, List.append_assoc, Text.after?_append] at hnone
  cases hnone

end Placeless

/-! ## Content that can be copied -/

namespace Content

/-- An address that means the same in a copy: no container with that address has a number in its
id. -/
structure Addresses (d : Content) (address : String) : Prop where
  /-- The address stands for no node by its position. -/
  unnumbered : Unnumbered address
  /-- Nor do the ids that end in it. -/
  bears {i : NodeId} : d.Bears address i → Unnumbered (d.node i).id

end Content

/-- Whether what a declaration mentions means the same in a copy of the content. -/
def Initializer.IsPortable (d : Content) : Initializer → Prop
  | divert address => d.Addresses address
  | expr source => Token.Mentions Placeless source.toList
  | _ => True

/-- Whether the right-hand side of an assignment means the same in a copy of the content. -/
def Content.Assigns (d : Content) (source : String) : Prop :=
  match Stage.reference? (String.ofList (Text.trim source.toList)) with
  | some address => d.Addresses address
  | none => Token.Mentions Placeless source.toList

namespace Content.Assigns

variable {d : Content} {source : String} (h : d.Assigns source)

include h

/-- A reference is to an address that can be copied. -/
theorem addresses {address : String}
    (hreference : Stage.reference? (String.ofList (Text.trim source.toList)) = some address) :
    d.Addresses address := by
  rwa [Content.Assigns, hreference] at h

/-- An expression mentions only what means the same in a copy. -/
theorem mentions
    (hreference : Stage.reference? (String.ofList (Text.trim source.toList)) = none) :
    Token.Mentions Placeless source.toList := by
  rwa [Content.Assigns, hreference] at h

end Content.Assigns

/-- Whether what a statement mentions means the same in a copy of the content. -/
def Statement.IsPortable (d : Content) : Statement → Prop
  | declare _ init => init.IsPortable d
  | assign name source => Placeless name ∧ d.Assigns source
  | result source? => ∀ source ∈ source?, Token.Mentions Placeless source.toList
  | eval source => Token.Mentions Placeless source.toList

/-- Whether the conditions and statements of a kind of node mean the same in a copy of the
content. -/
def NodeKind.IsPortable (d : Content) : NodeKind → Prop
  | choice _ conditions => ∀ source ∈ conditions, Token.Mentions Placeless source.toList
  | block _ options =>
    ∀ o ∈ options, ∀ source ∈ o.guard, Token.Mentions Placeless source.toList
  | statement t => t.IsPortable d
  | _ => True

/-- What a node of some content mentions means the same in a copy of the content. -/
structure Node.IsPortable (d : Content) (n : Node) : Prop where
  /-- The directives in the text. -/
  text : Directive.Asks (Token.Mentions Placeless) n.text.toList
  /-- The conditions and the statement. -/
  kind : n.kind.IsPortable d
  /-- The target of a divert and its arguments. -/
  divert : ∀ target ∈ n.divertTarget?, Unnumbered (String.ofList (splitCall target).1) ∧
    ∀ arg ∈ (splitCall target).2, Token.Mentions Placeless arg

/-- What the nodes mention means the same in a copy of the content. -/
def Content.IsPortable (d : Content) : Prop :=
  ∀ i < d.size, (d.node i).IsPortable d

/-- Every node of content that can be copied can be, also those it does not have. -/
theorem Content.IsPortable.node {d : Content} (h : d.IsPortable) (i : NodeId) :
    (d.node i).IsPortable d := by
  by_cases hi : i < d.size
  · exact h i hi
  · rw [Content.node_eq_default (Nat.le_of_not_lt hi)]
    exact ⟨trivial, trivial, nofun⟩

section Decidable

instance (P : String → Prop) [DecidablePred P] (source : List Char) :
    Decidable (Token.Mentions P source) :=
  decidable_of_iff ((Token.ofChars source).all (fun
      | .ident name => decide (P name)
      | _ => true) = true) <| by
    rw [List.all_eq_true]
    refine ⟨fun h name hname => of_decide_eq_true (h _ hname), fun h token htoken => ?_⟩
    cases token with
    | ident name => exact decide_eq_true (h name htoken)
    | _ => rfl

instance (d : Content) (address : String) : Decidable (d.Addresses address) :=
  decidable_of_iff
    (Unnumbered address ∧ ∀ i ∈ d.labelled address, Unnumbered (d.node i).id)
    ⟨fun h => ⟨h.1, fun hi => h.2 _ (Content.mem_labelled_iff.2 hi)⟩,
      fun h => ⟨h.unnumbered, fun _ hi => h.bears (Content.mem_labelled_iff.1 hi)⟩⟩

instance (d : Content) : (init : Initializer) → Decidable (init.IsPortable d)
  | .divert address => inferInstanceAs (Decidable (d.Addresses address))
  | .expr source => inferInstanceAs (Decidable (Token.Mentions Placeless source.toList))
  | .bool _ | .number _ | .str _ => inferInstanceAs (Decidable True)

instance (d : Content) (source : String) : Decidable (d.Assigns source) :=
  match h : Stage.reference? (String.ofList (Text.trim source.toList)) with
  | some address => decidable_of_iff (d.Addresses address) (by rw [Content.Assigns, h])
  | none => decidable_of_iff (Token.Mentions Placeless source.toList) (by rw [Content.Assigns, h])

instance (d : Content) : (t : Statement) → Decidable (t.IsPortable d)
  | .declare _ init => inferInstanceAs (Decidable (init.IsPortable d))
  | .assign name source => inferInstanceAs (Decidable (Placeless name ∧ d.Assigns source))
  | .result source? =>
    inferInstanceAs (Decidable (∀ source ∈ source?, Token.Mentions Placeless source.toList))
  | .eval source => inferInstanceAs (Decidable (Token.Mentions Placeless source.toList))

instance (d : Content) : (kind : NodeKind) → Decidable (kind.IsPortable d)
  | .choice _ conditions =>
    inferInstanceAs (Decidable (∀ source ∈ conditions, Token.Mentions Placeless source.toList))
  | .block _ options =>
    inferInstanceAs (Decidable
      (∀ o ∈ options, ∀ source ∈ o.guard, Token.Mentions Placeless source.toList))
  | .statement t => inferInstanceAs (Decidable (t.IsPortable d))
  | .knot _ | .function _ | .stitch _ | .gather | .text | .comment .. =>
    inferInstanceAs (Decidable True)

end Decidable

/-! ## Memory -/

variable {place : NodeId → NodeId}

/-- The memory `m'` says of the copies what `m` says of the nodes. -/
structure Memory.Copies (place : NodeId → NodeId) (m' m : Memory) : Prop where
  /-- The variables have the same values. -/
  globals : m'.globals = m.globals
  /-- The same numbers have been drawn. -/
  dice : m'.dice = m.dice
  /-- A copy is marked like the node. -/
  mark (i : NodeId) : m'.mark (place i) = m.mark i
  /-- The values of the variables mean the same in the copy. -/
  portable {name : String} {v : Value} : m.globals.get? name = some v → v.IsPortable
  /-- So do those of the parameters. -/
  scope {i : NodeId} {name : String} {v : Value} :
    (m.mark i).scope.get? name = some v → v.IsPortable

namespace Memory.Copies

variable {m' m : Memory} (h : m'.Copies place m)

include h

/-- The copies of what is played inside a node are what is played inside its copy. -/
theorem children {c d : Content} (hcopies : c.Copies place d) (i : NodeId) :
    m'.children c (place i) = (m.children d i).map place := by
  rw [Memory.children, Memory.children, h.mark, (hcopies.node i).childrenAt]

/-- A global variable may get the same value in both memories. -/
theorem setGlobal {v : Value} (hv : v.IsPortable) (name : String) :
    (m'.setGlobal name v).Copies place (m.setGlobal name v) where
  globals := congrArg (·.insert name v) h.globals
  dice := h.dice
  mark := h.mark
  portable {key w} hw := by
    change (m.globals.insert name v).get? key = some w at hw
    rw [NameMap.get?_insert] at hw
    split at hw
    · cases hw
      exact hv
    · exact h.portable hw
  scope := h.scope

/-- The dice may be exchanged in both memories. -/
theorem withDice (dice : Dice) :
    ({ m' with dice } : Memory).Copies place { m with dice } :=
  ⟨h.globals, rfl, h.mark, h.portable, h.scope⟩

variable (hinjective : Function.Injective place)

include hinjective

/-- The marks of a node and of its copy may be changed in the same way. -/
theorem modifyMark {i : NodeId} {f : Mark → Mark}
    (hf : ∀ name v, (f (m.mark i)).scope.get? name = some v → v.IsPortable) :
    (m'.modifyMark (place i) f).Copies place (m.modifyMark i f) where
  globals := h.globals
  dice := h.dice
  mark j := by
    rw [mark_modifyMark, mark_modifyMark, h.mark, h.mark]
    by_cases hij : i = j
    · rw [if_pos hij, if_pos (congrArg place hij)]
    · rw [if_neg hij, if_neg fun heq => hij (hinjective heq)]
  portable := h.portable
  scope {j name v} hv := by
    rw [mark_modifyMark] at hv
    split at hv
    · exact hf _ _ hv
    · exact h.scope hv

/-- A visit of a node is remembered in its copy. -/
theorem visit (i : NodeId) : (m'.visit (place i)).Copies place (m.visit i) :=
  h.modifyMark hinjective fun _ _ => h.scope

/-- The same option of a block is selected in its copy. -/
theorem select (i : NodeId) (selection : Nat) :
    (m'.select (place i) selection).Copies place (m.select i selection) :=
  h.modifyMark hinjective fun _ _ => h.scope

/-- Arguments are bound to the parameters of a node and of its copy. -/
theorem bind (i : NodeId) (params : List String) {args : List Value}
    (hargs : ∀ v ∈ args, v.IsPortable) :
    (m'.bind (place i) params args).Copies place (m.bind i params args) :=
  h.modifyMark hinjective fun _ v hv =>
    hargs v (List.of_mem_zip (NameMap.mem_of_mem_ofList (NameMap.mem_of_find? hv))).2

end Memory.Copies

/-! ## Names -/

/-- The place `s'` is the copy of the place `s`, for hosts that differ in their sources only. -/
structure Stage.Copies (place : NodeId → NodeId) (s' s : Stage) : Prop where
  /-- The content is copied. -/
  content : s'.content.Copies place s.content
  /-- It can be. -/
  portable : s.content.IsPortable
  /-- Play is in the copy of the container. -/
  here : s'.here = s.here.map place
  /-- Objects have the same methods. -/
  method : s'.host.method = s.host.method
  /-- The same numbers are drawn. -/
  random : s'.host.random = s.host.random

namespace Stage.Copies

variable {s' s : Stage} {m' m : Memory} (h : s'.Copies place s)

include h

/-- The place inside a node. -/
theorem inside (i : NodeId) :
    ({ s' with here := some (place i) } : Stage).Copies place { s with here := some i } :=
  ⟨h.content, h.portable, rfl, h.method, h.random⟩

/-- The copies of the nodes above the place are above the copy of the place. -/
theorem lineage : s'.lineage = s.lineage.map place := by
  unfold Stage.lineage
  rw [h.here]
  cases s.here with
  | none => rfl
  | some i => exact h.content.lineage i

/-- The copy of a section is a section. -/
theorem isSection (i : NodeId) :
    (s'.content.node (place i)).isSection = (s.content.node i).isSection :=
  (h.content.node i).isSection

/-- The copies of the sections among some nodes are the sections among their copies. -/
theorem filter_isSection (is : List NodeId) :
    (is.map place).filter (fun j => (s'.content.node j).isSection) =
      (is.filter fun j => (s.content.node j).isSection).map place := by
  rw [List.filter_map]
  exact congrArg (List.map place) (List.filter_congr fun i _ => h.isSection i)

/-- The copies of the sections around the place are around its copy. -/
theorem sections : s'.sections = s.sections.map place := by
  rw [Stage.sections, h.lineage, h.filter_isSection, Stage.sections]

/-- The copies of the nodes around the place are around its copy. -/
theorem surroundings : s'.surroundings = s.surroundings.map place := by
  unfold Stage.surroundings
  rw [h.lineage]
  cases s.lineage with
  | nil => rfl
  | cons i above => exact congrArg (place i :: ·) (h.filter_isSection above)

/-- A name without numbers leads from the copy of a node to the copy of what it leads to. -/
theorem under? {name : String} (hname : Unnumbered name) (i : NodeId) :
    s'.under? (place i) name = (s.under? i name).map place :=
  h.content.under? i hname

/-- A name is bound at the copy of the node at which it is bound. -/
theorem binder? (hm : m'.Copies place m) (name : String) :
    s'.binder? m' name = (s.binder? m name).map place := by
  unfold Stage.binder?
  rw [h.sections, List.find?_map]
  refine congrArg (Option.map place) (congrArg (List.find? · _) (funext fun i => ?_))
  rw [Function.comp_apply, hm.mark]

/-- A parameter has the same value in both. -/
theorem parameter? (hm : m'.Copies place m) (name : String) :
    s'.parameter? m' name = s.parameter? m name := by
  unfold Stage.parameter?
  rw [h.binder? hm]
  cases s.binder? m name with
  | none => rfl
  | some i => exact congrArg (·.scope.get? name) (hm.mark i)

omit h in
/-- The value of a parameter means the same in a copy. -/
theorem portable_of_parameter? (hm : m'.Copies place m) {name : String} {v : Value}
    (hv : s.parameter? m name = some v) : v.IsPortable := by
  obtain ⟨i, -, hv⟩ := Option.bind_eq_some_iff.1 hv
  exact hm.scope hv

/-- A variable is assigned alike. -/
theorem assign (hm : m'.Copies place m) {v : Value} (hv : v.IsPortable) (name : String) :
    (s'.assign m' name v).Copies place (s.assign m name v) := by
  unfold Stage.assign
  rw [h.binder? hm]
  cases s.binder? m name with
  | none => exact hm.setGlobal hv name
  | some i =>
    refine hm.modifyMark h.content.injective fun key w hw => ?_
    rw [NameMap.get?_insert] at hw
    split at hw
    · cases hw
      exact hv
    · exact hm.scope hw

/-- The copy of a node is a target just when the node is. -/
theorem isTarget (i : NodeId) : s'.isTarget (place i) = s.isTarget i :=
  (h.content.node i).isContainer

/-- The visits of the copy of a node are counted just when those of the node are. -/
theorem isCounted (i : NodeId) : s'.isCounted (place i) = s.isCounted i := by
  unfold Stage.isCounted
  rw [(h.content.node i).isContainer, (h.content.node i).isFunction]

omit h in
/-- A test that accepts a copy just when it accepts the node finds the copy of what it finds. -/
theorem filter_eq_map {p p' : NodeId → Bool} (hp : ∀ i, p' (place i) = p i)
    (found : Option NodeId) : (found.map place).filter p' = (found.filter p).map place := by
  rw [Option.filter_map]
  exact congrArg (Option.map place) (congrArg (Option.filter · found) (funext hp))

/-- Looked up relative to nodes, a name stands for the copy of what it stands for. -/
theorem firstUnder? {accepts accepts' : NodeId → Bool} (hp : ∀ i, accepts' (place i) = accepts i)
    {name : String} (hname : Unnumbered name) (is : List NodeId) :
    s'.firstUnder? name accepts' (is.map place) = (s.firstUnder? name accepts is).map place := by
  unfold Stage.firstUnder?
  induction is with
  | nil => rfl
  | cons i is ih =>
    rw [List.map_cons, List.findSome?_cons, List.findSome?_cons, h.under? hname,
      filter_eq_map hp, ih]
    cases (s.under? i name).filter accepts <;> rfl

/-- A name without numbers counts the visits of the copy of what it counts. -/
theorem counted? {name : String} (hname : Unnumbered name) :
    s'.counted? name = (s.counted? name).map place := by
  have hunder := h.firstUnder? h.isCounted hname s.surroundings
  unfold Stage.counted?
  rw [h.content.find? hname, h.surroundings, filter_eq_map h.isCounted]
  simp only [Option.orElse_eq_orElse, Option.orElse_eq_or, Option.map_or]
  exact congrArg (Option.or _) hunder

/-- A name without numbers stands for the same number of visits. -/
theorem countOf? (hm : m'.Copies place m) {name : String} (hname : Unnumbered name) :
    s'.countOf? m' name = s.countOf? m name := by
  unfold Stage.countOf?
  rw [h.counted? hname, Option.map_map]
  exact congrArg (Option.map · _) (funext fun i => congrArg Mark.count (hm.mark i))

/-- A name that means the same in a copy is a variable in both, or in none. -/
theorem hasVariable (hm : m'.Copies place m) {name : String} (hname : Placeless name) :
    s'.hasVariable m' name = s.hasVariable m name := by
  unfold Stage.hasVariable
  rw [if_neg hname.ne_this, if_neg hname.ne_this, h.binder? hm, Option.isSome_map,
    hname.noReference, h.countOf? hm hname.unnumbered, hm.globals]

/-- A name that means the same in a copy has the same value in both. -/
theorem valueOf (hm : m'.Copies place m) {name : String} (hname : Placeless name) :
    Value.Same Value.IsPortable (s.valueOf m name) (s'.valueOf m' name) := by
  unfold Stage.valueOf
  rw [if_neg hname.ne_this, if_neg hname.ne_this, h.parameter? hm, hname.noReference,
    h.countOf? hm hname.unnumbered, hm.globals]
  refine ⟨?_, ?_⟩
  · cases hparameter : s.parameter? m name with
    | some v => exact portable_of_parameter? hm hparameter
    | none =>
      cases s.countOf? m name with
      | some count => trivial
      | none =>
        cases hglobal : m.globals.get? name with
        | some v => exact hm.portable hglobal
        | none => trivial
  · cases s.parameter? m name <;> rfl

/-- A name without numbers leads to the copy of a function. -/
theorem function? {name : String} (hname : Unnumbered name) :
    s'.function? name = (s.function? name).map place := by
  unfold Stage.function?
  rw [h.content.find? hname]
  exact filter_eq_map (fun i => (h.content.node i).isFunction) _

/-- A name without numbers is a function in both, or in none. -/
theorem hasFunction {name : String} (hname : Unnumbered name) :
    s'.hasFunction name = s.hasFunction name := by
  unfold Stage.hasFunction
  rw [h.function? hname, Option.isSome_map]

/-- A divert from the copy goes outward through the copies of the same nodes. -/
theorem outward : s'.outward = s.outward.map place := by
  have hparent : s'.parent? = s.parent?.map place := by
    unfold Stage.parent?
    rw [h.here]
    cases s.here with
    | none => rfl
    | some i => exact (h.content.node i).parent
  rw [Stage.outward, Stage.outward, hparent, h.sections, List.map_append]
  cases s.parent? <;> rfl

/-- A divert leads to the copy of its target. -/
theorem target? (hm : m'.Copies place m) {name : String} (hname : Unnumbered name) :
    s'.target? m' name = (s.target? m name).map place := by
  have hbare : s'.bare? name = (s.bare? name).map place := by
    rw [Stage.bare?, h.content.find? hname]
    exact filter_eq_map h.isTarget _
  have hreferred : s'.referred? m' name = (s.referred? m name).map place := by
    unfold Stage.referred?
    rw [hm.globals]
    cases hglobal : m.globals.get? name with
    | none => rfl
    | some v =>
      cases v with
      | container id => exact h.content.find? (hm.portable hglobal)
      | _ => rfl
  rw [target?_eq, target?_eq, hbare, h.outward, h.firstUnder? h.isTarget hname,
    h.content.findByLabel? hname, hreferred, Option.map_or, Option.map_or, Option.map_or]

omit h in
/-- The node to which a divert to an address leads has no number in its id. -/
theorem unnumbered_of_target? (hm : m'.Copies place m) {address : String}
    (haddress : s.content.Addresses address) {i : NodeId} (hi : s.target? m address = some i) :
    Unnumbered (s.content.node i).id := by
  rw [target?_eq, Option.or_eq_some_iff, Option.or_eq_some_iff, Option.or_eq_some_iff] at hi
  obtain hbare | ⟨-, hunder | ⟨-, hlabel | ⟨-, hreferred⟩⟩⟩ := hi
  · rw [(Content.find?_eq_some (Option.filter_eq_some_iff.1 hbare).1).2]
    exact haddress.unnumbered
  · obtain ⟨j, -, hj⟩ := List.exists_of_findSome?_eq_some hunder
    obtain ⟨hfind, htarget⟩ := Option.filter_eq_some_iff.1 hj
    obtain ⟨hlt, hid⟩ := Content.find?_eq_some hfind
    exact haddress.bears ⟨hlt, htarget, _, hid⟩
  · exact haddress.bears (Content.findByLabel?_eq_some_iff.1 hlabel).1
  · unfold Stage.referred? at hreferred
    split at hreferred
    · next id hglobal =>
      rw [(Content.find?_eq_some hreferred).2]
      exact hm.portable hglobal
    · cases hreferred

/-- A reference to an address is the same. -/
theorem address? (hm : m'.Copies place m) {address : String}
    (haddress : s.content.Addresses address) : s'.address? m' address = s.address? m address := by
  unfold Stage.address?
  rw [h.target? hm haddress.unnumbered, Option.map_map]
  cases htarget : s.target? m address with
  | none => rfl
  | some i =>
    exact congrArg (some ∘ Value.container)
      (h.content.id (unnumbered_of_target? hm haddress htarget))

omit h in
/-- The reference that an address gives means the same in a copy. -/
theorem portable_of_address? (hm : m'.Copies place m) {address : String}
    (haddress : s.content.Addresses address) {v : Value} (hv : s.address? m address = some v) :
    v.IsPortable := by
  obtain ⟨i, hi, rfl⟩ := Option.map_eq_some_iff.1 hv
  exact unnumbered_of_target? hm haddress hi

end Stage.Copies

/-! ## Expressions -/

/-- Computations on a memory and on what it is in a copy: where the first one ends, the second one
does. -/
def Memory.copying (place : NodeId → NodeId) : Coupling Memory Memory :=
  .leading fun m m' => m'.Copies place m

/-- Two contexts give the same answers about what means the same in a copy. -/
abbrev Context.Repeats (place : NodeId → NodeId) (ctx' ctx : Context Memory) : Prop :=
  ctx.Accords (Memory.copying place) (fun _ _ => True) Placeless Value.IsPortable ctx'

/-- The value of a body, if there is one, is the same and means the same in the copy. -/
def Value.SameIfAny (v w : Option Value) : Prop :=
  (∀ x ∈ v, x.IsPortable) ∧ w = v

/-- No value is the same as no value. -/
theorem Value.sameIfAny_none : SameIfAny none none :=
  ⟨fun x hx => absurd hx (Option.not_mem_none x), rfl⟩

/-- A value that means the same in a copy is the same as itself. -/
theorem Value.sameIfAny_some {v : Value} (h : v.IsPortable) : SameIfAny (some v) (some v) :=
  ⟨fun _ hx => Option.mem_some_iff.1 hx ▸ h, rfl⟩

/-- Computations that may fail and are repeated on a copy. -/
abbrev Memory.Repeats {ε ε' α β : Type} (place : NodeId → NodeId) (Q : α → β → Prop)
    (x : Attempt ε Memory α) (y : Attempt ε' Memory β) : Prop :=
  (Memory.copying place).CouplesAttempt (fun _ _ => True) Q x y

namespace Stage.Copies

open Coupling Memory

variable {s' s : Stage} {ctx ctx' : Context Memory} (h : s'.Copies place s)

include h

/-- Contexts give the same answers when calls do the same. -/
theorem repeats_contextWith {call call' : String → List Value → Eval Memory Value}
    (hcall : ∀ name args, Placeless name → (∀ v ∈ args, v.IsPortable) →
      Repeats place (Value.Same Value.IsPortable) (call name args) (call' name args)) :
    (s'.contextWith call').Repeats place (s.contextWith call) where
  object hname hcut := hname.object hcut
  plain := Value.isPortable_of_isPlain
  error _ := trivial
  hasVariable hm hname := h.hasVariable hm hname
  hasFunction _ hname := h.hasFunction hname.unnumbered
  value hm hname := h.valueOf hm hname
  call hname hargs := hcall _ _ hname hargs
  method hobject := hobject.elim
  draw bound := by
    rintro m m' hm a m₁ hrun
    cases hrun
    refine ⟨_, _, rfl, ?_, ?_⟩
    · change (m.dice.roll s.host.random bound).1 = (m'.dice.roll s'.host.random bound).1
      rw [hm.dice, h.random]
    · change Memory.Copies place { m' with dice := (m'.dice.roll s'.host.random bound).2 }
        { m with dice := (m.dice.roll s.host.random bound).2 }
      rw [hm.dice, h.random]
      exact hm.withDice _

variable (hctx : ctx'.Repeats place ctx)

/-- A reference that can be copied is taken alike, or fails in both. -/
theorem repeats_refer {address : String} (haddress : s.content.Addresses address)
    (declaration : String) (line : Nat) :
    Repeats place (Value.Same Value.IsPortable) (s.refer declaration address line)
      (s'.refer declaration address line) := by
  refine attempt_consult fun m m' hm => ?_
  rw [h.address? hm haddress]
  cases hfound : s.address? m address with
  | some v => exact attempt_pure ⟨portable_of_address? hm haddress hfound, rfl⟩
  | none => exact attempt_throw trivial

include hctx

/-- The same option of a block is chosen. -/
theorem repeats_selectOption (i : NodeId) :
    (copying place).Couples Eq (s.selectOption ctx i) (s'.selectOption ctx' (place i)) := by
  have hkinds := (h.portable.node i).kind
  unfold selectOption
  rw [(h.content.node i).kind]
  cases hkind : (s.content.node i).kind with
  | block mode options =>
    rw [hkind] at hkinds
    refine (copying place).consult fun m m' hm => ?_
    rw [hm.mark]
    have hguards : (options.map (·.moved place)).map (·.guard) = options.map (·.guard) := by
      rw [List.map_map]
      rfl
    refine (copying place).bind (hctx.chooseOption hguards hkinds) ?_
    rintro selection _ rfl
    exact (copying place).change fun m m' hm => hm.select h.content.injective i selection
  | _ => exact (copying place).pure rfl

omit h in
/-- An expression that mentions no place has the same value, or fails in both. -/
theorem repeats_evaluate {source : String} (hsource : Token.Mentions Placeless source.toList)
    (line : Nat) : Repeats place (Value.Same Value.IsPortable) (Stage.evaluate ctx source line)
      (Stage.evaluate ctx' source line) := by
  refine attempt_bind (Q := Outcomes (fun _ _ => True) (Value.Same Value.IsPortable))
    (attempt_lift (hctx.evalText hsource)) fun _ _ hr => hr.elim ?_ ?_
  · exact fun _ _ hsame => attempt_pure hsame
  · exact fun _ _ _ => attempt_throw trivial

/-- A declaration that can be copied gives the same value, or fails in both. -/
theorem repeats_initialValue {init : Initializer} (hinit : init.IsPortable s.content)
    (name : String) (line : Nat) :
    Repeats place (Value.Same Value.IsPortable) (s.initialValue ctx name line init)
      (s'.initialValue ctx' name line init) := by
  cases init with
  | bool b | number n | str t => exact attempt_pure ⟨trivial, rfl⟩
  | divert address => exact h.repeats_refer hinit _ line
  | expr source => exact repeats_evaluate hctx hinit line

/-- A statement does the same. -/
theorem repeats_execute {t : Statement} (ht : t.IsPortable s.content) (line : Nat) :
    Repeats place Eq (s.execute ctx line t) (s'.execute ctx' line t) := by
  have hassign {name : String} {x y : Act Value}
      (hxy : Repeats place (Value.Same Value.IsPortable) x y) :
      Repeats place Eq (x >>= fun v => modify fun m => s.assign m name v)
        (y >>= fun v => modify fun m => s'.assign m name v) := by
    refine attempt_bind hxy ?_
    rintro v _ ⟨hv, rfl⟩
    exact attempt_modify fun m m' hm => h.assign hm hv name
  cases t with
  | declare name init => exact hassign (h.repeats_initialValue hctx ht name line)
  | assign name source =>
    obtain ⟨hname, hsource⟩ := ht
    refine attempt_consult fun m m' hm => ?_
    rw [h.hasVariable hm hname]
    by_cases hknown : s.hasVariable m name = true
    · simp only [hknown, if_true]
      refine hassign ?_
      unfold assignedValue
      cases hreference : reference? (String.ofList (Text.trim source.toList)) with
      | some address => exact h.repeats_refer (hsource.addresses hreference) _ line
      | none => exact repeats_evaluate hctx (hsource.mentions hreference) line
    · simp only [hknown]
      exact attempt_throw trivial
  | eval source =>
    exact attempt_bind (repeats_evaluate hctx ht line) fun _ _ _ => attempt_pure rfl
  | result source? => exact attempt_pure rfl

/-! ## Functions -/

/-- A node of a function body is played alike. -/
theorem repeats_playLine {block block' : NodeId → Act (Option Value)}
    (hblock : ∀ i, Repeats place Value.SameIfAny (block i) (block' (place i))) (i : NodeId) :
    Repeats place Value.SameIfAny (s.playLine ctx block i) (s'.playLine ctx' block' (place i)) := by
  have hnode := h.content.node i
  have hportable := h.portable.node i
  have hinjective := h.content.injective
  have hnone : Repeats place Value.SameIfAny (pure none : Act (Option Value))
      (pure none : Act (Option Value)) := attempt_pure Value.sameIfAny_none
  unfold playLine
  simp only [hnode.kind, hnode.text, hnode.line]
  cases hkind : (s.content.node i).kind with
  | text =>
    refine attempt_consult fun m m' hm => ?_
    rw [hm.mark]
    refine attempt_bind (attempt_modify fun m m' hm => hm.visit hinjective i) fun _ _ _ => ?_
    refine attempt_bind (attempt_lift (hctx.expand hportable.text _)) ?_
    rintro text _ rfl
    exact attempt_pure (Value.sameIfAny_some trivial)
  | statement t =>
    have ht : t.IsPortable s.content := by
      have hkinds := hportable.kind
      rwa [hkind] at hkinds
    cases t with
    | result source? =>
      cases source? with
      | none => exact attempt_pure (Value.sameIfAny_some trivial)
      | some source =>
        refine attempt_bind (repeats_evaluate hctx (ht source rfl) _) ?_
        rintro v _ ⟨hv, rfl⟩
        exact attempt_pure (Value.sameIfAny_some hv)
    | declare name init | assign name source | eval source =>
      exact attempt_bind (h.repeats_execute hctx ht _) fun _ _ _ => hnone
  | block mode options =>
    refine attempt_bind (attempt_lift (h.repeats_selectOption hctx i)) fun _ _ _ => ?_
    exact attempt_bind (attempt_modify fun m m' hm => hm.visit hinjective i) fun _ _ _ => hblock i
  | _ => exact hnone

/-- The lines of a function are played like their copies, where the blocks among them are. -/
theorem repeats_playLines {block block' : NodeId → Act (Option Value)}
    (hblock : ∀ i, Repeats place Value.SameIfAny (block i) (block' (place i)))
    (is : List NodeId) :
    Repeats place Value.SameIfAny (s.playLines ctx block is)
      (s'.playLines ctx' block' (is.map place)) := by
  induction is with
  | nil => exact attempt_pure Value.sameIfAny_none
  | cons i rest ih =>
    refine attempt_bind (h.repeats_playLine hctx hblock i) ?_
    rintro _ v ⟨hv, rfl⟩
    cases v with
    | some v => exact attempt_pure ⟨hv, rfl⟩
    | none => exact ih

/-- A body is played alike, where blocks may nest more deeply in the copy. -/
theorem repeats_playBody {nesting nesting' : Nat} (hle : nesting ≤ nesting') (i : NodeId) :
    Repeats place Value.SameIfAny (s.playBody ctx nesting i)
      (s'.playBody ctx' nesting' (place i)) := by
  induction nesting generalizing nesting' i with
  | zero =>
    intro m m' hm a m₁ hrun
    cases hrun
  | succ nesting ih =>
    obtain ⟨nesting', rfl⟩ := Nat.exists_eq_add_of_le' (Nat.lt_of_lt_of_le nesting.succ_pos hle)
    refine attempt_consult fun m m' hm => ?_
    rw [hm.children h.content]
    exact h.repeats_playLines hctx (fun i => ih (by omega) i) _

/-- The copy of a function gives the same value for the same arguments. -/
theorem repeats_callFunction {args : List Value} (hargs : ∀ v ∈ args, v.IsPortable) (f : NodeId) :
    Repeats place (Value.Same Value.IsPortable) (s.callFunction ctx f args)
      (s'.callFunction ctx' (place f) args) := by
  have hinjective := h.content.injective
  have hsize := Nat.succ_le_succ h.content.size_le
  unfold callFunction
  simp only [(h.content.node f).params]
  split
  · refine attempt_bind (attempt_modify fun m m' hm =>
      (hm.bind hinjective f _ hargs).visit hinjective f) fun _ _ _ => ?_
    refine attempt_bind (Q := Outcomes (fun _ _ => True) Value.SameIfAny)
      (attempt_lift (h.repeats_playBody hctx hsize f)) fun _ _ hr => hr.elim ?_ ?_
    · rintro _ v ⟨hv, rfl⟩
      refine attempt_pure ⟨?_, rfl⟩
      cases v with
      | none => trivial
      | some v => exact hv v rfl
    · exact fun _ _ _ => attempt_throw trivial
  · exact attempt_throw trivial

omit h hctx in
/-- A call does the same in the copy. -/
theorem repeats_call (h : s'.Copies place s) (depth : Nat) {name : String} (hname : Placeless name)
    {args : List Value} (hargs : ∀ v ∈ args, v.IsPortable) :
    Repeats place (Value.Same Value.IsPortable) (call depth s name args)
      (call depth s' name args) := by
  induction depth generalizing s s' name args with
  | zero =>
    intro m m' hm a m₁ hrun
    cases hrun
  | succ depth ih =>
    have hcontext {t' t : Stage} (ht : t'.Copies place t) :
        (t'.contextWith (call depth t')).Repeats place (t.contextWith (call depth t)) :=
      ht.repeats_contextWith fun _ _ hname hargs => ih ht hname hargs
    unfold call
    rw [h.function? hname.unnumbered]
    cases s.function? name with
    | some f => exact (h.inside f).repeats_callFunction (hcontext (h.inside f)) hargs f
    | none =>
      simp only [Option.map_none]
      unfold Context.callBuiltin?
      cases hbuiltin : Builtin.ofName? name with
      | none => exact attempt_throw trivial
      | some f =>
        refine (hcontext h).callBuiltin fun hthis => ?_
        rw [hthis] at hbuiltin
        exact absurd hbuiltin hname.ofName?_ne

omit hctx in
/-- Expressions have the same values in a copy and do the same to the memory. -/
theorem repeats_context (depth : Nat) : (s'.context depth).Repeats place (s.context depth) :=
  h.repeats_contextWith fun _ _ hname hargs => h.repeats_call depth hname hargs

end Stage.Copies

end Narrative
