import Narrative.Proofs.Content.Ids
import Narrative.Proofs.Source.Weaving

/-!
# What reading a line adds

A line may name a node: a header names a section, and a label names a choice or a gather. The names
in a source, and the nodes under which they are given, can be read off its weave. Every node that is
read gets the full id of the name that its line gives it, or else the next positional id under its
parent, and an id that is refused is one of these, too.
-/

namespace Narrative

open Relation

namespace Weave

/-! ## The names in a source -/

/-- A name that is given to a node, and the node under which it is given. -/
structure Naming where
  /-- The node under which the named one is to hang; none for knots and functions. -/
  parent : Option NodeId
  /-- The name. -/
  name : List Char
deriving DecidableEq

/-- The name in the header of a section, given without its equals signs. -/
def headerName? (header : List Char) : Option (List Char) :=
  (SectionHeader.read header).toOption.map (·.name)

/-- The name of the knot or function whose header a line is. -/
def knotName? (line : List Char) : Option (List Char) :=
  let header := SectionHeader.body line
  headerName? (((Text.after? "function ".toList header).map Text.trim).getD header)

/-- The name that a label gives to a choice or gather of a level. -/
def labelNaming? (m : Weave) (level : Nat) (label : Option (List Char)) : Option Naming := do
  let s ← m.scopes.head?
  return ⟨some (s.closing level).top, ← label⟩

/-- The name that a choice is given. -/
def choiceNaming? (m : Weave) (marker : Char) (line : List Char) : Option Naming :=
  let (markers, rest) := stripMarkers marker line
  (ChoiceLine.read rest).toOption.bind fun c => m.labelNaming? (1 + markers) c.label

/-- The name that a gather is given. -/
def gatherNaming? (m : Weave) (line : List Char) : Option Naming :=
  let (markers, rest) := stripMarkers '-' line
  (readGatherLabel rest).toOption.bind fun (label, _) => m.labelNaming? (1 + markers) label

/-- The name that a line gives that neither closes a block nor begins an option. -/
def plainNaming? (m : Weave) (line : List Char) : Option Naming :=
  match line with
  | '=' :: '=' :: _ => (knotName? line).map (⟨none, ·⟩)
  | '=' :: _ => do return ⟨some (← m.knot), ← headerName? (SectionHeader.body line)⟩
  | '*' :: _ => m.choiceNaming? '*' line
  | '+' :: _ => m.choiceNaming? '+' line
  | _ =>
    if line.head? = some '-' ∧ !Text.startsWithArrow line then m.gatherNaming? line else none

/-- The name that a line without its comment gives. -/
def codeNaming? (m : Weave) (line : List Char) : Option Naming :=
  match line with
  | [] => none
  | c :: rest =>
    match m.mode? with
    | none => m.plainNaming? (c :: rest)
    | some mode =>
      if closesBlock 0 (c :: rest) then m.codeNaming? (Text.trim (c :: rest).dropLast)
      else if Draft.beginsOption mode (c :: rest) then
        if mode = .conditional then none else (m.enter .option).codeNaming? (Text.trim rest)
      else m.plainNaming? (c :: rest)
termination_by line.length
decreasing_by
  · have := Text.length_trim_le (c :: rest).dropLast
    simp only [List.length_dropLast, List.length_cons] at this ⊢
    omega
  · have := Text.length_trim_le rest
    simp only [List.length_cons]
    omega

/-- The name that a line gives. -/
def lineNaming? (m : Weave) (raw : List Char) : Option Naming :=
  let (code, _) := splitComment raw
  match included? code with
  | some _ => none
  | none => m.codeNaming? code

/-- A name that is given in a line of a file. -/
structure Declaration extends Naming where
  /-- The file. -/
  file : String
  /-- The line, counted from one. -/
  line : Nat
deriving DecidableEq

/-- The names that lines of a file give. The lines are counted from the one behind `line`. -/
def declarations (file : String) (m : Weave) (line : Nat) : List (List Char) → List Declaration
  | [] => []
  | raw :: rest =>
    ((m.lineNaming? raw).map (⟨·, file, line + 1⟩)).toList ++
      declarations file (m.readLine raw) (line + 1) rest

end Weave

namespace Draft

open Weave

/-! ## Steps that say where ids come from -/

variable {named : Option Naming} {first : NodeId} {d₀ d d' : Draft} {α β : Type}

/-- The ids that a node under `parent` may get: the next positional id there, or the full id of the
name that the line gives, as long as the line has not made a node. Its first node is to have the
position `first`. -/
def Offers (named : Option Naming) (first : NodeId) (d : Draft) (parent : Option NodeId)
    (id : String) : Prop :=
  (∃ p < d.content.size, parent = some p ∧ id = (d.content.node p).nextChildId) ∨
    ∃ name, named = some ⟨parent, name⟩ ∧ (∀ p ∈ parent, p < d.content.size) ∧
      d.content.size = first ∧ id = d.content.fullId parent name

/-- How a node that is added to the draft `d` is made. -/
structure Coined (named : Option Naming) (first : NodeId) (d : Draft) (n : Node) : Prop where
  /-- It is from the file being read. -/
  file : n.file = d.file
  /-- It is from the line being read. -/
  line : n.line = d.line
  /-- It has one of the ids that it may get. -/
  id : d.Offers named first n.parent n.id

/-- A step of reading, with what it adds and where the source starts behind it: the first knot is
the start, and a knot takes the place of a start under which nothing hangs. -/
structure Step (named : Option Naming) (first : NodeId) (d d' : Draft) : Prop where
  /-- It is a step of reading. -/
  grow : d.Grow d'
  /-- It stays in the line. -/
  place : d'.file = d.file ∧ d'.line = d.line
  /-- The node that it adds. -/
  coined : d.content.size < d'.content.size →
    d.Coined named first (d'.content.node d.content.size)
  /-- The knot that it adds may be the start. -/
  start : d'.start =
    if d.content.size < d'.content.size ∧ (d'.content.node d.content.size).isKnot = true ∧
        d.start.all (fun s => (d'.content.node s).children.isEmpty) = true then
      some d.content.size
    else d.start

/-- A chain of steps of one line. -/
def Steps (named : Option Naming) (first : NodeId) : Draft → Draft → Prop :=
  ReflTransGen (Step named first)

/-- Steps keep a draft well grown. -/
theorem Steps.grown (h : Steps named first d d') (hd : d.Grown) : d'.Grown := by
  induction h with
  | refl => exact hd
  | tail _ hstep ih => exact ih.grow hstep.grow

/-- Steps stay in the line of the file. -/
theorem Steps.place (h : Steps named first d d') : d'.file = d.file ∧ d'.line = d.line := by
  induction h with
  | refl => exact ⟨rfl, rfl⟩
  | tail _ hstep ih => exact ⟨hstep.place.1.trans ih.1, hstep.place.2.trans ih.2⟩

/-- A step that adds no node. -/
theorem Step.still (hgrow : d.Grow d') (hplace : d'.file = d.file ∧ d'.line = d.line)
    (hsize : d'.content.size = d.content.size) (hstart : d'.start = d.start) :
    Step named first d d' where
  grow := hgrow
  place := hplace
  coined hlt := absurd hlt (by omega)
  start := by
    rw [hstart, if_neg]
    rintro ⟨hlt, -⟩
    omega

/-- A step that hangs a node. -/
theorem Step.hung {p : NodeId} {n : Node} (hgrow : d.Grow d')
    (hplace : d'.file = d.file ∧ d'.line = d.line) (hp : p < d.content.size)
    (hhang : d.content.hang? p n = some d'.content) (hfile : n.file = d.file)
    (hline : n.line = d.line) (hknot : n.isKnot = false)
    (hid : d.Offers named first (some p) n.id) (hstart : d'.start = d.start) :
    Step named first d d' := by
  have hnode : d'.content.node d.content.size = { n with parent := some p } := by
    rw [Content.node_of_hang? hhang hp, if_pos rfl]
  refine ⟨hgrow, hplace, fun _ => ?_, ?_⟩
  · rw [hnode]
    exact ⟨hfile, hline, hid⟩
  · rw [hstart, if_neg]
    rintro ⟨-, hnew, -⟩
    rw [hnode] at hnew
    exact Bool.false_ne_true (hknot.symm.trans hnew)

/-- A step that adds a section that hangs nowhere. -/
theorem Step.root {n : Node} {c : Content} (hclosed : d.blocks = []) (hbare : n.Bare)
    (htop : n.isTop = true) (hinsert : d.content.insert? n = some c) (hfile : n.file = d.file)
    (hline : n.line = d.line) (hid : d.Offers named first none n.id) :
    Step named first d { d with
      content := c, current := some d.content.size
      start :=
        if n.isKnot && d.start.all (fun s => (c.node s).children.isEmpty) then some d.content.size
        else d.start } := by
  have hnode : c.node d.content.size = n := by rw [Content.node_of_insert? hinsert, if_pos rfl]
  have hlt : d.content.size < c.size := by rw [Content.size_of_insert? hinsert]; omega
  refine ⟨.root hclosed hbare htop hinsert ?_, ⟨rfl, rfl⟩, fun _ => ?_, ?_⟩
  · split
    · next h => exact .inr ⟨rfl, (Bool.and_eq_true_iff.1 h).1⟩
    · exact .inl rfl
  · dsimp only
    rw [hnode]
    exact ⟨hfile, hline, hbare.parent ▸ hid⟩
  · simp only [hnode, hlt, true_and, Bool.and_eq_true]

/-- Wherever a reader that goes on from `d` ends, steps lead there from `d₀`. When it finds no fault
its result satisfies `Q`, and an id that is refused is one that a node could have got. -/
def Takes (named : Option Naming) (first : NodeId) (d₀ : Draft) (b : Build α) (d : Draft)
    (Q : α → Draft → Prop) : Prop :=
  ∀ r d', b d = (r, d') → Steps named first d₀ d' ∧ (∀ a, r = .ok a → Q a d') ∧
    ∀ id, r = .error (.duplicateId id) →
      (d'.content.find? id).isSome = true ∧ ∃ parent, d'.Offers named first parent id

section Rules

variable {Q : α → Draft → Prop} {R : β → Draft → Prop}

/-- A computation that changes nothing takes the steps taken before. -/
theorem takes_pure {a : α} (hd : Steps named first d₀ d) (h : Q a d) :
    Takes named first d₀ (pure a : Build α) d Q := by
  intro r d' hrun
  cases hrun
  refine ⟨hd, ?_, nofun⟩
  rintro b ⟨⟩
  exact h

/-- A fault other than a repeated id ends the steps. -/
theorem takes_throw (hd : Steps named first d₀ d) {e : SourceFault}
    (he : ∀ id, e ≠ .duplicateId id) : Takes named first d₀ (throw e : Build α) d Q := by
  intro r d' hrun
  cases hrun
  exact ⟨hd, nofun, fun id heq => absurd (Except.error.inj heq) (he id)⟩

/-- A result that is no repeated id takes no step. -/
theorem takes_result_bind {r : Except SourceFault β} {k : β → Build α}
    (hd : Steps named first d₀ d) (he : ∀ id, r ≠ .error (.duplicateId id))
    (hk : ∀ b, r = .ok b → Takes named first d₀ (k b) d Q) :
    Takes named first d₀ (result r >>= k) d Q := by
  cases r with
  | error e => exact takes_throw hd fun id heq => he id (congrArg _ heq)
  | ok b => exact hk b rfl

/-- Reading the draft takes no step. -/
theorem takes_get {k : Draft → Build α} (h : Takes named first d₀ (k d) d Q) :
    Takes named first d₀ (get >>= k) d Q := h

/-- A change takes the steps that lead to what it leaves. -/
theorem takes_modify {Q : Unit → Draft → Prop} {f : Draft → Draft}
    (hd : Steps named first d₀ (f d)) (h : Q () (f d)) :
    Takes named first d₀ (modify f : Build Unit) d Q := by
  intro r d' hrun
  cases hrun
  exact ⟨hd, fun _ _ => h, nofun⟩

/-- A change may be taken together with what follows it. -/
theorem takes_modify_bind {f : Draft → Draft} {k : Unit → Build α}
    (h : Takes named first d₀ (k ()) (f d) Q) : Takes named first d₀ (modify f >>= k) d Q := h

/-- Steps that were taken before count, too. -/
theorem Takes.after {b : Build α} (hd : Steps named first d₀ d)
    (h : Takes named first d b d Q) : Takes named first d₀ b d Q := by
  intro r d' hrun
  obtain ⟨hsteps, hresult⟩ := h r d' hrun
  exact ⟨hd.trans hsteps, hresult⟩

/-- The steps of two computations follow each other. -/
theorem Takes.bind {b : Build β} {f : β → Build α} (hb : Takes named first d₀ b d R)
    (hf : ∀ a d', Steps named first d₀ d' → R a d' → Takes named first d' (f a) d' Q) :
    Takes named first d₀ (b >>= f) d Q := by
  intro r d' hrun
  cases hfirst : b d with
  | mk r₁ d₁ =>
    obtain ⟨hsteps, hresult, hrefused⟩ := hb r₁ d₁ hfirst
    rw [Trial.bind_apply, hfirst] at hrun
    cases r₁ with
    | error e =>
      cases hrun
      refine ⟨hsteps, nofun, ?_⟩
      rintro id ⟨⟩
      exact hrefused id rfl
    | ok a => exact (hf a d₁ hsteps (hresult a rfl)).after hsteps r d' hrun

/-- A node is added unless its id is taken. -/
theorem takes_add_bind {n : Node} {parent : Option NodeId} {k : NodeId → Build α}
    (hid : d.Offers named first parent n.id)
    (h : ∀ c, d.content.insert? n = some c →
      Takes named first d (k d.content.size) { d with content := c } Q) :
    Takes named first d (add n >>= k) d Q := by
  intro r d' hrun
  rw [Trial.bind_apply, add_apply] at hrun
  cases hinsert : d.content.insert? n with
  | none =>
    rw [hinsert] at hrun
    cases hrun
    refine ⟨.refl, nofun, ?_⟩
    rintro id ⟨⟩
    refine ⟨?_, parent, hid⟩
    unfold Content.insert? at hinsert
    split at hinsert
    · assumption
    · cases hinsert
  | some c =>
    rw [hinsert] at hrun
    exact h c hinsert r d' hrun

/-- A node is hung under a node, with the level that it gets there. -/
theorem takes_hang_bind {p : NodeId} {n : Node} {k : NodeId → Build α}
    (hid : d.Offers named first (some p) n.id)
    (h : ∀ level c, d.content.hang? p { n with level } = some c →
      Takes named first d (k d.content.size) { d with content := c } Q) :
    Takes named first d (hang p n >>= k) d Q := by
  rw [hang, bind_assoc]
  refine takes_get ?_
  simp only [bind_assoc]
  refine takes_add_bind hid fun c hinsert => ?_
  have hhang := congrArg (Option.map (·.attach p d.content.size)) hinsert
  exact takes_modify_bind (h _ _ hhang)

end Rules

/-! ## Faults that refuse no id -/

section Faults

variable (id : String)

/-- A result that is no repeated id stays so when its value is changed. -/
theorem map_ne_duplicateId {r : Except SourceFault β} (f : β → α)
    (h : r ≠ .error (.duplicateId id)) : r.map f ≠ .error (.duplicateId id) := by
  cases r with
  | ok b => nofun
  | error e => exact fun heq => h (congrArg _ (Except.error.inj heq))

/-- Reading the header of a section finds no repeated id. -/
theorem header_ne_duplicateId (header : List Char) :
    SectionHeader.read header ≠ .error (.duplicateId id) := by
  unfold SectionHeader.read
  intro h
  split at h
  · cases h
  · split at h <;> cases h

/-- Reading the conditions of a choice finds none. -/
theorem guards_ne_duplicateId (label : Option (List Char)) (cs : List Char) :
    ChoiceLine.readGuards label cs ≠ .error (.duplicateId id) := by
  fun_induction ChoiceLine.readGuards label cs with
  | case3 _ _ _ _ _ _ _ ih => exact ih
  | case5 _ _ _ _ _ _ ih => exact map_ne_duplicateId id _ ih
  | _ => nofun

/-- Reading a choice finds none. -/
theorem choice_ne_duplicateId (cs : List Char) :
    ChoiceLine.read cs ≠ .error (.duplicateId id) :=
  map_ne_duplicateId id _ (guards_ne_duplicateId id none cs)

/-- Reading the label of a gather finds none. -/
theorem gather_ne_duplicateId (cs : List Char) :
    readGatherLabel cs ≠ .error (.duplicateId id) := by
  unfold readGatherLabel
  intro h
  split at h
  · split at h <;> cases h
  · cases h

/-- Reading a statement finds none. -/
theorem statement_ne_duplicateId (line : List Char) :
    (Statement.ofLine line).mapError SourceFault.statement ≠ .error (.duplicateId id) := by
  cases Statement.ofLine line <;> nofun

/-- Reading the header of a block finds none. -/
theorem block_ne_duplicateId (header : List Char) :
    readBlockHeader header ≠ .error (.duplicateId id) := by
  unfold readBlockHeader
  intro h
  split at h
  · cases h
  · split at h
    · dsimp only at h
      split at h <;> cases h
    · cases h

/-- Reading the conditions of a comment finds none. -/
theorem conditions_ne_duplicateId (cs : List Char) :
    Remark.readConditions cs ≠ .error (.duplicateId id) := by
  fun_induction Remark.readConditions cs with
  | case2 _ _ _ _ ih => exact map_ne_duplicateId id _ ih
  | _ => nofun

/-- Reading a comment finds none. -/
theorem remark_ne_duplicateId (comment : List Char) :
    Remark.read comment ≠ .error (.duplicateId id) := by
  have hcomment (once : Bool) (cs : List Char) :
      Remark.readComment once cs ≠ .error (.duplicateId id) :=
    map_ne_duplicateId id _ (conditions_ne_duplicateId id (Text.trim cs))
  unfold Remark.read
  split
  · nofun
  · exact hcomment _ _
  · exact hcomment _ _
  · nofun

end Faults

/-! ## Readers -/

section Readers

variable (hd : d.Grown)

include hd

/-- A node inside which nothing is read is hung under the current container. -/
theorem takes_leaf {p : NodeId} {kind : NodeKind} (text : List Char) (hp : d.current = some p)
    (hkind : ∀ n : Node, n.kind = kind → n.isContainer = false) :
    Takes named first d (hangNext p kind text) d fun _ d' => d'.current = some p := by
  have hlt := hd.sound.current hp
  unfold hangNext
  refine takes_get ?_
  rw [← bind_pure (hang p _)]
  refine takes_hang_bind (.inl ⟨p, hlt, rfl, rfl⟩) fun level c hhang => ?_
  have hbare := bare_leaf d (d.content.node p).nextChildId text hkind
  have hgrow : d.Grow { d with content := c } :=
    .leaf hp (hbare.withLevel level) (hkind _ rfl) hhang
  have hknot : (d.fresh (d.content.node p).nextChildId kind text).isKnot = false :=
    (Bool.or_eq_false_iff.1 (isTop_of_leaf (hkind _ rfl))).1
  refine takes_pure (.single ?_) hp
  exact .hung hgrow ⟨rfl, rfl⟩ hlt hhang rfl rfl hknot (.inl ⟨p, hlt, rfl, rfl⟩) rfl

/-- Lines of text are hung under the current container. -/
theorem takes_addText {p : NodeId} (text : List Char) (hp : d.current = some p) :
    Takes named first d (addText p text) d trivially := by
  unfold addText
  induction textParts text generalizing d with
  | nil => exact takes_pure .refl trivial
  | cons part parts ih =>
    refine Takes.bind (R := fun _ d' => d'.current = some p) ?_
      fun _ d' hsteps hd' => ih (hsteps.grown hd) hd'
    refine Takes.bind (takes_leaf hd part hp fun n hn => ?_)
      fun _ _ _ hd' => takes_pure .refl hd'
    rw [Node.isContainer, hn]

/-- The text behind a choice or a gather is read into it. -/
theorem takes_body {p : NodeId} (text : List Char) (hp : d.current = some p) :
    Takes named first d (do unless text.isEmpty do addText p text) d trivially := by
  split
  · exact takes_pure .refl trivial
  · exact takes_addText hd text hp

omit hd

/-- Checking that every block is closed leaves the draft as it is. -/
theorem takes_checkClosed (d : Draft) :
    Takes named first d checkClosed d fun _ d' => d = d' ∧ d.blocks = [] := by
  refine takes_get ?_
  split
  · next hclosed => exact takes_pure .refl ⟨rfl, List.isEmpty_iff.1 hclosed⟩
  · exact takes_throw .refl nofun

/-- The header of a knot makes one node, of the name it gives. -/
theorem takes_readKnot {line : List Char} (hfirst : d.content.size = first)
    (hnamed : named = (knotName? line).map (⟨none, ·⟩)) :
    Takes named first d (readKnot line) d trivially := by
  refine Takes.bind (takes_checkClosed d) ?_
  rintro _ _ - ⟨rfl, hclosed⟩
  refine takes_result_bind .refl (fun id => header_ne_duplicateId id _) fun header hheader => ?_
  obtain ⟨name, params⟩ := header
  dsimp only
  split
  · exact takes_throw .refl nofun
  · have hid : d.Offers named first none (String.ofList name) := by
      refine .inr ⟨name, ?_, nofun, hfirst, rfl⟩
      rw [hnamed, knotName?, headerName?, hheader]
      rfl
    refine takes_get (takes_add_bind hid fun c hinsert => takes_modify (.single ?_) trivial)
    obtain ⟨hbare, htop, -⟩ := bare_header d _ params name false _ rfl
    have hstep := Step.root hclosed hbare htop hinsert rfl rfl hid
    cases hfunction : Text.after? "function ".toList (SectionHeader.body line) <;>
      rw [hfunction] at hstep <;> exact hstep

variable {base : NodeId} {m : Weave} (h : Follows base m d) (hfirst : d.content.size = first)

include h hfirst

/-- The header of a stitch makes one node, of the name it gives. -/
theorem takes_readStitch {line : List Char}
    (hnamed : named = do return ⟨some (← m.knot), ← headerName? (SectionHeader.body line)⟩) :
    Takes named first d (readStitch line) d trivially := by
  refine Takes.bind (takes_checkClosed d) ?_
  rintro _ _ - ⟨rfl, hclosed⟩
  refine takes_result_bind .refl (fun id => header_ne_duplicateId id _) fun header hheader =>
    takes_get ?_
  dsimp only
  split
  · exact takes_throw .refl nofun
  · next knot hknot =>
    have hid : d.Offers named first (some knot)
        ((d.content.node knot).id ++ "." ++ String.ofList header.name) := by
      have hlt := h.grown.sound.lt_of_nearest? hknot
      refine .inr ⟨header.name, ?_, by simpa using hlt, hfirst, rfl⟩
      rw [hnamed, h.knot_eq hknot hclosed, headerName?, hheader]
      rfl
    have hbare := bare_fresh d ((d.content.node knot).id ++ "." ++ String.ofList header.name)
      (.stitch header.params) header.name (by simp)
    refine takes_hang_bind hid fun level c hhang => takes_modify (.single ?_) trivial
    refine .hung ?_ ⟨rfl, rfl⟩ (h.grown.sound.lt_of_nearest? hknot) hhang rfl rfl rfl hid rfl
    exact .branch hknot (.inl hclosed) ((hbare.withLevel 1).withLevel level) rfl hhang

/-- A choice or gather gets the id of its label, or else a positional one. -/
theorem offers_labelledId {p : NodeId} {level : Nat} {label : Option (List Char)}
    (hp : d.weaveParent? level = some p) (hnamed : named = m.labelNaming? level label) :
    d.Offers named first (some p) (labelledId (d.content.node p) label) := by
  have hlt := h.grown.sound.lt_of_nearest? hp
  obtain ⟨s, outer, hscopes, rfl⟩ := h.exists_closing hp
  cases label with
  | none => exact .inl ⟨_, hlt, rfl, rfl⟩
  | some name =>
    refine .inr ⟨name, ?_, by simpa using hlt, hfirst, rfl⟩
    rw [hnamed, labelNaming?, hscopes]
    rfl

/-- A choice makes its nodes, the first of the name it gives. -/
theorem takes_readChoice {marker : Char} {line : List Char}
    (hnamed : named = m.choiceNaming? marker line) :
    Takes named first d (readChoice marker line) d trivially := by
  unfold readChoice
  refine takes_get ?_
  dsimp only
  split
  · exact takes_throw .refl nofun
  · next parent hparent =>
    refine takes_result_bind .refl (fun id => choice_ne_duplicateId id _) fun c hc =>
      takes_get ?_
    have hlabel : named = m.labelNaming? (1 + (stripMarkers marker line).1) c.label := by
      rw [hnamed, choiceNaming?]
      dsimp only
      rw [hc]
      rfl
    have hid := offers_labelledId h hfirst hparent hlabel
    refine takes_hang_bind hid fun level content hhang => takes_modify_bind ?_
    have hgrow : d.Grow { d with content, current := some d.content.size } :=
      .branch hparent (.inr (acceptsLevel_of_isBlock _)) ((bare_choiceNode ..).withLevel level) rfl
        hhang
    refine Takes.after (.single ?_) (takes_body (h.grown.grow hgrow) c.body rfl)
    exact .hung hgrow ⟨rfl, rfl⟩ (h.grown.sound.lt_of_nearest? hparent) hhang rfl rfl rfl hid rfl

/-- A gather makes its nodes, the first of the name it gives. -/
theorem takes_readGather {line : List Char} (hnamed : named = m.gatherNaming? line) :
    Takes named first d (readGather line) d trivially := by
  unfold readGather
  refine takes_get ?_
  dsimp only
  split
  · exact takes_throw .refl nofun
  · next parent hparent =>
    refine takes_result_bind .refl (fun id => gather_ne_duplicateId id _) fun label hread =>
      takes_get ?_
    have hlabel : named = m.labelNaming? (1 + (stripMarkers '-' line).1) label.1 := by
      rw [hnamed, gatherNaming?]
      dsimp only
      rw [hread]
      rfl
    have hid := offers_labelledId h hfirst hparent hlabel
    have hbare := bare_fresh d (labelledId (d.content.node parent) label.1) .gather [] (by simp)
    refine takes_hang_bind hid fun level content hhang => takes_modify_bind ?_
    have hgrow : d.Grow { d with content, current := some d.content.size } :=
      .branch hparent (.inr (acceptsLevel_of_isBlock _)) ((hbare.withLevel _).withLevel level) rfl
        hhang
    refine Takes.after (.single ?_) (takes_body (h.grown.grow hgrow) label.2 rfl)
    exact .hung hgrow ⟨rfl, rfl⟩ (h.grown.sound.lt_of_nearest? hparent) hhang rfl rfl rfl hid rfl

omit h hfirst

/-- A statement makes a node without a name. -/
theorem takes_readStatement (hd : d.Grown) (line : List Char) :
    Takes named first d (readStatement line) d trivially := by
  unfold readStatement
  refine takes_get ?_
  split
  · exact takes_throw .refl nofun
  · next parent hparent =>
    refine takes_result_bind .refl (fun id => statement_ne_duplicateId id _) fun st _ => ?_
    refine Takes.bind (takes_leaf hd _ hparent fun n hn => ?_)
      fun _ _ _ _ => takes_pure .refl trivial
    rw [Node.isContainer, hn]

/-- Opening a block makes a node without a name. -/
theorem takes_openBlock (hd : d.Grown) (header : List Char) :
    Takes named first d (openBlock header) d trivially := by
  unfold openBlock
  refine takes_get ?_
  dsimp only
  split
  · exact takes_throw .refl nofun
  · next parent hparent =>
    refine takes_result_bind .refl (fun id => block_ne_duplicateId id _) fun r hr => ?_
    have hlt := hd.sound.current hparent
    have hbare := bare_fresh d (d.content.node parent).nextChildId (.block r.1 r.2) []
      fun mode options hblock => by
        cases hblock
        exact lines_eq_nil_of_readBlockHeader hr
    have hid : d.Offers named first (some parent) (d.content.node parent).nextChildId :=
      .inl ⟨parent, hlt, rfl, rfl⟩
    rw [hangNext, bind_assoc]
    refine takes_get (takes_hang_bind hid fun level content hhang =>
      takes_modify (.single ?_) trivial)
    exact .hung (.opening hparent (hbare.withLevel level) rfl hhang) ⟨rfl, rfl⟩ hlt hhang
      rfl rfl rfl hid rfl

/-- An option that begins adds no node. -/
theorem takes_startOption (h : Follows base m d) {block : NodeId} {blocks : List NodeId}
    (mode : BlockMode) (body : List Char) (hblocks : d.blocks = block :: blocks) :
    Takes named first d (startOption block mode body) d fun _ d' =>
      Follows base (m.enter .option) d' ∧ d'.content.size = d.content.size := by
  have hsize := Content.size_modify d.content block
    (·.addOption (if mode = .conditional then optionGuard body else none))
  exact takes_modify (.single (.still (.option _ hblocks) ⟨rfl, rfl⟩ hsize rfl))
    ⟨h.option hblocks _, hsize⟩

/-- Closing a block makes no node. -/
theorem takes_closeBlock (d : Draft) : Takes named first d closeBlock d trivially := by
  refine takes_modify ?_ trivial
  split
  · exact .refl
  · next block blocks hblocks => exact .single (.still (.close hblocks) ⟨rfl, rfl⟩ rfl rfl)

/-- A line outside of the blocks makes nodes, the first of the name it gives. -/
theorem takes_readPlain (h : Follows base m d) (hfirst : d.content.size = first)
    {line : List Char} (hnamed : named = m.plainNaming? line) :
    Takes named first d (readPlain line) d trivially := by
  unfold readPlain
  split
  · exact takes_readKnot hfirst hnamed
  · next tail hne =>
    rw [plainNaming?.eq_2 m tail hne] at hnamed
    exact takes_readStitch h hfirst hnamed
  · exact takes_readChoice h hfirst hnamed
  · exact takes_readChoice h hfirst hnamed
  · next hknot hstitch hchoice hsticky =>
    rw [plainNaming?.eq_5 m line hknot hstitch hchoice hsticky] at hnamed
    split
    · next hgather =>
      rw [if_pos hgather] at hnamed
      exact takes_readGather h hfirst hnamed
    · split
      · exact takes_openBlock h.grown _
      · split
        · exact takes_readStatement h.grown _
        · refine takes_get ?_
          split
          · exact takes_pure .refl trivial
          · next parent hparent => exact takes_addText h.grown _ hparent

/-- The name of a line is that of what stands in front of the brace that closes a block, or behind
the hyphen that begins an option. -/
theorem takes_readCode (h : Follows base m d) (hfirst : d.content.size = first)
    {line : List Char} (hnamed : named = m.codeNaming? line) :
    Takes named first d (readCode line) d trivially := by
  induction line using readCode.induct generalizing m d with
  | case1 =>
    rw [readCode]
    exact takes_pure .refl trivial
  | case2 c rest ihclosing ihbody =>
    rw [readCode]
    refine takes_get ?_
    have hmode := h.mode?_eq
    cases hblocks : d.blocks with
    | nil =>
      rw [hblocks, List.head?_nil, Option.map_none] at hmode
      rw [codeNaming?, hmode] at hnamed
      exact takes_readPlain h hfirst hnamed
    | cons block blocks =>
      rw [hblocks, List.head?_cons, Option.map_some] at hmode
      rw [codeNaming?, hmode] at hnamed
      dsimp only at hnamed ⊢
      split
      · next hcloses =>
        rw [if_pos hcloses] at hnamed
        exact Takes.bind (ihclosing h hfirst hnamed) fun _ d₁ _ _ => takes_closeBlock d₁
      · next hcloses =>
        rw [if_neg hcloses] at hnamed
        split
        · next hbegins =>
          rw [if_pos hbegins] at hnamed
          refine Takes.bind (takes_startOption h _ _ hblocks) fun _ d₁ _ hd₁ => ?_
          split
          · exact takes_pure .refl trivial
          · next hsequence =>
            rw [if_neg hsequence] at hnamed
            exact ihbody hd₁.1 (hd₁.2.trans hfirst) hnamed
        · next hbegins =>
          rw [if_neg hbegins] at hnamed
          exact takes_readPlain h hfirst hnamed

/-- A comment makes a node without a name. -/
theorem takes_readComment (hd : d.Grown) (comment : List Char) :
    Takes named first d (readComment comment) d trivially := by
  unfold readComment
  refine takes_get ?_
  split
  · exact takes_pure .refl trivial
  · next parent hparent =>
    refine takes_result_bind .refl (fun id => remark_ne_duplicateId id _) fun r _ => ?_
    split
    · refine takes_modify (.single (.still (.background _ hparent) ⟨rfl, rfl⟩ ?_ rfl)) trivial
      exact Content.size_modify ..
    · refine Takes.bind (takes_leaf hd _ hparent fun n hn => ?_)
        fun _ _ _ _ => takes_pure .refl trivial
      rw [Node.isContainer, hn]
    · exact takes_pure .refl trivial

/-- A line is read by steps in which it gives at most one name. -/
theorem takes_readLine (h : Follows base m d) (raw : List Char) :
    Takes (m.lineNaming? raw) d.content.size d (readLine raw) d trivially := by
  unfold readLine lineNaming?
  obtain ⟨code, comment⟩ := splitComment raw
  dsimp only
  cases included? code with
  | some file => exact takes_modify (.single (.still (.note _ _) ⟨rfl, rfl⟩ rfl rfl)) trivial
  | none =>
    refine Takes.bind (takes_readCode h rfl rfl) fun _ d₁ hsteps _ => ?_
    cases comment with
    | none => exact takes_pure .refl trivial
    | some comment => exact takes_readComment (hsteps.grown h.grown) comment

end Readers

end Draft

end Narrative
