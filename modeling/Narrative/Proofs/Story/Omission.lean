import Narrative.Proofs.Content.Omission
import Narrative.Story.Play

/-!
# Play without some of the comments

Expressions do not see whether a comment hangs in the story or not.
-/

namespace Narrative

variable {omitted : NodeId → Bool}

/-- Play goes through the same nodes but for the omitted ones. -/
theorem Memory.children_without (omitted : NodeId → Bool) (m : Memory) (c : Content) (i : NodeId) :
    m.children (c.without omitted) i = (m.children c i).filter (!omitted ·) := by
  rw [children, Content.node_without, Node.childrenAt_without, children]

/-! ## Expressions -/

namespace Stage

/-- The place in the content without the omitted nodes. -/
def without (omitted : NodeId → Bool) (s : Stage) : Stage :=
  { s with content := s.content.without omitted }

section Names

variable (omitted) (s : Stage)

/-- The stage keeps its host. -/
@[simp] theorem host_without : (s.without omitted).host = s.host := rfl

/-- The stage keeps its place. -/
@[simp] theorem here_without : (s.without omitted).here = s.here := rfl

/-- The content of the stage is the one without the omitted nodes. -/
@[simp] theorem content_without : (s.without omitted).content = s.content.without omitted := rfl

/-- The nodes above the place are the same. -/
@[simp] theorem lineage_without : (s.without omitted).lineage = s.lineage := by
  rw [lineage, lineage]
  simp only [here_without, content_without]
  exact congrArg (fun f => (s.here.map f).getD []) (funext (s.content.lineage_without omitted))

/-- The sections around the place are the same. -/
@[simp] theorem sections_without : (s.without omitted).sections = s.sections := by
  simp [sections]

/-- The nodes around the place are the same. -/
@[simp] theorem surroundings_without : (s.without omitted).surroundings = s.surroundings := by
  simp [surroundings]

/-- A name relative to a node leads to the same node. -/
@[simp] theorem under?_without (i : NodeId) (name : String) :
    (s.without omitted).under? i name = s.under? i name := by
  simp [under?]

/-- A name is bound at the same node. -/
@[simp] theorem binder?_without (m : Memory) (name : String) :
    (s.without omitted).binder? m name = s.binder? m name := by
  simp [binder?]

/-- A parameter has the same value. -/
@[simp] theorem parameter?_without (m : Memory) (name : String) :
    (s.without omitted).parameter? m name = s.parameter? m name := by
  simp [parameter?]

/-- A variable is stored at the same place. -/
@[simp] theorem assign_without (m : Memory) (name : String) (v : Value) :
    (s.without omitted).assign m name v = s.assign m name v := by
  simp [assign]

/-- The visits of the same nodes are counted. -/
@[simp] theorem isCounted_without : (s.without omitted).isCounted = s.isCounted := by
  funext i
  simp [isCounted]

/-- A name stands for the same number of visits. -/
@[simp] theorem countOf?_without (m : Memory) (name : String) :
    (s.without omitted).countOf? m name = s.countOf? m name := by
  simp [countOf?, counted?]

/-- The same names are variables. -/
@[simp] theorem hasVariable_without : (s.without omitted).hasVariable = s.hasVariable := by
  funext m name
  simp [hasVariable]

/-- A name has the same value. -/
@[simp] theorem valueOf_without (m : Memory) (name : String) :
    (s.without omitted).valueOf m name = s.valueOf m name := by
  simp [valueOf]

/-- A name leads to the same function. -/
@[simp] theorem function?_without (name : String) :
    (s.without omitted).function? name = s.function? name := by
  simp [function?]

/-- The same names are functions. -/
@[simp] theorem hasFunction_without : (s.without omitted).hasFunction = s.hasFunction := by
  funext name
  simp [hasFunction]

/-- The same nodes are targets. -/
@[simp] theorem isTarget_without : (s.without omitted).isTarget = s.isTarget := by
  funext i
  simp [isTarget]

/-- A divert leads to the same node. -/
@[simp] theorem target?_without (m : Memory) (name : String) :
    (s.without omitted).target? m name = s.target? m name := by
  simp [target?]

/-- A name has the same readings. -/
@[simp] theorem qualified_without (name : String) :
    (s.without omitted).qualified name = s.qualified name := by
  simp [qualified]

/-- An address gives the same reference. -/
@[simp] theorem address?_without (m : Memory) (address : String) :
    (s.without omitted).address? m address = s.address? m address := by
  simp [address?]

/-- Expressions see the same context. -/
theorem contextWith_without :
    (s.without omitted).contextWith = s.contextWith := by
  funext call
  simp [contextWith]

/-- References are taken alike. -/
@[simp] theorem refer_without : (s.without omitted).refer = s.refer := by
  funext declaration address line
  simp [refer]

/-- A statement has the same effect. -/
@[simp] theorem execute_without (ctx : Context Memory) (line : Nat) (t : Statement) :
    (s.without omitted).execute ctx line t = s.execute ctx line t := by
  cases t with
  | declare name init => cases init <;> simp [execute, initialValue]
  | assign name source => simp [execute, assignedValue]
  | eval source | result source => rfl

/-- Which option of a block is played does not depend on what is in the options. -/
theorem chooseOption_map_lines (ctx : Context Memory) (mode : BlockMode)
    (options : List BlockOption) (count : Nat) (f : BlockOption → List NodeId) :
    ctx.chooseOption mode (options.map fun o => { o with lines := f o }) count =
      ctx.chooseOption mode options count := by
  cases mode <;> simp [Context.chooseOption, Function.comp_def]

/-- The same option of a block is selected. -/
@[simp] theorem selectOption_without (ctx : Context Memory) (i : NodeId) :
    (s.without omitted).selectOption ctx i = s.selectOption ctx i := by
  rw [selectOption, selectOption, content_without, Content.node_without, Node.without]
  simp only
  cases (s.content.node i).kind with
  | block mode options => simp only [chooseOption_map_lines]
  | _ => rfl

end Names

section Bodies

variable {s : Stage}

/-- A line of a function has the same effect. -/
theorem playLine_without (ctx : Context Memory) (block : NodeId → Act (Option Value)) (i : NodeId) :
    (s.without omitted).playLine ctx block i = s.playLine ctx block i := by
  unfold playLine
  rw [content_without, Content.node_without, selectOption_without]
  cases hkind : (s.content.node i).kind with
  | block mode options => simp [Node.without, hkind]
  | _ => simp [Node.without, hkind]

/-- Several lines do as well. -/
theorem playLines_without (ctx : Context Memory) (block : NodeId → Act (Option Value))
    (is : List NodeId) :
    (s.without omitted).playLines ctx block is = s.playLines ctx block is := by
  induction is with
  | nil => rfl
  | cons i is ih => rw [playLines, playLines, playLine_without, ih]

/-- A comment in the body of a function is passed over. -/
theorem playLine_of_isComment {i : NodeId} (hi : (s.content.node i).isComment = true)
    (ctx : Context Memory) (block : NodeId → Act (Option Value)) :
    s.playLine ctx block i = pure none := by
  obtain ⟨once, conditions, hkind⟩ := Node.kind_of_isComment hi
  simp only [playLine, hkind]

variable (homitted : ∀ i, omitted i = true → (s.content.node i).isComment = true)

include homitted

/-- The omitted nodes among the lines of a function have no effect. -/
theorem playLines_filter (ctx : Context Memory) (block : NodeId → Act (Option Value))
    (is : List NodeId) :
    s.playLines ctx block (is.filter (!omitted ·)) = s.playLines ctx block is := by
  induction is with
  | nil => rfl
  | cons i is ih =>
    cases hi : omitted i with
    | true => rw [List.filter_cons_of_neg (by simp [hi]), playLines,
        playLine_of_isComment (homitted i hi), pure_bind, ih]
    | false => rw [List.filter_cons_of_pos (by simp [hi]), playLines, playLines, ih]

/-- The body of a function has the same effect. -/
theorem playBody_without (ctx : Context Memory) (nesting : Nat) (i : NodeId) :
    (s.without omitted).playBody ctx nesting i = s.playBody ctx nesting i := by
  induction nesting generalizing i with
  | zero => rfl
  | succ nesting ih =>
    rw [playBody, playBody, funext ih]
    simp only [content_without, Memory.children_without, playLines_without,
      playLines_filter homitted]

/-- A function gives the same value. -/
theorem callFunction_without (ctx : Context Memory) (f : NodeId) (args : List Value) :
    (s.without omitted).callFunction ctx f args = s.callFunction ctx f args := by
  simp only [callFunction, playBody_without homitted, content_without, Content.node_without,
    Content.size_without, Node.params_without, Node.id_without]

/-- Calls of functions do the same. -/
theorem call_without (depth : Nat) : call depth (s.without omitted) = call depth s := by
  induction depth generalizing s with
  | zero => rfl
  | succ depth ih =>
    funext name args
    rw [call, call, function?_without, ih homitted, contextWith_without]
    cases s.function? name with
    | none => rfl
    | some f =>
      have hinner : ({ s.without omitted with here := some f } : Stage) =
        ({ s with here := some f } : Stage).without omitted := rfl
      simp only [hinner]
      rw [ih (s := { s with here := some f }) homitted, contextWith_without,
        callFunction_without (s := { s with here := some f }) homitted]

/-- Expressions have the same values and do the same to the memory. -/
theorem context_without (depth : Nat) : (s.without omitted).context depth = s.context depth := by
  rw [context, context, call_without homitted, contextWith_without]

end Bodies

end Stage

/-! ## Positions -/

/-- Where a position in a list is when the omitted nodes are taken out of it. The position beyond
all stays. -/
def positionWithout (omitted : NodeId → Bool) (is : List NodeId) (position : Nat) : Nat :=
  if position < beyondAll then
    (is.take position).countP (!omitted ·) + (position - is.length)
  else position

section Positions

variable {is : List NodeId} {position : Nat}

/-- The first position is the first one also without them. -/
theorem positionWithout_zero (omitted : NodeId → Bool) (is : List NodeId) :
    positionWithout omitted is 0 = 0 := by
  simp [positionWithout]

/-- Where nothing is taken out, positions stay. -/
theorem positionWithout_of_forall (h : ∀ i ∈ is, omitted i = false) (position : Nat) :
    positionWithout omitted is position = position := by
  unfold positionWithout
  split
  · have hall : (is.take position).countP (!omitted ·) = (is.take position).length :=
      List.countP_eq_length.2 fun i hi => by simp [h i (List.mem_of_mem_take hi)]
    rw [hall, List.length_take]
    omega
  · rfl

variable (hbounded : is.length < beyondAll)

include hbounded

/-- What is left of the list from a position on. -/
theorem drop_positionWithout (position : Nat) :
    (is.filter (!omitted ·)).drop (positionWithout omitted is position) =
      (is.drop position).filter (!omitted ·) := by
  have hlength := List.length_filter_le (!omitted ·) is
  unfold positionWithout
  split
  · have hfilter : is.filter (!omitted ·) =
        (is.take position).filter (!omitted ·) ++ (is.drop position).filter (!omitted ·) := by
      rw [← List.filter_append, List.take_append_drop]
    have hexcess : ((is.drop position).filter (!omitted ·)).drop (position - is.length) =
        (is.drop position).filter (!omitted ·) := by
      rcases Nat.le_total position is.length with hle | hle
      · rw [Nat.sub_eq_zero_of_le hle, List.drop_zero]
      · rw [List.drop_eq_nil_of_le hle, List.filter_nil, List.drop_nil]
    rw [hfilter, List.countP_eq_length_filter, ← List.drop_drop, List.drop_left, hexcess]
  · next hbeyond =>
    rw [List.drop_eq_nil_of_le (by omega), List.drop_eq_nil_of_le (by omega), List.filter_nil]

/-- The next position is one further, unless the node in between is omitted. -/
theorem positionWithout_succ_eq {i : NodeId} (hi : is[position]? = some i) :
    positionWithout omitted is (position + 1) =
      positionWithout omitted is position + if omitted i then 0 else 1 := by
  obtain ⟨hlt, rfl⟩ := List.getElem?_eq_some_iff.1 hi
  rw [positionWithout, positionWithout, if_pos (by omega), if_pos (by omega),
    Nat.sub_eq_zero_of_le (by omega), Nat.sub_eq_zero_of_le (by omega), Nat.add_zero, Nat.add_zero,
    List.take_succ_eq_append_getElem hlt, List.countP_append, List.countP_singleton]
  cases omitted is[position] <;> rfl

/-- Behind a node that stays the position is one further. -/
theorem positionWithout_succ {i : NodeId} (hi : is[position]? = some i)
    (hkept : omitted i = false) :
    positionWithout omitted is (position + 1) = positionWithout omitted is position + 1 := by
  rw [positionWithout_succ_eq hbounded hi, hkept]
  rfl

/-- Behind a node that is omitted the position is the same. -/
theorem positionWithout_succ_of_omitted {i : NodeId} (hi : is[position]? = some i)
    (homitted : omitted i = true) :
    positionWithout omitted is (position + 1) = positionWithout omitted is position := by
  rw [positionWithout_succ_eq hbounded hi, homitted]
  rfl

/-- The position after a node that stays. -/
theorem positionWithout_positionAfter {i : NodeId} (hi : omitted i = false) :
    positionWithout omitted is (positionAfter is i) =
      positionAfter (is.filter (!omitted ·)) i := by
  by_cases hmem : i ∈ is
  · obtain ⟨before, after, rfl, hbefore⟩ := List.eq_append_cons_of_mem hmem
    have hfind {l : List NodeId} (hl : i ∉ l) (after : List NodeId) :
        positionAfter (l ++ i :: after) i = l.length + 1 := by
      unfold positionAfter
      rw [List.findIdx?_append, List.findIdx?_eq_none_iff.2 fun j hj => by
        simpa using ne_of_mem_of_not_mem hj hl]
      simp [List.findIdx?_cons]
    rw [hfind hbefore, List.filter_append, List.filter_cons_of_pos (by simp [hi]),
      hfind fun h => hbefore (List.mem_filter.1 h).1]
    have htake : (before ++ i :: after).take (before.length + 1) = before ++ [i] := by
      simp [List.take_append, List.take_of_length_le]
    rw [List.length_append, List.length_cons] at hbounded
    rw [positionWithout, if_pos (by omega), htake, List.length_append, List.length_cons,
      Nat.sub_eq_zero_of_le (by omega), Nat.add_zero, List.countP_append, List.countP_singleton, hi,
      List.countP_eq_length_filter]
    rfl
  · have hfind {l : List NodeId} (hl : i ∉ l) : positionAfter l i = beyondAll := by
      unfold positionAfter
      rw [List.findIdx?_eq_none_iff.2 fun j hj => by simpa using ne_of_mem_of_not_mem hj hl]
      rfl
    rw [hfind hmem, hfind fun h => hmem (List.mem_filter.1 h).1, positionWithout, if_neg (by omega)]

end Positions

end Narrative
