import Mathlib.Logic.Relation
import Narrative.Proofs.Content.Tree
import Narrative.Proofs.Story.Discipline

/-!
# What expressions do to the memory

Statements and functions change the memory in few ways. None of them takes a visit back, none visits
a choice, and the option of a block is chosen anew only in the body of a function.
-/

namespace Narrative

open Relation

namespace Memory

/-- A change of the memory that statements and functions make. -/
inductive Change (c : Content) (m : Memory) : Memory → Prop
  | assign (s : Stage) (name : String) (v : Value) : s.content = c → Change c m (s.assign m name v)
  | visit {i : NodeId} : (c.node i).kind = .text → Change c m (m.visit i)
  | select {i : NodeId} (selection : Nat) :
      (c.node i).isBlock = true → c.Called i → Change c m ((m.select i selection).visit i)
  | bind {i : NodeId} {args : List Value} :
      (c.node i).isFunction = true → (c.node i).params.length = args.length →
      Change c m ((m.bind i (c.node i).params args).visit i)
  | roll (source : RandomSource) (bound : Nat) :
      Change c m { m with dice := (m.dice.roll source bound).2 }

/-- What a chain of changes makes of the memory. -/
def Changes (c : Content) : Memory → Memory → Prop :=
  ReflTransGen (Change c)

/-- The computations that change the memory in these ways only. -/
def changing (c : Content) : Discipline Memory where
  Allows x := ∀ m a m', x m = some (a, m') → Changes c m m'
  pure := by
    intro α a m b m' h
    cases h
    exact .refl
  bind := by
    intro α β x f hx hf m b m' h
    obtain ⟨a, u, hfirst, hrest⟩ := Run.bind_eq_some.1 h
    exact (hx m a u hfirst).trans (hf a u b m' hrest)

/-- A change in one of the ways is allowed for. -/
theorem changing_modify {c : Content} {f : Memory → Memory} (h : ∀ m, Change c m (f m)) :
    (changing c).Allows (modify f) := by
  intro m a m' hrun
  cases hrun
  exact .single (h m)

/-- Statements and functions change the memory in these ways only. -/
theorem changing_governs (c : Content) : (changing c).Governs c where
  names := by
    intro s _ m a m' h
    cases h
    exact .refl
  value := by
    intro s name _ m a m' h
    cases h
    exact .refl
  address := by
    intro s address _ m a m' h
    cases h
    exact .refl
  count := by
    intro i m a m' h
    cases h
    exact .refl
  children := by
    intro i m a m' h
    cases h
    exact .refl
  draw := by
    intro source bound m a m' h
    cases h
    exact .single (.roll source bound)
  assign s name v hs := changing_modify fun m => .assign s name v hs
  visit i hi := changing_modify fun m => .visit hi
  select i selection hi hcalled := changing_modify fun m => .select selection hi hcalled
  bind i args hi hlength := changing_modify fun m => .bind hi hlength
  unfinished := by
    intro α m a m' h
    cases h

/-- What is changed right before a node is entered: the option of a block, or the parameters of a
section. -/
inductive Readies (c : Content) (i : NodeId) (m : Memory) : Memory → Prop
  | plain : (c.node i).isBlock = false → Readies c i m m
  | option (selection : Nat) : (c.node i).isBlock = true → Readies c i m (m.select i selection)
  | params {args : List Value} :
      (c.node i).isSection = true → (c.node i).params.length = args.length →
      Readies c i m (m.bind i (c.node i).params args)

section Frames

variable {c : Content} {m m' : Memory}

/-- A visit counts at one node only. -/
theorem mark_visit (m : Memory) (i j : NodeId) :
    (m.visit i).mark j =
      if i = j then { m.mark i with visits := (m.mark i).visits + 1 } else m.mark j :=
  mark_modifyMark ..

/-- A visit changes what no node goes through. -/
theorem children_visit (m : Memory) (c : Content) (i j : NodeId) :
    (m.visit i).children c j = m.children c j := by
  unfold children
  rw [mark_visit]
  split
  · next hij => rw [hij]
  · rfl

/-- Choosing an option changes what the block goes through only. -/
theorem children_select {i j : NodeId} (hij : i ≠ j) (m : Memory) (c : Content)
    (selection : Nat) : (m.select i selection).children c j = m.children c j := by
  rw [children, select, mark_modifyMark, if_neg hij]
  rfl

/-- Arguments leave what is played inside a node. -/
theorem children_bind (m : Memory) (c : Content) (i j : NodeId) (params : List String)
    (args : List Value) : (m.bind i params args).children c j = m.children c j := by
  unfold children Memory.bind
  rw [mark_modifyMark]
  split
  · next hij => rw [hij]
  · rfl

/-- Storing a variable changes parameters and global variables only. -/
theorem mark_assign (s : Stage) (m : Memory) (name : String) (v : Value) (i : NodeId) :
    ((s.assign m name v).mark i).visits = (m.mark i).visits ∧
      ((s.assign m name v).mark i).selection = (m.mark i).selection := by
  unfold Stage.assign
  split
  · rw [mark_modifyMark]
    split
    · next hij => exact ⟨congrArg (fun j => (m.mark j).visits) hij,
        congrArg (fun j => (m.mark j).selection) hij⟩
    · exact ⟨rfl, rfl⟩
  · exact ⟨rfl, rfl⟩

/-- No mark is on the dice. -/
theorem mark_withDice (m : Memory) (d : Dice) (i : NodeId) :
    Memory.mark { m with dice := d } i = m.mark i := rfl

/-- Outside of called nodes play goes through the same nodes as before. -/
theorem Change.children_eq (h : Change c m m') {i : NodeId} (hi : ¬ c.Called i) :
    m'.children c i = m.children c i := by
  cases h with
  | assign s name v hs => rw [children, (mark_assign s m name v i).2, ← children]
  | visit hkind => exact children_visit ..
  | @select j selection hblock hcalled =>
    have hne : j ≠ i := by
      rintro rfl
      exact hi hcalled
    rw [children_visit, children_select hne]
  | bind hfunction hlength => rw [children_visit, children_bind]
  | roll source bound => rw [children, mark_withDice, ← children]

/-- A visit is never taken back. -/
theorem visits_le_visit (m : Memory) (i j : NodeId) :
    (m.mark i).visits ≤ ((m.visit j).mark i).visits := by
  rw [mark_visit]
  split
  · next hij =>
    rw [hij]
    exact Nat.le_succ _
  · exact Nat.le_refl _

/-- A node that is visited has been visited. -/
theorem visits_visit_pos (m : Memory) (i : NodeId) : 0 < ((m.visit i).mark i).visits := by
  rw [mark_visit, if_pos rfl]
  exact Nat.succ_pos _

/-- No visit is taken back. -/
theorem Change.visits_le (h : Change c m m') (i : NodeId) :
    (m.mark i).visits ≤ (m'.mark i).visits := by
  cases h with
  | assign s name v hs => exact Nat.le_of_eq (mark_assign s m name v i).1.symm
  | visit hkind => exact visits_le_visit m _ _
  | @select j selection hblock hcalled =>
    refine Nat.le_trans (Nat.le_of_eq ?_) (visits_le_visit _ _ _)
    rw [Memory.select, mark_modifyMark]
    split
    · next hij => rw [hij]
    · rfl
  | @bind j args hfunction hlength =>
    refine Nat.le_trans (Nat.le_of_eq ?_) (visits_le_visit _ _ _)
    rw [Memory.bind, mark_modifyMark]
    split
    · next hij => rw [hij]
    · rfl
  | roll source bound => exact Nat.le_of_eq (congrArg Mark.visits (mark_withDice m _ i).symm)

/-- No choice is visited. -/
theorem Change.visits_eq (h : Change c m m') {i : NodeId} (hi : (c.node i).isChoice = true) :
    (m'.mark i).visits = (m.mark i).visits := by
  have hvisit (m : Memory) {j : NodeId} (hj : j ≠ i) :
      ((m.visit j).mark i).visits = (m.mark i).visits := by
    rw [mark_visit, if_neg hj]
  unfold Node.isChoice at hi
  cases h with
  | assign s name v hs => exact (mark_assign s m name v i).1
  | visit hkind =>
    refine hvisit m ?_
    rintro rfl
    rw [hkind] at hi
    cases hi
  | @select j selection hblock hcalled =>
    obtain ⟨mode, options, hkind⟩ := Node.kind_of_isBlock hblock
    have hne : j ≠ i := by
      rintro rfl
      rw [hkind] at hi
      cases hi
    rw [hvisit _ hne, Memory.select, mark_modifyMark, if_neg hne]
  | @bind j args hfunction hlength =>
    have hne : j ≠ i := by
      rintro rfl
      unfold Node.isFunction at hfunction
      split at hi
      · next hkind => simp [hkind] at hfunction
      · cases hi
    rw [hvisit _ hne, Memory.bind, mark_modifyMark, if_neg hne]
  | roll source bound => rw [mark_withDice]

/-- What no call plays is left as it is. -/
theorem Changes.children_eq (h : Changes c m m') {i : NodeId} (hi : ¬ c.Called i) :
    m'.children c i = m.children c i := by
  induction h with
  | refl => rfl
  | tail _ hchange ih => exact (hchange.children_eq hi).trans ih

/-- No visit is taken back. -/
theorem Changes.visits_le (h : Changes c m m') (i : NodeId) :
    (m.mark i).visits ≤ (m'.mark i).visits := by
  induction h with
  | refl => exact Nat.le_refl _
  | tail _ hchange ih => exact Nat.le_trans ih (hchange.visits_le i)

/-- Choices are not visited. -/
theorem Changes.visits_eq (h : Changes c m m') {i : NodeId} (hi : (c.node i).isChoice = true) :
    (m'.mark i).visits = (m.mark i).visits := by
  induction h with
  | refl => rfl
  | tail _ hchange ih => exact (hchange.visits_eq hi).trans ih

/-- Readying a node changes what that node goes through only. -/
theorem Readies.children_eq {i j : NodeId} (h : Readies c i m m') (hij : i ≠ j) :
    m'.children c j = m.children c j := by
  cases h with
  | plain _ => rfl
  | option selection _ => exact children_select hij m c selection
  | params _ _ => exact children_bind ..

/-- Readying a node visits nothing. -/
theorem Readies.visits_eq {i : NodeId} (h : Readies c i m m') (j : NodeId) :
    (m'.mark j).visits = (m.mark j).visits := by
  cases h with
  | plain _ => rfl
  | option selection _ =>
    rw [Memory.select, mark_modifyMark]
    split
    · next hij => rw [hij]
    · rfl
  | params _ _ =>
    rw [Memory.bind, mark_modifyMark]
    split
    · next hij => rw [hij]
    · rfl

end Frames

end Memory

end Narrative
