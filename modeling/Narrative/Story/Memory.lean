import Narrative.Content
import Narrative.Host

/-!
# Memory of a story

What expressions read and change while a story is played: the global variables, how often each
node was visited, the option chosen in each block, the parameters of each section, and the state
of the dice.
-/

namespace Narrative

/-- What is remembered about a node. -/
structure Mark where
  /-- How often the node was visited. -/
  visits : Nat := 0
  /-- The option chosen when a block was last entered; past the last option for none. -/
  selection : Nat := 0
  /-- The values of the parameters of a section. -/
  scope : NameMap Value := .empty
deriving DecidableEq, Inhabited

namespace Mark

/-- How many values a counter has: it is a word of 32 bits. -/
def counterRange : Nat := 4294967296

/-- The counter of the visits, which is all that is read of them. Behind its last value it starts
again at zero. -/
def count (k : Mark) : Nat :=
  k.visits % counterRange

/-- Marks with as many visits have the same count. -/
theorem count_congr {k l : Mark} (h : k.visits = l.visits) : k.count = l.count :=
  congrArg (· % counterRange) h

/-- Further visits are added to the count, up to its range. -/
theorem count_add {k l : Mark} {n : Nat} (h : l.visits = k.visits + n) :
    l.count = (k.count + n) % counterRange := by
  rw [count, count, h, Nat.mod_add_mod]

/-- The counter tells the visits until it starts again. -/
theorem count_eq_visits {k : Mark} (h : k.visits < counterRange) : k.count = k.visits :=
  Nat.mod_eq_of_lt h

end Mark

/-- Where no mark is listed, none is listed last. -/
theorem Mark.back?_empty_ne : (#[] : Array Mark).back? ≠ some {} := by
  rw [Array.back?_empty]
  nofun

/-- What is remembered about each node. Nodes that were never marked have the default mark, which is
not listed at the end, so that marks are equal when they say the same about every node. -/
structure Marks where
  /-- The marks of the first nodes. -/
  entries : Array Mark := #[]
  /-- The last node listed was marked. -/
  trimmed : entries.back? ≠ some {} := by exact Mark.back?_empty_ne
deriving DecidableEq

namespace Marks

instance : Inhabited Marks := ⟨{}⟩

/-- The mark of a node. -/
def get (m : Marks) (i : NodeId) : Mark :=
  m.entries.getD i {}

/-- What is left does not end in what was dropped. -/
theorem back?_popWhile {p : Mark → Bool} {entries : Array Mark} {k : Mark}
    (h : (entries.popWhile p).back? = some k) : p k = false := by
  fun_induction Array.popWhile p entries with
  | case1 entries _ _ ih => exact ih h
  | case2 entries hpos hp =>
    have hlast : entries.size - 1 < entries.size := Nat.sub_one_lt (Nat.ne_of_gt hpos)
    rw [Array.back?_eq_getElem?, Array.getElem?_eq_getElem hlast, Option.some.injEq] at h
    rw [← h]
    exact Bool.eq_false_iff.2 hp
  | case3 entries hpos => simp_all

/-- The marks in a listing, without the default marks at its end. -/
def ofArray (entries : Array Mark) : Marks where
  entries := entries.popWhile (· == {})
  trimmed := fun h => by simpa using back?_popWhile h

/-- The marks are those of the array. -/
theorem get_ofArray (entries : Array Mark) (i : Nat) :
    (ofArray entries).get i = entries.getD i {} := by
  simp only [get, ofArray]
  fun_induction Array.popWhile (· == ({} : Mark)) entries with
  | case1 entries hpos hp ih =>
    rw [ih, Array.getD_eq_getD_getElem?, Array.getD_eq_getD_getElem?, Array.getElem?_pop]
    split
    · rfl
    · next h =>
      rcases Nat.lt_or_ge i entries.size with hlt | hge
      · have hi : i = entries.size - 1 := by omega
        subst hi
        rw [Array.getElem?_eq_getElem hlt]
        exact (eq_of_beq hp).symm
      · rw [Array.getElem?_eq_none hge]
  | case2 | case3 => rfl

/-- Marks are equal when they say the same about every node. -/
theorem ext_get {m n : Marks} (h : ∀ i, m.get i = n.get i) : m = n := by
  have hsize (m n : Marks) (h : ∀ i, m.get i = n.get i) : m.entries.size ≤ n.entries.size := by
    refine Nat.le_of_not_lt fun hlt => m.trimmed ?_
    have hlast := h (m.entries.size - 1)
    rw [get, get, Array.getD_eq_getD_getElem?, Array.getD_eq_getD_getElem?,
      Array.getElem?_eq_none (show n.entries.size ≤ m.entries.size - 1 by omega),
      Array.getElem?_eq_getElem (show m.entries.size - 1 < m.entries.size by omega)] at hlast
    rw [Array.back?_eq_getElem?,
      Array.getElem?_eq_getElem (show m.entries.size - 1 < m.entries.size by omega)]
    exact congrArg some hlast
  have heq : m.entries.size = n.entries.size :=
    Nat.le_antisymm (hsize m n h) (hsize n m fun i => (h i).symm)
  have hentries : m.entries = n.entries := by
    refine Array.ext heq fun i hm hn => ?_
    have hi := h i
    rwa [get, get, Array.getD_eq_getD_getElem?, Array.getD_eq_getD_getElem?,
      Array.getElem?_eq_getElem hm, Array.getElem?_eq_getElem hn] at hi
  cases m
  cases n
  cases hentries
  rfl

/-- Changes the mark of a node. -/
def modify (m : Marks) (i : NodeId) (f : Mark → Mark) : Marks :=
  let missing := i + 1 - m.entries.size
  ofArray ((m.entries ++ Array.replicate missing ({} : Mark)).modify i f)

/-- Default marks behind the others change none. -/
theorem getD_padded (entries : Array Mark) (n j : Nat) :
    (entries ++ Array.replicate n ({} : Mark)).getD j {} = entries.getD j {} := by
  simp only [Array.getD_eq_getD_getElem?, Array.getElem?_append, Array.getElem?_replicate]
  split
  · rfl
  · rename_i h
    rw [Array.getElem?_eq_none (Nat.le_of_not_lt h)]
    split <;> rfl

/-- A change touches the mark of one node only. -/
theorem get_modify (m : Marks) (i : Nat) (f : Mark → Mark) (j : Nat) :
    (m.modify i f).get j = if i = j then f (m.get i) else m.get j := by
  have hi : i < (m.entries ++ Array.replicate (i + 1 - m.entries.size) ({} : Mark)).size := by
    simp only [Array.size_append, Array.size_replicate]
    omega
  rw [modify, get_ofArray, get, get, ← getD_padded m.entries (i + 1 - m.entries.size) j,
    ← getD_padded m.entries (i + 1 - m.entries.size) i]
  simp only [Array.getD_eq_getD_getElem?, Array.getElem?_modify]
  split
  · rename_i h
    subst h
    simp [Array.getElem?_eq_getElem hi]
  · rfl

end Marks

/-- How far the random numbers have been drawn. -/
structure Dice where
  /-- The seed that they were started from. -/
  seed : Nat := 0
  /-- The bounds of the numbers drawn since then, the last one first. -/
  bounds : List Nat := []
deriving DecidableEq, Inhabited

namespace Dice

/-- The dice started from a seed. -/
def ofSeed (seed : Nat) : Dice :=
  { seed }

/-- How many numbers have been drawn. -/
def drawn (d : Dice) : Nat :=
  d.bounds.length

/-- Draws an index below a bound from a source; a bound of zero counts as one. -/
def roll (source : RandomSource) (bound : Nat) (d : Dice) : Nat × Dice :=
  (source.draw d.seed d.bounds (max 1 bound), { d with bounds := max 1 bound :: d.bounds })

/-- What is drawn lies below the bound. -/
theorem roll_lt (source : RandomSource) {bound : Nat} (h : 0 < bound) (d : Dice) :
    (d.roll source bound).1 < bound := by
  rw [roll, Nat.max_eq_right h]
  exact source.draw_lt d.seed d.bounds h

end Dice

/-- What expressions read and change. -/
structure Memory where
  /-- The global variables. -/
  globals : NameMap Value := .empty
  /-- What is remembered about each node. -/
  marks : Marks := {}
  /-- The dice. -/
  dice : Dice := {}
deriving DecidableEq, Inhabited

namespace Memory

/-- The mark of a node. -/
def mark (m : Memory) (i : NodeId) : Mark :=
  m.marks.get i

/-- Changes the mark of a node. -/
def modifyMark (m : Memory) (i : NodeId) (f : Mark → Mark) : Memory :=
  { m with marks := m.marks.modify i f }

/-- Only one mark is changed. -/
theorem mark_modifyMark (m : Memory) (i : Nat) (f : Mark → Mark) (j : Nat) :
    (m.modifyMark i f).mark j = if i = j then f (m.mark i) else m.mark j :=
  m.marks.get_modify i f j

/-- Counts a visit of a node. -/
def visit (m : Memory) (i : NodeId) : Memory :=
  m.modifyMark i fun k => { k with visits := k.visits + 1 }

/-- Binds the parameters of a section; of two parameters with one name the last counts. -/
def bind (m : Memory) (i : NodeId) (params : List String) (args : List Value) : Memory :=
  m.modifyMark i fun k => { k with scope := .ofList (params.zip args) }

/-- Chooses an option of a block. -/
def select (m : Memory) (i : NodeId) (selection : Nat) : Memory :=
  m.modifyMark i fun k => { k with selection }

/-- Stores a global variable. -/
def setGlobal (m : Memory) (name : String) (value : Value) : Memory :=
  { m with globals := m.globals.insert name value }

/-- The nodes under a node that play goes through: those of the chosen option of a block. -/
def children (m : Memory) (c : Content) (i : NodeId) : List NodeId :=
  (c.node i).childrenAt (m.mark i).selection

end Memory

end Narrative
