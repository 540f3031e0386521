import Narrative.Proofs.Story.Soundness

/-!
# What is still to come

The cursor goes through lists of nodes from front to back. A node is upcoming when it hangs under a
node at the cursor or behind it, or under one behind the container or behind a node above it.
Passing a node, entering one and leaving a block bring up nothing that was not upcoming before, so
what was passed once is behind the cursor for good.
-/

namespace Narrative

/-- Where the position after a node is one in the list, the node stands right before it. -/
theorem exists_of_positionAfter {list : List NodeId} {i : NodeId}
    (h : positionAfter list i < beyondAll) :
    ∃ k, positionAfter list i = k + 1 ∧ list[k]? = some i := by
  unfold positionAfter at h ⊢
  cases hfind : list.findIdx? (· == i) with
  | none =>
    rw [hfind] at h
    exact absurd h (Nat.lt_irrefl _)
  | some k =>
    obtain ⟨hlt, hk, -⟩ := List.findIdx?_eq_some_iff_getElem.1 hfind
    exact ⟨k, rfl, by rw [List.getElem?_eq_getElem hlt, eq_of_beq hk]⟩

namespace Content

/-- Which lists of nodes play may go through inside a node. -/
abbrev View := NodeId → List NodeId → Prop

/-- Play may go through every list under a node. -/
def Listed (c : Content) : View :=
  fun a list => list ≠ [] → list ∈ (c.node a).lists

/-- Whether play may still come to the node `z`, with the cursor at a position in the container
`p`. -/
inductive Upcoming (c : Content) (view : View) (p : NodeId) (position : Nat) (z : NodeId) : Prop
  /-- It hangs under a node in the container, at the position or behind it. -/
  | inside {list : List NodeId} {j : Nat} {b : NodeId} :
      view p list → list[j]? = some b → position ≤ j → j < beyondAll → b ∈ c.lineage z →
      Upcoming c view p position z
  /-- It hangs under a node behind one in the line of the container. -/
  | behind {a b b' : NodeId} {list list' : List NodeId} {i j : Nat} :
      b ∈ c.lineage p → view a list → list[i]? = some b → view a list' → list'[j]? = some b' →
      i < j → j < beyondAll → b' ∈ c.lineage z → Upcoming c view p position z

/-- Whether nodes stand in a relation to all that is still to come. -/
def Passed (c : Content) (view : View) (before : NodeId → NodeId → Prop) (p : NodeId)
    (position : Nat) (ys : List NodeId) : Prop :=
  ∀ y ∈ ys, ∀ z, c.Upcoming view p position z → before y z

/-- Whether all that hangs under a node stands in a relation to what hangs under the nodes behind
it. -/
def Splits (c : Content) (view : View) (before : NodeId → NodeId → Prop) : Prop :=
  ∀ ⦃a b b' y z : NodeId⦄ ⦃list list' : List NodeId⦄ ⦃i j : Nat⦄, view a list →
    list[i]? = some b → view a list' → list'[j]? = some b' → i < j → b ∈ c.lineage y →
    b' ∈ c.lineage z → before y z

section

variable {c : Content} {view view' : View} {before : NodeId → NodeId → Prop} (h : c.Tree)
  (hlisted : ∀ {a : NodeId} {list : List NodeId}, view a list → c.Listed a list)

include h

/-- What is in a list hangs under its node. -/
theorem Tree.parent_of_view {a b : NodeId} {list : List NodeId} {i : Nat}
    (hlist : c.Listed a list) (hi : list[i]? = some b) : (c.node b).parent = some a :=
  h.parent_of_mem_list (hlist (List.ne_nil_of_mem (List.mem_of_getElem? hi)))
    (List.mem_of_getElem? hi)

/-- A node is in one list, at one position. -/
theorem Tree.position_of_view {a b : NodeId} {list list' : List NodeId} {i j : Nat}
    (hlist : c.Listed a list) (hi : list[i]? = some b) (hlist' : c.Listed a list')
    (hj : list'[j]? = some b) : i = j :=
  (h.position_eq (hlist (List.ne_nil_of_mem (List.mem_of_getElem? hi)))
    (hlist' (List.ne_nil_of_mem (List.mem_of_getElem? hj))) hi hj).2

/-- What hangs under different nodes of one parent is different. -/
theorem Tree.splits_listed : c.Splits c.Listed (· ≠ ·) := by
  rintro a b b' y _ list list' i j hlist hi hlist' hj hlt hy hz rfl
  have hsame : b = b' := h.descends.eq_of_parent_eq hy hz (h.parent_of_view hlist hi)
    (h.parent_of_view hlist' hj)
  rw [← hsame] at hj
  exact absurd (h.position_of_view hlist hi hlist' hj) (Nat.ne_of_lt hlt)

/-- Where play may go through one list under each node only, all that hangs under a node was read
before what hangs under the nodes behind it. -/
theorem Tree.splits_single (hlisted : ∀ {a : NodeId} {list : List NodeId}, view a list →
      c.Listed a list)
    (hsingle : ∀ {a : NodeId} {list list' : List NodeId}, view a list → view a list' →
      list = list') : c.Splits view (· < ·) := by
  intro a b b' y z list list' i j hlist hi hlist' hj hlt hy hz
  obtain rfl := hsingle hlist hlist'
  have hmem := hlisted hlist (List.ne_nil_of_mem (List.mem_of_getElem? hi))
  exact Nat.lt_of_lt_of_le (h.lt_of_follows hmem hi hj hlt hy) (h.descends.le_of_mem_lineage hz)

omit h

/-- What is upcoming behind a position is upcoming at it. -/
theorem Upcoming.pred {p z : NodeId} {position : Nat} (hz : c.Upcoming view p (position + 1) z) :
    c.Upcoming view p position z := by
  cases hz with
  | inside hlist hj hle hlt hmem => exact .inside hlist hj (Nat.le_of_succ_le hle) hlt hmem
  | behind hb hlist hi hlist' hj hij hlt hmem => exact .behind hb hlist hi hlist' hj hij hlt hmem

/-- What is upcoming is a matter of the lines of descent and of the lists in the line of the
container. -/
theorem Upcoming.transfer {d : Content} (hd : d.Tree) {p z : NodeId} {position : Nat}
    (hlisted' : ∀ {a : NodeId} {list : List NodeId}, view' a list → d.Listed a list)
    (hview : ∀ a ∈ c.lineage p, ∀ list, view' a list → view a list)
    (hp : d.lineage p = c.lineage p) (hline : d.lineage z = c.lineage z)
    (hz : d.Upcoming view' p position z) : c.Upcoming view p position z := by
  cases hz with
  | inside hlist hj hle hlt hmem =>
    exact .inside (hview p (c.mem_lineage_self p) _ hlist) hj hle hlt (hline ▸ hmem)
  | @behind a b b' list₁ list₂ i j hb hlist₁ hi hlist₂ hj hij hlt hmem =>
    have hparent := hd.parent_of_view (hlisted' hlist₁) hi
    have ha : a ∈ c.lineage p := by
      rw [← hp]
      exact hd.descends.mem_lineage_trans hb (hd.descends.parent_mem hparent)
    exact .behind (hp ▸ hb) (hview a ha _ hlist₁) hi (hview a ha _ hlist₂) hj hij hlt (hline ▸ hmem)

include h hlisted

/-- Where a node is entered, what is upcoming inside it or behind it was upcoming before. -/
theorem Upcoming.of_enter {p i z : NodeId} {list : List NodeId} {position : Nat}
    (hlist : view p list) (hi : list[position]? = some i) (hlt : position < beyondAll)
    (hlisted' : ∀ {a : NodeId} {list : List NodeId}, view' a list → c.Listed a list)
    (hview : ∀ a ∈ c.lineage p, ∀ list, view' a list → view a list)
    (hz : c.Upcoming view' i 0 z) : c.Upcoming view p position z := by
  have hparent := h.parent_of_view (hlisted hlist) hi
  cases hz with
  | @inside list' j b hlist' hj _ _ hmem =>
    have hb := h.parent_of_view (hlisted' hlist') hj
    exact .inside hlist hi (Nat.le_refl _) hlt
      (h.descends.mem_lineage_trans hmem (h.descends.parent_mem hb))
  | @behind a b b' list₁ list₂ k j hb hlist₁ hk hlist₂ hj hkj hjlt hmem =>
    have ha := h.parent_of_view (hlisted' hlist₁) hk
    obtain rfl | ⟨q, hq, hb⟩ := h.descends.mem_lineage_iff.1 hb
    · -- the node that was entered stands at the position
      rw [hparent] at ha
      cases ha
      have hself := c.mem_lineage_self p
      have heq := h.position_of_view (hlisted' hlist₁) hk (hlisted hlist) hi
      exact .inside (hview p hself _ hlist₂) hj (by omega) hjlt hmem
    · rw [hparent] at hq
      cases hq
      have hmem' := h.descends.mem_lineage_trans hb (h.descends.parent_mem ha)
      exact .behind hb (hview a hmem' _ hlist₁) hk (hview a hmem' _ hlist₂) hj hkj hjlt hmem

omit hlisted

/-- Where play goes on behind a node in the line of the container, what is upcoming there was
upcoming before. -/
theorem Upcoming.of_rise {p b i z : NodeId} {list : List NodeId} {position position' : Nat}
    (hb : b ∈ c.lineage i) (hparent : (c.node b).parent = some p) (hlist : view p list)
    (hbehind : position < beyondAll → ∃ k, list[k]? = some b ∧ k < position)
    (hz : c.Upcoming view p position z) : c.Upcoming view i position' z := by
  cases hz with
  | @inside list' j b' hlist' hj hle hlt hmem =>
    obtain ⟨k, hk, hkle⟩ := hbehind (Nat.lt_of_le_of_lt hle hlt)
    exact .behind hb hlist hk hlist' hj (Nat.lt_of_lt_of_le hkle hle) hlt hmem
  | @behind a b' b'' list₁ list₂ k j hb' hlist₁ hk hlist₂ hj hkj hlt hmem =>
    have habove := h.descends.mem_lineage_trans hb (h.descends.parent_mem hparent)
    exact .behind (h.descends.mem_lineage_trans habove hb') hlist₁ hk hlist₂ hj hkj hlt hmem

/-- Where a node is left, what is upcoming behind it was upcoming before. -/
theorem Upcoming.of_leave {p i z : NodeId} {list : List NodeId} {position : Nat}
    (hparent : (c.node i).parent = some p) (hlist : view p list)
    (hz : c.Upcoming view p (positionAfter list i) z) : c.Upcoming view i position z := by
  refine hz.of_rise h (c.mem_lineage_self i) hparent hlist fun hlt => ?_
  obtain ⟨k, hafter, hk⟩ := exists_of_positionAfter hlt
  exact ⟨k, hk, by omega⟩

include hlisted

/-- A node that is passed is before all that is upcoming then. -/
theorem Splits.of_upcoming (hsplits : c.Splits view before) {p y z : NodeId} {list : List NodeId}
    {position : Nat} (hlist : view p list) (hy : list[position]? = some y)
    (hz : c.Upcoming view p (position + 1) z) : before y z := by
  cases hz with
  | inside hlist' hj hle _ hmem =>
    exact hsplits hlist hy hlist' hj hle (c.mem_lineage_self y) hmem
  | behind hb hlist₁ hk hlist₂ hj hkj _ hmem =>
    have hparent := h.parent_of_view (hlisted hlist) hy
    exact hsplits hlist₁ hk hlist₂ hj hkj
      (h.descends.mem_lineage_trans (h.descends.parent_mem hparent) hb) hmem

/-- Where the node at the cursor is passed, it joins what was passed before. -/
theorem Passed.append (hsplits : c.Splits view before) {p y : NodeId} {list ys : List NodeId}
    {position : Nat} (hys : c.Passed view before p position ys) (hlist : view p list)
    (hy : list[position]? = some y) :
    c.Passed view before p (position + 1) (ys ++ [y]) := by
  intro y' hy' z hz
  rcases List.mem_append.1 hy' with hy' | hy'
  · exact hys y' hy' z hz.pred
  · rw [List.mem_singleton.1 hy']
    exact Splits.of_upcoming h hlisted hsplits hlist hy hz

end

/-- The node at the cursor is upcoming. -/
theorem upcoming_self {c : Content} {view : View} {p y : NodeId} {list : List NodeId}
    {position : Nat} (hlist : view p list) (hy : list[position]? = some y)
    (hlt : position < beyondAll) : c.Upcoming view p position y :=
  .inside hlist hy (Nat.le_refl _) hlt (c.mem_lineage_self y)

end Content

end Narrative
