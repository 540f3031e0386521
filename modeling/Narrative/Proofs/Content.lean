import Mathlib.Tactic.Common
import Narrative.Content

/-!
# Sound content

In sound content every node is found under its id, and the parent of a node is a node. The ways in
which nodes are added and changed keep content sound.
-/

namespace Narrative.Content

/-- Behind the last node there are only default ones. -/
theorem node_eq_default {c : Content} {i : NodeId} (h : c.size ≤ i) : c.node i = default := by
  simp [node, Array.getD_eq_getD_getElem?, Array.getElem?_eq_none h]

/-- The nodes are those of the array. -/
theorem node_eq_getElem {c : Content} {i : NodeId} (h : i < c.nodes.size) :
    c.node i = c.nodes[i] := by
  rw [node, Array.getD_eq_getD_getElem?, Array.getElem?_eq_getElem h, Option.getD_some]

/-- What has a property that the default node lacks is a node of the content. -/
theorem lt_size {c : Content} {i : NodeId} {p : Node → Bool} (hp : p default = false)
    (h : p (c.node i) = true) : i < c.size := by
  refine Nat.lt_of_not_le fun hle => ?_
  rw [node_eq_default hle, hp] at h
  cases h

/-- What is not of the kind of the default node is a node of the content. -/
theorem lt_size_of_kind {c : Content} {i : NodeId} {kind : NodeKind} (h : (c.node i).kind = kind)
    (hkind : kind ≠ .knot []) : i < c.size := by
  refine Nat.lt_of_not_le fun hle => hkind ?_
  rw [← h, node_eq_default hle]
  rfl

/-- What is found under an id is a node with that id. -/
theorem find?_eq_some {c : Content} {id : String} {i : NodeId} (h : c.find? id = some i) :
    i < c.size ∧ (c.node i).id = id := by
  obtain ⟨hi, hid, _⟩ := Array.findIdx?_eq_some_iff_getElem.1 h
  exact ⟨hi, by rw [node_eq_getElem hi]; exact eq_of_beq hid⟩

/-- An id that is not found is the id of no node. -/
theorem find?_eq_none {c : Content} {id : String} (h : c.find? id = none) {i : NodeId}
    (hi : i < c.size) : (c.node i).id ≠ id := by
  intro hid
  rw [node_eq_getElem hi] at hid
  have hnone := Array.findIdx?_eq_none_iff.1 h c.nodes[i] (Array.getElem_mem hi)
  simp [hid] at hnone

/-- What no node has for an id is free. -/
theorem find?_eq_none_iff {c : Content} {id : String} :
    c.find? id = none ↔ ∀ i < c.size, (c.node i).id ≠ id := by
  refine ⟨fun h i hi => find?_eq_none h hi, fun h => ?_⟩
  rw [Option.eq_none_iff_forall_ne_some]
  intro i hfind
  obtain ⟨hi, hid⟩ := find?_eq_some hfind
  exact h i hi hid

/-- What is found by its label is a node. -/
theorem lt_size_of_findByLabel? {c : Content} {name : String} {i : NodeId}
    (h : c.findByLabel? name = some i) : i < c.size := by
  unfold findByLabel? at h
  split at h
  · next j hlabelled =>
    cases h
    have hmem : i ∈ c.labelled name := by rw [hlabelled]; exact List.mem_singleton_self i
    exact List.mem_range.1 (List.mem_filter.1 hmem).1
  · cases h

/-- The ids of the nodes differ, and the parents of nodes are nodes. -/
structure Sound (c : Content) : Prop where
  /-- No two nodes have one id. -/
  distinct {i j : Nat} : i < c.size → j < c.size → (c.node i).id = (c.node j).id → i = j
  /-- The parent of a node is a node. -/
  parent {i p : Nat} : (c.node i).parent = some p → p < c.size

/-- A node is found under its id. -/
theorem Sound.find?_id {c : Content} (h : c.Sound) {i : NodeId} (hi : i < c.size) :
    c.find? (c.node i).id = some i := by
  cases hfind : c.find? (c.node i).id with
  | none => exact absurd rfl (find?_eq_none hfind hi)
  | some j =>
    obtain ⟨hj, hid⟩ := find?_eq_some hfind
    rw [h.distinct hj hi hid]

/-- Content without nodes is sound. -/
theorem sound_empty : ({} : Content).Sound where
  distinct := by
    intro i j hi
    exact absurd hi (Nat.not_lt_zero i)
  parent := by
    intro i p h
    rw [node_eq_default (Nat.zero_le i)] at h
    cases h

/-- The nodes above a node are nodes where parents are. -/
theorem lt_size_of_above {c : Content} (h : ∀ {i p : Nat}, (c.node i).parent = some p → p < c.size)
    {steps : Nat} {i j : NodeId} (hj : j ∈ c.above steps i) : j < c.size := by
  induction steps generalizing i with
  | zero => cases hj
  | succ steps ih =>
    rw [above] at hj
    split at hj
    · cases hj
    · next p hp =>
      rcases List.mem_cons.1 hj with rfl | hj
      · exact h hp
      · exact ih hj

/-- What is above a node is a node. -/
theorem lt_size_of_lineage {c : Content}
    (h : ∀ {i p : Nat}, (c.node i).parent = some p → p < c.size) {i j : NodeId} (hi : i < c.size)
    (hj : j ∈ c.lineage i) : j < c.size := by
  rcases List.mem_cons.1 hj with rfl | hj
  · exact hi
  · exact lt_size_of_above h hj

/-! ## Adding and changing nodes -/

/-- There is one node more. -/
theorem size_of_insert? {c c' : Content} {n : Node} (h : c.insert? n = some c') :
    c'.size = c.size + 1 := by
  unfold insert? at h
  split at h
  · cases h
  · cases h
    exact Array.size_push n

/-- The nodes stay, and the new one comes behind them. -/
theorem node_push (c : Content) (n : Node) (i : NodeId) :
    (⟨c.nodes.push n⟩ : Content).node i = if i = c.size then n else c.node i := by
  simp only [node, size, Array.getD_eq_getD_getElem?, Array.getElem?_push]
  split <;> rfl

/-- A node is added behind those that were there. -/
theorem node_of_insert? {c c' : Content} {n : Node} (h : c.insert? n = some c') (i : NodeId) :
    c'.node i = if i = c.size then n else c.node i := by
  unfold insert? at h
  split at h
  · cases h
  · cases h
    exact node_push c n i

/-- A node without a parent whose id is not taken is added soundly. -/
theorem Sound.insert? {c c' : Content} {n : Node} (h : c.Sound) (hn : n.parent = none)
    (hinsert : c.insert? n = some c') : c'.Sound := by
  have hsize := size_of_insert? hinsert
  unfold Content.insert? at hinsert
  split at hinsert
  · cases hinsert
  · next hfree =>
    rw [Bool.not_eq_true, Option.isSome_eq_false_iff, Option.isNone_iff_eq_none] at hfree
    cases hinsert
    refine ⟨fun {i j} hi hj hid => ?_, fun {i p} hp => ?_⟩
    · rw [hsize] at hi hj
      rw [node_push, node_push] at hid
      have hold {k : Nat} (hk : k < c.size + 1) (hne : k ≠ c.size) : k < c.size := by omega
      by_cases hlasti : i = c.size
      · by_cases hlastj : j = c.size
        · exact hlasti.trans hlastj.symm
        · rw [if_pos hlasti, if_neg hlastj] at hid
          exact absurd hid.symm (find?_eq_none hfree (hold hj hlastj))
      · by_cases hlastj : j = c.size
        · rw [if_neg hlasti, if_pos hlastj] at hid
          exact absurd hid (find?_eq_none hfree (hold hi hlasti))
        · rw [if_neg hlasti, if_neg hlastj] at hid
          exact h.distinct (hold hi hlasti) (hold hj hlastj) hid
    · rw [node_push] at hp
      rw [hsize]
      split at hp
      · rw [hn] at hp
        cases hp
      · exact Nat.lt_succ_of_lt (h.parent hp)

/-- Changing a node makes no other. -/
@[simp] theorem size_modify (c : Content) (i : NodeId) (f : Node → Node) :
    (c.modify i f).size = c.size := Array.size_modify

/-- Only that node is changed. -/
theorem node_modify (c : Content) (i : NodeId) (f : Node → Node) (j : NodeId) :
    (c.modify i f).node j = if i = j ∧ j < c.size then f (c.node j) else c.node j := by
  simp only [node, modify, size, Array.getD_eq_getD_getElem?, Array.getElem?_modify]
  by_cases hi : i = j
  · rcases Nat.lt_or_ge j c.nodes.size with hj | hj
    · simp [hi, hj]
    · simp [hi, Nat.not_lt.2 hj]
  · simp [hi]

/-- A change that keeps the id of a node and gives it no parent but a node is sound. -/
theorem Sound.modify {c : Content} (h : c.Sound) (i : NodeId) {f : Node → Node}
    (hid : ∀ n, (f n).id = n.id)
    (hparent : ∀ n p, (f n).parent = some p → n.parent = some p ∨ p < c.size) :
    (c.modify i f).Sound := by
  have hids (j : NodeId) : ((c.modify i f).node j).id = (c.node j).id := by
    rw [node_modify]
    split
    · exact hid _
    · rfl
  refine ⟨fun {j k} hj hk heq => ?_, fun {j p} hp => ?_⟩
  · rw [size_modify] at hj hk
    rw [hids, hids] at heq
    exact h.distinct hj hk heq
  · rw [node_modify] at hp
    rw [size_modify]
    split at hp
    · obtain hkept | hnew := hparent _ _ hp
      · exact h.parent hkept
      · exact hnew
    · exact h.parent hp

/-- A change that keeps the id and the parent of a node is sound. -/
theorem Sound.modify_kept {c : Content} (h : c.Sound) (i : NodeId) {f : Node → Node}
    (hid : ∀ n, (f n).id = n.id) (hparent : ∀ n, (f n).parent = n.parent) :
    (c.modify i f).Sound :=
  h.modify i hid fun n _ hp => .inl (hparent n ▸ hp)

/-- A node keeps its id when it gets a child. -/
theorem addChild_id (n : Node) (child : NodeId) : (n.addChild child).id = n.id := by
  unfold Node.addChild
  split <;> rfl

/-- A node keeps its parent when it gets a child. -/
theorem addChild_parent (n : Node) (child : NodeId) : (n.addChild child).parent = n.parent := by
  unfold Node.addChild
  split <;> rfl

/-- A block keeps its id when it gets an option. -/
theorem addOption_id (n : Node) (guard : Option String) : (n.addOption guard).id = n.id := by
  unfold Node.addOption
  split <;> rfl

/-- A block keeps its parent when it gets an option. -/
theorem addOption_parent (n : Node) (guard : Option String) :
    (n.addOption guard).parent = n.parent := by
  unfold Node.addOption
  split <;> rfl

/-- Attaching a child makes no node. -/
@[simp] theorem size_attach (c : Content) (parent child : NodeId) :
    (c.attach parent child).size = c.size := by
  rw [attach, size_modify, size_modify]

/-- Hanging a node under a node is sound. -/
theorem Sound.attach {c : Content} (h : c.Sound) {parent : NodeId} (child : NodeId)
    (hparent : parent < c.size) : (c.attach parent child).Sound := by
  have hset : (c.modify child fun n => { n with parent := some parent }).Sound := by
    refine h.modify child (fun n => rfl) fun n p hp => .inr ?_
    cases hp
    exact hparent
  exact hset.modify_kept parent (addChild_id · child) (addChild_parent · child)

/-- The content with a new node that hangs under `parent`. -/
def hang? (c : Content) (parent : NodeId) (n : Node) : Option Content :=
  (c.insert? n).map (·.attach parent c.size)

section Hanging

variable {c c' : Content} {p : NodeId} {n : Node} (h : c.hang? p n = some c')

include h

/-- There is one node more. -/
theorem size_of_hang? : c'.size = c.size + 1 := by
  obtain ⟨inserted, hinsert, rfl⟩ := Option.map_eq_some_iff.1 h
  rw [size_attach, size_of_insert? hinsert]

/-- A new node has its parent, the parent has a further child, and the other nodes stay. -/
theorem node_of_hang? (hp : p < c.size) (i : NodeId) :
    c'.node i =
      if i = c.size then { n with parent := some p }
      else if i = p then (c.node p).addChild c.size
      else c.node i := by
  obtain ⟨inserted, hinsert, rfl⟩ := Option.map_eq_some_iff.1 h
  have hsize := size_of_insert? hinsert
  unfold insert? at hinsert
  split at hinsert
  · cases hinsert
  · cases hinsert
    rw [attach, node_modify, node_modify, size_modify, node_push, hsize]
    by_cases hnew : i = c.size
    · subst hnew
      have hne : p ≠ c.size := Nat.ne_of_lt hp
      simp [hne]
    · by_cases hparent : i = p
      · subst hparent
        have hne : c.size ≠ i := Ne.symm hnew
        simp [hnew, hne, Nat.lt_succ_of_lt hp]
      · simp [hnew, hparent, Ne.symm hparent, Ne.symm hnew]

/-- Content stays sound when a node is hung under one of its nodes. -/
theorem Sound.hang? (hc : c.Sound) (hn : n.parent = none) (hp : p < c.size) : c'.Sound := by
  obtain ⟨inserted, hinsert, rfl⟩ := Option.map_eq_some_iff.1 h
  refine (hc.insert? hn hinsert).attach _ ?_
  rw [size_of_insert? hinsert]
  exact Nat.lt_succ_of_lt hp

end Hanging

end Narrative.Content
