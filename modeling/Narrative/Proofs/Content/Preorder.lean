import Mathlib.Data.List.Sort
import Narrative.Proofs.Content.Tree

/-!
# Nodes in pre-order

In arranged content every node is listed under its parent, and it hangs under the node that was read
just before it or above that one, or nowhere. The order in which the nodes were read is then the
pre-order of the trees: going through one tree after another, each node before what hangs under it,
meets every node once and in its place.
-/

namespace Narrative

namespace Node

/-- A further child of a node stands behind what is in an option. -/
theorem childrenAt_prefix_addChild (n : Node) (child : NodeId) (selection : Nat) :
    n.childrenAt selection <+: (n.addChild child).childrenAt selection := by
  unfold childrenAt addChild
  cases hkind : n.kind with
  | block mode options =>
    rcases List.eq_nil_or_concat options with rfl | ⟨before, last, rfl⟩
    · exact List.nil_prefix
    · simp only [List.concat_eq_append, List.getLast?_concat, Option.getD_some,
        List.dropLast_concat]
      rcases Nat.lt_trichotomy selection before.length with hlt | rfl | hgt
      · simp only [List.getElem?_append_left hlt, List.prefix_refl]
      · rw [List.getElem?_concat_length, List.getElem?_concat_length]
        exact List.prefix_append _ _
      · rw [List.getElem?_eq_none (by simp; omega)]
        exact List.nil_prefix
  | _ => exact List.prefix_append _ _

/-- A further option of a node stands behind the others. -/
theorem childrenAt_prefix_addOption (n : Node) (guard : Option String) (selection : Nat) :
    n.childrenAt selection <+: (n.addOption guard).childrenAt selection := by
  unfold childrenAt addOption
  cases hkind : n.kind with
  | block mode options =>
    dsimp only
    rcases Nat.lt_or_ge selection options.length with hlt | hge
    · simp only [List.getElem?_append_left hlt, List.prefix_refl]
    · rw [List.getElem?_eq_none hge]
      exact List.nil_prefix
  | _ => simp only [hkind, List.prefix_refl]

/-- What is in an option of a node stays in it with a further child. -/
theorem childrenAt_subset_addChild (n : Node) (child : NodeId) (selection : Nat) :
    n.childrenAt selection ⊆ (n.addChild child).childrenAt selection :=
  (n.childrenAt_prefix_addChild child selection).subset

/-- What is in an option of a node stays in it with a further option. -/
theorem childrenAt_subset_addOption (n : Node) (guard : Option String) (selection : Nat) :
    n.childrenAt selection ⊆ (n.addOption guard).childrenAt selection :=
  (n.childrenAt_prefix_addOption guard selection).subset

/-- A node keeps its level when it gets a child. -/
theorem level_addChild (n : Node) (child : NodeId) : (n.addChild child).level = n.level := by
  unfold addChild
  split <;> rfl

/-- A change of a node that hangs nothing elsewhere. -/
structure Keeps (f : Node → Node) : Prop where
  /-- The id stays. -/
  id (n : Node) : (f n).id = n.id
  /-- The parent stays. -/
  parent (n : Node) : (f n).parent = n.parent
  /-- What is listed under it stays. -/
  listed (n : Node) : (f n).listed = n.listed
  /-- The children stay. -/
  children (n : Node) : (f n).children = n.children
  /-- It stays a node of its kind. -/
  alike (n : Node) : (f n).Alike n
  /-- The level stays. -/
  level (n : Node) : (f n).level = n.level
  /-- What is in an option stays in it. -/
  childrenAt (n : Node) (selection : Nat) : n.childrenAt selection ⊆ (f n).childrenAt selection

/-- Adding an option hangs nothing elsewhere. -/
theorem keeps_addOption (guard : Option String) : Keeps (·.addOption guard) where
  id n := Content.addOption_id n guard
  parent n := Content.addOption_parent n guard
  listed n := listed_addOption n guard
  children n := by
    unfold addOption
    split <;> rfl
  alike n := alike_addOption n guard
  level n := by
    unfold addOption
    split <;> rfl
  childrenAt n := childrenAt_subset_addOption n guard

/-- Declaring an image hangs nothing elsewhere. -/
theorem keeps_background (background : Option String) : Keeps ({ · with background }) where
  id _ := rfl
  parent _ := rfl
  listed _ := rfl
  children _ := rfl
  alike _ := .inl rfl
  level _ := rfl
  childrenAt _ _ := List.Subset.refl _

/-- What is added to a block goes into its options. -/
theorem children_addChild_of_isBlock {n : Node} (hn : n.isBlock = true) (child : NodeId) :
    (n.addChild child).children = n.children := by
  obtain ⟨mode, options, hkind⟩ := kind_of_isBlock hn
  rw [addChild, hkind]

end Node

namespace Content

variable {c d : Content}

/-! ## Ways to add to content -/

/-- A way in which reading changes content. -/
inductive Edit (c : Content) : Content → Prop
  /-- A section that hangs nowhere is added. -/
  | root {n : Node} {d : Content} :
      n.Bare → n.isTop = true → c.insert? n = some d → Edit c d
  /-- A node is hung under the last node or under one above it. -/
  | hung {n : Node} {p : NodeId} {d : Content} :
      n.Bare → n.isTop = false → p < c.size → p ∈ c.lineage (c.size - 1) →
      c.hang? p n = some d → Edit c d
  /-- A node is changed and hangs where it hung, with the same nodes under it. -/
  | changed (i : NodeId) {f : Node → Node} : Node.Keeps f → Edit c (c.modify i f)

/-- A node that is changed is the changed node, and the others are what they were. -/
theorem node_modify_cases (c : Content) (i : NodeId) (f : Node → Node) (j : NodeId) :
    (c.modify i f).node j = f (c.node j) ∨ (c.modify i f).node j = c.node j := by
  rw [node_modify]
  split
  · exact .inl rfl
  · exact .inr rfl

section Kept

variable {i : NodeId} {f : Node → Node} (hf : Node.Keeps f) (j : NodeId)

include hf

/-- The parents stay. -/
theorem parent_modify : ((c.modify i f).node j).parent = (c.node j).parent := by
  obtain hnew | hold := c.node_modify_cases i f j
  · rw [hnew, hf.parent]
  · rw [hold]

/-- The lists stay. -/
theorem listed_modify : ((c.modify i f).node j).listed = (c.node j).listed := by
  obtain hnew | hold := c.node_modify_cases i f j
  · rw [hnew, hf.listed]
  · rw [hold]

/-- The children stay. -/
theorem children_modify : ((c.modify i f).node j).children = (c.node j).children := by
  obtain hnew | hold := c.node_modify_cases i f j
  · rw [hnew, hf.children]
  · rw [hold]

/-- The nodes stay alike. -/
theorem alike_modify : ((c.modify i f).node j).Alike (c.node j) := by
  obtain hnew | hold := c.node_modify_cases i f j
  · rw [hnew]
    exact hf.alike _
  · rw [hold]
    exact .inl rfl

end Kept

/-- The content `d` has the nodes of `c`, where they were and as what they were, perhaps with more
under them. -/
structure Retains (d c : Content) : Prop where
  /-- There are no fewer nodes. -/
  size_le : c.size ≤ d.size
  /-- Nodes hang where they hung. -/
  parent {i : Nat} : i < c.size → (d.node i).parent = (c.node i).parent
  /-- Nodes are of the kind they were. -/
  alike {i : Nat} : i < c.size → (d.node i).Alike (c.node i)
  /-- Nodes have the level they had. -/
  level {i : Nat} : i < c.size → (d.node i).level = (c.node i).level
  /-- What was in an option is in it. -/
  childrenAt {i selection : Nat} :
    i < c.size → (c.node i).childrenAt selection ⊆ (d.node i).childrenAt selection

namespace Retains

/-- Content retains itself. -/
theorem refl (c : Content) : c.Retains c :=
  ⟨Nat.le_refl _, fun _ => rfl, fun _ => .inl rfl, fun _ => rfl, fun _ => List.Subset.refl _⟩

/-- What is retained twice is retained. -/
theorem trans {e : Content} (h : e.Retains d) (h' : d.Retains c) : e.Retains c := by
  have hlt {i : Nat} (hi : i < c.size) : i < d.size := Nat.lt_of_lt_of_le hi h'.size_le
  exact ⟨Nat.le_trans h'.size_le h.size_le,
    fun hi => (h.parent (hlt hi)).trans (h'.parent hi),
    fun hi => (h.alike (hlt hi)).trans (h'.alike hi),
    fun hi => (h.level (hlt hi)).trans (h'.level hi),
    fun hi => List.Subset.trans (h'.childrenAt hi) (h.childrenAt (hlt hi))⟩

/-- A node that is added hangs nothing elsewhere. -/
theorem insert? {n : Node} (hinsert : c.insert? n = some d) : d.Retains c := by
  have hnode {i : Nat} (hi : i < c.size) : d.node i = c.node i := by
    rw [node_of_insert? hinsert, if_neg (Nat.ne_of_lt hi)]
  refine ⟨?_, fun hi => ?_, fun hi => ?_, fun hi => ?_, fun hi => ?_⟩
  · rw [size_of_insert? hinsert]
    exact Nat.le_succ _
  · rw [hnode hi]
  · rw [hnode hi]
    exact .inl rfl
  · rw [hnode hi]
  · rw [hnode hi]
    exact List.Subset.refl _

/-- A node that is hung comes behind what hangs under its parent. -/
theorem hang? {p : NodeId} {n : Node} (hp : p < c.size) (hhang : c.hang? p n = some d) :
    d.Retains c := by
  have hnode {i : Nat} (hi : i < c.size) :
      d.node i = (c.node i).addChild c.size ∨ d.node i = c.node i := by
    rw [node_of_hang? hhang hp, if_neg (Nat.ne_of_lt hi)]
    split
    · next hip => exact .inl (by rw [hip])
    · exact .inr rfl
  refine ⟨?_, fun hi => ?_, fun hi => ?_, fun hi => ?_, fun hi => ?_⟩
  · rw [size_of_hang? hhang]
    exact Nat.le_succ _
  · obtain hnew | hold := hnode hi
    · rw [hnew, addChild_parent]
    · rw [hold]
  · obtain hnew | hold := hnode hi
    · rw [hnew]
      exact Node.alike_addChild _ _
    · rw [hold]
      exact .inl rfl
  · obtain hnew | hold := hnode hi
    · rw [hnew, Node.level_addChild]
    · rw [hold]
  · obtain hnew | hold := hnode hi
    · rw [hnew]
      exact Node.childrenAt_subset_addChild _ _ _
    · rw [hold]
      exact List.Subset.refl _

/-- A node may be changed where that hangs nothing elsewhere. -/
theorem modify (c : Content) (i : NodeId) {f : Node → Node} (hf : Node.Keeps f) :
    (c.modify i f).Retains c := by
  refine ⟨Nat.le_of_eq (size_modify c i f).symm, fun {j} _ => parent_modify hf j,
    fun {j} _ => alike_modify hf j, fun {j} _ => ?_, fun {j} _ _ => ?_⟩
  · obtain hnew | hold := c.node_modify_cases i f j
    · rw [hnew, hf.level]
    · rw [hold]
  · obtain hnew | hold := c.node_modify_cases i f j
    · rw [hnew]
      exact hf.childrenAt _ _
    · rw [hold]
      exact List.Subset.refl _

end Retains

/-- Every way in which reading changes content retains the nodes. -/
theorem Edit.retains (h : c.Edit d) : d.Retains c := by
  cases h with
  | root _ _ hinsert => exact .insert? hinsert
  | hung _ _ hp _ hhang => exact .hang? hp hhang
  | changed i hf => exact .modify c i hf

/-! ## Arranged content -/

/-- Nodes are listed under their parents, in the options of a block and among the children of other
nodes, and each hangs under the node that was read before it or above that one. -/
structure Arranged (c : Content) : Prop where
  /-- A node is listed under its parent. -/
  listed_of_parent {i p : Nat} : (c.node i).parent = some p → i ∈ (c.node p).listed
  /-- A node hangs under the one that was read just before it or above that one. -/
  follows {i p : Nat} : (c.node (i + 1)).parent = some p → p ∈ c.lineage i
  /-- Blocks list nodes in their options only. -/
  children_of_isBlock {i : Nat} : (c.node i).isBlock = true → (c.node i).children = []

namespace Arranged

/-- Content without nodes is arranged. -/
theorem empty : ({} : Content).Arranged where
  listed_of_parent h := absurd (lt_size_of_parent h) (Nat.not_lt_zero _)
  follows h := absurd (lt_size_of_parent h) (Nat.not_lt_zero _)
  children_of_isBlock {i} _ := by
    rw [node_eq_default (Nat.zero_le i)]
    rfl

/-- An arrangement is a matter of parents and lists. -/
theorem congr (h : c.Arranged) (hparent : ∀ i, (d.node i).parent = (c.node i).parent)
    (hlisted : ∀ i, (d.node i).listed = (c.node i).listed)
    (hblock : ∀ {i}, (d.node i).isBlock = true → (d.node i).children = []) : d.Arranged where
  listed_of_parent := by
    intro i p hp
    rw [hlisted]
    exact h.listed_of_parent (hparent i ▸ hp)
  follows := by
    intro i p hp
    rw [lineage_congr hparent]
    exact h.follows (hparent (i + 1) ▸ hp)
  children_of_isBlock := hblock

/-- A node that hangs nowhere leaves the arrangement as it is. -/
theorem insert? {n : Node} (h : c.Arranged) (hn : n.Bare) (hinsert : c.insert? n = some d) :
    d.Arranged := by
  have hnode (i : NodeId) : d.node i = n ∧ c.node i = default ∨ d.node i = c.node i := by
    rw [node_of_insert? hinsert]
    split
    · next hi => exact .inl ⟨rfl, node_eq_default (Nat.le_of_eq hi.symm)⟩
    · exact .inr rfl
  refine h.congr (fun i => ?_) (fun i => ?_) fun {i} hi => ?_
  · obtain ⟨hnew, hold⟩ | hold := hnode i
    · rw [hnew, hold, hn.parent]
      rfl
    · rw [hold]
  · obtain ⟨hnew, hold⟩ | hold := hnode i
    · rw [hnew, hold, hn.listed]
      rfl
    · rw [hold]
  · obtain ⟨hnew, -⟩ | hold := hnode i
    · rw [hnew, hn.children]
    · rw [hold] at hi ⊢
      exact h.children_of_isBlock hi

/-- A node is hung under the last node or above it. -/
theorem hang? {p : NodeId} {n : Node} (h : c.Arranged) (htree : c.Tree) (hn : n.Bare)
    (hp : p < c.size) (hlast : p ∈ c.lineage (c.size - 1)) (hhang : c.hang? p n = some d) :
    d.Arranged where
  listed_of_parent := by
    intro i q hq
    rw [Tree.parent_of_hang? hp hhang] at hq
    rw [Tree.listed_of_hang? hn hp hhang]
    split at hq
    · next hi =>
      cases hq
      rw [if_pos rfl, hi]
      exact List.mem_append_right _ (List.mem_singleton_self _)
    · exact List.mem_append_left _ (h.listed_of_parent hq)
  follows := by
    intro i q hq
    rw [Tree.parent_of_hang? hp hhang] at hq
    split at hq
    · next hi =>
      cases hq
      have hsize : i + 1 = c.size := hi
      have hprevious : c.size - 1 = i := by omega
      have hold : i ≠ c.size := by omega
      rw [Tree.lineage_of_hang? htree hp hhang hold, ← hprevious]
      exact hlast
    · have hlt : i + 1 < c.size := lt_size_of_parent hq
      have hold : i ≠ c.size := by omega
      rw [Tree.lineage_of_hang? htree hp hhang hold]
      exact h.follows hq
  children_of_isBlock := by
    intro i hi
    rw [node_of_hang? hhang hp] at hi ⊢
    by_cases hnew : i = c.size
    · rw [if_pos hnew]
      exact hn.children
    · rw [if_neg hnew] at hi ⊢
      by_cases hparent : i = p
      · rw [if_pos hparent] at hi ⊢
        rw [(Node.alike_addChild _ _).isBlock_eq] at hi
        rw [Node.children_addChild_of_isBlock hi]
        exact h.children_of_isBlock hi
      · rw [if_neg hparent] at hi ⊢
        exact h.children_of_isBlock hi

/-- Every way in which reading changes content keeps it arranged. -/
theorem edit (h : c.Arranged) (htree : c.Tree) (hedit : c.Edit d) : d.Arranged := by
  cases hedit with
  | root hbare _ hinsert => exact h.insert? hbare hinsert
  | hung hbare _ hp hlast hhang => exact h.hang? htree hbare hp hlast hhang
  | changed i hf =>
    refine h.congr (parent_modify hf) (listed_modify hf) fun {j} hj => ?_
    rw [(alike_modify hf j).isBlock_eq] at hj
    rw [children_modify hf, h.children_of_isBlock hj]

end Arranged

/-! ## Going through the trees -/

/-- The nodes that hang nowhere. -/
def roots (c : Content) : List NodeId :=
  (List.range c.size).filter fun i => (c.node i).parent.isNone

/-- A node and what hangs under it within a number of generations, each node before what hangs under
it. -/
def walkWithin (c : Content) : (generations : Nat) → NodeId → List NodeId
  | 0, _ => []
  | generations + 1, i => i :: (c.node i).listed.flatMap (c.walkWithin generations)

/-- The tree under a node in pre-order. There are no more generations than nodes. -/
def walk (c : Content) (i : NodeId) : List NodeId :=
  c.walkWithin c.size i

/-- A node is under another one when it is that node, or under a child of it. -/
theorem Descends.mem_lineage_iff_child (h : c.Descends) {i k : Nat} :
    i ∈ c.lineage k ↔ k = i ∨ ∃ y, (c.node y).parent = some i ∧ y ∈ c.lineage k := by
  constructor
  · induction k using Nat.strongRecOn with
    | ind k ih =>
      intro hi
      obtain rfl | ⟨p, hp, hmem⟩ := h.mem_lineage_iff.1 hi
      · exact .inl rfl
      · right
        obtain rfl | ⟨y, hy, hyp⟩ := ih p (h.lt hp) hmem
        · exact ⟨k, hp, c.mem_lineage_self k⟩
        · exact ⟨y, hy, h.mem_lineage_trans (h.parent_mem hp) hyp⟩
  · rintro (rfl | ⟨y, hy, hyk⟩)
    · exact c.mem_lineage_self _
    · exact h.mem_lineage_trans hyk (h.parent_mem hy)

/-- Every line ends at a node that hangs nowhere. -/
theorem Descends.exists_root (h : c.Descends) (k : Nat) :
    ∃ r ∈ c.lineage k, (c.node r).parent = none := by
  induction k using Nat.strongRecOn with
  | ind k ih =>
    cases hp : (c.node k).parent with
    | none => exact ⟨k, c.mem_lineage_self k, hp⟩
    | some p =>
      obtain ⟨r, hr, hroot⟩ := ih p (h.lt hp)
      exact ⟨r, h.mem_lineage_trans (h.parent_mem hp) hr, hroot⟩

/-- What is read between a node and one under it is under the node, too. -/
theorem Arranged.mem_lineage_of_between (h : c.Arranged) (hd : c.Descends) {i j k : Nat}
    (hk : i ∈ c.lineage k) (hij : i ≤ j) (hjk : j ≤ k) : i ∈ c.lineage j := by
  induction k with
  | zero =>
    have hj : j = 0 := by omega
    rw [hj]
    exact hk
  | succ k ih =>
    by_cases hlast : j = k + 1
    · rw [hlast]
      exact hk
    · obtain hself | ⟨p, hp, hmem⟩ := hd.mem_lineage_iff.1 hk
      · omega
      · exact ih (hd.mem_lineage_trans (h.follows hp) hmem) (by omega)

/-- A walk from a node comes to nodes below it only. -/
theorem Tree.mem_lineage_of_mem_walkWithin (h : c.Tree) {generations : Nat} {i k : NodeId}
    (hk : k ∈ c.walkWithin generations i) : i ∈ c.lineage k := by
  induction generations generalizing i with
  | zero => cases hk
  | succ generations ih =>
    rcases List.mem_cons.1 hk with rfl | hk
    · exact c.mem_lineage_self k
    · obtain ⟨y, hy, hyk⟩ := List.mem_flatMap.1 hk
      exact h.descends.mem_lineage_iff_child.2 (.inr ⟨y, h.parent_of_listed hy, ih hyk⟩)

/-- What is under a node is met within as many generations as there are later nodes. -/
theorem Arranged.mem_walkWithin (h : c.Arranged) (hd : c.Descends) {generations i k : Nat}
    (hk : i ∈ c.lineage k) (hi : i < c.size) (hle : c.size ≤ i + generations) :
    k ∈ c.walkWithin generations i := by
  induction generations generalizing i with
  | zero => omega
  | succ generations ih =>
    obtain rfl | ⟨y, hy, hyk⟩ := hd.mem_lineage_iff_child.1 hk
    · exact List.mem_cons_self
    · have hlt := hd.lt hy
      have hmem := ih hyk (lt_size_of_parent hy) (by omega)
      exact List.mem_cons_of_mem _ (List.mem_flatMap.2 ⟨y, h.listed_of_parent hy, hmem⟩)

/-- A tree is gone through in the order in which its nodes were read. -/
theorem Tree.pairwise_walkWithin (h : c.Tree) (generations : Nat) (i : NodeId) :
    (c.walkWithin generations i).Pairwise (· < ·) := by
  induction generations generalizing i with
  | zero => exact .nil
  | succ generations ih =>
    refine List.pairwise_cons.2 ⟨fun k hk => ?_, List.pairwise_flatMap.2 ⟨fun y _ => ih y, ?_⟩⟩
    · obtain ⟨y, hy, hyk⟩ := List.mem_flatMap.1 hk
      have hbelow := h.descends.lt (h.parent_of_listed hy)
      have hle := h.descends.le_of_mem_lineage (h.mem_lineage_of_mem_walkWithin hyk)
      exact Nat.lt_of_lt_of_le hbelow hle
    · refine (h.ordered i).imp fun {y z} hyz a ha b hb => ?_
      have hbefore := hyz a (h.mem_lineage_of_mem_walkWithin ha)
      have hle := h.descends.le_of_mem_lineage (h.mem_lineage_of_mem_walkWithin hb)
      exact Nat.lt_of_lt_of_le hbefore hle

/-- The tree under a node is what was read from it on until something is no longer under it. -/
theorem Arranged.mem_walk_iff (h : c.Arranged) (htree : c.Tree) {i k : Nat} (hi : i < c.size) :
    k ∈ c.walk i ↔ i ∈ c.lineage k :=
  ⟨htree.mem_lineage_of_mem_walkWithin, fun hk =>
    h.mem_walkWithin htree.descends hk hi (Nat.le_add_left _ _)⟩

/-- Going through one tree after another meets the nodes in the order in which they were read. -/
theorem Arranged.flatMap_walk_roots (h : c.Arranged) (htree : c.Tree) :
    c.roots.flatMap c.walk = List.range c.size := by
  have hroot {r : Nat} (hr : r ∈ c.roots) : r < c.size ∧ (c.node r).parent = none := by
    obtain ⟨hlt, hnone⟩ := List.mem_filter.1 hr
    exact ⟨List.mem_range.1 hlt, Option.isNone_iff_eq_none.1 hnone⟩
  have hsorted : (c.roots.flatMap c.walk).Pairwise (· < ·) := by
    refine List.pairwise_flatMap.2 ⟨fun r _ => htree.pairwise_walkWithin _ r, ?_⟩
    refine (List.pairwise_lt_range.filter _).imp_of_mem fun {r r'} hr hr' hlt x hx y hy => ?_
    obtain ⟨-, hnone⟩ := hroot hr'
    have hrx := htree.mem_lineage_of_mem_walkWithin hx
    have hle := htree.descends.le_of_mem_lineage (htree.mem_lineage_of_mem_walkWithin hy)
    -- a later root cannot lie between an earlier one and what is under that
    refine Nat.lt_of_lt_of_le (Nat.lt_of_not_le fun hx' => ?_) hle
    have habove := h.mem_lineage_of_between htree.descends hrx (Nat.le_of_lt hlt) hx'
    rw [lineage_of_root hnone] at habove
    exact absurd (List.mem_singleton.1 habove) (Nat.ne_of_lt hlt)
  refine hsorted.eq_of_mem_iff List.pairwise_lt_range fun k => ?_
  rw [List.mem_range, List.mem_flatMap]
  constructor
  · rintro ⟨r, hr, hk⟩
    have hrk := htree.mem_lineage_of_mem_walkWithin hk
    refine Nat.lt_of_not_le fun hle => ?_
    rw [lineage_of_root (by rw [node_eq_default hle]; rfl)] at hrk
    have hlt := (hroot hr).1
    rw [List.mem_singleton.1 hrk] at hlt
    exact Nat.not_le_of_lt hlt hle
  · intro hk
    obtain ⟨r, hr, hnone⟩ := htree.descends.exists_root k
    have hlt := Nat.lt_of_le_of_lt (htree.descends.le_of_mem_lineage hr) hk
    refine ⟨r, List.mem_filter.2 ⟨List.mem_range.2 hlt, ?_⟩, (h.mem_walk_iff htree hlt).2 hr⟩
    rw [hnone]
    rfl

end Content

end Narrative
