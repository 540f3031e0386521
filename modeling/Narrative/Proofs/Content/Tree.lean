import Mathlib.Data.List.Nodup
import Mathlib.Data.List.Pairwise
import Narrative.Proofs.Content

/-!
# The tree of the nodes

Nodes hang under nodes that were read before them, so the nodes above a node are a finite line. In
content that is a tree, the nodes under a node stand in the order in which they were read, with all
that hangs under one of them before the next. Content that is read further keeps the nodes it has.
-/

namespace Narrative

namespace Node

/-- The lists of nodes under this one: the lines of each option of a block, or else its
children. -/
def lists (n : Node) : List (List NodeId) :=
  match n.kind with
  | .block _ options => options.map (·.lines)
  | _ => [n.children]

/-- All nodes that are listed under this one. -/
def listed (n : Node) : List NodeId :=
  n.lists.flatten

/-- What is played inside a node is one of its lists, or nothing. -/
theorem childrenAt_mem_lists {n : Node} {selection : Nat} (h : n.childrenAt selection ≠ []) :
    n.childrenAt selection ∈ n.lists := by
  unfold childrenAt at h ⊢
  unfold lists
  cases hkind : n.kind with
  | block mode options =>
    simp only [hkind] at h ⊢
    cases hoption : options[selection]? with
    | none => simp [hoption] at h
    | some o => exact List.mem_map.2 ⟨o, List.mem_of_getElem? hoption, by simp⟩
  | _ => simp

/-- A node that is played inside this one is listed under it. -/
theorem mem_listed_of_mem_childrenAt {n : Node} {selection : Nat} {i : NodeId}
    (h : i ∈ n.childrenAt selection) : i ∈ n.listed :=
  List.mem_flatten.2 ⟨_, childrenAt_mem_lists (List.ne_nil_of_mem h), h⟩

/-- A further child is listed last. -/
theorem listed_addChild (n : Node) (child : NodeId) :
    (n.addChild child).listed = n.listed ++ [child] := by
  unfold addChild listed lists
  cases hkind : n.kind with
  | block mode options =>
    rcases List.eq_nil_or_concat options with rfl | ⟨before, last, rfl⟩
    · simp
    · simp
  | _ => simp

/-- A further option lists nothing. -/
theorem listed_addOption (n : Node) (guard : Option String) :
    (n.addOption guard).listed = n.listed := by
  unfold addOption listed lists
  cases hkind : n.kind with
  | block mode options => simp
  | _ => simp [hkind]

/-- A node that hangs nowhere, and under which nothing hangs. -/
structure Bare (n : Node) : Prop where
  /-- It has no parent. -/
  parent : n.parent = none
  /-- It has no children. -/
  children : n.children = []
  /-- It has no lines. -/
  lines {o : BlockOption} : o ∈ n.options → o.lines = []

/-- Giving a node a level hangs nothing under it. -/
theorem Bare.withLevel {n : Node} (h : n.Bare) (level : Nat) : { n with level }.Bare :=
  ⟨h.parent, h.children, h.lines⟩

/-- Nothing is listed under it. -/
theorem Bare.listed {n : Node} (h : n.Bare) : n.listed = [] := by
  unfold Node.listed lists
  cases hkind : n.kind with
  | block mode options =>
    simp only [List.flatten_eq_nil_iff, List.mem_map]
    rintro _ ⟨o, ho, rfl⟩
    exact h.lines (by rw [Node.options, hkind]; exact ho)
  | _ => simp [h.children]

/-- Whether the node is a knot or a function, which hang nowhere. -/
def isTop (n : Node) : Bool :=
  n.isKnot || n.isFunction

/-- Two nodes are alike when they are of the same kind or both blocks. -/
def Alike (n m : Node) : Prop :=
  n.kind = m.kind ∨ n.isBlock = true ∧ m.isBlock = true

/-- A node with one more child is alike. -/
theorem alike_addChild (n : Node) (child : NodeId) : (n.addChild child).Alike n := by
  unfold addChild
  split
  · next hkind => exact .inr ⟨rfl, by rw [isBlock, hkind]⟩
  · exact .inl rfl

/-- A block with one more option is alike. -/
theorem alike_addOption (n : Node) (guard : Option String) : (n.addOption guard).Alike n := by
  unfold addOption
  split
  · next hkind => exact .inr ⟨rfl, by rw [isBlock, hkind]⟩
  · exact .inl rfl

/-- The kind of a block says so. -/
theorem kind_of_isBlock {n : Node} (h : n.isBlock = true) :
    ∃ mode options, n.kind = .block mode options := by
  unfold isBlock at h
  split at h
  · next mode options hkind => exact ⟨mode, options, hkind⟩
  · cases h

section Alike

variable {n m : Node} (h : n.Alike m)

include h

/-- Nodes that are alike are both blocks, or none is. -/
theorem Alike.isBlock_eq : n.isBlock = m.isBlock := by
  obtain hkind | ⟨hn, hm⟩ := h
  · rw [isBlock, isBlock, hkind]
  · rw [hn, hm]

/-- Nodes that are alike are both knots, or none is. -/
theorem Alike.isKnot_eq : n.isKnot = m.isKnot := by
  obtain hkind | ⟨hn, hm⟩ := h
  · rw [isKnot, isKnot, hkind]
  · obtain ⟨_, _, hn⟩ := kind_of_isBlock hn
    obtain ⟨_, _, hm⟩ := kind_of_isBlock hm
    rw [isKnot, isKnot, hn, hm]

/-- Nodes that are alike are both at the top, or none is. -/
theorem Alike.isTop_eq : n.isTop = m.isTop := by
  obtain hkind | ⟨hn, hm⟩ := h
  · rw [isTop, isTop, isKnot, isKnot, isFunction, isFunction, hkind]
  · obtain ⟨_, _, hn⟩ := kind_of_isBlock hn
    obtain ⟨_, _, hm⟩ := kind_of_isBlock hm
    rw [isTop, isTop, isKnot, isKnot, isFunction, isFunction, hn, hm]

/-- Nodes that are alike are both choices, or none is. -/
theorem Alike.isChoice_eq : n.isChoice = m.isChoice := by
  obtain hkind | ⟨hn, hm⟩ := h
  · rw [isChoice, isChoice, hkind]
  · obtain ⟨_, _, hn⟩ := kind_of_isBlock hn
    obtain ⟨_, _, hm⟩ := kind_of_isBlock hm
    rw [isChoice, isChoice, hn, hm]

/-- Nodes that are alike are both gathers, or none is. -/
theorem Alike.isGather_eq : n.isGather = m.isGather := by
  obtain hkind | ⟨hn, hm⟩ := h
  · rw [isGather, isGather, hkind]
  · obtain ⟨_, _, hn⟩ := kind_of_isBlock hn
    obtain ⟨_, _, hm⟩ := kind_of_isBlock hm
    rw [isGather, isGather, hn, hm]

/-- What is alike to a node that is alike is alike. -/
theorem Alike.trans {k : Node} (h' : m.Alike k) : n.Alike k := by
  have hblock := h.isBlock_eq
  obtain hkind | ⟨hn, hm⟩ := h
  · obtain hkind' | ⟨hm, hk⟩ := h'
    · exact .inl (hkind.trans hkind')
    · exact .inr ⟨hblock.trans hm, hk⟩
  · exact .inr ⟨hn, h'.isBlock_eq ▸ hm⟩

end Alike

end Node

namespace Content

variable {c d : Content}

/-! ## Lines of descent -/

/-- Every node hangs under a node that was read before it, or nowhere. -/
structure Descends (c : Content) : Prop where
  /-- The parent of a node was read before it. -/
  lt {i p : Nat} : (c.node i).parent = some p → p < i

/-- More steps than the position says find no more nodes above it. -/
theorem Descends.above_eq (h : c.Descends) {steps i : Nat} (hle : i ≤ steps) :
    c.above steps i = c.ancestors i := by
  induction i using Nat.strongRecOn generalizing steps with
  | ind i ih =>
    unfold ancestors
    cases hparent : (c.node i).parent with
    | none => cases steps <;> cases i <;> simp [above, hparent]
    | some p =>
      have hlt := h.lt hparent
      obtain ⟨steps, rfl⟩ : ∃ n, steps = n + 1 := ⟨steps - 1, by omega⟩
      obtain ⟨k, rfl⟩ : ∃ k, i = k + 1 := ⟨i - 1, by omega⟩
      rw [above, above, hparent]
      simp only
      rw [ih p hlt (by omega), ih p hlt (by omega)]

/-- A node that hangs nowhere is alone in its line. -/
theorem lineage_of_root {i : NodeId} (hi : (c.node i).parent = none) : c.lineage i = [i] := by
  unfold lineage ancestors
  cases i <;> simp [above, hi]

/-- The line of a node goes on with that of its parent. -/
theorem Descends.lineage_of_parent (h : c.Descends) {i p : Nat}
    (hi : (c.node i).parent = some p) : c.lineage i = i :: c.lineage p := by
  have hlt := h.lt hi
  obtain ⟨k, rfl⟩ : ∃ k, i = k + 1 := ⟨i - 1, by omega⟩
  rw [lineage, lineage, ancestors, above, hi]
  simp only
  rw [h.above_eq (by omega)]

/-- A node is in its own line. -/
theorem mem_lineage_self (c : Content) (i : NodeId) : i ∈ c.lineage i :=
  List.mem_cons_self

/-- The parent of a node is in its line. -/
theorem Descends.parent_mem (h : c.Descends) {i p : Nat} (hi : (c.node i).parent = some p) :
    p ∈ c.lineage i := by
  rw [h.lineage_of_parent hi]
  exact List.mem_cons_of_mem _ (c.mem_lineage_self p)

/-- What is in the line of a node is the node or in the line of its parent. -/
theorem Descends.mem_lineage_iff (h : c.Descends) {i j : Nat} :
    j ∈ c.lineage i ↔ j = i ∨ ∃ p, (c.node i).parent = some p ∧ j ∈ c.lineage p := by
  cases hparent : (c.node i).parent with
  | none => simp [lineage_of_root hparent]
  | some p => simp [h.lineage_of_parent hparent]

/-- What is in the line of a node was read before it. -/
theorem Descends.le_of_mem_lineage (h : c.Descends) {i j : Nat} (hj : j ∈ c.lineage i) :
    j ≤ i := by
  induction i using Nat.strongRecOn with
  | ind i ih =>
    obtain rfl | ⟨p, hp, hj⟩ := h.mem_lineage_iff.1 hj
    · exact Nat.le_refl _
    · exact Nat.le_trans (ih p (h.lt hp) hj) (Nat.le_of_lt (h.lt hp))

/-- The line of a node ends with that of each node in it. -/
theorem Descends.exists_lineage_eq (h : c.Descends) {i j : Nat} (hj : j ∈ c.lineage i) :
    ∃ before, c.lineage i = before ++ c.lineage j := by
  induction i using Nat.strongRecOn with
  | ind i ih =>
    obtain rfl | ⟨p, hp, hj⟩ := h.mem_lineage_iff.1 hj
    · exact ⟨[], rfl⟩
    · obtain ⟨before, hbefore⟩ := ih p (h.lt hp) hj
      exact ⟨i :: before, by rw [h.lineage_of_parent hp, hbefore, List.cons_append]⟩

/-- What is above a node above is above. -/
theorem Descends.mem_lineage_trans (h : c.Descends) {i j k : Nat} (hj : j ∈ c.lineage i)
    (hk : k ∈ c.lineage j) : k ∈ c.lineage i := by
  obtain ⟨before, hbefore⟩ := h.exists_lineage_eq hj
  rw [hbefore]
  exact List.mem_append_right _ hk

/-- Of two nodes in one line, the one that was read first is in the line of the other. -/
theorem Descends.mem_lineage_of_le (h : c.Descends) {i j k : Nat} (hj : j ∈ c.lineage i)
    (hk : k ∈ c.lineage i) (hle : k ≤ j) : k ∈ c.lineage j := by
  induction i using Nat.strongRecOn with
  | ind i ih =>
    obtain rfl | ⟨p, hp, hj'⟩ := h.mem_lineage_iff.1 hj
    · exact hk
    · obtain rfl | ⟨q, hq, hk'⟩ := h.mem_lineage_iff.1 hk
      · -- the last node of the line was read last
        have hji := h.le_of_mem_lineage hj
        rw [Nat.le_antisymm hji hle]
        exact c.mem_lineage_self _
      · rw [hp] at hq
        cases hq
        exact ih p (h.lt hp) hj' hk'

/-- A line has one node under each parent. -/
theorem Descends.eq_of_parent_eq (h : c.Descends) {i a b p : Nat} (ha : a ∈ c.lineage i)
    (hb : b ∈ c.lineage i) (hpa : (c.node a).parent = some p)
    (hpb : (c.node b).parent = some p) : a = b := by
  -- the one that was read first would be at most its own parent
  have hlate {a b : Nat} (hab : a ∈ c.lineage b) (hpa : (c.node a).parent = some p)
      (hpb : (c.node b).parent = some p) : a = b := by
    obtain hself | ⟨q, hq, hmem⟩ := h.mem_lineage_iff.1 hab
    · exact hself
    · rw [hpb] at hq
      cases hq
      exact absurd (h.le_of_mem_lineage hmem) (Nat.not_le.2 (h.lt hpa))
  rcases Nat.le_total a b with hle | hle
  · exact hlate (h.mem_lineage_of_le hb ha hle) hpa hpb
  · exact (hlate (h.mem_lineage_of_le ha hb hle) hpb hpa).symm

/-- The first node in a line with a property is below all others with it. -/
theorem Descends.mem_lineage_of_find? (h : c.Descends) {i j k : Nat} {p : NodeId → Bool}
    (hfind : (c.lineage i).find? p = some j) (hk : k ∈ c.lineage i) (hp : p k = true) :
    k ∈ c.lineage j := by
  induction i using Nat.strongRecOn with
  | ind i ih =>
    by_cases hhere : p i = true
    · rw [lineage, List.find?_cons, hhere] at hfind
      cases hfind
      exact hk
    · rw [Bool.not_eq_true] at hhere
      obtain rfl | ⟨q, hq, hk⟩ := h.mem_lineage_iff.1 hk
      · rw [hhere] at hp
        cases hp
      · rw [h.lineage_of_parent hq, List.find?_cons, hhere] at hfind
        exact ih q (h.lt hq) hfind hk

/-- Lines are a matter of parents. -/
theorem lineage_congr (h : ∀ i, (d.node i).parent = (c.node i).parent) (i : NodeId) :
    d.lineage i = c.lineage i := by
  have habove (steps i : Nat) : d.above steps i = c.above steps i := by
    induction steps generalizing i with
    | zero => rfl
    | succ steps ih =>
      rw [above, above, h]
      split
      · rfl
      · rw [ih]
  rw [lineage, lineage, ancestors, ancestors, habove]

/-- The line of a node stays where the parents of the nodes that were there stay. -/
theorem Descends.lineage_eq (hc : c.Descends) (hd : d.Descends)
    (h : ∀ {i : Nat}, i < c.size → (d.node i).parent = (c.node i).parent) {i : Nat}
    (hi : i < c.size) : d.lineage i = c.lineage i := by
  induction i using Nat.strongRecOn with
  | ind i ih =>
    cases hparent : (c.node i).parent with
    | none => rw [lineage_of_root hparent, lineage_of_root (by rw [h hi, hparent])]
    | some p =>
      have hp := hc.lt hparent
      rw [hc.lineage_of_parent hparent, hd.lineage_of_parent (by rw [h hi, hparent]),
        ih p hp (Nat.lt_trans hp hi)]

/-- What hangs under a node is a node. -/
theorem lt_size_of_parent {i p : Nat} (h : (c.node i).parent = some p) : i < c.size := by
  refine Nat.lt_of_not_le fun hle => ?_
  rw [node_eq_default hle] at h
  cases h

/-! ## Trees -/

/-- Nodes are listed under their parents and in the order in which they were read, with all that
hangs under one of them before the next. -/
structure Tree (c : Content) : Prop where
  /-- A node hangs under a node that was read before it. -/
  descends : c.Descends
  /-- A node is listed under its parent only. -/
  parent_of_listed {i j : Nat} : j ∈ (c.node i).listed → (c.node j).parent = some i
  /-- Knots and functions hang nowhere. -/
  top {i : Nat} : (c.node i).isTop = true → (c.node i).parent = none
  /-- What hangs under a node was read before the next one. -/
  ordered (p : Nat) : (c.node p).listed.Pairwise fun y z => ∀ i, y ∈ c.lineage i → i < z

namespace Tree

/-- A node hangs under the one that lists it. -/
theorem parent_of_mem_list (h : c.Tree) {i j : Nat} {list : List NodeId}
    (hlist : list ∈ (c.node i).lists) (hj : j ∈ list) : (c.node j).parent = some i :=
  h.parent_of_listed (List.mem_flatten.2 ⟨list, hlist, hj⟩)

/-- No node is listed twice under the same one. -/
theorem nodup_listed (h : c.Tree) (i : Nat) : (c.node i).listed.Nodup :=
  (h.ordered i).imp fun {y} _ hyz heq =>
    absurd (hyz y (c.mem_lineage_self y)) (by rw [heq]; exact Nat.lt_irrefl _)

/-- A node stands at one position in one list. -/
theorem position_eq (h : c.Tree) {i x : Nat} {list list' : List NodeId} {j k : Nat}
    (hlist : list ∈ (c.node i).lists) (hlist' : list' ∈ (c.node i).lists)
    (hj : list[j]? = some x) (hk : list'[k]? = some x) : list = list' ∧ j = k := by
  obtain ⟨hnodups, hdisjoint⟩ := List.nodup_flatten.1 (h.nodup_listed i)
  have heq : list = list' := by
    by_contra hne
    have hsymm : Std.Symm (α := List NodeId) List.Disjoint :=
      ⟨fun _ _ hd _ hx hy => hd hy hx⟩
    exact hdisjoint.forall hlist hlist' hne (List.mem_of_getElem? hj) (List.mem_of_getElem? hk)
  subst heq
  have hnodup : list.Nodup := hnodups list hlist
  have hlt := (List.getElem?_eq_some_iff.1 hj).1
  exact ⟨rfl, (List.getElem?_inj hlt hnodup).1 (hj.trans hk.symm)⟩

/-- What hangs under a node was read before the nodes that follow it in its list. -/
theorem lt_of_follows (h : c.Tree) {p b y i : Nat} {list : List NodeId} {j k : Nat}
    (hlist : list ∈ (c.node p).lists) (hj : list[j]? = some b) (hk : list[k]? = some y)
    (hjk : j < k) (hi : b ∈ c.lineage i) : i < y := by
  have hpairwise := (List.pairwise_flatten.1 (h.ordered p)).1 list hlist
  obtain ⟨hjlt, rfl⟩ := List.getElem?_eq_some_iff.1 hj
  obtain ⟨hklt, rfl⟩ := List.getElem?_eq_some_iff.1 hk
  exact List.pairwise_iff_getElem.1 hpairwise j k hjlt hklt hjk i hi

/-- Content without nodes is a tree. -/
theorem empty : ({} : Content).Tree where
  descends := ⟨fun h => absurd (lt_size_of_parent h) (Nat.not_lt_zero _)⟩
  parent_of_listed := by
    intro i j hj
    rw [node_eq_default (Nat.zero_le i)] at hj
    cases hj
  top := by
    intro i _
    rw [node_eq_default (Nat.zero_le i)]
    rfl
  ordered := by
    intro p
    rw [node_eq_default (Nat.zero_le p)]
    exact List.Pairwise.nil

/-- A tree is a matter of parents and lists. -/
theorem congr (h : c.Tree) (hparent : ∀ i, (d.node i).parent = (c.node i).parent)
    (hlisted : ∀ i, (d.node i).listed = (c.node i).listed)
    (htop : ∀ {i}, (d.node i).isTop = true → (d.node i).parent = none) : d.Tree where
  descends := by
    refine ⟨fun {i p} hi => h.descends.lt ?_⟩
    rwa [← hparent]
  parent_of_listed := by
    intro i j hj
    rw [hparent]
    rw [hlisted] at hj
    exact h.parent_of_listed hj
  top := htop
  ordered := by
    intro p
    rw [hlisted]
    refine (h.ordered p).imp fun {y z} hyz i hi => hyz i ?_
    rwa [← lineage_congr hparent]

/-- A node that hangs nowhere leaves the tree as it is. -/
theorem insert? {n : Node} (h : c.Tree) (hn : n.Bare) (hinsert : c.insert? n = some d) :
    d.Tree := by
  unfold Content.insert? at hinsert
  split at hinsert
  · cases hinsert
  · cases hinsert
    have hnode (i : NodeId) :
        (⟨c.nodes.push n⟩ : Content).node i = n ∧ c.node i = default ∨
          (⟨c.nodes.push n⟩ : Content).node i = c.node i := by
      rw [node_push]
      split
      · next hi => exact .inl ⟨rfl, node_eq_default (Nat.le_of_eq hi.symm)⟩
      · exact .inr rfl
    refine h.congr (fun i => ?_) (fun i => ?_) fun {i} hi => ?_
    · obtain ⟨hnew, hold⟩ | hold := hnode i
      · rw [hnew, hold, hn.parent]
        rfl
      · rw [hold]
    · obtain ⟨hnew, hold⟩ | hold := hnode i
      · rw [hnew, hold, hn.listed]
        rfl
      · rw [hold]
    · obtain ⟨hnew, -⟩ | hold := hnode i
      · rw [hnew, hn.parent]
      · rw [hold] at hi ⊢
        exact h.top hi

/-- A change that keeps the parent and the lists of a node leaves the tree as it is. -/
theorem modify (h : c.Tree) (i : NodeId) {f : Node → Node}
    (hparent : ∀ n, (f n).parent = n.parent) (hlisted : ∀ n, (f n).listed = n.listed)
    (halike : ∀ n, (f n).Alike n) : (c.modify i f).Tree := by
  have hnode (j : NodeId) :
      (c.modify i f).node j = f (c.node j) ∨ (c.modify i f).node j = c.node j := by
    rw [node_modify]
    split
    · exact .inl rfl
    · exact .inr rfl
  refine h.congr (fun j => ?_) (fun j => ?_) fun {j} hj => ?_
  · obtain hnew | hold := hnode j
    · rw [hnew, hparent]
    · rw [hold]
  · obtain hnew | hold := hnode j
    · rw [hnew, hlisted]
    · rw [hold]
  · obtain hnew | hold := hnode j
    · rw [hnew, (halike _).isTop_eq] at hj
      rw [hnew, hparent]
      exact h.top hj
    · rw [hold] at hj ⊢
      exact h.top hj

section Hanging

variable {p : NodeId} {n : Node} (h : c.Tree) (hn : n.Bare) (hp : p < c.size)
  (hhang : c.hang? p n = some d)

include hp hhang

omit h hn in
/-- Where a node is hung, only that node gets a parent. -/
theorem parent_of_hang? (i : NodeId) :
    (d.node i).parent = if i = c.size then some p else (c.node i).parent := by
  rw [node_of_hang? hhang hp]
  split
  · rfl
  · split
    · next hi =>
      rw [addChild_parent, hi]
    · rfl

include hn

omit h in
/-- Only its parent lists one node more. -/
theorem listed_of_hang? (i : NodeId) :
    (d.node i).listed = (c.node i).listed ++ if i = p then [c.size] else [] := by
  rw [node_of_hang? hhang hp]
  by_cases hnew : i = c.size
  · have hne : i ≠ p := by
      rw [hnew]
      exact Ne.symm (Nat.ne_of_lt hp)
    have hbare : ({ n with parent := some p } : Node).listed = [] := hn.listed
    rw [if_pos hnew, if_neg hne, hbare, node_eq_default (Nat.le_of_eq hnew.symm)]
    rfl
  · by_cases hparent : i = p
    · rw [if_neg hnew, if_pos hparent, if_pos hparent, Node.listed_addChild, hparent]
    · rw [if_neg hnew, if_neg hparent, if_neg hparent, List.append_nil]

omit hn

include h

/-- The line of every node still ends. -/
theorem descends_of_hang? : d.Descends := by
  refine ⟨fun {i q} hi => ?_⟩
  rw [parent_of_hang? hp hhang] at hi
  split at hi
  · next hnew =>
    cases hi
    rw [hnew]
    exact hp
  · exact h.descends.lt hi

/-- The line of a node that was there stays. -/
theorem lineage_of_hang? {i : Nat} (hi : i ≠ c.size) : d.lineage i = c.lineage i := by
  have hd := descends_of_hang? h hp hhang
  induction i using Nat.strongRecOn with
  | ind i ih =>
    have hsame := parent_of_hang? hp hhang i
    rw [if_neg hi] at hsame
    cases hparent : (c.node i).parent with
    | none => rw [lineage_of_root hparent, lineage_of_root (hsame.trans hparent)]
    | some q =>
      have hq := h.descends.lt hparent
      have hne : q ≠ c.size := Nat.ne_of_lt (Nat.lt_trans hq (lt_size_of_parent hparent))
      rw [hd.lineage_of_parent (hsame.trans hparent), h.descends.lineage_of_parent hparent,
        ih q hq hne]

/-- The line of the new node goes on with that of its parent. -/
theorem lineage_size_of_hang? : d.lineage c.size = c.size :: c.lineage p := by
  have hd := descends_of_hang? h hp hhang
  have hparent := parent_of_hang? hp hhang c.size
  rw [if_pos rfl] at hparent
  rw [hd.lineage_of_parent hparent, lineage_of_hang? h hp hhang (Nat.ne_of_lt hp)]

include hn

/-- A new node may hang under the node that was read last and under those above it. -/
theorem hang? (hlast : p ∈ c.lineage (c.size - 1)) (htop : n.isTop = false) : d.Tree where
  descends := descends_of_hang? h hp hhang
  parent_of_listed := by
    intro i j hj
    rw [parent_of_hang? hp hhang]
    rw [listed_of_hang? hn hp hhang] at hj
    rcases List.mem_append.1 hj with hj | hj
    · have hparent := h.parent_of_listed hj
      rw [if_neg (Nat.ne_of_lt (lt_size_of_parent hparent)), hparent]
    · split at hj
      · next hi => rw [if_pos (List.mem_singleton.1 hj), hi]
      · cases hj
  top := by
    intro i hi
    rw [parent_of_hang? hp hhang]
    rw [node_of_hang? hhang hp] at hi
    split
    · next hnew =>
      rw [if_pos hnew] at hi
      have hkept : ({ n with parent := some p } : Node).isTop = n.isTop := rfl
      rw [hkept, htop] at hi
      cases hi
    · next hold =>
      rw [if_neg hold] at hi
      split at hi
      · next hparent =>
        rw [(Node.alike_addChild _ _).isTop_eq] at hi
        rw [hparent]
        exact h.top hi
      · exact h.top hi
  ordered := by
    intro q
    rw [listed_of_hang? hn hp hhang]
    refine List.pairwise_append.2 ⟨?_, ?_, ?_⟩
    · -- among the nodes that were there, the new node is under none but the last
      refine (h.ordered q).imp_of_mem fun {y z} _ hz hyz i hi => ?_
      by_cases hnew : i = c.size
      · subst hnew
        rw [lineage_size_of_hang? h hp hhang] at hi
        have hzlt := lt_size_of_parent (h.parent_of_listed hz)
        rcases List.mem_cons.1 hi with rfl | hi
        · exact hyz c.size (c.mem_lineage_self _)
        · have hbefore : c.size - 1 < z :=
            hyz (c.size - 1) (h.descends.mem_lineage_trans hlast hi)
          omega
      · rw [lineage_of_hang? h hp hhang hnew] at hi
        exact hyz i hi
    · split
      · exact List.pairwise_singleton _ _
      · exact List.Pairwise.nil
    · intro y hy z hz i hi
      split at hz
      · next hqp =>
        subst hqp
        rw [List.mem_singleton.1 hz]
        have hparent := h.parent_of_listed hy
        have hylt := lt_size_of_parent hparent
        by_cases hnew : i = c.size
        · subst hnew
          rw [lineage_size_of_hang? h hp hhang] at hi
          rcases List.mem_cons.1 hi with rfl | hi
          · exact hylt
          · have hle := h.descends.le_of_mem_lineage hi
            have hlt := h.descends.lt hparent
            omega
        · rw [lineage_of_hang? h hp hhang hnew] at hi
          refine Nat.lt_of_not_le fun hle => ?_
          rcases List.mem_cons.1 (lineage_of_root (c := c) (i := i) (by
            rw [node_eq_default hle]; rfl) ▸ hi) with rfl | hnil
          · omega
          · cases hnil
      · cases hz

end Hanging

end Tree

/-- A node is inside a function when the line of nodes above it ends in one. -/
def InFunction (c : Content) (i : NodeId) : Prop :=
  ∃ f ∈ c.lineage i, (c.node f).isFunction = true

/-- What hangs under a node outside of functions is outside, too. -/
theorem Tree.not_inFunction_of_parent (h : c.Tree) {i p : Nat} (hi : (c.node i).parent = some p)
    (hp : ¬ c.InFunction p) : ¬ c.InFunction i := by
  rintro ⟨f, hf, hfunction⟩
  obtain rfl | ⟨q, hq, hmem⟩ := h.descends.mem_lineage_iff.1 hf
  · rw [h.top (by rw [Node.isTop, hfunction, Bool.or_true])] at hi
    cases hi
  · rw [hi] at hq
    cases hq
    exact hp ⟨f, hmem, hfunction⟩

/-- What is above a node outside of functions is outside, too. -/
theorem Descends.not_inFunction_of_mem (h : c.Descends) {i j : Nat} (hj : j ∈ c.lineage i)
    (hi : ¬ c.InFunction i) : ¬ c.InFunction j := fun ⟨f, hf, hfunction⟩ =>
  hi ⟨f, h.mem_lineage_trans hj hf, hfunction⟩

/-- The nodes that a call of a function plays inside: the function, and the blocks in its body. -/
inductive Called (c : Content) : NodeId → Prop
  /-- The function. -/
  | function {i : NodeId} : (c.node i).isFunction = true → Called c i
  /-- A block in what is played. -/
  | block {p i : NodeId} :
      Called c p → i ∈ (c.node p).listed → (c.node i).isBlock = true → Called c i

/-- What a call plays is inside a function. -/
theorem Tree.inFunction_of_called (h : c.Tree) {i : NodeId} (hi : c.Called i) :
    c.InFunction i := by
  induction hi with
  | @function i hfunction => exact ⟨i, c.mem_lineage_self i, hfunction⟩
  | @block p i _ hlisted _ ih =>
    obtain ⟨f, hf, hfunction⟩ := ih
    exact ⟨f, h.descends.mem_lineage_trans (h.descends.parent_mem (h.parent_of_listed hlisted)) hf,
      hfunction⟩

/-! ## Content that is read further -/

/-- The content `d` begins with the nodes of `c`. -/
structure Extends (d c : Content) : Prop where
  /-- There are no fewer nodes. -/
  size_le : c.size ≤ d.size
  /-- The nodes are the same. -/
  node_eq {i : Nat} : i < c.size → d.node i = c.node i

namespace Extends

/-- Content begins with its own nodes. -/
theorem refl (c : Content) : c.Extends c :=
  ⟨Nat.le_refl _, fun _ => rfl⟩

/-- What begins with content begins with what that begins with. -/
theorem trans {c d e : Content} (h : e.Extends d) (h' : d.Extends c) : e.Extends c :=
  ⟨Nat.le_trans h'.size_le h.size_le, fun hi =>
    (h.node_eq (Nat.lt_of_lt_of_le hi h'.size_le)).trans (h'.node_eq hi)⟩

/-- What was found under an id is still found under it. -/
theorem find?_eq_some (h : d.Extends c) {id : String} {i : NodeId} (hi : c.find? id = some i) :
    d.find? id = some i := by
  obtain ⟨hlt, hid, hfirst⟩ := Array.findIdx?_eq_some_iff_getElem.1 hi
  have hsize : c.nodes.size ≤ d.nodes.size := h.size_le
  have hnode {j : Nat} (hj : j < c.nodes.size) (hj' : j < d.nodes.size) :
      d.nodes[j] = c.nodes[j] := by
    rw [← node_eq_getElem hj', ← node_eq_getElem hj]
    exact h.node_eq hj
  have hlt' : i < d.nodes.size := Nat.lt_of_lt_of_le hlt hsize
  refine Array.findIdx?_eq_some_iff_getElem.2 ⟨hlt', ?_, ?_⟩
  · rw [hnode hlt hlt']
    exact hid
  · intro j hj
    rw [hnode (Nat.lt_trans hj hlt) (Nat.lt_trans hj hlt')]
    exact hfirst j hj

/-- The line of a node stays the same. -/
theorem lineage_eq (h : d.Extends c) (hd : d.Descends) (hc : c.Descends) {i : Nat}
    (hi : i < c.size) : d.lineage i = c.lineage i :=
  hc.lineage_eq hd (fun hi => by rw [h.node_eq hi]) hi

/-- A node is still inside a function or outside of all. -/
theorem inFunction_iff (h : d.Extends c) (hd : d.Descends) (hc : c.Descends) {i : Nat}
    (hi : i < c.size) : d.InFunction i ↔ c.InFunction i := by
  unfold InFunction
  rw [h.lineage_eq hd hc hi]
  refine exists_congr fun f => and_congr_right fun hf => ?_
  rw [h.node_eq (Nat.lt_of_le_of_lt (hc.le_of_mem_lineage hf) hi)]

end Extends

end Content

end Narrative
