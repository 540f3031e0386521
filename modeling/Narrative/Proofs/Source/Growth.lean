import Narrative.Proofs.Source.Reading

/-!
# What reading keeps

The content stays sound and a tree while sources are read, because new nodes hang under the node
that was read last or under those above it. The nodes that were there before a source are not
touched by it.
-/

namespace Narrative

open Relation

namespace Draft

variable {d d' : Draft}

/-! ## Sound content -/

/-- The content is sound, and the places where reading goes on are nodes of it. -/
structure Sound (d : Draft) : Prop where
  /-- The content is sound. -/
  content : d.content.Sound
  /-- The container of the next line is a node. -/
  current {i : Nat} : d.current = some i → i < d.content.size
  /-- The open blocks are nodes. -/
  blocks {i : Nat} : i ∈ d.blocks → i < d.content.size

/-- What is found above the current container is in its line. -/
theorem mem_lineage_of_nearest? {p : Node → Bool} {i : NodeId} (hi : d.nearest? p = some i) :
    ∃ current, d.current = some current ∧ i ∈ d.content.lineage current := by
  obtain ⟨current, hcurrent, hfind⟩ := Option.bind_eq_some_iff.1 hi
  exact ⟨current, hcurrent, List.mem_of_find?_eq_some hfind⟩

/-- What is nearest is a node. -/
theorem Sound.lt_of_nearest? (h : d.Sound) {p : Node → Bool} {i : NodeId}
    (hi : d.nearest? p = some i) : i < d.content.size := by
  obtain ⟨current, hcurrent, hmem⟩ := mem_lineage_of_nearest? hi
  exact Content.lt_size_of_lineage h.content.parent (h.current hcurrent) hmem

/-- With a further node the places that were nodes still are. -/
theorem Sound.extend (h : d.Sound) {c : Content} (hc : c.Sound)
    (hsize : c.size = d.content.size + 1)
    {current : Option NodeId} (hcurrent : current = d.current ∨ current = some d.content.size)
    {blocks : List NodeId} (hblocks : blocks = d.blocks ∨ blocks = d.content.size :: d.blocks)
    (start : Option NodeId) : Sound { d with content := c, current, blocks, start } where
  content := hc
  current := by
    intro i hi
    change i < c.size
    rw [hsize]
    rcases hcurrent with rfl | rfl
    · exact Nat.lt_succ_of_lt (h.current hi)
    · cases hi
      exact Nat.lt_succ_self _
  blocks := by
    intro i hi
    change i < c.size
    rw [hsize]
    rcases hblocks with rfl | rfl
    · exact Nat.lt_succ_of_lt (h.blocks hi)
    · rcases List.mem_cons.1 hi with rfl | hi
      · exact Nat.lt_succ_self _
      · exact Nat.lt_succ_of_lt (h.blocks hi)

/-- Every step of reading keeps the content sound. -/
theorem Sound.grow (h : d.Sound) (hgrow : d.Grow d') : d'.Sound := by
  cases hgrow with
  | note line includes => exact ⟨h.content, h.current, h.blocks⟩
  | root _ hbare _ hinsert _ =>
    exact h.extend (h.content.insert? hbare.parent hinsert) (Content.size_of_insert? hinsert)
      (.inr rfl) (.inl rfl) _
  | leaf hp hbare _ hhang =>
    exact h.extend (Content.Sound.hang? hhang h.content hbare.parent (h.current hp))
      (Content.size_of_hang? hhang) (.inl rfl) (.inl rfl) _
  | branch hp _ hbare _ hhang =>
    exact h.extend (Content.Sound.hang? hhang h.content hbare.parent (h.lt_of_nearest? hp))
      (Content.size_of_hang? hhang) (.inr rfl) (.inl rfl) _
  | opening hp hbare _ hhang =>
    exact h.extend (Content.Sound.hang? hhang h.content hbare.parent (h.current hp))
      (Content.size_of_hang? hhang) (.inr rfl) (.inr rfl) _
  | @option block blocks guard hblocks =>
    have hblock : block < d.content.size := h.blocks (hblocks ▸ List.mem_cons_self)
    refine ⟨?_, ?_, ?_⟩
    · exact h.content.modify_kept _ (Content.addOption_id · _) (Content.addOption_parent · _)
    · rintro i ⟨⟩
      rwa [Content.size_modify]
    · intro i hi
      rw [Content.size_modify]
      exact h.blocks hi
  | @close block blocks hblocks =>
    refine ⟨h.content, fun hi => h.content.parent hi, fun hi => h.blocks ?_⟩
    rw [hblocks]
    exact List.mem_cons_of_mem _ hi
  | background name hp =>
    refine ⟨?_, ?_, ?_⟩
    · exact h.content.modify_kept _ (fun _ => rfl) fun _ => rfl
    · intro i hi
      rw [Content.size_modify]
      exact h.current hi
    · intro i hi
      rw [Content.size_modify]
      exact h.blocks hi

/-- Reading on leaves a draft sound. -/
theorem Sound.grows (h : d.Sound) (hgrows : d.Grows d') : d'.Sound := by
  induction hgrows with
  | refl => exact h
  | tail _ hgrow ih => exact ih.grow hgrow

/-! ## Content that is a tree -/

/-- The content is a tree, and reading goes on at its end: the current container is above the node
that was read last, and the open blocks are above the current container. -/
structure Grown (d : Draft) : Prop where
  /-- The content is sound, and the places where reading goes on are nodes. -/
  sound : d.Sound
  /-- The content is a tree. -/
  tree : d.content.Tree
  /-- The current container is above the last node. -/
  current {i : Nat} : d.current = some i → i ∈ d.content.lineage (d.content.size - 1)
  /-- The open blocks are blocks above the current container. -/
  blocks {b : Nat} : b ∈ d.blocks → (d.content.node b).isBlock = true ∧
    ∃ i, d.current = some i ∧ b ∈ d.content.lineage i
  /-- Of two open blocks the inner one was read later. -/
  nested : d.blocks.Pairwise fun inner outer => outer < inner

/-- Where the nearest container is found, the open blocks are above it. -/
theorem Grown.mem_lineage_of_nearest? (h : d.Grown) {holds : Node → Bool} {p b : NodeId}
    (hp : d.nearest? holds = some p) (hb : b ∈ d.blocks)
    (hholds : ∀ m : Node, m.isBlock = true → holds m = true) : b ∈ d.content.lineage p := by
  obtain ⟨hblock, i, hi, hmem⟩ := h.blocks hb
  rw [nearest?, hi, Option.bind_some] at hp
  exact h.tree.descends.mem_lineage_of_find? hp hmem (hholds _ hblock)

/-- A draft whose nodes have the parents and lists they had is as grown as it was. -/
theorem Grown.modify (h : d.Grown) (i : NodeId) {f : Node → Node}
    (hid : ∀ n, (f n).id = n.id) (hparent : ∀ n, (f n).parent = n.parent)
    (hlisted : ∀ n, (f n).listed = n.listed) (halike : ∀ n, (f n).Alike n) :
    Grown { d with content := d.content.modify i f } := by
  have hnode (j : NodeId) : (d.content.modify i f).node j = f (d.content.node j) ∨
      (d.content.modify i f).node j = d.content.node j := by
    rw [Content.node_modify]
    split
    · exact .inl rfl
    · exact .inr rfl
  have hlineage (j : NodeId) : (d.content.modify i f).lineage j = d.content.lineage j := by
    refine Content.lineage_congr (fun k => ?_) j
    obtain hnew | hold := hnode k
    · rw [hnew, hparent]
    · rw [hold]
  refine ⟨⟨h.sound.content.modify_kept i hid hparent, ?_, ?_⟩,
    h.tree.modify i hparent hlisted halike, ?_, ?_, h.nested⟩
  · intro j hj
    rw [Content.size_modify]
    exact h.sound.current hj
  · intro j hj
    rw [Content.size_modify]
    exact h.sound.blocks hj
  · intro j hj
    rw [hlineage, Content.size_modify]
    exact h.current hj
  · intro b hb
    obtain ⟨hblock, j, hj, hmem⟩ := h.blocks hb
    refine ⟨?_, j, hj, ?_⟩
    · obtain hnew | hold := hnode b
      · rw [hnew, (halike _).isBlock_eq, hblock]
      · rw [hold, hblock]
    · rw [hlineage]
      exact hmem

/-- A new node is hung under a node at the end, where the open blocks are above it. -/
theorem Grown.hang (h : d.Grown) {p : NodeId} {n : Node} {c : Content}
    (hlast : p ∈ d.content.lineage (d.content.size - 1)) (hp : p < d.content.size)
    (hblocks : ∀ b ∈ d.blocks, b ∈ d.content.lineage p) (hbare : n.Bare) (htop : n.isTop = false)
    (hhang : d.content.hang? p n = some c) {current : Option NodeId}
    (hcurrent : current = some p ∧ d.current = some p ∨ current = some d.content.size)
    {blocks : List NodeId}
    (hopen : blocks = d.blocks ∨ n.isBlock = true ∧ current = some d.content.size ∧
      blocks = d.content.size :: d.blocks) :
    Grown { d with content := c, current, blocks } := by
  have hline := Content.Tree.lineage_size_of_hang? h.tree hp hhang
  have hsize := Content.size_of_hang? hhang
  have hlater : c.size - 1 = d.content.size := by omega
  have hwas {b : NodeId} (hb : b ∈ d.blocks) : (c.node b).isBlock = true := by
    have hlt : b ≠ d.content.size := Nat.ne_of_lt (h.sound.blocks hb)
    rw [Content.node_of_hang? hhang hp, if_neg hlt]
    split
    · next heq =>
      rw [(Node.alike_addChild _ _).isBlock_eq, ← heq]
      exact (h.blocks hb).1
    · exact (h.blocks hb).1
  have hmem {b : NodeId} (hb : b ∈ d.blocks) : ∃ i, current = some i ∧ b ∈ c.lineage i := by
    obtain ⟨hsame, -⟩ | hnew := hcurrent
    · refine ⟨p, hsame, ?_⟩
      rw [Content.Tree.lineage_of_hang? h.tree hp hhang (Nat.ne_of_lt hp)]
      exact hblocks b hb
    · refine ⟨d.content.size, hnew, ?_⟩
      rw [hline]
      exact List.mem_cons_of_mem _ (hblocks b hb)
  refine ⟨?_, h.tree.hang? hbare hp hhang hlast htop, ?_, ?_, ?_⟩
  · refine h.sound.extend (Content.Sound.hang? hhang h.sound.content hbare.parent hp) hsize ?_ ?_
      d.start
    · obtain ⟨hsame, hcur⟩ | hnew := hcurrent
      · exact .inl (hsame.trans hcur.symm)
      · exact .inr hnew
    · obtain hsame | ⟨-, -, hnew⟩ := hopen
      · exact .inl hsame
      · exact .inr hnew
  · intro i hi
    change i ∈ c.lineage (c.size - 1)
    rw [hlater, hline]
    obtain ⟨hsame, -⟩ | hnew := hcurrent
    · rw [hsame] at hi
      cases hi
      exact List.mem_cons_of_mem _ (Content.mem_lineage_self _ _)
    · rw [hnew] at hi
      cases hi
      exact List.mem_cons_self
  · intro b hb
    obtain rfl | ⟨hblock, hcur, rfl⟩ := hopen
    · exact ⟨hwas hb, hmem hb⟩
    · rcases List.mem_cons.1 hb with rfl | hb
      · refine ⟨?_, _, hcur, Content.mem_lineage_self _ _⟩
        change (c.node d.content.size).isBlock = true
        rw [Content.node_of_hang? hhang hp, if_pos rfl]
        exact hblock
      · exact ⟨hwas hb, hmem hb⟩
  · obtain rfl | ⟨-, -, rfl⟩ := hopen
    · exact h.nested
    · exact List.pairwise_cons.2 ⟨fun b hb => h.sound.blocks hb, h.nested⟩

/-- Stitches, choices and gathers are not at the top. -/
theorem isTop_of_hung {n : Node} (hkind : (n.isStitch || n.isChoice || n.isGather) = true) :
    n.isTop = false := by
  unfold Node.isStitch Node.isChoice Node.isGather at hkind
  unfold Node.isTop Node.isKnot Node.isFunction
  cases hn : n.kind with
  | knot | function => simp [hn] at hkind
  | _ => rfl

/-- What is no container is not at the top. -/
theorem isTop_of_leaf {n : Node} (hkind : n.isContainer = false) : n.isTop = false := by
  unfold Node.isContainer at hkind
  unfold Node.isTop Node.isKnot Node.isFunction
  cases hn : n.kind with
  | knot | function => simp [hn] at hkind
  | _ => rfl

/-- A block is not at the top. -/
theorem isTop_of_isBlock {n : Node} (hn : n.isBlock = true) : n.isTop = false := by
  obtain ⟨mode, options, hkind⟩ := Node.kind_of_isBlock hn
  rw [Node.isTop, Node.isKnot, Node.isFunction, hkind]
  rfl

/-- A node that hangs nowhere is added where no block is open, and reading goes on inside it. -/
theorem Grown.root (h : d.Grown) {n : Node} {c : Content} (start : Option NodeId)
    (hclosed : d.blocks = []) (hbare : n.Bare) (hinsert : d.content.insert? n = some c) :
    Grown { d with content := c, current := some d.content.size, start } := by
  have hsize := Content.size_of_insert? hinsert
  refine ⟨?_, h.tree.insert? hbare hinsert, ?_, ?_, h.nested⟩
  · exact h.sound.extend (h.sound.content.insert? hbare.parent hinsert) hsize (.inr rfl)
      (.inl rfl) _
  · rintro i ⟨⟩
    simp only [hsize]
    exact Content.mem_lineage_self _ _
  · intro b hb
    change b ∈ d.blocks at hb
    rw [hclosed] at hb
    cases hb

/-- Every step of reading keeps the content a tree. -/
theorem Grown.grow (h : d.Grown) (hgrow : d.Grow d') : d'.Grown := by
  have hcurrent {p b : NodeId} (hp : d.current = some p) (hb : b ∈ d.blocks) :
      b ∈ d.content.lineage p := by
    obtain ⟨-, i, hi, hmem⟩ := h.blocks hb
    rw [hp] at hi
    cases hi
    exact hmem
  cases hgrow with
  | note line includes =>
    exact ⟨⟨h.sound.content, h.sound.current, h.sound.blocks⟩, h.tree, h.current, h.blocks,
      h.nested⟩
  | root hclosed hbare _ hinsert _ => exact h.root _ hclosed hbare hinsert
  | leaf hp hbare hkind hhang =>
    exact h.hang (h.current hp) (h.sound.current hp) (fun b => hcurrent hp) hbare
      (isTop_of_leaf hkind) hhang (.inl ⟨hp, hp⟩) (.inl rfl)
  | @branch p n c holds hp hholds hbare hkind hhang =>
    obtain ⟨i, hi, hmem⟩ := Draft.mem_lineage_of_nearest? hp
    have hlast := h.tree.descends.mem_lineage_trans (h.current hi) hmem
    refine h.hang hlast (h.sound.lt_of_nearest? hp) (fun b hb => ?_) hbare (isTop_of_hung hkind)
      hhang (.inr rfl) (.inl rfl)
    obtain hclosed | hholds := hholds
    · rw [hclosed] at hb
      cases hb
    · exact h.mem_lineage_of_nearest? hp hb hholds
  | opening hp hbare hblock hhang =>
    exact h.hang (h.current hp) (h.sound.current hp) (fun b => hcurrent hp) hbare
      (isTop_of_isBlock hblock) hhang (.inr rfl) (.inr ⟨hblock, rfl, rfl⟩)
  | @option block blocks guard hblocks =>
    have hblock : block ∈ d.blocks := hblocks ▸ List.mem_cons_self
    have hkept := h.modify block (Content.addOption_id · guard) (Content.addOption_parent · guard)
      (Node.listed_addOption · guard) (Node.alike_addOption · guard)
    refine ⟨?_, hkept.tree, ?_, ?_, h.nested⟩
    · exact h.sound.grow (.option guard hblocks)
    · rintro i ⟨⟩
      obtain ⟨-, i, hi, hmem⟩ := hkept.blocks hblock
      exact hkept.tree.descends.mem_lineage_trans (hkept.current hi) hmem
    · intro b hb
      obtain ⟨hb', i, hi, hmem⟩ := hkept.blocks hb
      refine ⟨hb', block, rfl, ?_⟩
      obtain ⟨-, j, hj, hinner⟩ := hkept.blocks hblock
      rw [hi] at hj
      cases hj
      refine hkept.tree.descends.mem_lineage_of_le hinner hmem ?_
      have hnested := h.nested
      change b ∈ d.blocks at hb
      rw [hblocks] at hb hnested
      rcases List.mem_cons.1 hb with rfl | hb
      · exact Nat.le_refl _
      · exact Nat.le_of_lt ((List.pairwise_cons.1 hnested).1 b hb)
  | @close block blocks hblocks =>
    have hblock : block ∈ d.blocks := hblocks ▸ List.mem_cons_self
    have hnested := h.nested
    rw [hblocks] at hnested
    obtain ⟨houter, hnested⟩ := List.pairwise_cons.1 hnested
    obtain ⟨-, i, hi, hinner⟩ := h.blocks hblock
    refine ⟨h.sound.grow (.close hblocks), h.tree, ?_, ?_, hnested⟩
    · intro p hp
      have hline := h.tree.descends.mem_lineage_trans hinner (h.tree.descends.parent_mem hp)
      exact h.tree.descends.mem_lineage_trans (h.current hi) hline
    · intro b hb
      have hmem : b ∈ d.blocks := hblocks ▸ List.mem_cons_of_mem _ hb
      obtain ⟨hb', j, hj, hline⟩ := h.blocks hmem
      rw [hi] at hj
      cases hj
      -- an outer block is above the inner one, and so above its parent
      have hlt := houter b hb
      have habove := h.tree.descends.mem_lineage_of_le hinner hline (Nat.le_of_lt hlt)
      obtain rfl | ⟨p, hp, hmem⟩ := h.tree.descends.mem_lineage_iff.1 habove
      · exact absurd hlt (Nat.lt_irrefl _)
      · exact ⟨hb', p, hp, hmem⟩
  | background name hp =>
    exact h.modify _ (fun _ => rfl) (fun _ => rfl) (fun _ => rfl) fun _ => .inl rfl

/-! ## Content that was there before -/

/-- The content was grown behind that of `base`, and reading goes on there. -/
structure Behind (base : Content) (d : Draft) : Prop where
  /-- The nodes of the base are there. -/
  extends_base : d.content.Extends base
  /-- The parents of new nodes are new. -/
  parent {i p : Nat} : base.size ≤ i → (d.content.node i).parent = some p → base.size ≤ p
  /-- The current container is new. -/
  current {i : Nat} : d.current = some i → base.size ≤ i
  /-- The open blocks are new. -/
  blocks {i : Nat} : i ∈ d.blocks → base.size ≤ i
  /-- The start is a new knot. -/
  start {i : Nat} : d.start = some i → i < d.content.size ∧ (d.content.node i).isKnot = true

/-- A node in the line of a new node is new. -/
theorem Behind.le_of_mem_lineage {base : Content} (h : d.Behind base) {i j : Nat}
    (hi : base.size ≤ i) (hj : j ∈ d.content.lineage i) : base.size ≤ j := by
  have habove (steps : Nat) {i : Nat} (hi : base.size ≤ i) (hj : j ∈ d.content.above steps i) :
      base.size ≤ j := by
    induction steps generalizing i with
    | zero => cases hj
    | succ steps ih =>
      rw [Content.above] at hj
      split at hj
      · cases hj
      · next p hp =>
        have hp := h.parent hi hp
        rcases List.mem_cons.1 hj with rfl | hj
        · exact hp
        · exact ih hp hj
  rcases List.mem_cons.1 hj with rfl | hj
  · exact hi
  · exact habove i hi hj

/-- A change of a new node touches nothing that was there. -/
theorem Behind.modify {base : Content} (h : d.Behind base) {i : NodeId} (hi : base.size ≤ i)
    {f : Node → Node} (hparent : ∀ n, (f n).parent = n.parent) (halike : ∀ n, (f n).Alike n) :
    Behind base { d with content := d.content.modify i f } := by
  have hnode (j : NodeId) : (d.content.modify i f).node j = f (d.content.node j) ∧ i = j ∨
      (d.content.modify i f).node j = d.content.node j := by
    rw [Content.node_modify]
    split
    · next hj => exact .inl ⟨rfl, hj.1⟩
    · exact .inr rfl
  refine ⟨⟨?_, fun {j} hj => ?_⟩, fun {j p} hj hp => ?_, h.current, h.blocks, fun {j} hj => ?_⟩
  · rw [Content.size_modify]
    exact h.extends_base.size_le
  · obtain ⟨-, rfl⟩ | hold := hnode j
    · exact absurd hj (Nat.not_lt.2 hi)
    · exact hold.trans (h.extends_base.node_eq hj)
  · refine h.parent hj (p := p) ?_
    obtain ⟨hnew, -⟩ | hold := hnode j
    · rwa [hnew, hparent] at hp
    · rwa [hold] at hp
  · obtain ⟨hlt, hknot⟩ := h.start hj
    refine ⟨by rwa [Content.size_modify], ?_⟩
    obtain ⟨hnew, -⟩ | hold := hnode j
    · rw [hnew, (halike _).isKnot_eq, hknot]
    · rw [hold, hknot]

/-- A new node is hung under a new node. -/
theorem Behind.hang {base : Content} (h : d.Behind base) {p : NodeId} {n : Node} {c : Content}
    (hp : base.size ≤ p) (hlt : p < d.content.size) (hhang : d.content.hang? p n = some c)
    {current : Option NodeId} (hcurrent : current = d.current ∨ current = some d.content.size)
    {blocks : List NodeId} (hblocks : blocks = d.blocks ∨ blocks = d.content.size :: d.blocks) :
    Behind base { d with content := c, current, blocks } := by
  have hsize := Content.size_of_hang? hhang
  have hle := h.extends_base.size_le
  have hnode (j : NodeId) := Content.node_of_hang? hhang hlt j
  refine ⟨⟨?_, fun {j} hj => ?_⟩, fun {j q} hj hq => ?_, fun {j} hj => ?_, fun {j} hj => ?_,
    fun {j} hj => ?_⟩
  · change base.size ≤ c.size
    omega
  · change c.node j = base.node j
    have hnew : j ≠ d.content.size := by omega
    have hother : j ≠ p := by omega
    rw [hnode, if_neg hnew, if_neg hother]
    exact h.extends_base.node_eq hj
  · rw [hnode] at hq
    split at hq
    · cases hq
      exact hp
    · split at hq
      · next heq =>
        rw [Content.addChild_parent, ← heq] at hq
        exact h.parent hj hq
      · exact h.parent hj hq
  · rcases hcurrent with rfl | rfl
    · exact h.current hj
    · cases hj
      exact hle
  · rcases hblocks with rfl | rfl
    · exact h.blocks hj
    · rcases List.mem_cons.1 hj with rfl | hj
      · exact hle
      · exact h.blocks hj
  · obtain ⟨hjlt, hknot⟩ := h.start hj
    change j < c.size ∧ (c.node j).isKnot = true
    refine ⟨by omega, ?_⟩
    rw [hnode, if_neg (Nat.ne_of_lt hjlt)]
    split
    · next heq => rw [(Node.alike_addChild _ _).isKnot_eq, ← heq, hknot]
    · exact hknot

/-- A node that hangs nowhere is added behind what was there before. -/
theorem Behind.root {base : Content} (h : d.Behind base) {n : Node} {c : Content}
    {start : Option NodeId} (hbare : n.Bare) (hinsert : d.content.insert? n = some c)
    (hstart : start = d.start ∨ start = some d.content.size ∧ n.isKnot = true) :
    Behind base { d with content := c, current := some d.content.size, start } := by
  have hle := h.extends_base.size_le
  have hsize := Content.size_of_insert? hinsert
  have hnode (j : NodeId) : c.node j = if j = d.content.size then n else d.content.node j :=
    Content.node_of_insert? hinsert j
  refine ⟨⟨?_, fun {j} hj => ?_⟩, fun {j q} hj hq => ?_, ?_, h.blocks, fun {j} hj => ?_⟩
  · change base.size ≤ c.size
    omega
  · change c.node j = base.node j
    have hnew : j ≠ d.content.size := by omega
    rw [hnode, if_neg hnew]
    exact h.extends_base.node_eq hj
  · rw [hnode] at hq
    split at hq
    · rw [hbare.parent] at hq
      cases hq
    · exact h.parent hj hq
  · rintro j ⟨⟩
    exact hle
  · change j < c.size ∧ (c.node j).isKnot = true
    rcases hstart with rfl | ⟨rfl, hknot⟩
    · obtain ⟨hlt, hknot⟩ := h.start hj
      refine ⟨by omega, ?_⟩
      rw [hnode, if_neg (Nat.ne_of_lt hlt)]
      exact hknot
    · cases hj
      refine ⟨by omega, ?_⟩
      rw [hnode, if_pos rfl]
      exact hknot

/-- Every step of reading leaves what was there before. -/
theorem Behind.grow {base : Content} (hd : d.Sound) (h : d.Behind base) (hgrow : d.Grow d') :
    d'.Behind base := by
  cases hgrow with
  | note line includes => exact ⟨h.extends_base, h.parent, h.current, h.blocks, h.start⟩
  | root _ hbare _ hinsert hstart => exact h.root hbare hinsert hstart
  | leaf hp hbare hkind hhang =>
    exact h.hang (h.current hp) (hd.current hp) hhang (.inl rfl) (.inl rfl)
  | branch hp hholds hbare hkind hhang =>
    obtain ⟨i, hi, hmem⟩ := Draft.mem_lineage_of_nearest? hp
    exact h.hang (h.le_of_mem_lineage (h.current hi) hmem) (hd.lt_of_nearest? hp) hhang (.inr rfl)
      (.inl rfl)
  | opening hp hbare hblock hhang =>
    exact h.hang (h.current hp) (hd.current hp) hhang (.inr rfl) (.inr rfl)
  | @option block blocks guard hblocks =>
    have hblock : base.size ≤ block := h.blocks (hblocks ▸ List.mem_cons_self)
    have hkept := h.modify hblock (Content.addOption_parent · guard)
      (Node.alike_addOption · guard)
    refine ⟨hkept.extends_base, hkept.parent, ?_, hkept.blocks, hkept.start⟩
    rintro i ⟨⟩
    exact hblock
  | @close block blocks hblocks =>
    have hblock : base.size ≤ block := h.blocks (hblocks ▸ List.mem_cons_self)
    refine ⟨h.extends_base, h.parent, fun hp => h.parent hblock hp, fun hb => h.blocks ?_, h.start⟩
    rw [hblocks]
    exact List.mem_cons_of_mem _ hb
  | background name hp =>
    exact h.modify (h.current hp) (fun _ => rfl) fun _ => .inl rfl

/-- What a chain of steps makes of a grown draft is grown, and the nodes that were there stay. -/
theorem Grown.grows {base : Content} (h : d.Grown) (hbase : d.Behind base)
    (hgrows : d.Grows d') : d'.Grown ∧ d'.Behind base := by
  induction hgrows with
  | refl => exact ⟨h, hbase⟩
  | tail _ hgrow ih => exact ⟨ih.1.grow hgrow, ih.2.grow ih.1.sound hgrow⟩

end Draft

/-! ## Reading sources -/

namespace Content

open Draft

variable {c c' : Content} {file : String}

/-- A draft that begins a source. -/
theorem grown_draft (hc : c.Sound) (htree : c.Tree) (file : String) (line : Nat) :
    ({ content := c, file, line } : Draft).Grown where
  sound := ⟨hc, (by rintro i ⟨⟩), by rintro i ⟨⟩⟩
  tree := htree
  current := by rintro i ⟨⟩
  blocks := by rintro i ⟨⟩
  nested := .nil

/-- Reading a file begins behind what was read. -/
theorem behind_draft (c : Content) (file : String) (line : Nat) :
    ({ content := c, file, line } : Draft).Behind c where
  extends_base := .refl c
  parent := by
    intro i p hi hp
    rw [node_eq_default hi] at hp
    cases hp
  current := by rintro i ⟨⟩
  blocks := by rintro i ⟨⟩
  start := by rintro i ⟨⟩

/-- Content that is sound and a tree. -/
structure Grown (c : Content) : Prop where
  /-- The content is sound. -/
  sound : c.Sound
  /-- The content is a tree. -/
  tree : c.Tree

/-- Content without nodes is well grown. -/
theorem grown_empty : ({} : Content).Grown :=
  ⟨sound_empty, .empty⟩

/-- A source is read into grown content, also when a fault stops the reading. It starts at a
knot. -/
theorem Grown.read {text : List Char} {r : Except SourceError Source} (h : c.Grown)
    (hread : c.read file text = (r, c')) :
    c'.Grown ∧ c'.Extends c ∧ ∀ source i, r = .ok source → source.start = some i →
      i < c'.size ∧ (c'.node i).isKnot = true := by
  obtain ⟨d, hgrows, rfl, hstart⟩ := grows_of_read hread
  obtain ⟨hgrown, hbehind⟩ :=
    Draft.Grown.grows (grown_draft h.sound h.tree file 0) (behind_draft c file 0) hgrows
  refine ⟨⟨hgrown.sound.content, hgrown.tree⟩, hbehind.extends_base, fun source i hr hi => ?_⟩
  rw [hstart source hr] at hi
  exact hbehind.start hi

/-- A choice is read into grown content, also when a fault stops the reading. -/
theorem Grown.readDetached {line : List Char} {id : String} {r : Except SourceError NodeId}
    (h : c.Grown) (hread : c.readDetached line id file = (r, c')) : c'.Grown ∧ c'.Extends c := by
  obtain rfl | ⟨n, inserted, d, hbare, -, -, hinsert, rfl, hgrows⟩ := grows_of_readDetached hread
  · exact ⟨h, .refl _⟩
  · have hgrown := (grown_draft h.sound h.tree file 1).root none rfl hbare hinsert
    have hstart : (none : Option NodeId) = ({ content := c, file, line := 1 } : Draft).start ∨
        none = some c.size ∧ n.isKnot = true := .inl rfl
    have hbehind := (behind_draft c file 1).root hbare hinsert hstart
    obtain ⟨hgrown, hbehind⟩ := Draft.Grown.grows hgrown hbehind hgrows
    exact ⟨⟨hgrown.sound.content, hgrown.tree⟩, hbehind.extends_base⟩

end Content

end Narrative
