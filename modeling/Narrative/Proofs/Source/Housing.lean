import Narrative.Proofs.Source.Arena

/-!
# Where nodes hang

Whatever is read hangs under nodes inside which play can be: under no text, statement or comment.
-/

namespace Narrative

/-- What is at the top is a container. -/
theorem Node.isContainer_of_isTop {n : Node} (h : n.isTop = true) : n.isContainer = true := by
  unfold isTop isKnot isFunction at h
  unfold isContainer
  cases hkind : n.kind <;> simp_all

/-- A block is a container. -/
theorem Node.isContainer_of_isBlock {n : Node} (h : n.isBlock = true) : n.isContainer = true := by
  unfold isBlock at h
  unfold isContainer
  cases hkind : n.kind <;> simp_all

/-- Stitches, choices and gathers are containers. -/
theorem Node.isContainer_of_branch {n : Node}
    (h : (n.isStitch || n.isChoice || n.isGather) = true) : n.isContainer = true := by
  unfold isStitch isChoice isGather at h
  unfold isContainer
  cases hkind : n.kind <;> simp_all

/-- What is alike to a container is one. -/
theorem Node.Alike.isContainer {n m : Node} (h : n.Alike m) (hm : m.isContainer = true) :
    n.isContainer = true := by
  obtain hkind | ⟨hblock, -⟩ := h
  · rw [Node.isContainer, hkind]
    exact hm
  · exact isContainer_of_isBlock hblock

namespace Content

variable {c d : Content}

/-- Whether nodes hang under containers only. -/
def Housed (c : Content) : Prop :=
  ∀ i p : NodeId, (c.node i).parent = some p → (c.node p).isContainer = true

/-- In content without nodes nothing hangs anywhere. -/
theorem housed_empty : ({} : Content).Housed := by
  intro i p hp
  rw [node_eq_default (Nat.zero_le i)] at hp
  cases hp

/-- Above a container there are containers. -/
theorem Housed.of_mem_lineage (h : c.Housed) (hd : c.Descends) {i j : Nat}
    (hi : (c.node i).isContainer = true) (hj : j ∈ c.lineage i) :
    (c.node j).isContainer = true := by
  induction i using Nat.strongRecOn with
  | ind i ih =>
    obtain rfl | ⟨p, hp, hj⟩ := hd.mem_lineage_iff.1 hj
    · exact hi
    · exact ih p (hd.lt hp) (h i p hp) hj

/-- Content that is extended stays housed if what is new hangs under containers. -/
theorem Housed.retain (h : c.Housed) (hc : c.Sound) (hretains : d.Retains c)
    (hnew : ∀ i p : NodeId, c.size ≤ i → (d.node i).parent = some p →
      p < c.size ∧ (c.node p).isContainer = true) : d.Housed := by
  intro i p hp
  rcases Nat.lt_or_ge i c.size with hold | hnew'
  · rw [hretains.parent hold] at hp
    exact (hretains.alike (hc.parent hp)).isContainer (h i p hp)
  · obtain ⟨hlt, hcontainer⟩ := hnew i p hnew' hp
    exact (hretains.alike hlt).isContainer hcontainer

/-- A node that hangs nowhere can be added. -/
theorem Housed.insert (h : c.Housed) (hc : c.Sound) {n : Node} (hbare : n.Bare)
    (hinsert : c.insert? n = some d) : d.Housed := by
  refine h.retain hc (.insert? hinsert) fun i p hi hp => ?_
  rw [node_of_insert? hinsert] at hp
  split at hp
  · rw [hbare.parent] at hp
    cases hp
  · rw [node_eq_default hi] at hp
    cases hp

end Content

namespace Draft

variable {d d' : Draft}

/-- Whether a draft is housed, and reading goes on inside containers. -/
structure Housed (d : Draft) : Prop where
  /-- The content is housed. -/
  content : d.content.Housed
  /-- The current container is one. -/
  current {i : NodeId} : d.current = some i → (d.content.node i).isContainer = true
  /-- The open blocks are containers. -/
  blocks {b : NodeId} : b ∈ d.blocks → (d.content.node b).isContainer = true

/-- A step of reading retains the content. -/
theorem Grow.retains (h : d.Grown) (hgrow : d.Grow d') : d'.content.Retains d.content := by
  obtain hsame | hedit := hgrow.edit h
  · rw [hsame]
    exact .refl _
  · exact hedit.retains

section Hang

variable {p : NodeId} {n : Node} {c : Content}

/-- A node may be hung under a container. -/
theorem Housed.hang (h : d.Housed) (hgrown : d.Grown) (hp : p < d.content.size)
    (hcontainer : (d.content.node p).isContainer = true) (hhang : d.content.hang? p n = some c) :
    c.Housed := by
  refine h.content.retain hgrown.sound.content (.hang? hp hhang) fun i q hi hq => ?_
  rw [Content.Tree.parent_of_hang? hp hhang] at hq
  split at hq
  · cases hq
    exact ⟨hp, hcontainer⟩
  · rw [Content.node_eq_default hi] at hq
    cases hq

/-- A container that is hung stays one. -/
theorem isContainer_of_hang? (hp : p < d.content.size) (hn : n.isContainer = true)
    (hhang : d.content.hang? p n = some c) : (c.node d.content.size).isContainer = true := by
  rw [Content.node_of_hang? hhang hp, if_pos rfl]
  exact hn

end Hang

/-- A node that is changed hangs where it hung. -/
theorem Housed.modify (h : d.Housed) (hgrown : d.Grown) {i : NodeId} {f : Node → Node}
    (hretains : (d.content.modify i f).Retains d.content) : (d.content.modify i f).Housed := by
  refine h.content.retain hgrown.sound.content hretains fun j p hj hp => ?_
  rw [Content.node_eq_default (by rwa [Content.size_modify])] at hp
  cases hp

/-- Every step of reading hangs what it adds under a container. -/
theorem Housed.grow (h : d.Housed) (hgrown : d.Grown) (hgrow : d.Grow d') : d'.Housed := by
  have hkept {i : NodeId} (hi : i < d.content.size) (hc : (d.content.node i).isContainer = true) :
      (d'.content.node i).isContainer = true :=
    ((hgrow.retains hgrown).alike hi).isContainer hc
  have hblocks {b : NodeId} (hb : b ∈ d.blocks) : (d'.content.node b).isContainer = true :=
    hkept (hgrown.sound.blocks hb) (h.blocks hb)
  have hcurrent {i : NodeId} (hi : d.current = some i) : (d'.content.node i).isContainer = true :=
    hkept (hgrown.sound.current hi) (h.current hi)
  cases hgrow with
  | note line includes => exact ⟨h.content, h.current, h.blocks⟩
  | root _ hbare htop hinsert _ =>
    refine ⟨h.content.insert hgrown.sound.content hbare hinsert, ?_, hblocks⟩
    rintro i ⟨⟩
    rw [Content.node_of_insert? hinsert, if_pos rfl]
    exact Node.isContainer_of_isTop htop
  | leaf hp _ _ hhang =>
    exact ⟨h.hang hgrown (hgrown.sound.current hp) (h.current hp) hhang, hcurrent, hblocks⟩
  | @branch p n c holds hp _ _ hkind hhang =>
    obtain ⟨i, hi, hmem⟩ := mem_lineage_of_nearest? hp
    have hlt := hgrown.sound.lt_of_nearest? hp
    have hcontainer :=
      h.content.of_mem_lineage hgrown.tree.descends (h.current hi) hmem
    refine ⟨h.hang hgrown hlt hcontainer hhang, ?_, hblocks⟩
    rintro j ⟨⟩
    exact isContainer_of_hang? hlt (Node.isContainer_of_branch hkind) hhang
  | opening hp _ hblock hhang =>
    have hlt := hgrown.sound.current hp
    have hnew := isContainer_of_hang? hlt (Node.isContainer_of_isBlock hblock) hhang
    refine ⟨h.hang hgrown hlt (h.current hp) hhang, ?_, fun {b} hb => ?_⟩
    · rintro j ⟨⟩
      exact hnew
    · rcases List.mem_cons.1 hb with rfl | hb
      · exact hnew
      · exact hblocks hb
  | @option block blocks guard hopen =>
    refine ⟨h.modify hgrown (Grow.retains hgrown (.option guard hopen)), ?_, hblocks⟩
    rintro i ⟨⟩
    exact hblocks (hopen ▸ List.mem_cons_self)
  | @close block blocks hopen =>
    refine ⟨h.content, fun {i} hi => h.content _ i hi, fun {b} hb => h.blocks ?_⟩
    rw [hopen]
    exact List.mem_cons_of_mem _ hb
  | background name hp =>
    exact ⟨h.modify hgrown (Grow.retains hgrown (.background name hp)), hcurrent, hblocks⟩

/-- Reading on hangs nodes under containers. -/
theorem Housed.grows (h : d.Housed) (hgrown : d.Grown) (hgrows : d.Grows d') : d'.Housed := by
  suffices h : d'.Grown ∧ d'.Housed from h.2
  induction hgrows with
  | refl => exact ⟨hgrown, h⟩
  | tail _ hgrow ih => exact ⟨ih.1.grow hgrow, ih.2.grow ih.1 hgrow⟩

end Draft

namespace Content

open Draft

variable {c : Content}

/-- A reading hangs what it adds under containers, also when a fault stops it. -/
theorem Housed.after (h : c.Housed) (hgrown : c.Grown) (r : Reading) : (c.after r).Housed := by
  cases r with
  | source file text =>
    change (c.read file text).2.Housed
    cases hread : c.read file text with
    | mk r c' =>
      obtain ⟨d, hgrows, rfl, -⟩ := grows_of_read hread
      have hdraft : Draft.Housed { content := c, file } := ⟨h, nofun, nofun⟩
      exact (hdraft.grows (grown_draft hgrown.sound hgrown.tree file 0) hgrows).content
  | choice line id file =>
    change (c.readDetached line id file).2.Housed
    cases hread : c.readDetached line id file with
    | mk r c' =>
      obtain rfl | ⟨n, inserted, d, hbare, hchoice, -, hinsert, rfl, hgrows⟩ :=
        grows_of_readDetached hread
      · exact h
      · have hdraft :
            Draft.Housed { content := inserted, file, line := 1, current := some c.size } := by
          refine ⟨h.insert hgrown.sound hbare hinsert, ?_, nofun⟩
          rintro i ⟨⟩
          rw [node_of_insert? hinsert, if_pos rfl]
          exact Node.isContainer_of_branch (by rw [hchoice, Bool.or_true, Bool.true_or])
        have hroot := (grown_draft hgrown.sound hgrown.tree file 1).root none rfl hbare hinsert
        exact (hdraft.grows hroot hgrows).content

/-- Further readings hang nodes under containers. -/
theorem Housed.fill {choices : List NodeId} (h : c.Housed) (hfiled : c.Filed choices)
    (readings : List Reading) : (c.fill readings).Housed := by
  induction readings generalizing c choices with
  | nil => exact h
  | cons r rest ih => exact ih (h.after hfiled.grown r) (hfiled.after r)

/-- What was read piece by piece hangs under containers. -/
theorem housed_filled (readings : List Reading) : (filled readings).Housed :=
  housed_empty.fill filed_empty readings

end Content

end Narrative
