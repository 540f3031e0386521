import Narrative.Proofs.Content.Preorder
import Narrative.Proofs.Source.Growth

/-!
# Content that is read piece by piece

Sources and choices by themselves are read one after another into common content, and each of them
may stop at a fault. Whatever was read, the content that is there is an arena: ids and nodes belong
to each other one to one, every node that hangs somewhere stands once in the lists of its parent,
and the order of the nodes is the pre-order of the trees, whose roots are the knots, the functions
and the choices that were read by themselves.
-/

namespace Narrative

/-! ## What a step of reading does to the content -/

namespace Content

variable {c d : Content}

/-- What is added without a parent is a section. -/
theorem Edit.isTop_of_new (h : c.Edit d) {i : Nat} (hi : c.size ≤ i) (hlt : i < d.size)
    (hnone : (d.node i).parent = none) : (d.node i).isTop = true := by
  cases h with
  | root _ htop hinsert =>
    have hlast : i = c.size := by
      have := size_of_insert? hinsert
      omega
    rw [node_of_insert? hinsert, if_pos hlast]
    exact htop
  | @hung n p _ _ _ hp _ hhang =>
    have hlast : i = c.size := by
      have := size_of_hang? hhang
      omega
    rw [Tree.parent_of_hang? hp hhang, if_pos hlast] at hnone
    cases hnone
  | changed j hf =>
    rw [size_modify] at hlt
    omega

end Content

namespace Draft

variable {d d' : Draft}

/-- A step of reading changes the content in one of the ways of an edit, if at all. -/
theorem Grow.edit (h : d.Grown) (hgrow : d.Grow d') :
    d'.content = d.content ∨ d.content.Edit d'.content := by
  cases hgrow with
  | note | close => exact .inl rfl
  | root _ hbare htop hinsert _ => exact .inr (.root hbare htop hinsert)
  | leaf hp hbare hkind hhang =>
    exact .inr (.hung hbare (isTop_of_leaf hkind) (h.sound.current hp) (h.current hp) hhang)
  | branch hp _ hbare hkind hhang =>
    obtain ⟨i, hi, hmem⟩ := mem_lineage_of_nearest? hp
    have hlast := h.tree.descends.mem_lineage_trans (h.current hi) hmem
    exact .inr (.hung hbare (isTop_of_hung hkind) (h.sound.lt_of_nearest? hp) hlast hhang)
  | opening hp hbare hblock hhang =>
    exact .inr (.hung hbare (isTop_of_isBlock hblock) (h.sound.current hp) (h.current hp) hhang)
  | option guard _ => exact .inr (.changed _ (Node.keeps_addOption guard))
  | background name _ => exact .inr (.changed _ (Node.keeps_background (some name)))

/-- What a chain of steps keeps: the content stays arranged, nodes that were there stay where they
were, and what is added without a parent is a section. -/
structure Continues (d d' : Draft) : Prop where
  /-- The content is arranged. -/
  arranged : d'.content.Arranged
  /-- The nodes that were there stay. -/
  retains : d'.content.Retains d.content
  /-- New nodes without a parent are sections. -/
  isTop {i : Nat} : d.content.size ≤ i → i < d'.content.size →
    (d'.content.node i).parent = none → (d'.content.node i).isTop = true

/-- Reading on continues a draft. -/
theorem continues_of_grows (hd : d.Grown) (harranged : d.content.Arranged) (hgrows : d.Grows d') :
    d.Continues d' := by
  suffices h : d'.Grown ∧ d.Continues d' from h.2
  induction hgrows with
  | refl =>
    refine ⟨hd, harranged, .refl _, fun hi hlt => ?_⟩
    exact absurd hlt (Nat.not_lt.2 hi)
  | @tail e f _ hgrow ih =>
    obtain ⟨he, hcontinues⟩ := ih
    refine ⟨he.grow hgrow, ?_⟩
    obtain hsame | hedit := hgrow.edit he
    · obtain ⟨harranged, hretains, htop⟩ := hcontinues
      constructor <;> rw [hsame] <;> assumption
    · refine ⟨hcontinues.arranged.edit he.tree hedit, hedit.retains.trans hcontinues.retains,
        fun {i} hi hlt hnone => ?_⟩
      rcases Nat.lt_or_ge i e.content.size with hold | hnew
      · rw [(hedit.retains.alike hold).isTop_eq]
        exact hcontinues.isTop hi hold (hedit.retains.parent hold ▸ hnone)
      · exact hedit.isTop_of_new hnew hlt hnone

end Draft

/-! ## Readings -/

/-- What is read into content. -/
inductive Reading where
  /-- A source. -/
  | source (file : String) (text : List Char)
  /-- A choice by itself, which gets the given id. -/
  | choice (line : List Char) (id file : String)

namespace Content

open Draft

/-- The content after a reading, also when a fault stopped it. -/
def after (c : Content) : Reading → Content
  | .source file text => (c.read file text).2
  | .choice line id file => (c.readDetached line id file).2

/-- The content after some readings. -/
def fill (c : Content) (readings : List Reading) : Content :=
  readings.foldl after c

/-- The content that some readings make from nothing. -/
def filled (readings : List Reading) : Content :=
  ({} : Content).fill readings

/-- Where a reading by itself puts its choice; a source and a choice that is refused put none. -/
def detachedBy (c : Content) : Reading → List NodeId
  | .source _ _ => []
  | .choice line id file => if c.size < (c.after (.choice line id file)).size then [c.size] else []

/-- The choices that were read by themselves. -/
def detached (c : Content) : List Reading → List NodeId
  | [] => []
  | r :: rest => c.detachedBy r ++ (c.after r).detached rest

/-- Content that was read piece by piece, where the choices in `detached` were read by
themselves. -/
structure Filed (c : Content) (detached : List NodeId) : Prop where
  /-- The content is sound and a tree. -/
  grown : c.Grown
  /-- The nodes are in pre-order. -/
  arranged : c.Arranged
  /-- What hangs nowhere is a section or a choice that was read by itself. -/
  roots {i : Nat} : i < c.size → (c.node i).parent = none →
    (c.node i).isTop = true ∨ (c.node i).isChoice = true ∧ i ∈ detached
  /-- Choices that were read by themselves hang nowhere. -/
  detached {i : Nat} : i ∈ detached → i < c.size ∧ (c.node i).parent = none

variable {c d : Content} {choices : List NodeId}

/-- Content without nodes was read from nothing. -/
theorem filed_empty : ({} : Content).Filed [] where
  grown := grown_empty
  arranged := .empty
  roots hi := absurd hi (Nat.not_lt_zero _)
  detached hi := absurd hi List.not_mem_nil

/-- Whether content is filed is a matter of what it has beyond the content it was read into. -/
theorem Filed.extend (h : c.Filed choices) (hgrown : d.Grown) (harranged : d.Arranged)
    (hextends : d.Extends c) {added : List NodeId}
    (hroots : ∀ i : Nat, c.size ≤ i → i < d.size → (d.node i).parent = none →
      (d.node i).isTop = true ∨ (d.node i).isChoice = true ∧ i ∈ added)
    (hadded : ∀ i : Nat, i ∈ added → i < d.size ∧ (d.node i).parent = none) :
    d.Filed (choices ++ added) where
  grown := hgrown
  arranged := harranged
  roots := by
    intro i hi hnone
    rcases Nat.lt_or_ge i c.size with hold | hnew
    · rw [hextends.node_eq hold] at hnone ⊢
      obtain htop | ⟨hchoice, hmem⟩ := h.roots hold hnone
      · exact .inl htop
      · exact .inr ⟨hchoice, List.mem_append_left _ hmem⟩
    · obtain htop | ⟨hchoice, hmem⟩ := hroots i hnew hi hnone
      · exact .inl htop
      · exact .inr ⟨hchoice, List.mem_append_right _ hmem⟩
  detached := by
    intro i hi
    rcases List.mem_append.1 hi with hi | hi
    · obtain ⟨hlt, hnone⟩ := h.detached hi
      rw [hextends.node_eq hlt]
      exact ⟨Nat.lt_of_lt_of_le hlt hextends.size_le, hnone⟩
    · exact hadded i hi

/-- A source that is read is filed behind what was there. -/
theorem Filed.source (h : c.Filed choices) (file : String) (text : List Char) :
    (c.after (.source file text)).Filed (choices ++ c.detachedBy (.source file text)) := by
  change (c.read file text).2.Filed (choices ++ [])
  cases hread : c.read file text with
  | mk r c' =>
    obtain ⟨hgrown, hextends, -⟩ := h.grown.read hread
    obtain ⟨d, hgrows, rfl, -⟩ := grows_of_read hread
    have hdraft := grown_draft h.grown.sound h.grown.tree file 0
    have hcontinues := continues_of_grows hdraft h.arranged hgrows
    refine h.extend hgrown hcontinues.arranged hextends (fun i hi hlt hnone => ?_) nofun
    exact .inl (hcontinues.isTop hi hlt hnone)

/-- A choice that is read by itself is filed behind what was there. -/
theorem Filed.choice (h : c.Filed choices) (line : List Char) (id file : String) :
    (c.after (.choice line id file)).Filed
      (choices ++ c.detachedBy (.choice line id file)) := by
  unfold detachedBy
  change (c.readDetached line id file).2.Filed (choices ++
    if c.size < (c.readDetached line id file).2.size then [c.size] else [])
  cases hread : c.readDetached line id file with
  | mk r c' =>
    obtain ⟨hgrown, hextends⟩ := h.grown.readDetached hread
    dsimp only
    obtain rfl | ⟨n, inserted, d, hbare, hchoice, -, hinsert, rfl, hgrows⟩ :=
      grows_of_readDetached hread
    · rw [if_neg (Nat.lt_irrefl _), List.append_nil]
      exact h
    · have hdraft := (grown_draft h.grown.sound h.grown.tree file 1).root none rfl hbare hinsert
      obtain ⟨harranged, hretains, htop⟩ :=
        continues_of_grows hdraft (h.arranged.insert? hbare hinsert) hgrows
      have hsize := size_of_insert? hinsert
      dsimp only at hretains htop
      rw [hsize] at htop
      have hinserted : inserted.node c.size = n := by rw [node_of_insert? hinsert, if_pos rfl]
      -- the choice itself is no longer a new node for the steps that fill it
      have hlast : c.size < inserted.size := hsize ▸ Nat.lt_succ_self _
      have hle := hsize ▸ hretains.size_le
      have hparent := hretains.parent hlast
      have halike := hretains.alike hlast
      rw [hinserted] at hparent halike
      rw [if_pos (Nat.lt_of_succ_le hle)]
      refine h.extend hgrown harranged hextends (fun i hi hlt hnone => ?_) fun i hi => ?_
      · rcases Nat.eq_or_lt_of_le hi with rfl | hlater
        · exact .inr ⟨halike.isChoice_eq.trans hchoice, List.mem_singleton_self _⟩
        · exact .inl (htop hlater hlt hnone)
      · rw [List.mem_singleton.1 hi]
        exact ⟨Nat.lt_of_succ_le hle, hparent.trans hbare.parent⟩

/-- A reading files what it reads, also when a fault stops it. -/
theorem Filed.after (h : c.Filed choices) (r : Reading) :
    (c.after r).Filed (choices ++ c.detachedBy r) := by
  cases r with
  | source file text => exact h.source file text
  | choice line id file => exact h.choice line id file

/-- Whatever is read one after the other is filed behind what was there. -/
theorem Filed.fill (h : c.Filed choices) (readings : List Reading) :
    (c.fill readings).Filed (choices ++ c.detached readings) := by
  induction readings generalizing c choices with
  | nil =>
    rw [Content.detached, List.append_nil]
    exact h
  | cons r rest ih =>
    rw [Content.detached, ← List.append_assoc]
    exact ih (h.after r)

/-- All content that is read is filed. -/
theorem filed_filled (readings : List Reading) :
    (filled readings).Filed (({} : Content).detached readings) := by
  have h := filed_empty.fill readings
  rwa [List.nil_append] at h

/-! ## The arena -/

end Content

/-- All nodes in the lists of a node: its children and the lines of its options. -/
def Node.below (n : Node) : List NodeId :=
  n.children ++ n.options.flatMap (·.lines)

/-- What hangs under a node is what it lists. -/
theorem Node.below_eq_listed {n : Node} (h : n.isBlock = true → n.children = []) :
    n.below = n.listed := by
  unfold isBlock at h
  unfold below options listed lists
  cases hkind : n.kind with
  | block mode options =>
    rw [h (by rw [hkind]), List.nil_append, List.flatMap_def]
  | _ => simp

namespace Content

variable {c d : Content} {choices : List NodeId}

/-- All nodes in all lists of the content. -/
def hung (c : Content) : List NodeId :=
  (List.range c.size).flatMap fun p => (c.node p).below

/-- Content as an arena of trees, where the choices in `detached` were read by themselves. -/
structure Arena (c : Content) (detached : List NodeId) : Prop where
  /-- Ids and nodes belong to each other one to one. -/
  find?_iff {id : String} {i : Nat} : c.find? id = some i ↔ i < c.size ∧ (c.node i).id = id
  /-- A node is in the lists of its parent, and what is in them names that parent. -/
  below_iff {i p : Nat} : i ∈ (c.node p).below ↔ (c.node i).parent = some p
  /-- Blocks have nodes in their options only, and only blocks have options. -/
  block_iff {p : Nat} : if (c.node p).isBlock = true then (c.node p).children = []
    else (c.node p).options = []
  /-- A node with a parent is listed once in all lists together, and another one never. -/
  count_hung (i : Nat) : c.hung.count i = if (c.node i).parent.isSome then 1 else 0
  /-- A parent was read before its children. -/
  parent_lt {i p : Nat} : (c.node i).parent = some p → p < i
  /-- The walk to the nodes above a node ends within as many steps as its position says. -/
  above_eq {i steps : Nat} : i ≤ steps → c.above steps i = c.ancestors i
  /-- The nodes without a parent are the knots, the functions and the choices that were read by
  themselves. -/
  parent_eq_none_iff {i : Nat} : i < c.size → ((c.node i).parent = none ↔
    (c.node i).isKnot = true ∨ (c.node i).isFunction = true ∨
      (c.node i).isChoice = true ∧ i ∈ detached)
  /-- Going through one tree after another in pre-order meets the nodes in the order of the
  arena. -/
  walk_roots : c.roots.flatMap c.walk = List.range c.size

/-- Every node with a parent hangs in one place, and every other one in none. -/
theorem Filed.count_hung (h : c.Filed choices) (i : Nat) :
    c.hung.count i = if (c.node i).parent.isSome then 1 else 0 := by
  have hbelow (p : Nat) : (c.node p).below = (c.node p).listed :=
    Node.below_eq_listed h.arranged.children_of_isBlock
  have hmem (p : Nat) : i ∈ (c.node p).below ↔ (c.node i).parent = some p := by
    rw [hbelow]
    exact ⟨h.grown.tree.parent_of_listed, h.arranged.listed_of_parent⟩
  have hnodup : c.hung.Nodup := by
    refine List.nodup_flatMap.2 ⟨fun p _ => hbelow p ▸ h.grown.tree.nodup_listed p, ?_⟩
    refine List.nodup_range.imp fun {p q} hne j hp hq => hne ?_
    dsimp only at hp hq
    rw [hbelow] at hp hq
    have hparent := h.grown.tree.parent_of_listed hp
    rw [h.grown.tree.parent_of_listed hq] at hparent
    exact (Option.some.inj hparent).symm
  rw [hnodup.count]
  cases hparent : (c.node i).parent with
  | none =>
    rw [if_neg]
    · rfl
    · intro hi
      obtain ⟨p, -, hp⟩ := List.mem_flatMap.1 hi
      rw [(hmem p).1 hp] at hparent
      cases hparent
  | some p =>
    rw [if_pos]
    · rfl
    · have hlt := Nat.lt_trans (h.grown.tree.descends.lt hparent) (lt_size_of_parent hparent)
      exact List.mem_flatMap.2 ⟨p, List.mem_range.2 hlt, (hmem p).2 hparent⟩

/-- Content that was read piece by piece is an arena. -/
theorem Filed.arena (h : c.Filed choices) : c.Arena choices where
  find?_iff := by
    intro id i
    constructor
    · exact find?_eq_some
    · rintro ⟨hi, rfl⟩
      exact h.grown.sound.find?_id hi
  below_iff := by
    intro i p
    rw [Node.below_eq_listed h.arranged.children_of_isBlock]
    exact ⟨h.grown.tree.parent_of_listed, h.arranged.listed_of_parent⟩
  block_iff := by
    intro p
    split
    · next hblock => exact h.arranged.children_of_isBlock hblock
    · next hblock =>
      unfold Node.isBlock at hblock
      unfold Node.options
      split
      · next hkind => simp [hkind] at hblock
      · rfl
  count_hung := h.count_hung
  parent_lt := h.grown.tree.descends.lt
  above_eq := h.grown.tree.descends.above_eq
  parent_eq_none_iff := by
    intro i hi
    have htop : (c.node i).isTop = true ↔
        (c.node i).isKnot = true ∨ (c.node i).isFunction = true := Bool.or_eq_true_iff
    constructor
    · intro hnone
      obtain hroot | hchoice := h.roots hi hnone
      · rw [htop] at hroot
        rcases hroot with hknot | hfunction
        · exact .inl hknot
        · exact .inr (.inl hfunction)
      · exact .inr (.inr hchoice)
    · rintro (hknot | hfunction | ⟨-, hmem⟩)
      · exact h.grown.tree.top (htop.2 (.inl hknot))
      · exact h.grown.tree.top (htop.2 (.inr hfunction))
      · exact (h.detached hmem).2
  walk_roots := h.arranged.flatMap_walk_roots h.grown.tree

/-- Readings are made one after the other. -/
theorem fill_append (c : Content) (readings more : List Reading) :
    c.fill (readings ++ more) = (c.fill readings).fill more :=
  List.foldl_append

end Content

end Narrative
