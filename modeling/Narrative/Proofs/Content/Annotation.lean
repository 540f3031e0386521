import Mathlib.Data.Nat.Nth
import Narrative.Proofs.Content.Copies
import Narrative.Proofs.Content.Omission

/-!
# Content with comments in it

A comment that stands in a source shifts the nodes behind it, and the numbers in their ids. Without
its comments the content is a copy of what is read from the source without them: the nodes stand
under each other as they do there, and every name that is not a position stands for the same node.
-/

namespace Narrative

/-- Whether the last part of an id is a number, as it is where a node has no name. -/
def EndsInNumber (id : String) : Prop :=
  ∃ part, (idParts id).getLast? = some part ∧ IsNumber part

/-- An id whose last part is a number ends in one. -/
theorem endsInNumber_of_concat {id : String} {parts : List (List Char)} {n : Nat}
    (h : idParts id = parts ++ [Nat.toDigits 10 n]) : EndsInNumber id :=
  ⟨_, by rw [h, List.getLast?_concat], isNumber_toDigits n⟩

/-- The id of a place ends in a number. -/
theorem endsInNumber_placeId (n : Node) (option position : Nat) :
    EndsInNumber (n.placeId option position) := by
  have hparts := n.idParts_placeId option position
  split at hparts
  · rw [List.append_cons] at hparts
    exact endsInNumber_of_concat hparts
  · exact endsInNumber_of_concat hparts

/-- The next id under a node ends in a number. -/
theorem endsInNumber_nextChildId (n : Node) : EndsInNumber n.nextChildId := by
  rw [n.nextChildId_eq]
  exact endsInNumber_placeId n _ _

/-- An id that ends in parts without numbers does not end in one. -/
theorem not_endsInNumber_of_parts {id : String} {before parts : List (List Char)}
    (hid : idParts id = before ++ parts) (hne : parts ≠ [])
    (hparts : ∀ part ∈ parts, ¬ IsNumber part) : ¬ EndsInNumber id := by
  rintro ⟨part, hlast, hnumber⟩
  rw [hid, List.getLast?_append_of_ne_nil _ hne] at hlast
  exact hparts part (List.mem_of_getLast? hlast) hnumber

namespace Content

/-! ## Nodes that have their ids alike -/

/-- Nodes of two contents that are paired: they have the same name under nodes that are paired, too,
or both have no name. -/
structure Pairs (R : NodeId → NodeId → Prop) (c d : Content) : Prop where
  /-- What is paired are nodes. -/
  lt {i j : Nat} : R i j → i < c.size ∧ j < d.size
  /-- A node is paired with one node only. -/
  unique {i j k : NodeId} : R i j → R i k → j = k
  /-- Both have their ids in the same way. -/
  id {i j : NodeId} : R i j → EndsInNumber (c.node i).id ∧ EndsInNumber (d.node j).id ∨
    ∃ name parent parent', IsProper name ∧ Option.Rel R parent parent' ∧
      (c.node i).id = c.fullId parent name ∧ (d.node j).id = d.fullId parent' name
  /-- Each node with a name is paired. -/
  total {i : Nat} : i < c.size → ¬ EndsInNumber (c.node i).id → ∃ j, R i j

namespace Pairs

variable {c d : Content} {R : NodeId → NodeId → Prop} {name : String} {i j : NodeId}

/-- Where an id ends in names, so does the id of the paired node, and what stands in front of the
names are the ids of paired nodes. -/
theorem exists_above (h : c.Pairs R d) (hij : R i j) {before parts : List (List Char)}
    (hid : idParts (c.node i).id = before ++ parts) (hparts : ∀ part ∈ parts, ¬ IsNumber part) :
    before = [] ∧ idParts (d.node j).id = parts ∨
      ∃ a b, R a b ∧ idParts (c.node a).id = before ∧
        idParts (d.node j).id = idParts (d.node b).id ++ parts := by
  induction parts using List.reverseRecOn generalizing i j with
  | nil => exact .inr ⟨i, j, hij, by rw [hid, List.append_nil], by rw [List.append_nil]⟩
  | append_singleton parts part ih =>
    obtain ⟨hnumber, -⟩ | ⟨name, parent, parent', hname, hparent, hi, hj⟩ := h.id hij
    · exact absurd hnumber (not_endsInNumber_of_parts hid (by simp) hparts)
    rw [hi, idParts_fullId _ hname.no_dot, ← List.append_assoc] at hid
    obtain ⟨hbefore, hlast⟩ := List.append_inj' hid rfl
    obtain rfl := (List.cons.inj hlast).1
    rw [hj, idParts_fullId _ hname.no_dot]
    cases hparent with
    | none =>
      obtain ⟨rfl, rfl⟩ := List.append_eq_nil_iff.1 hbefore.symm
      exact .inl ⟨rfl, rfl⟩
    | some hpq =>
      obtain ⟨rfl, habove⟩ | ⟨a, b, hab, ha, habove⟩ :=
        ih hpq hbefore fun part hpart => hparts part (List.mem_append_left _ hpart)
      · exact .inl ⟨rfl, congrArg (· ++ [name]) habove⟩
      · refine .inr ⟨a, b, hab, ha, ?_⟩
        rw [← List.append_assoc, ← habove]
        rfl

variable (h : c.Pairs R d) (hd : d.Sound)

include h

/-- No paired node has an empty id. -/
theorem id_ne_empty (hij : R i j) : (c.node i).id ≠ "" := by
  intro hid
  have hparts : idParts (c.node i).id = [[]] := by
    rw [hid]
    rfl
  obtain ⟨⟨part, hlast, hnumber⟩, -⟩ | ⟨name, parent, parent', hname, -, hi, -⟩ := h.id hij
  · rw [hparts] at hlast
    obtain rfl := Option.some.inj hlast
    exact hnumber.1 rfl
  · rw [hi, idParts_fullId _ hname.no_dot] at hparts
    obtain ⟨-, hlast⟩ := List.append_inj' (hparts.trans (List.nil_append [[]]).symm) rfl
    obtain rfl := (List.cons.inj hlast).1
    exact hname.not_digits (List.forall_mem_nil _)

variable (hname : Unnumbered name)

include hname

/-- A node with such an id is paired. -/
theorem exists_of_parts (hi : i < c.size) {before : List (List Char)}
    (hid : idParts (c.node i).id = before ++ idParts name) : ∃ j, R i j :=
  h.total hi (not_endsInNumber_of_parts hid (Text.splitWhere_ne_nil _ _) hname)

include hd in
/-- A name stands for nodes that are paired. -/
theorem exists_find? (hfind : c.find? name = some i) : ∃ j, R i j ∧ d.find? name = some j := by
  obtain ⟨hi, rfl⟩ := find?_eq_some hfind
  have hparts : idParts (c.node i).id = [] ++ idParts (c.node i).id := rfl
  obtain ⟨j, hij⟩ := h.exists_of_parts hname hi hparts
  refine ⟨j, hij, ?_⟩
  obtain ⟨-, hj⟩ | ⟨a, b, -, ha, -⟩ := h.exists_above hij hparts hname
  · rw [← idParts_injective hj]
    exact hd.find?_id (h.lt hij).2
  · exact absurd ha (Text.splitWhere_ne_nil _ _)

include hd in
/-- Behind the ids of paired nodes a name stands for nodes that are paired. -/
theorem exists_behind {above above' : String}
    (habove : ∀ a b, R a b → (c.node a).id = above → (d.node b).id = above')
    (hfind : c.find? (above ++ "." ++ name) = some i) :
    ∃ j, R i j ∧ d.find? (above' ++ "." ++ name) = some j := by
  obtain ⟨hi, hid⟩ := find?_eq_some hfind
  have hparts := congrArg idParts hid
  rw [idParts_dot] at hparts
  obtain ⟨j, hij⟩ := h.exists_of_parts hname hi hparts
  refine ⟨j, hij, ?_⟩
  obtain ⟨hnone, -⟩ | ⟨a, b, hab, ha, hj⟩ := h.exists_above hij hparts hname
  · exact absurd hnone (Text.splitWhere_ne_nil _ _)
  · rw [← habove a b hab (idParts_injective ha), ← idParts_injective (hj.trans (idParts_dot ..).symm)]
    exact hd.find?_id (h.lt hij).2

/-- A label is that of nodes that are paired. -/
theorem exists_bears (hcontainer : ∀ {i j}, R i j → (d.node j).isContainer = (c.node i).isContainer)
    (hi : c.Bears name i) : ∃ j, R i j ∧ d.Bears name j := by
  obtain ⟨hlt, hopen, stem, hid⟩ := hi
  have hparts := congrArg idParts hid
  rw [idParts_dot] at hparts
  obtain ⟨j, hij⟩ := h.exists_of_parts hname hlt hparts
  refine ⟨j, hij, (h.lt hij).2, by rw [hcontainer hij, hopen], ?_⟩
  obtain ⟨hnone, -⟩ | ⟨a, b, -, -, hj⟩ := h.exists_above hij hparts hname
  · exact absurd hnone (Text.splitWhere_ne_nil _ _)
  · rw [← idParts_dot] at hj
    exact ⟨(d.node b).id, idParts_injective hj⟩

end Pairs

/-! ## Positions without the comments -/

/-- The position of a node that stands at another position when the comments are taken out. -/
noncomputable def kept (c : Content) (i : NodeId) : NodeId :=
  Nat.nth (fun j => c.isComment j = false) i

/-- How many nodes in front of a position are no comments. -/
def keptBefore (c : Content) (n : NodeId) : Nat :=
  Nat.count (fun j => c.isComment j = false) n

section Kept

variable (c : Content)

/-- Behind the last node there is no comment. -/
theorem isComment_of_size_le {c : Content} {i : NodeId} (h : c.size ≤ i) :
    c.isComment i = false := by
  rw [isComment, node_eq_default h]
  rfl

/-- A comment is a node of the content. -/
theorem lt_size_of_isComment {c : Content} {j : NodeId} (h : c.isComment j = true) : j < c.size := by
  by_contra hge
  rw [isComment_of_size_le (Nat.le_of_not_lt hge)] at h
  cases h

/-- There is always a further node that is no comment. -/
theorem infinite_not_isComment : (Set.ofPred fun j => c.isComment j = false).Infinite :=
  Set.infinite_of_forall_exists_gt fun n =>
    ⟨max n c.size + 1, isComment_of_size_le (Nat.le_succ_of_le (Nat.le_max_right ..)),
      Nat.lt_succ_of_le (Nat.le_max_left ..)⟩

/-- The nodes that stay keep their order. -/
theorem kept_strictMono : StrictMono c.kept :=
  Nat.nth_strictMono c.infinite_not_isComment

/-- What stays is no comment. -/
theorem isComment_kept (i : NodeId) : c.isComment (c.kept i) = false :=
  Nat.nth_mem_of_infinite c.infinite_not_isComment i

/-- The nodes that stay in front of a position are counted. -/
theorem kept_lt_iff {i n : Nat} : c.kept i < n ↔ i < c.keptBefore n :=
  (Nat.lt_nth_iff_count_lt c.infinite_not_isComment).symm

variable {c}

/-- What is no comment has a position without the comments. -/
theorem kept_keptBefore {j : NodeId} (h : c.isComment j = false) : c.kept (c.keptBefore j) = j :=
  Nat.nth_count h

/-- Behind the nodes that stay there is nothing. -/
theorem node_kept_of_le {i : Nat} (h : c.keptBefore c.size ≤ i) : c.node (c.kept i) = default :=
  node_eq_default (Nat.le_of_not_lt fun hlt => Nat.not_lt.2 h (c.kept_lt_iff.1 hlt))

/-- The count depends on the nodes in front only. -/
theorem keptBefore_congr {c' : Content} {n : Nat} (h : ∀ j < n, c'.isComment j = c.isComment j) :
    c'.keptBefore n = c.keptBefore n := by
  rw [keptBefore, keptBefore, Nat.count_eq_card_filter_range, Nat.count_eq_card_filter_range]
  refine congrArg Finset.card (Finset.filter_congr fun j hj => ?_)
  rw [h j (Finset.mem_range.1 hj)]

/-- Positions depend on the nodes in front only. -/
theorem kept_congr {c' : Content} {n i : Nat} (h : ∀ j < n, c'.isComment j = c.isComment j)
    (hi : c.kept i < n) : c'.kept i = c.kept i := by
  have hbefore : c'.keptBefore (c.kept i) = i := by
    rw [keptBefore_congr fun j hj => h j (Nat.lt_trans hj hi)]
    exact Nat.count_nth_of_infinite c.infinite_not_isComment i
  have hkept := kept_keptBefore ((h _ hi).trans (c.isComment_kept i))
  rwa [hbefore] at hkept

end Kept

/-! ## Comments in between -/

/-- Whether two ids come about alike: both are those of places, or both are the full ids of one
proper name under a node and under the one that holds it. -/
def SameName (c d : Content) (parent : Option NodeId) (id id' : String) : Prop :=
  EndsInNumber id ∧ EndsInNumber id' ∨ ∃ name, IsProper name ∧
    id = c.fullId (parent.map c.kept) name ∧ id' = d.fullId parent name

/-- The content `c` holds what the content `d` holds, and comments in between. -/
structure Annotates (c d : Content) : Prop where
  /-- What is no comment is in `d`. -/
  size : d.size = c.keptBefore c.size
  /-- Without the comments under it a node is that of `d`. -/
  node (i : NodeId) : ((c.node (c.kept i)).without c.isComment).Copies c.kept (d.node i)
  /-- A node has a name in both or in none. -/
  id {i : Nat} : i < d.size →
    c.SameName d (d.node i).parent (c.node (c.kept i)).id (d.node i).id
  /-- Comments have no names. -/
  comment {j : NodeId} : c.isComment j = true → EndsInNumber (c.node j).id

/-- Copies hang one above the other like the nodes. -/
theorem Descends.lineage_map {c d : Content} {place : NodeId → NodeId} (hc : c.Descends)
    (hd : d.Descends) (h : ∀ i, (c.node (place i)).parent = (d.node i).parent.map place)
    (i : NodeId) : c.lineage (place i) = (d.lineage i).map place := by
  induction i using Nat.strongRecOn with
  | ind i ih =>
    have hparent := h i
    cases hdparent : (d.node i).parent with
    | none =>
      rw [hdparent] at hparent
      rw [lineage_of_root hparent, lineage_of_root hdparent]
      rfl
    | some p =>
      rw [hdparent] at hparent
      rw [hc.lineage_of_parent hparent, hd.lineage_of_parent hdparent, ih p (hd.lt hdparent)]
      rfl

/-- A search finds the copy of what another one finds. -/
theorem eq_map_of_forall {f : NodeId → NodeId} {found : Option NodeId} {found' : Option NodeId}
    (h : ∀ i, found = some i → ∃ j, i = f j ∧ found' = some j)
    (h' : ∀ j, found' = some j → found = some (f j)) : found = found'.map f := by
  cases hfound : found' with
  | some j => exact h' j hfound
  | none =>
    rw [Option.map_none, Option.eq_none_iff_forall_ne_some]
    intro i hi
    obtain ⟨j, -, hj⟩ := h i hi
    rw [hfound] at hj
    cases hj

namespace Annotates

variable {c d : Content} (h : c.Annotates d)

include h

/-- What stays of the content is the content without its comments. -/
theorem kept_lt_size_iff {i : Nat} : c.kept i < c.size ↔ i < d.size := by
  rw [kept_lt_iff, h.size]

/-- A node hangs under the copy of its parent. -/
theorem parent (i : NodeId) : (c.node (c.kept i)).parent = (d.node i).parent.map c.kept :=
  (h.node i).parent

/-- A node stands under the nodes under which it stands without the comments. -/
theorem lineage (hc : c.Descends) (hd : d.Descends) (i : NodeId) :
    c.lineage (c.kept i) = (d.lineage i).map c.kept :=
  hc.lineage_map hd h.parent i

/-- The nodes are paired with those of the other content. -/
theorem pairs (hd : d.Sound) : c.Pairs (fun i j => j < d.size ∧ i = c.kept j) d where
  lt := by
    rintro i j ⟨hj, rfl⟩
    exact ⟨h.kept_lt_size_iff.2 hj, hj⟩
  unique := by
    rintro i j k ⟨-, rfl⟩ ⟨-, heq⟩
    exact c.kept_strictMono.injective heq
  id := by
    rintro i j ⟨hj, rfl⟩
    obtain hnumber | ⟨name, hname, hi, hj'⟩ := h.id hj
    · exact .inl hnumber
    · refine .inr ⟨name, _, _, hname, ?_, hi, hj'⟩
      cases hparent : (d.node j).parent with
      | none => exact .none
      | some p => exact .some ⟨hd.parent hparent, rfl⟩
  total := by
    intro i hi hnumber
    have hcomment : c.isComment i = false := by
      rw [← Bool.not_eq_true]
      exact fun hcomment => hnumber (h.comment hcomment)
    have hkept := kept_keptBefore hcomment
    exact ⟨c.keptBefore i, h.kept_lt_size_iff.1 (by rwa [hkept]), hkept.symm⟩

/-- They are paired the other way round, too. -/
theorem pairs_flip (hd : d.Sound) : d.Pairs (fun j i => j < d.size ∧ i = c.kept j) c where
  lt hji := ((h.pairs hd).lt hji).symm
  unique := by
    rintro i j k ⟨-, rfl⟩ ⟨-, rfl⟩
    rfl
  id {j i} hji := by
    obtain hnumber | ⟨name, parent, parent', hname, hparent, hi, hj⟩ := (h.pairs hd).id hji
    · exact .inl hnumber.symm
    · refine .inr ⟨name, parent', parent, hname, ?_, hj, hi⟩
      cases hparent with
      | none => exact .none
      | some hpq => exact .some hpq
  total {j} hj _ := ⟨c.kept j, hj, rfl⟩

/-- Behind the last node there is nothing, with the comments and without. -/
theorem node_kept_of_size_le {i : Nat} (hi : d.size ≤ i) : c.node (c.kept i) = default :=
  node_kept_of_le (h.size ▸ hi)

/-- A node is a container just when its copy is one. -/
theorem isContainer_kept (i : NodeId) : (c.node (c.kept i)).isContainer = (d.node i).isContainer := by
  rw [← (h.node i).isContainer, Node.isContainer_without]

section Names

variable (hc : c.Sound) (hd : d.Sound) {name : String}

include hc hd

/-- A name stands for the copy of what it stands for without the comments. -/
theorem find? (hname : Unnumbered name) : c.find? name = (d.find? name).map c.kept := by
  refine eq_map_of_forall (fun i hi => ?_) fun j hj => ?_
  · obtain ⟨j, ⟨-, rfl⟩, hj⟩ := (h.pairs hd).exists_find? hd hname hi
    exact ⟨j, rfl, hj⟩
  · obtain ⟨i, ⟨-, rfl⟩, hi⟩ := (h.pairs_flip hd).exists_find? hc hname hj
    exact hi

/-- Behind the id of a node a name stands for the copy of what it stands for behind the id that the
node has without the comments. -/
theorem find?_behind (i : NodeId) (hname : Unnumbered name) :
    c.find? ((c.node (c.kept i)).id ++ "." ++ name) =
      (d.find? ((d.node i).id ++ "." ++ name)).map c.kept := by
  have hpairs := h.pairs hd
  have hflip := h.pairs_flip hd
  -- behind the last node nothing has an id
  have habove (a b : NodeId) (hab : b < d.size ∧ a = c.kept b)
      (ha : (c.node a).id = (c.node (c.kept i)).id) : (d.node b).id = (d.node i).id := by
    rcases Nat.lt_or_ge i d.size with hlt | hge
    · have heq := hc.distinct (hpairs.lt hab).1 (h.kept_lt_size_iff.2 hlt) ha
      rw [c.kept_strictMono.injective (hab.2.symm.trans heq)]
    · rw [h.node_kept_of_size_le hge] at ha
      exact absurd ha (hpairs.id_ne_empty hab)
  have hbelow (b a : NodeId) (hab : b < d.size ∧ a = c.kept b)
      (hb : (d.node b).id = (d.node i).id) : (c.node a).id = (c.node (c.kept i)).id := by
    rcases Nat.lt_or_ge i d.size with hlt | hge
    · rw [hab.2, hd.distinct hab.1 hlt hb]
    · rw [node_eq_default hge] at hb
      exact absurd hb (hflip.id_ne_empty hab)
  refine eq_map_of_forall (fun k hk => ?_) fun j hj => ?_
  · obtain ⟨j, ⟨-, rfl⟩, hj⟩ := hpairs.exists_behind hd hname habove hk
    exact ⟨j, rfl, hj⟩
  · obtain ⟨k, ⟨-, rfl⟩, hk⟩ := hflip.exists_behind hc hname hbelow hj
    exact hk

omit hc

/-- A label is that of the copy of the node that has it without the comments. -/
theorem findByLabel? (hname : Unnumbered name) :
    c.findByLabel? name = (d.findByLabel? name).map c.kept := by
  have hpairs := h.pairs hd
  have hflip := h.pairs_flip hd
  have hcontainer {i j : NodeId} (hij : j < d.size ∧ i = c.kept j) :
      (d.node j).isContainer = (c.node i).isContainer := by
    rw [hij.2, h.isContainer_kept]
  have hcontainer' {j i : NodeId} (hij : j < d.size ∧ i = c.kept j) := (hcontainer hij).symm
  refine eq_map_of_forall (fun i hi => ?_) fun j hj => ?_
  · obtain ⟨hbears, honly⟩ := findByLabel?_eq_some_iff.1 hi
    obtain ⟨j, ⟨-, rfl⟩, hj⟩ := hpairs.exists_bears hname hcontainer hbears
    refine ⟨j, rfl, findByLabel?_eq_some_iff.2 ⟨hj, fun k hk => ?_⟩⟩
    obtain ⟨i, ⟨-, rfl⟩, hi⟩ := hflip.exists_bears hname hcontainer' hk
    exact c.kept_strictMono.injective (honly _ hi)
  · obtain ⟨hbears, honly⟩ := findByLabel?_eq_some_iff.1 hj
    obtain ⟨i, ⟨-, rfl⟩, hi⟩ := hflip.exists_bears hname hcontainer' hbears
    refine findByLabel?_eq_some_iff.2 ⟨hi, fun k hk => ?_⟩
    obtain ⟨l, ⟨-, rfl⟩, hl⟩ := hpairs.exists_bears hname hcontainer hk
    rw [honly l hl]

end Names

/-- Content without its comments is a copy of what it holds besides them. -/
theorem copies (hc : c.Sound) (hctree : c.Tree) (hd : d.Sound) (hdtree : d.Tree) :
    (c.without c.isComment).Copies c.kept d := by
  refine ⟨c.kept_strictMono.injective, ?_, fun i => ?_, fun i => ?_, fun {i} hi => ?_,
    fun {name} hname => ?_, fun {name} i hname => ?_, fun {name} hname => ?_⟩
  · rw [size_without, h.size]
    exact Nat.count_le _
  · rw [node_without]
    exact h.node i
  · rw [lineage_without]
    exact h.lineage hctree.descends hdtree.descends i
  · rw [node_without, Node.id_without]
    rcases Nat.lt_or_ge i d.size with hlt | hge
    · have hfound := h.find? hc hd hi
      rw [hd.find?_id hlt] at hfound
      exact (find?_eq_some hfound).2
    · rw [node_eq_default hge, h.node_kept_of_size_le hge]
  · rw [find?_without]
    exact h.find? hc hd hname
  · rw [find?_without, node_without, Node.id_without]
    exact h.find?_behind hc hd i hname
  · rw [findByLabel?_without]
    exact h.findByLabel? hd hname

end Annotates

end Content

end Narrative
