import Narrative.Proofs.Content.Annotation
import Narrative.Proofs.Source.Duplicates

/-!
# Reading beside comments

Two contents grow alike while a source is read with its comments and without them: what a line adds
to one it adds to the other, and a comment is added to one only. Between them the one that has the
comments holds what the other one holds.
-/

namespace Narrative

/-! ## Nodes that grow alike -/

namespace Node

variable {place place' : NodeId → NodeId} {omitted omitted' : NodeId → Bool} {m n : Node}

/-- A new node that is of the same kind as another one and says the same. -/
structure Resembles (m n : Node) : Prop where
  /-- It is of the same kind. -/
  kind : m.kind = n.kind
  /-- It is from the same line. -/
  line : m.line = n.line
  /-- It has the same text. -/
  text : m.text = n.text
  /-- It is at the same level. -/
  level : m.level = n.level
  /-- It declares the same background. -/
  background : m.background = n.background

/-- Nodes that resemble each other may get the same level. -/
theorem Resembles.withLevel (h : m.Resembles n) {level level' : Nat} (hlevel : level = level') :
    ({ m with level } : Node).Resembles { n with level := level' } :=
  ⟨h.kind, h.line, h.text, hlevel, h.background⟩

/-- A new node is a copy of the one that it resembles, when it hangs under the copy of the parent. -/
theorem Resembles.copies (h : m.Resembles n) (hm : m.Bare) (hn : n.Bare) (parent : Option NodeId) :
    (({ m with parent := parent.map place } : Node).without omitted).Copies place
      { n with parent } where
  kind := by
    have hlines : ∀ o ∈ n.options, o.lines = [] := fun o ho => hn.lines ho
    rw [Node.options] at hlines
    rw [without]
    dsimp only
    rw [h.kind]
    cases hkind : n.kind with
    | block mode options =>
      rw [hkind] at hlines
      refine congrArg (NodeKind.block mode) (List.map_congr_left fun o ho => ?_)
      rw [BlockOption.moved, hlines o ho]
      rfl
    | _ => rfl
  line := h.line
  text := h.text
  level := h.level
  background := h.background
  parent := rfl
  children _ := by
    change m.children.filter (!omitted ·) = n.children.map place
    rw [hm.children, hn.children]
    rfl

/-- A node that is no block has one list of children. -/
theorem lists_of_not_isBlock (hblock : n.isBlock = false) : n.lists = [n.children] := by
  unfold lists
  cases hkind : n.kind with
  | block mode options =>
    rw [Node.isBlock, hkind] at hblock
    cases hblock
  | _ => rfl

/-- What is listed at other positions only where nothing is listed is a copy there. -/
theorem Copies.congr (h : m.Copies place n)
    (hparent : ∀ p ∈ n.parent, place' p = place p) (hlisted : ∀ j ∈ n.listed, place' j = place j) :
    m.Copies place' n where
  kind := by
    rw [h.kind]
    cases hkind : n.kind with
    | block mode options =>
      refine congrArg (NodeKind.block mode) (List.map_congr_left fun o ho => ?_)
      rw [BlockOption.moved, BlockOption.moved]
      refine congrArg (BlockOption.mk o.guard) (List.map_congr_left fun j hj => (hlisted j ?_).symm)
      rw [Node.listed, lists, hkind]
      exact List.mem_flatten.2 ⟨o.lines, List.mem_map.2 ⟨o, ho, rfl⟩, hj⟩
    | _ => rfl
  line := h.line
  text := h.text
  level := h.level
  background := h.background
  parent := by
    rw [h.parent]
    cases hn : n.parent with
    | none => rfl
    | some p => exact congrArg some (hparent p hn).symm
  children hblock := by
    rw [h.children hblock]
    refine List.map_congr_left fun j hj => (hlisted j ?_).symm
    rwa [Node.listed, lists_of_not_isBlock hblock, List.flatten_singleton]

/-- The default node is its own copy. -/
theorem copies_default : ((default : Node).without omitted).Copies place default :=
  ⟨rfl, rfl, rfl, rfl, rfl, rfl, fun _ => rfl⟩

/-- A node is a block without comments just when it is one, of options without comments. -/
theorem kind_without_eq_block {mode : BlockMode} {list : List BlockOption} :
    (m.without omitted).kind = .block mode list ↔ ∃ options, m.kind = .block mode options ∧
      options.map (fun o => { o with lines := o.lines.filter (!omitted ·) }) = list := by
  rw [without]
  cases m.kind with
  | block mode' options => simp
  | _ => simp

/-- A child is added to the last option of a block. -/
theorem addChild_of_kind {mode : BlockMode} {options : List BlockOption} {child : NodeId}
    (hkind : n.kind = .block mode options) : n.addChild child =
      { n with kind := .block mode (options.dropLast ++
        [⟨(options.getLast?.getD ⟨none, []⟩).guard,
          (options.getLast?.getD ⟨none, []⟩).lines ++ [child]⟩]) } := by
  simp only [Node.addChild, hkind]

/-- A child is added to the children of any other node. -/
theorem addChild_of_not_isBlock {child : NodeId} (hblock : n.isBlock = false) :
    n.addChild child = { n with children := n.children ++ [child] } := by
  unfold Node.addChild
  cases hkind : n.kind with
  | block mode options =>
    rw [Node.isBlock, hkind] at hblock
    cases hblock
  | _ => rfl

/-- What is not listed need not be told apart. -/
theorem Copies.without_congr (h : (m.without omitted).Copies place n)
    (hlisted : ∀ j ∈ m.listed, omitted' j = omitted j) : (m.without omitted').Copies place n := by
  have hfilter {list : List NodeId} (hlist : list ∈ m.lists) :
      list.filter (!omitted' ·) = list.filter (!omitted ·) :=
    List.filter_congr fun j hj => by rw [hlisted j (List.mem_flatten.2 ⟨list, hlist, hj⟩)]
  have hkind : (m.without omitted').kind = (m.without omitted).kind := by
    rw [without, without]
    cases hm : m.kind with
    | block mode options =>
      refine congrArg (NodeKind.block mode) (List.map_congr_left fun o ho => ?_)
      refine congrArg (BlockOption.mk o.guard) (hfilter ?_)
      rw [lists, hm]
      exact List.mem_map_of_mem ho
    | _ => rfl
  refine ⟨hkind.trans h.kind, h.line, h.text, h.level, h.background, h.parent, fun hblock => ?_⟩
  rw [← h.children hblock]
  have hm : m.isBlock = false := by rw [← isBlock_without omitted, h.isBlock, hblock]
  refine hfilter ?_
  rw [lists_of_not_isBlock hm]
  exact List.mem_singleton_self _

/-- A further child that is not omitted is copied. -/
theorem Copies.addChild (h : (m.without omitted).Copies place n) {child : NodeId}
    (hchild : omitted (place child) = false) :
    ((m.addChild (place child)).without omitted).Copies place (n.addChild child) := by
  have hblock : m.isBlock = n.isBlock := by rw [← isBlock_without omitted, h.isBlock]
  cases hn : n.isBlock with
  | true =>
    obtain ⟨mode, list, hlist⟩ := kind_of_isBlock hn
    have hkind := h.kind
    rw [hlist] at hkind
    obtain ⟨options, hoptions, hsame⟩ := kind_without_eq_block.1 hkind
    rw [addChild_of_kind hoptions, addChild_of_kind hlist]
    let strip : BlockOption → BlockOption := fun o => { o with lines := o.lines.filter (!omitted ·) }
    have hsame : options.map strip = list.map (·.moved place) := hsame
    have hlast : strip (options.getLast?.getD ⟨none, []⟩) =
        (list.getLast?.getD ⟨none, []⟩).moved place := by
      rw [← Option.getD_map strip, ← Option.getD_map (BlockOption.moved place), ← List.getLast?_map,
        ← List.getLast?_map, hsame]
      rfl
    refine ⟨congrArg (NodeKind.block mode) ?_, h.line, h.text, h.level, h.background, h.parent,
      fun hnone => ?_⟩
    · change List.map strip _ = _
      have hgrown := congrArg (fun o : BlockOption => { o with lines := o.lines ++ [place child] })
        hlast
      rw [List.map_append, List.map_append, List.map_dropLast, List.map_dropLast, hsame]
      refine congrArg (_ ++ [·]) ?_
      simpa [strip, BlockOption.moved, hchild] using hgrown
    · cases hnone
  | false =>
    rw [addChild_of_not_isBlock (hblock.trans hn), addChild_of_not_isBlock hn]
    refine ⟨h.kind, h.line, h.text, h.level, h.background, h.parent, fun _ => ?_⟩
    have hchildren : m.children.filter (!omitted ·) = n.children.map place := h.children hn
    change (m.children ++ [place child]).filter (!omitted ·) = (n.children ++ [child]).map place
    rw [List.filter_append, hchildren, List.map_append, List.filter_cons_of_pos (by rw [hchild]; rfl)]
    rfl

/-- A further option is copied. -/
theorem Copies.addOption (h : (m.without omitted).Copies place n) (guard : Option String) :
    ((m.addOption guard).without omitted).Copies place (n.addOption guard) := by
  have hblock : m.isBlock = n.isBlock := by rw [← isBlock_without omitted, h.isBlock]
  cases hn : n.isBlock with
  | true =>
    obtain ⟨mode, list, hlist⟩ := kind_of_isBlock hn
    have hkind := h.kind
    rw [hlist] at hkind
    obtain ⟨options, hoptions, hsame⟩ := kind_without_eq_block.1 hkind
    simp only [Node.addOption, hoptions, hlist]
    refine ⟨congrArg (NodeKind.block mode) ?_, h.line, h.text, h.level, h.background, h.parent,
      fun hnone => ?_⟩
    · rw [List.map_append, List.map_append, ← hsame]
      rfl
    · cases hnone
  | false =>
    have haddOption {k : Node} (hk : k.isBlock = false) : k.addOption guard = k := by
      unfold Node.addOption
      cases hkind : k.kind with
      | block mode options =>
        rw [Node.isBlock, hkind] at hk
        cases hk
      | _ => rfl
    rwa [haddOption (hblock.trans hn), haddOption hn]

/-- A child that is omitted makes no difference, unless it begins the first option of a block. -/
theorem Copies.addChild_omitted (h : (m.without omitted).Copies place n) {child : NodeId}
    (hchild : omitted child = true) (hoptions : m.isBlock = true → m.options ≠ []) :
    ((m.addChild child).without omitted).Copies place n := by
  have hdropped (list : List NodeId) : (list ++ [child]).filter (!omitted ·) =
      list.filter (!omitted ·) := by
    rw [List.filter_append, List.filter_cons_of_neg (by simp [hchild]), List.filter_nil,
      List.append_nil]
  cases hm : m.isBlock with
  | true =>
    obtain ⟨mode, options, hkind⟩ := kind_of_isBlock hm
    have hne : options ≠ [] := by
      have hne := hoptions hm
      rwa [Node.options, hkind] at hne
    rw [addChild_of_kind hkind]
    have hsame : ({ m with kind := .block mode options } : Node) = m := by rw [← hkind]
    rw [← hsame] at h
    refine ⟨Eq.trans ?_ h.kind, h.line, h.text, h.level, h.background, h.parent, h.children⟩
    refine congrArg (NodeKind.block mode) ?_
    obtain ⟨before, last, rfl⟩ := (List.eq_nil_or_concat options).resolve_left hne
    simp [hdropped]
  | false =>
    rw [addChild_of_not_isBlock hm]
    refine ⟨h.kind, h.line, h.text, h.level, h.background, h.parent, fun hblock => ?_⟩
    rw [← h.children hblock]
    exact hdropped m.children

end Node

/-! ## Content that grows alike -/

namespace Content

variable {c c' d d' : Content}

/-- Ids that come about alike do so in content that is read further. -/
theorem SameName.prolong {parent : Option NodeId} {id id' : String}
    (h : c.SameName d parent id id') (hc' : c'.Prolongs c) (hd' : d'.Prolongs d)
    (hkept : ∀ p ∈ parent, c'.kept p = c.kept p) (hparent : ∀ p ∈ parent, c.kept p < c.size)
    (hparent' : ∀ p ∈ parent, p < d.size) : c'.SameName d' parent id id' := by
  obtain hnumber | ⟨name, hname, hid, hid'⟩ := h
  · exact .inl hnumber
  · refine .inr ⟨name, hname, ?_, by rw [hid', hd'.fullId_eq hparent']⟩
    cases parent with
    | none => exact hid
    | some p =>
      rw [hid, Option.map_some, Option.map_some, hkept p rfl, hc'.fullId_eq (by simpa using hparent)]

/-- A node that is hung under another one does not change which of the others are comments. -/
theorem isComment_of_hang? {p : NodeId} {m : Node} (h : c.hang? p m = some c') (hp : p < c.size)
    {j : NodeId} (hj : j ≠ c.size) : c'.isComment j = c.isComment j := by
  rw [isComment, isComment, node_of_hang? h hp, if_neg hj]
  split
  · next hjp =>
    rw [hjp]
    exact (Node.alike_addChild _ _).isComment_eq
  · rfl

namespace Annotates

/-- What comes next without comments is what comes next. -/
theorem kept_size (h : c.Annotates d) : c.kept d.size = c.size := by
  rw [h.size]
  exact kept_keptBefore (isComment_of_size_le (Nat.le_refl _))

/-- The nodes that stay are determined by the comments. -/
theorem kept_eq_of_forall (h : ∀ j, c'.isComment j = c.isComment j) : c'.kept = c.kept :=
  funext fun i => kept_congr (n := c.kept i + 1) (fun j _ => h j) (Nat.lt_succ_self _)

/-- Different nodes have different places. -/
theorem kept_eq_iff {i j : NodeId} : c.kept i = c.kept j ↔ i = j :=
  c.kept_strictMono.injective.eq_iff

/-- Contents that go on hold the same when their new nodes do, and no comment is among them. -/
theorem prolong (h : c.Annotates d) (hd : d.Sound) (hc' : c'.Prolongs c)
    (hd' : d'.Prolongs d) (hcomment : ∀ j, c'.isComment j = c.isComment j)
    (hsize : d'.size = c'.keptBefore c'.size)
    (hnode : ∀ i < d'.size, ((c'.node (c.kept i)).without c'.isComment).Copies c.kept (d'.node i))
    (hid : ∀ i, d.size ≤ i → i < d'.size →
      c'.SameName d' (d'.node i).parent (c'.node (c'.kept i)).id (d'.node i).id) :
    c'.Annotates d' := by
  have hkept : c'.kept = c.kept := kept_eq_of_forall hcomment
  refine ⟨hsize, fun i => ?_, fun {i} hi => ?_, fun {j} hj => ?_⟩
  · rw [hkept]
    rcases Nat.lt_or_ge i d'.size with hlt | hge
    · exact hnode i hlt
    · rw [node_eq_default hge, ← hkept, node_kept_of_le (hsize ▸ hge)]
      exact Node.copies_default
  · rcases Nat.lt_or_ge i d.size with hlt | hge
    · have hnode := hd'.node hlt
      rw [hkept, (hc'.node (h.kept_lt_size_iff.2 hlt)).id, hnode.id, hnode.parent]
      have hparent (p : NodeId) (hp : p ∈ (d.node i).parent) : p < d.size := hd.parent hp
      exact (h.id hlt).prolong hc' hd' (fun _ _ => by rw [hkept])
        (fun p hp => h.kept_lt_size_iff.2 (hparent p hp)) hparent
    · exact hid i hge hi
  · rw [hcomment] at hj
    rw [(hc'.node (lt_size_of_isComment hj)).id]
    exact h.comment hj

section Growing

variable (h : c.Annotates d) {m n : Node}

include h

/-- A node that is no comment stays. -/
theorem keptBefore_succ (hcomment : ∀ j, c'.isComment j = c.isComment j)
    (hsize : c'.size = c.size + 1) : c'.keptBefore c'.size = d.size + 1 := by
  rw [hsize, keptBefore, Nat.count_succ, if_pos, h.size, keptBefore]
  · exact congrArg (· + 1) (keptBefore_congr fun j _ => hcomment j)
  · rw [hcomment]
    exact isComment_of_size_le (Nat.le_refl _)

/-- The same root is added. -/
theorem insert? (hd : d.Sound) (hm : m.Bare) (hn : n.Bare) (hresembles : m.Resembles n)
    (hcomment : m.isComment = false) (hid : c.SameName d none m.id n.id)
    (hinsert : c.insert? m = some c') (hinsert' : d.insert? n = some d') :
    c'.Annotates d' ∧ c'.kept = c.kept := by
  have hcomments (j : NodeId) : c'.isComment j = c.isComment j := by
    rw [isComment, isComment, node_of_insert? hinsert]
    split
    · next hj =>
      rw [hcomment, hj, node_eq_default (Nat.le_refl _)]
      rfl
    · rfl
  have hkept : c'.kept = c.kept := kept_eq_of_forall hcomments
  have homitted : c'.isComment = c.isComment := funext hcomments
  have hsize := size_of_insert? hinsert'
  have hlast {i : Nat} (hi : d.size ≤ i) (hlt : i < d'.size) : i = d.size := by omega
  refine ⟨h.prolong hd (.insert? hinsert) (.insert? hinsert') hcomments ?_ (fun i hi => ?_)
    fun i hge hi => ?_, hkept⟩
  · rw [hsize, h.keptBefore_succ hcomments (size_of_insert? hinsert)]
  · rw [node_of_insert? hinsert, node_of_insert? hinsert', homitted, ← h.kept_size]
    by_cases hnew : i = d.size
    · rw [if_pos hnew, if_pos (congrArg c.kept hnew)]
      have hm' : ({ m with parent := none } : Node) = m := by rw [← hm.parent]
      have hn' : ({ n with parent := none } : Node) = n := by rw [← hn.parent]
      have hcopies : (({ m with parent := none } : Node).without c.isComment).Copies c.kept
          { n with parent := none } := hresembles.copies hm hn none
      rwa [hm', hn'] at hcopies
    · rw [if_neg hnew, if_neg fun heq => hnew (kept_eq_iff.1 heq)]
      exact h.node i
  · obtain rfl := hlast hge hi
    rw [hkept, h.kept_size, node_of_insert? hinsert, node_of_insert? hinsert', if_pos rfl,
      if_pos rfl, hn.parent]
    refine hid.prolong (.insert? hinsert) (.insert? hinsert') ?_ ?_ ?_ <;> rintro _ ⟨⟩

/-- The same node is hung under a node. -/
theorem hang? (hd : d.Sound) {p : Nat} (hp : p < d.size) (hm : m.Bare) (hn : n.Bare)
    (hresembles : m.Resembles n) (hcomment : m.isComment = false)
    (hid : c.SameName d (some p) m.id n.id) (hhang : c.hang? (c.kept p) m = some c')
    (hhang' : d.hang? p n = some d') : c'.Annotates d' ∧ c'.kept = c.kept := by
  have hlt := h.kept_lt_size_iff.2 hp
  have hnode (j : NodeId) := node_of_hang? hhang hlt j
  have hnode' (j : NodeId) := node_of_hang? hhang' hp j
  have hcomments (j : NodeId) : c'.isComment j = c.isComment j := by
    by_cases hj : j = c.size
    · rw [isComment_of_size_le (Nat.le_of_eq hj.symm), isComment, hnode, if_pos hj]
      exact hcomment
    · exact isComment_of_hang? hhang hlt hj
  have hkept : c'.kept = c.kept := kept_eq_of_forall hcomments
  have homitted : c'.isComment = c.isComment := funext hcomments
  have hsize := size_of_hang? hhang'
  have hlast {i : Nat} (hi : d.size ≤ i) (hlt : i < d'.size) : i = d.size := by omega
  refine ⟨h.prolong hd (.hang? hlt hhang) (.hang? hp hhang') hcomments ?_ (fun i hi => ?_)
    fun i hge hi => ?_, hkept⟩
  · rw [hsize, h.keptBefore_succ hcomments (size_of_hang? hhang)]
  · rw [hnode, hnode', homitted, ← h.kept_size]
    by_cases hnew : i = d.size
    · rw [if_pos hnew, if_pos (congrArg c.kept hnew)]
      exact hresembles.copies hm hn (some p)
    · rw [if_neg hnew, if_neg fun heq => hnew (kept_eq_iff.1 heq)]
      by_cases hip : i = p
      · rw [if_pos hip, if_pos (congrArg c.kept hip)]
        exact (h.node p).addChild (c.isComment_kept _)
      · rw [if_neg hip, if_neg fun heq => hip (kept_eq_iff.1 heq)]
        exact h.node i
  · obtain rfl := hlast hge hi
    rw [hkept, h.kept_size, hnode, hnode', if_pos rfl, if_pos rfl]
    refine hid.prolong (.hang? hlt hhang) (.hang? hp hhang') (fun _ _ => by rw [hkept]) ?_ ?_ <;>
      rintro _ ⟨⟩
    · exact hlt
    · exact hp

/-- A node is changed alike. -/
theorem modify (hd : d.Sound) (p : NodeId) {f : Node → Node}
    (hprolongs : ∀ n, (f n).Prolongs n) (hcomment : ∀ n, (f n).isComment = n.isComment)
    (hcopies : ∀ m n : Node, (m.without c.isComment).Copies c.kept n →
      ((f m).without c.isComment).Copies c.kept (f n)) :
    (c.modify (c.kept p) f).Annotates (d.modify p f) ∧
      (c.modify (c.kept p) f).kept = c.kept := by
  have hcomments (j : NodeId) : (c.modify (c.kept p) f).isComment j = c.isComment j := by
    rw [isComment, isComment, node_modify]
    split
    · exact hcomment _
    · rfl
  have hkept : (c.modify (c.kept p) f).kept = c.kept := kept_eq_of_forall hcomments
  have homitted : (c.modify (c.kept p) f).isComment = c.isComment := funext hcomments
  refine ⟨h.prolong hd (.modify c _ hprolongs) (.modify d _ hprolongs) hcomments ?_ (fun i hi => ?_)
    fun i hge hi => ?_, hkept⟩
  · rw [size_modify, size_modify, h.size, keptBefore_congr fun j _ => hcomments j]
  · rw [size_modify] at hi
    rw [node_modify, node_modify, homitted]
    by_cases hip : p = i
    · rw [if_pos ⟨congrArg c.kept hip, h.kept_lt_size_iff.2 hi⟩, if_pos ⟨hip, hi⟩]
      exact hcopies _ _ (h.node i)
    · rw [if_neg fun heq => hip (kept_eq_iff.1 heq.1), if_neg fun heq => hip heq.1]
      exact h.node i
  · rw [size_modify] at hi
    exact absurd hi (Nat.not_lt.2 hge)

/-- A comment is hung under a node, unless it begins the first option of a block. -/
theorem note (hd : d.Sound) (hdtree : d.Tree) (hctree : c.Tree) {p : Nat} (hp : p < d.size)
    (hcomment : m.isComment = true) (hid : EndsInNumber m.id)
    (hoptions : (c.node (c.kept p)).isBlock = true → (c.node (c.kept p)).options ≠ [])
    (hhang : c.hang? (c.kept p) m = some c') :
    c'.Annotates d ∧ ∀ i < d.size, c'.kept i = c.kept i := by
  have hlt := h.kept_lt_size_iff.2 hp
  have hnode (j : NodeId) := node_of_hang? hhang hlt j
  have hprolongs : c'.Prolongs c := .hang? hlt hhang
  have hsame {j : Nat} (hj : j < c.size) : c'.isComment j = c.isComment j :=
    isComment_of_hang? hhang hlt (Nat.ne_of_lt hj)
  have hnew : c'.isComment c.size = true := by
    rw [isComment, hnode, if_pos rfl]
    exact hcomment
  have hsize : c'.keptBefore c'.size = d.size := by
    rw [size_of_hang? hhang, keptBefore, Nat.count_succ, if_neg (by simp [hnew]), Nat.add_zero,
      h.size]
    exact keptBefore_congr fun j hj => hsame hj
  have hkept (i : Nat) (hi : i < d.size) : c'.kept i = c.kept i :=
    kept_congr (fun j hj => hsame hj) (h.kept_lt_size_iff.2 hi)
  have hlisted {i j : Nat} (hj : j ∈ (c.node i).listed) : j < c.size :=
    lt_size_of_parent (hctree.parent_of_listed hj)
  refine ⟨⟨hsize.symm, fun i => ?_, fun {i} hi => ?_, fun {j} hj => ?_⟩, hkept⟩
  · rcases Nat.lt_or_ge i d.size with hi | hge
    · have hcopies : ((c'.node (c.kept i)).without c'.isComment).Copies c.kept (d.node i) := by
        have hold := (h.node i).without_congr fun j hj => hsame (hlisted hj)
        rw [hnode, if_neg (Nat.ne_of_lt (h.kept_lt_size_iff.2 hi))]
        split
        · next hip =>
          rw [hip] at hold
          exact hold.addChild_omitted hnew hoptions
        · exact hold
      rw [hkept i hi]
      exact hcopies.congr (fun q hq => hkept q (hd.parent hq))
        fun j hj => hkept j (lt_size_of_parent (hdtree.parent_of_listed hj))
    · rw [node_eq_default hge, node_kept_of_le (hsize ▸ hge)]
      exact Node.copies_default
  · have hparent (q : NodeId) (hq : q ∈ (d.node i).parent) : q < d.size := hd.parent hq
    rw [hkept i hi, (hprolongs.node (h.kept_lt_size_iff.2 hi)).id]
    exact (h.id hi).prolong hprolongs (.refl d) (fun q hq => hkept q (hparent q hq))
      (fun q hq => h.kept_lt_size_iff.2 (hparent q hq)) hparent
  · rcases Nat.lt_or_eq_of_le (Nat.le_of_lt_succ
      (size_of_hang? hhang ▸ lt_size_of_isComment hj)) with hlt | rfl
    · rw [(hprolongs.node hlt).id]
      rw [hsame hlt] at hj
      exact h.comment hj
    · rw [hnode, if_pos rfl]
      exact hid

end Growing

end Annotates

end Content

end Narrative
