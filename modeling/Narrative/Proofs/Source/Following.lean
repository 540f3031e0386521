import Narrative.Proofs.Source.Nesting

/-!
# The weave of what is being read

The reader of a source knows one current container and climbs from it, while the weave keeps a stack
for every open scope. The weave follows a draft where the current container is the top of the
innermost scope and the nodes that were read are in their places, and each step of reading has its
counterpart in the weave.
-/

namespace Narrative

namespace Weave

open Draft

/-! ## The weave of what is being read -/

/-- The weave of a draft, whose first new node has the position `base`. -/
structure Follows (base : Nat) (m : Weave) (d : Draft) : Prop where
  /-- The draft is grown. -/
  grown : d.Grown
  /-- The next node is the one that the weave expects. -/
  next : m.next = d.content.size
  /-- The new nodes have places. -/
  size : d.content.size = base + m.places.length
  /-- The current container is the top of the innermost scope. -/
  current : d.current = m.scopes.head?.map Scope.top
  /-- The open blocks are those of the scopes. -/
  blocks : d.blocks = m.scopes.filterMap Scope.block?
  /-- The scopes are in the content. -/
  nested : d.content.Nested m.knot m.scopes
  /-- The new nodes are in their places. -/
  placed : ∀ (i : Nat) (place : Place), m.places[i]? = some place →
    (d.content.node (base + i)).parent = place.parent ∧
      d.content.Inside (base + i) place.within
  /-- A new choice or gather under a choice or gather has a larger level. -/
  deeper : ∀ i p : Nat, base ≤ i → (d.content.node i).parent = some p →
    (d.content.node i).isStrand = true → (d.content.node p).isStrand = true →
    (d.content.node p).level < (d.content.node i).level

section Steps

variable {base : Nat} {m m' : Weave} {d d' : Draft}

section Retained

variable (h : Follows base m d) (hretains : d'.content.Retains d.content)

include h hretains

/-- Places stay right in content that retains the nodes. -/
theorem Follows.placed_of_retains (hgrown : d'.Grown) {i : Nat} {place : Place}
    (hi : m.places[i]? = some place) : (d'.content.node (base + i)).parent = place.parent ∧
      d'.content.Inside (base + i) place.within := by
  obtain ⟨hparent, hinside⟩ := h.placed i place hi
  have hlt : base + i < d.content.size := by
    have := (List.getElem?_eq_some_iff.1 hi).1
    have := h.size
    omega
  refine ⟨by rw [hretains.parent hlt, hparent], ?_⟩
  exact hinside.retains hretains h.grown.tree.descends hgrown.tree.descends hlt

/-- Levels stay right in content that retains the nodes. -/
theorem Follows.deeper_of_retains {i p : Nat} (hi : base ≤ i) (hlt : i < d.content.size)
    (hp : (d'.content.node i).parent = some p) (hstrand : (d'.content.node i).isStrand = true)
    (hstrand' : (d'.content.node p).isStrand = true) :
    (d'.content.node p).level < (d'.content.node i).level := by
  rw [hretains.parent hlt] at hp
  have hplt := Nat.lt_trans (h.grown.tree.descends.lt hp) hlt
  rw [(hretains.alike hlt).isStrand_eq] at hstrand
  rw [(hretains.alike hplt).isStrand_eq] at hstrand'
  rw [hretains.level hlt, hretains.level hplt]
  exact h.deeper i p hi hp hstrand hstrand'

end Retained

/-- A step that adds no node. -/
theorem Follows.same (h : Follows base m d) (hgrown : d'.Grown)
    (hretains : d'.content.Retains d.content) (hsize : d'.content.size = d.content.size)
    (hnext : m'.next = m.next) (hplaces : m'.places = m.places)
    (hcurrent : d'.current = m'.scopes.head?.map Scope.top)
    (hblocks : d'.blocks = m'.scopes.filterMap Scope.block?)
    (hnested : d'.content.Nested m'.knot m'.scopes) : Follows base m' d' where
  grown := hgrown
  next := by rw [hnext, h.next, hsize]
  size := by rw [hsize, hplaces, h.size]
  current := hcurrent
  blocks := hblocks
  nested := hnested
  placed := by
    intro i place hi
    exact h.placed_of_retains hretains hgrown (hplaces ▸ hi)
  deeper := by
    intro i p hi hp
    exact h.deeper_of_retains hretains hi (hsize ▸ Content.lt_size_of_parent hp) hp

/-- A step that adds a node in its place. -/
theorem Follows.add (h : Follows base m d) (d' : Draft) (hgrown : d'.Grown)
    (hretains : d'.content.Retains d.content) (hsize : d'.content.size = d.content.size + 1)
    {place : Place} (hnext : m'.next = m.next + 1) (hplaces : m'.places = m.places ++ [place])
    (hplace : (d'.content.node d.content.size).parent = place.parent ∧
      d'.content.Inside d.content.size place.within)
    (hdeeper : ∀ p, place.parent = some p → (d'.content.node d.content.size).isStrand = true →
      (d'.content.node p).isStrand = true →
      (d'.content.node p).level < (d'.content.node d.content.size).level)
    (hcurrent : d'.current = m'.scopes.head?.map Scope.top)
    (hblocks : d'.blocks = m'.scopes.filterMap Scope.block?)
    (hnested : d'.content.Nested m'.knot m'.scopes) : Follows base m' d' where
  grown := hgrown
  next := by rw [hnext, h.next, hsize]
  size := by
    rw [hsize, hplaces, h.size, List.length_append]
    rfl
  current := hcurrent
  blocks := hblocks
  nested := hnested
  placed := by
    intro i place' hi
    rw [hplaces] at hi
    rcases Nat.lt_or_ge i m.places.length with hold | hnew
    · rw [List.getElem?_append_left hold] at hi
      exact h.placed_of_retains hretains hgrown hi
    · have hlast : i = m.places.length := by
        have := (List.getElem?_eq_some_iff.1 hi).1
        rw [List.length_append, List.length_singleton] at this
        omega
      rw [hlast, List.getElem?_concat_length, Option.some.injEq] at hi
      rw [hlast, ← h.size, ← hi]
      exact hplace
  deeper := by
    intro i p hi hp hstrand hstrand'
    rcases Nat.lt_or_ge i d.content.size with hold | hnew
    · exact h.deeper_of_retains hretains hi hold hp hstrand hstrand'
    · have hlast : i = d.content.size := by
        have hlt : i < d'.content.size := Content.lt_size_of_parent hp
        omega
      rw [hlast] at hp hstrand ⊢
      exact hdeeper p (hplace.1 ▸ hp) hstrand hstrand'

/-- A node is hung under the top of the innermost scope. -/
theorem Follows.hang (h : Follows base m d) (d' : Draft) {s : Scope} {outer scopes : List Scope}
    {n : Node} (hnested : d.content.Nested m.knot (s :: outer))
    (hopen : d.blocks = (s :: outer).filterMap Scope.block?)
    (hhang : d.content.hang? s.top n = some d'.content) (hgrown : d'.Grown)
    (hdeeper : n.isStrand = true → (d.content.node s.top).isStrand = true →
      (d.content.node s.top).level < n.level)
    (hcurrent : d'.current = scopes.head?.map Scope.top)
    (hblocks : d'.blocks = scopes.filterMap Scope.block?)
    (hscopes : d'.content.Nested m.knot (s.written :: outer) →
      d'.content.Inside d.content.size (within (s.written :: outer)) →
      d'.content.Nested m.knot scopes) :
    Follows base (m.place (some s.top) (within (s.written :: outer)) scopes) d' := by
  have hp := hnested.1.top_lt
  have hordered := hopen ▸ h.grown.nested
  have hretains := Content.Retains.hang? hp hhang
  obtain ⟨hnested', hinside⟩ :=
    hnested.hang h.grown.tree hgrown.tree.descends hordered hhang
  have hparent : (d'.content.node d.content.size).parent = some s.top := by
    rw [Content.Tree.parent_of_hang? hp hhang, if_pos rfl]
  refine h.add d' hgrown hretains (Content.size_of_hang? hhang) rfl rfl ⟨hparent, hinside⟩ ?_
    hcurrent hblocks (hscopes hnested' hinside)
  rintro p ⟨⟩ hstrand hstrand'
  have hnew : d'.content.node d.content.size = { n with parent := some s.top } := by
    rw [Content.node_of_hang? hhang hp, if_pos rfl]
  rw [(hretains.alike hp).isStrand_eq] at hstrand'
  rw [hnew] at hstrand ⊢
  rw [hretains.level hp]
  exact hdeeper hstrand hstrand'

/-! ## Steps of reading -/

/-- Where reading goes on inside a node there is a scope. -/
theorem Follows.exists_scope (h : Follows base m d) {p : NodeId} (hp : d.current = some p) :
    ∃ s outer, m.scopes = s :: outer ∧ p = s.top := by
  have hcurrent := h.current
  rw [hp] at hcurrent
  obtain ⟨s, hs, rfl⟩ := Option.map_eq_some_iff.1 hcurrent.symm
  obtain ⟨outer, houter⟩ := List.head?_eq_some_iff.1 hs
  exact ⟨s, outer, houter, rfl⟩

/-- A line that is written leaves the top of its scope. -/
theorem Scope.top_written (s : Scope) : s.written.top = s.top := by
  unfold written
  split <;> rfl

/-- A line that is written leaves the stack of its scope. -/
theorem Scope.stack_written (s : Scope) : s.written.stack = s.stack := by
  unfold written
  split <;> rfl

/-- A line that is written leaves the block of its scope. -/
theorem Scope.block?_written (s : Scope) : s.written.block? = s.block? := by
  unfold written
  split <;> rfl

/-- A line that is written leaves the open blocks. -/
theorem blocks_written (s : Scope) (outer : List Scope) :
    (s.written :: outer).filterMap Scope.block? = (s :: outer).filterMap Scope.block? := by
  rw [List.filterMap_cons, List.filterMap_cons, s.block?_written]

/-- A node inside which nothing is read is hung under the current container. -/
theorem Follows.leaf (h : Follows base m d) {p : NodeId} {n : Node} {c : Content}
    (hp : d.current = some p) (hbare : n.Bare) (hkind : n.isContainer = false)
    (hhang : d.content.hang? p n = some c) :
    Follows base (m.enter .leaf) { d with content := c } := by
  obtain ⟨s, outer, hscopes, rfl⟩ := h.exists_scope hp
  have hnested := h.nested
  have hblocks := h.blocks
  rw [hscopes] at hnested hblocks
  simp only [enter, hscopes]
  refine h.hang { d with content := c } hnested hblocks hhang ?_ ?_ ?_ ?_
    fun hnested _ => hnested
  · exact h.grown.grow (.leaf hp hbare hkind hhang)
  · intro hstrand
    unfold Node.isStrand Node.isChoice Node.isGather at hstrand
    unfold Node.isContainer at hkind
    cases hn : n.kind <;> simp [hn] at hstrand hkind
  · exact hp.trans (congrArg some s.top_written.symm)
  · rw [blocks_written]
    exact hblocks

/-- A block is opened under the current container. -/
theorem Follows.open (h : Follows base m d) {p : NodeId} {n : Node} {c : Content}
    {mode : BlockMode} {options : List BlockOption} (hp : d.current = some p) (hbare : n.Bare)
    (hkind : n.kind = .block mode options) (hhang : d.content.hang? p n = some c) :
    Follows base (m.enter (.block mode options.length)) { d with
      content := c, current := some d.content.size, blocks := d.content.size :: d.blocks } := by
  obtain ⟨s, outer, hscopes, rfl⟩ := h.exists_scope hp
  have hblock : n.isBlock = true := by rw [Node.isBlock, hkind]
  have hnested := h.nested
  have hblocks := h.blocks
  rw [hscopes] at hnested hblocks
  simp only [enter, hscopes]
  refine h.hang { d with
    content := c, current := some d.content.size, blocks := d.content.size :: d.blocks }
    hnested hblocks hhang ?_ ?_ ?_ ?_ fun hnested' hinside => ⟨?_, hnested'⟩
  · exact h.grown.grow (.opening hp hbare hblock hhang)
  · intro hstrand
    rw [Node.isStrand_of_isBlock hblock] at hstrand
    cases hstrand
  · rw [h.next]
    rfl
  · have hblock? : ({ owner := m.next, mode? := some mode, options := options.length } :
        Scope).block? = some m.next := rfl
    rw [List.filterMap_cons_some hblock?, blocks_written, h.next, hblocks]
  · have hnode : c.node d.content.size = { n with parent := some s.top } := by
      rw [Content.node_of_hang? hhang hnested.1.top_lt, if_pos rfl]
    rw [h.next]
    refine Content.opens_block ?_ ?_ ?_ hinside
    · rw [Content.size_of_hang? hhang]
      exact Nat.lt_succ_self _
    · rw [hnode]
      exact hkind
    · rw [hnode]
      exact congrArg some s.top_written.symm

/-- A level is accepted first where the weave closes the choices and gathers of that level. -/
theorem Follows.exists_closing (h : Follows base m d) {p : NodeId} {level : Nat}
    (hp : d.nearest? (acceptsLevel level) = some p) :
    ∃ s outer, m.scopes = s :: outer ∧ p = (s.closing level).top := by
  obtain ⟨i, hi, hfind⟩ := Option.bind_eq_some_iff.1 hp
  obtain ⟨s, outer, hscopes, rfl⟩ := h.exists_scope hi
  have hnested := h.nested
  rw [hscopes] at hnested
  have hsome := hnested.1.stack.find?_acceptsLevel h.grown.tree.descends hnested.1.owner.2 level
  exact ⟨s, outer, hscopes, Option.some.inj (hfind.symm.trans hsome)⟩

/-- A choice or gather is hung where its level is accepted. -/
theorem Follows.strand (h : Follows base m d) {p : NodeId} {n : Node} {c : Content} {level : Nat}
    (hp : d.nearest? (acceptsLevel level) = some p) (hbare : n.Bare) (hstrand : n.isStrand = true)
    (hlevel : n.level = level) (hhang : d.content.hang? p n = some c) :
    Follows base (m.enter (.strand level))
      { d with content := c, current := some d.content.size } := by
  obtain ⟨s, outer, hscopes, rfl⟩ := h.exists_closing hp
  have hnested := h.nested
  have hblocks := h.blocks
  rw [hscopes] at hnested hblocks
  have hclosing := hnested.1.closing level
  simp only [enter, hscopes]
  have hkind : (n.isStitch || n.isChoice || n.isGather) = true := by
    rw [Bool.or_assoc, ← Node.isStrand, hstrand, Bool.or_true]
  have hnode : c.node d.content.size = { n with parent := some (s.closing level).top } := by
    rw [Content.node_of_hang? hhang hclosing.top_lt, if_pos rfl]
  refine h.hang { d with content := c, current := some d.content.size }
    ⟨hclosing, hnested.2⟩ hblocks hhang ?_ ?_ ?_ ?_ fun hnested' hinside => ⟨?_, hnested'.2⟩
  · exact h.grown.grow (.branch hp (.inr (acceptsLevel_of_isBlock level)) hbare hkind hhang)
  · intro _ hstrand'
    rw [hlevel]
    exact hclosing.level_top_lt hstrand'
  · rw [h.next]
    rfl
  · exact hblocks.trans (blocks_written (s.closing level) outer).symm
  · rw [h.next]
    refine hnested'.1.push ?_ ?_ ?_ (fun e he => ?_) hinside
    · rw [hnode, Scope.top_written]
    · rw [hnode]
      exact hstrand
    · rw [hnode]
      exact hlevel
    · rw [Scope.stack_written] at he
      exact of_decide_eq_true (List.mem_filter.1 he).2

/-- A knot or function is added, and its section is the only scope. -/
theorem Follows.knot (h : Follows base m d) {n : Node} {c : Content} {start : Option NodeId}
    (hclosed : d.blocks = []) (hbare : n.Bare) (htop : n.isTop = true)
    (hinsert : d.content.insert? n = some c)
    (hstart : start = d.start ∨ start = some d.content.size ∧ n.isKnot = true) :
    Follows base (m.enter .knot)
      { d with content := c, current := some d.content.size, start } := by
  have hnode : c.node d.content.size = n := by rw [Content.node_of_insert? hinsert, if_pos rfl]
  have hsize := Content.size_of_insert? hinsert
  have hparent : (c.node d.content.size).parent = none := by rw [hnode, hbare.parent]
  have hstrand : (c.node m.next).isStrand = false := by
    rw [h.next, hnode, ← Bool.not_eq_true]
    intro hstrand
    rw [Node.isTop_of_isStrand hstrand] at htop
    cases htop
  have hblock : (c.node m.next).isBlock = false := by
    rw [h.next, hnode]
    unfold Node.isTop Node.isKnot Node.isFunction at htop
    unfold Node.isBlock
    cases hn : n.kind <;> simp [hn] at htop ⊢
  have hknot : (c.lineage m.next).find? (fun j => holdsStitches (c.node j)) = some m.next := by
    have hholds : holdsStitches (c.node d.content.size) = true := hnode ▸ htop
    rw [h.next, Content.lineage_of_root hparent, List.find?_cons, hholds]
  have hlt : m.next < c.size := by
    rw [h.next, hsize]
    exact Nat.lt_succ_self _
  refine h.add { d with content := c, current := some d.content.size, start } ?_
    (.insert? hinsert) hsize rfl rfl ⟨hparent, c.inside_nil _⟩ (fun _ hp => ?_)
    (congrArg some h.next.symm) hclosed
    ⟨Content.opens_section hlt hstrand hblock hknot, trivial⟩
  · exact h.grown.grow (.root hclosed hbare htop hinsert hstart)
  · exact absurd hp.symm (Option.some_ne_none _)

/-- Where no block is open, the nearest knot or function is that of the weave. -/
theorem Follows.knot_eq (h : Follows base m d) {p : NodeId}
    (hp : d.nearest? holdsStitches = some p) (hclosed : d.blocks = []) : m.knot = some p := by
  obtain ⟨i, hi, hfind⟩ := Option.bind_eq_some_iff.1 hp
  obtain ⟨s, outer, hscopes, rfl⟩ := h.exists_scope hi
  have hnested := h.nested
  have hblocks := h.blocks
  rw [hscopes] at hnested hblocks
  -- no block is open, so that the scope is a section
  have hmode : s.mode? = none := by
    cases hmode : s.mode? with
    | none => rfl
    | some mode =>
      rw [hclosed, List.filterMap_cons_some (by rw [Scope.block?, hmode]; rfl)] at hblocks
      cases hblocks
  rw [← (hnested.1.root hmode).2, ← hfind]
  refine (hnested.1.stack.find?_eq h.grown.tree.descends fun e he => ?_).symm
  exact Node.isTop_of_isStrand (hnested.1.stack.mem he).1

/-- A stitch is hung under the nearest knot or function, and its section is the only scope. -/
theorem Follows.stitch (h : Follows base m d) {p : NodeId} {n : Node} {c : Content}
    (hp : d.nearest? holdsStitches = some p) (hclosed : d.blocks = []) (hbare : n.Bare)
    (hstitch : n.isStitch = true) (hhang : d.content.hang? p n = some c) :
    Follows base (m.enter .stitch) { d with content := c, current := some d.content.size } := by
  have hlt := h.grown.sound.lt_of_nearest? hp
  have hknot := h.knot_eq hp hclosed
  obtain ⟨i, _, hfind⟩ := Option.bind_eq_some_iff.1 hp
  have hretains := Content.Retains.hang? hlt hhang
  have hsize := Content.size_of_hang? hhang
  have hnode : c.node d.content.size = { n with parent := some p } := by
    rw [Content.node_of_hang? hhang hlt, if_pos rfl]
  have hkind : n.isStrand = false ∧ n.isTop = false ∧ n.isBlock = false := by
    unfold Node.isStitch at hstitch
    unfold Node.isStrand Node.isChoice Node.isGather Node.isTop Node.isKnot Node.isFunction
      Node.isBlock
    cases hn : n.kind <;> simp [hn] at hstitch ⊢
  have hparent : (c.node d.content.size).parent = m.knot := by rw [hnode, hknot]
  have hstrand : (c.node m.next).isStrand = false := by
    rw [h.next, hnode]
    exact hkind.1
  have hblock : (c.node m.next).isBlock = false := by
    rw [h.next, hnode]
    exact hkind.2.2
  have hfound : (c.lineage m.next).find? (fun j => holdsStitches (c.node j)) = m.knot := by
    have hrefuses : holdsStitches (c.node d.content.size) = false := by
      rw [hnode]
      exact hkind.2.1
    have hheld := List.find?_some hfind
    have hholds : holdsStitches (c.node p) = true := (hretains.alike hlt).isTop_eq.trans hheld
    rw [h.next, Content.Tree.lineage_size_of_hang? h.grown.tree hlt hhang, List.find?_cons,
      hrefuses, Content.lineage, List.find?_cons, hholds, hknot]
  have hnext : m.next < c.size := by
    rw [h.next, hsize]
    exact Nat.lt_succ_self _
  refine h.add { d with content := c, current := some d.content.size } ?_
    hretains hsize rfl rfl ⟨hparent, c.inside_nil _⟩ (fun _ _ hnew => ?_)
    (congrArg some h.next.symm) hclosed
    ⟨Content.opens_section hnext hstrand hblock hfound, trivial⟩
  · refine h.grown.grow (.branch hp (.inl hclosed) hbare ?_ hhang)
    rw [hstitch]
    rfl
  · rw [← h.next] at hnew
    rw [hstrand] at hnew
    cases hnew

/-- Where a block is open it is that of the innermost scope. -/
theorem Follows.exists_block (h : Follows base m d) {block : NodeId} {blocks : List NodeId}
    (hblocks : d.blocks = block :: blocks) : ∃ s outer mode, m.scopes = s :: outer ∧
      s.mode? = some mode ∧ s.owner = block ∧ blocks = outer.filterMap Scope.block? := by
  have hopen := h.blocks
  have hnested := h.nested
  rw [hblocks] at hopen
  cases hscopes : m.scopes with
  | nil =>
    rw [hscopes] at hopen
    cases hopen
  | cons s outer =>
    rw [hscopes] at hopen hnested
    cases hmode : s.mode? with
    | none =>
      rw [(hnested.1.root hmode).1, List.filterMap_cons_none (by rw [Scope.block?, hmode]; rfl)]
        at hopen
      cases hopen
    | some mode =>
      have hblock : s.block? = some s.owner := by rw [Scope.block?, hmode]; rfl
      rw [List.filterMap_cons_some hblock] at hopen
      obtain ⟨rfl, rfl⟩ := List.cons.inj hopen
      exact ⟨s, outer, mode, rfl, hmode, rfl, rfl⟩

/-- The mode of the innermost open block is that of the weave. -/
theorem Follows.mode?_eq (h : Follows base m d) : m.mode? = d.blocks.head?.map d.blockMode := by
  cases hblocks : d.blocks with
  | cons block blocks =>
    obtain ⟨s, outer, mode, hscopes, hmode, rfl, -⟩ := h.exists_block hblocks
    have hnested := h.nested
    rw [hscopes] at hnested
    obtain ⟨-, options, hkind, -⟩ := hnested.1.block mode hmode
    rw [mode?, hscopes]
    simp [hmode, blockMode, hkind]
  | nil =>
    have hopen := h.blocks
    rw [hblocks] at hopen
    rw [mode?]
    cases hscopes : m.scopes with
    | nil => rfl
    | cons s outer =>
      have hnone := List.filterMap_eq_nil_iff.1 hopen.symm s (hscopes ▸ List.mem_cons_self)
      exact Option.map_eq_none_iff.1 hnone

/-- An option of the innermost open block begins. -/
theorem Follows.option (h : Follows base m d) {block : NodeId} {blocks : List NodeId}
    (hblocks : d.blocks = block :: blocks) (guard : Option String) :
    Follows base (m.enter .option) { d with
      content := d.content.modify block (·.addOption guard), current := some block } := by
  obtain ⟨s, outer, mode, hscopes, hmode, rfl, houter⟩ := h.exists_block hblocks
  have hnested := h.nested
  have hopen := h.blocks
  have hordered := h.grown.nested
  rw [hscopes] at hnested hopen
  rw [hblocks, houter] at hordered
  have hgrown := h.grown.grow (.option guard hblocks)
  have hretains := Content.Retains.modify d.content s.owner (Node.keeps_addOption guard)
  have hlt := hnested.1.owner.1
  have hnode (i : NodeId) : (d.content.modify s.owner (·.addOption guard)).node i =
      if s.owner = i ∧ i < d.content.size then (d.content.node i).addOption guard
      else d.content.node i := Content.node_modify ..
  have hopens : Content.Opens (d.content.modify s.owner (·.addOption guard)) m.knot s.begun
      outer := by
    refine (hnested.1.withStack [] trivial (List.nil_subset _)).retains hretains
      h.grown.tree.descends hgrown.tree.descends (.inr rfl) fun mode list _ hlist hlength => ?_
    refine ⟨list ++ [⟨guard, []⟩], ?_, by rw [List.length_append, hlength]; rfl⟩
    rw [hnode, if_pos ⟨rfl, hlt⟩, Node.addOption, hlist]
  have hscopes' : m.enter .option = { m with scopes := s.begun :: outer } := by
    rw [enter, hscopes]
  rw [hscopes']
  refine h.same hgrown hretains (Content.size_modify ..) rfl rfl rfl hopen ⟨hopens, ?_⟩
  refine hnested.2.retains hretains h.grown.tree.descends hgrown.tree.descends ?_
  intro s' hs' mode' hmode'
  have hblock : s'.block? = some s'.owner := by rw [Scope.block?, hmode']; rfl
  have hbefore := (List.pairwise_cons.1 hordered).1 _ (List.mem_filterMap.2 ⟨s', hs', hblock⟩)
  rw [hnode, if_neg fun heq => Nat.ne_of_gt hbefore heq.1]

/-- The innermost open block is closed. -/
theorem Follows.close (h : Follows base m d) {block : NodeId} {blocks : List NodeId}
    (hblocks : d.blocks = block :: blocks) : Follows base (m.enter .close)
      { d with blocks, current := (d.content.node block).parent } := by
  obtain ⟨s, outer, mode, hscopes, hmode, rfl, houter⟩ := h.exists_block hblocks
  have hnested := h.nested
  rw [hscopes] at hnested
  have hscopes' : m.enter .close = { m with scopes := outer } := by
    rw [enter, hscopes]
    simp [hmode]
  rw [hscopes']
  refine h.same (h.grown.grow (.close hblocks)) (.refl _) rfl rfl rfl ?_ houter hnested.2
  exact (hnested.1.block mode hmode).1

/-- Where no block is open, nothing is closed. -/
theorem Follows.close_eq (h : Follows base m d) (hblocks : d.blocks = []) : m.enter .close = m := by
  have hmode := h.mode?_eq
  rw [hblocks, mode?] at hmode
  rw [enter]
  cases hscopes : m.scopes with
  | nil => rfl
  | cons s outer =>
    have hnone : s.mode? = none := by
      rw [hscopes] at hmode
      exact hmode
    simp [hnone]

/-- The background of the current container is declared. -/
theorem Follows.background (h : Follows base m d) {p : NodeId} (hp : d.current = some p)
    (name : String) : Follows base m
      { d with content := d.content.modify p ({ · with background := some name }) } := by
  have hgrown := h.grown.grow (.background name hp)
  have hretains := Content.Retains.modify d.content p (Node.keeps_background (some name))
  refine h.same hgrown hretains (Content.size_modify ..) rfl rfl h.current h.blocks ?_
  refine h.nested.retains hretains h.grown.tree.descends hgrown.tree.descends fun s _ _ _ => ?_
  rw [Content.node_modify]
  split <;> rfl

/-- A line is counted, or a file to be included is noted. -/
theorem Follows.note (h : Follows base m d) (line : Nat) (includes : List String) :
    Follows base m { d with line, includes } :=
  h.same (h.grown.grow (.note line includes)) (.refl _) rfl rfl rfl h.current h.blocks h.nested

end Steps

end Weave

end Narrative
