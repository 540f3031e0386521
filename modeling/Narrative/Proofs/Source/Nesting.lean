import Mathlib.Data.List.Find
import Narrative.Proofs.Source.Arena
import Narrative.Proofs.Source.Weave

/-!
# Stacks in the content

The stacks of a weave stand for nodes of the content that hang under each other, down to the section
or the block that holds the stack. Climbing from the node on top then goes down the stack, and what
is hung under it is written in the options of the open blocks that are being read.
-/

namespace Narrative

/-- Whether a node is a choice or a gather. -/
def Node.isStrand (n : Node) : Bool :=
  n.isChoice || n.isGather

/-- Nodes that are alike are both strands, or none is. -/
theorem Node.Alike.isStrand_eq {n m : Node} (h : n.Alike m) : n.isStrand = m.isStrand := by
  rw [isStrand, isStrand, h.isChoice_eq, h.isGather_eq]

/-- A block is no strand. -/
theorem Node.isStrand_of_isBlock {n : Node} (h : n.isBlock = true) : n.isStrand = false := by
  obtain ⟨mode, options, hkind⟩ := kind_of_isBlock h
  rw [isStrand, isChoice, isGather, hkind]
  rfl

/-- A further child of a block goes into its last option, and begins the first one where there is
none. -/
theorem Node.kind_addChild {n : Node} {mode : BlockMode} {options : List BlockOption}
    (h : n.kind = .block mode options) (child : NodeId) :
    (∃ options', (n.addChild child).kind = .block mode options' ∧
      options'.length = max options.length 1) ∧
    child ∈ (n.addChild child).childrenAt (max options.length 1 - 1) := by
  rw [addChild, h]
  dsimp only
  rcases List.eq_nil_or_concat options with rfl | ⟨before, last, rfl⟩
  · exact ⟨⟨_, rfl, rfl⟩, List.mem_singleton_self child⟩
  · refine ⟨⟨_, rfl, by simp⟩, ?_⟩
    simp [childrenAt]

/-- A strand is not at the top. -/
theorem Node.isTop_of_isStrand {n : Node} (h : n.isStrand = true) : n.isTop = false := by
  unfold isStrand isChoice isGather at h
  unfold isTop isKnot isFunction
  cases hkind : n.kind <;> simp_all

/-- The block of a scope, unless the scope is a section. -/
def Weave.Scope.block? (s : Weave.Scope) : Option NodeId :=
  s.mode?.map fun _ => s.owner

namespace Content

open Weave

variable {c d : Content}

/-! ## Stacks in the content -/

/-- The nodes on a stack are choices and gathers that hang under each other down to the node that
holds the stack, each with a smaller level than the one it holds. -/
def Climbs (c : Content) (owner : NodeId) : List (NodeId × Nat) → Prop
  | [] => True
  | (i, level) :: rest =>
    ((c.node i).parent = some (topOf owner rest) ∧ (c.node i).isStrand = true ∧
      (c.node i).level = level ∧ ∀ e ∈ rest, e.2 < level) ∧ Climbs c owner rest

section Climbing

variable {owner : NodeId} {stack : List (NodeId × Nat)}

/-- What is climbed are strands with their levels. -/
theorem Climbs.mem (h : c.Climbs owner stack) {e : NodeId × Nat} (he : e ∈ stack) :
    (c.node e.1).isStrand = true ∧ (c.node e.1).level = e.2 ∧ e.1 < c.size := by
  induction stack with
  | nil => cases he
  | cons entry rest ih =>
    obtain ⟨⟨hparent, hstrand, hlevel, -⟩, hrest⟩ := h
    rcases List.mem_cons.1 he with rfl | he
    · exact ⟨hstrand, hlevel, lt_size_of_parent hparent⟩
    · exact ih hrest he

/-- Closing the choices and gathers of a level and deeper ones leaves a lower part of the stack. -/
theorem Climbs.filter (h : c.Climbs owner stack) (level : Nat) :
    c.Climbs owner (stack.filter (·.2 < level)) := by
  induction stack with
  | nil => trivial
  | cons entry rest ih =>
    obtain ⟨⟨hparent, hstrand, hlevel, hlt⟩, hrest⟩ := h
    by_cases hopen : entry.2 < level
    · have hall : rest.filter (·.2 < level) = rest :=
        List.filter_eq_self.2 fun e he => decide_eq_true (Nat.lt_trans (hlt e he) hopen)
      rw [List.filter_cons, if_pos (decide_eq_true hopen), hall]
      exact ⟨⟨hparent, hstrand, hlevel, hlt⟩, hrest⟩
    · rw [List.filter_cons_of_neg (by simpa using hopen)]
      exact ih hrest

/-- Climbing down a stack to the first node with a property that no node on the stack has ends below
the stack. -/
theorem Climbs.find?_eq (h : c.Climbs owner stack) (hd : c.Descends) {p : NodeId → Bool}
    (hp : ∀ e ∈ stack, p e.1 = false) :
    (c.lineage (topOf owner stack)).find? p = (c.lineage owner).find? p := by
  induction stack with
  | nil => rfl
  | cons entry rest ih =>
    obtain ⟨⟨hparent, -⟩, hrest⟩ := h
    rw [topOf, hd.lineage_of_parent hparent, List.find?_cons, hp entry List.mem_cons_self]
    exact ih hrest fun e he => hp e (List.mem_cons_of_mem _ he)

/-- Climbing down a stack to the first node that can hold a choice or gather of a level ends at the
top of what is left when the level is closed. -/
theorem Climbs.find?_acceptsLevel (h : c.Climbs owner stack) (hd : c.Descends)
    (howner : (c.node owner).isStrand = false) (level : Nat) :
    (c.lineage (topOf owner stack)).find? (fun j => Draft.acceptsLevel level (c.node j)) =
      some (topOf owner (stack.filter (·.2 < level))) := by
  have haccepts {j : NodeId} (hj : (c.node j).isStrand = true → (c.node j).level < level) :
      Draft.acceptsLevel level (c.node j) = true := by
    unfold Node.isStrand at hj
    unfold Draft.acceptsLevel
    cases hs : ((c.node j).isChoice || (c.node j).isGather) with
    | false => rfl
    | true => simpa using hj hs
  induction stack with
  | nil =>
    rw [topOf, lineage, List.find?_cons, haccepts (fun hs => by rw [howner] at hs; cases hs)]
    rfl
  | cons entry rest ih =>
    obtain ⟨⟨hparent, hstrand, hlevel, hlt⟩, hrest⟩ := h
    rw [topOf, hd.lineage_of_parent hparent, List.find?_cons]
    by_cases hopen : entry.2 < level
    · rw [haccepts (fun _ => hlevel ▸ hopen), List.filter_cons, if_pos (decide_eq_true hopen)]
      rfl
    · have hrefuses : Draft.acceptsLevel level (c.node entry.1) = false := by
        unfold Node.isStrand at hstrand
        rw [Draft.acceptsLevel, hstrand, hlevel]
        simpa using hopen
      rw [hrefuses, List.filter_cons_of_neg (by simpa using hopen)]
      exact ih hrest

/-- What is climbed is climbed in content that retains it. -/
theorem Climbs.retains (h : c.Climbs owner stack) (hretains : d.Retains c) :
    d.Climbs owner stack := by
  induction stack with
  | nil => trivial
  | cons entry rest ih =>
    obtain ⟨⟨hparent, hstrand, hlevel, hlt⟩, hrest⟩ := h
    have hi := lt_size_of_parent hparent
    refine ⟨⟨?_, ?_, ?_, hlt⟩, ih hrest⟩
    · rw [hretains.parent hi, hparent]
    · rw [(hretains.alike hi).isStrand_eq, hstrand]
    · rw [hretains.level hi, hlevel]

end Climbing

/-! ## Options in the content -/

/-- A node is written in the given options of blocks: each of them lists the node or one above it.
-/
def Inside (c : Content) (i : NodeId) (within : List (NodeId × Nat)) : Prop :=
  ∀ o ∈ within, (c.node o.1).isBlock = true ∧
    ∃ j ∈ c.lineage i, j ∈ (c.node o.1).childrenAt o.2

/-- Every node is inside nothing. -/
theorem inside_nil (c : Content) (i : NodeId) : c.Inside i [] :=
  fun _ ho => absurd ho List.not_mem_nil

/-- A node stays inside what it was inside. -/
theorem Inside.retains {i : NodeId} {within : List (NodeId × Nat)} (h : c.Inside i within)
    (hretains : d.Retains c) (hc : c.Descends) (hd : d.Descends) (hi : i < c.size) :
    d.Inside i within := by
  intro o ho
  obtain ⟨hblock, j, hj, hmem⟩ := h o ho
  have hlt : o.1 < c.size := lt_size (p := Node.isBlock) rfl hblock
  refine ⟨by rw [(hretains.alike hlt).isBlock_eq, hblock], j, ?_, hretains.childrenAt hlt hmem⟩
  rwa [hc.lineage_eq hd hretains.parent hi]

/-- What hangs under a node is written where the node is. -/
theorem Inside.of_parent {i p : NodeId} {within : List (NodeId × Nat)} (h : c.Inside p within)
    (hc : c.Descends) (hp : (c.node i).parent = some p) : c.Inside i within := by
  intro o ho
  obtain ⟨hblock, j, hj, hmem⟩ := h o ho
  exact ⟨hblock, j, hc.mem_lineage_iff.2 (.inr ⟨p, hp, hj⟩), hmem⟩

/-- A node is in one option of a block only. -/
theorem Tree.option_eq (h : c.Tree) {b j k k' : Nat} (hb : (c.node b).isBlock = true)
    (hk : j ∈ (c.node b).childrenAt k) (hk' : j ∈ (c.node b).childrenAt k') : k = k' := by
  obtain ⟨mode, options, hkind⟩ := Node.kind_of_isBlock hb
  have hnodup := h.nodup_listed b
  simp only [Node.listed, Node.lists, hkind] at hnodup
  simp only [Node.childrenAt, hkind] at hk hk'
  have hlists {k : Nat} (hk : j ∈ (options[k]?.map (·.lines)).getD []) :
      ∃ h : k < (options.map (·.lines)).length, j ∈ (options.map (·.lines))[k] := by
    cases hoption : options[k]? with
    | none => simp [hoption] at hk
    | some o =>
      obtain ⟨hlt, rfl⟩ := List.getElem?_eq_some_iff.1 hoption
      exact ⟨by simpa using hlt, by simpa [hoption] using hk⟩
  obtain ⟨hlt, hmem⟩ := hlists hk
  obtain ⟨hlt', hmem'⟩ := hlists hk'
  have hdisjoint := List.pairwise_iff_getElem.1 (List.nodup_flatten.1 hnodup).2
  rcases Nat.lt_trichotomy k k' with hbefore | heq | hafter
  · exact absurd hmem' (hdisjoint k k' hlt hlt' hbefore hmem)
  · exact heq
  · exact absurd hmem (hdisjoint k' k hlt' hlt hafter hmem')

/-! ## Scopes in the content -/

/-- A scope of the weave in the content: the node that holds the stack is a section, or it is a
block with as many options and hangs under the top of the scope outside. -/
structure Opens (c : Content) (knot : Option NodeId) (s : Scope) (outer : List Scope) : Prop where
  /-- The scope belongs to a node that is no choice and no gather. -/
  owner : s.owner < c.size ∧ (c.node s.owner).isStrand = false
  /-- The nodes on the stack hang under each other. -/
  stack : c.Climbs s.owner s.stack
  /-- They are written in the option that is being read. -/
  inside : ∀ e ∈ s.stack, c.Inside e.1 (within (s :: outer))
  /-- The node itself is written in the options outside. -/
  outside : c.Inside s.owner (within outer)
  /-- A section is no block. -/
  unblocked : s.mode? = none → (c.node s.owner).isBlock = false
  /-- It is the outermost scope and belongs to the knot. -/
  root : s.mode? = none → outer = [] ∧
    (c.lineage s.owner).find? (fun j => Draft.holdsStitches (c.node j)) = knot
  /-- A block hangs under the top of the scope outside. -/
  block : ∀ mode, s.mode? = some mode → (c.node s.owner).parent = outer.head?.map Scope.top ∧
    ∃ options, (c.node s.owner).kind = .block mode options ∧ options.length = s.options

/-- The scopes of the weave in the content, each inside those after it. -/
def Nested (c : Content) (knot : Option NodeId) : List Scope → Prop
  | [] => True
  | s :: outer => c.Opens knot s outer ∧ c.Nested knot outer

section Scopes

variable {knot : Option NodeId} {s : Scope} {outer : List Scope}

/-- A scope with a mode belongs to a block. -/
theorem Opens.isBlock (h : c.Opens knot s outer) {mode : BlockMode} (hmode : s.mode? = some mode) :
    (c.node s.owner).isBlock = true := by
  obtain ⟨-, options, hkind, -⟩ := h.block mode hmode
  rw [Node.isBlock, hkind]

/-- The top of a scope is a node. -/
theorem Opens.top_lt (h : c.Opens knot s outer) : s.top < c.size := by
  unfold Scope.top
  have hmem (e : NodeId × Nat) (he : e ∈ s.stack) := (h.stack.mem he).2.2
  cases hstack : s.stack with
  | nil => exact h.owner.1
  | cons e rest => exact hmem e (hstack ▸ List.mem_cons_self)

/-- A scope stays, also where further options of its block begin while its stack is empty. -/
theorem Opens.retains (h : c.Opens knot s outer) (hretains : d.Retains c) (hc : c.Descends)
    (hd : d.Descends) {options : Nat} (hsame : options = s.options ∨ s.stack = [])
    (hkind : ∀ mode list, s.mode? = some mode → (c.node s.owner).kind = .block mode list →
      list.length = s.options →
      ∃ list', (d.node s.owner).kind = .block mode list' ∧ list'.length = options) :
    d.Opens knot { s with options } outer := by
  obtain ⟨hlt, hstrand⟩ := h.owner
  refine ⟨⟨Nat.lt_of_lt_of_le hlt hretains.size_le, ?_⟩, h.stack.retains hretains,
    fun e he => ?_, h.outside.retains hretains hc hd hlt, fun hmode => ?_, fun hmode => ?_,
    fun mode hmode => ?_⟩
  · rw [(hretains.alike hlt).isStrand_eq, hstrand]
  · obtain rfl | hempty := hsame
    · exact (h.inside e he).retains hretains hc hd (h.stack.mem he).2.2
    · rw [hempty] at he
      cases he
  · rw [(hretains.alike hlt).isBlock_eq]
    exact h.unblocked hmode
  · obtain ⟨houter, hknot⟩ := h.root hmode
    refine ⟨houter, ?_⟩
    rw [hc.lineage_eq hd hretains.parent hlt, ← hknot]
    refine List.find?_congr fun j hj => ?_
    have hj := Nat.lt_of_le_of_lt (hc.le_of_mem_lineage hj) hlt
    exact (hretains.alike hj).isTop_eq
  · obtain ⟨hparent, list, hlist, hlength⟩ := h.block mode hmode
    rw [hretains.parent hlt]
    exact ⟨hparent, hkind mode list hmode hlist hlength⟩

/-- A scope with a lower part of its stack. -/
theorem Opens.withStack (h : c.Opens knot s outer) (stack : List (NodeId × Nat))
    (hclimbs : c.Climbs s.owner stack) (hsub : stack ⊆ s.stack) :
    c.Opens knot { s with stack } outer :=
  ⟨h.owner, hclimbs, fun e he => h.inside e (hsub he), h.outside, h.unblocked, h.root, h.block⟩

/-- A section in which nothing is open. -/
theorem opens_section {i : NodeId} (hi : i < c.size) (hstrand : (c.node i).isStrand = false)
    (hblock : (c.node i).isBlock = false)
    (hknot : (c.lineage i).find? (fun j => Draft.holdsStitches (c.node j)) = knot) :
    c.Opens knot { owner := i } [] where
  owner := ⟨hi, hstrand⟩
  stack := trivial
  inside _ he := absurd he List.not_mem_nil
  outside := c.inside_nil i
  unblocked _ := hblock
  root _ := ⟨rfl, hknot⟩
  block mode hmode := absurd hmode.symm (Option.some_ne_none mode)

/-- A block in which nothing is open yet. -/
theorem opens_block {i : NodeId} {mode : BlockMode} {options : List BlockOption}
    (hi : i < c.size) (hkind : (c.node i).kind = .block mode options)
    (hparent : (c.node i).parent = outer.head?.map Scope.top)
    (hinside : c.Inside i (within outer)) :
    c.Opens knot { owner := i, mode? := some mode, options := options.length } outer where
  owner := ⟨hi, Node.isStrand_of_isBlock (by rw [Node.isBlock, hkind])⟩
  stack := trivial
  inside _ he := absurd he List.not_mem_nil
  outside := hinside
  unblocked hmode := absurd hmode (Option.some_ne_none mode)
  root hmode := absurd hmode (Option.some_ne_none mode)
  block mode' hmode' := by
    obtain rfl : mode = mode' := Option.some.inj hmode'
    exact ⟨hparent, options, hkind, rfl⟩

/-- Closing a level leaves a scope of the content. -/
theorem Opens.closing (h : c.Opens knot s outer) (level : Nat) :
    c.Opens knot (s.closing level) outer :=
  h.withStack _ (h.stack.filter level) (List.filter_subset_self _)

/-- Where a level is closed, a choice or gather on top has a smaller one. -/
theorem Opens.level_top_lt {level : Nat} (h : c.Opens knot (s.closing level) outer)
    (hstrand : (c.node (s.closing level).top).isStrand = true) :
    (c.node (s.closing level).top).level < level := by
  cases hstack : (s.closing level).stack with
  | nil =>
    rw [Scope.top, hstack, topOf, h.owner.2] at hstrand
    cases hstrand
  | cons e rest =>
    have hmem : e ∈ s.stack.filter (·.2 < level) := by
      change e ∈ (s.closing level).stack
      rw [hstack]
      exact List.mem_cons_self
    rw [Scope.top, hstack, topOf, (h.stack.mem hmem).2.1]
    exact of_decide_eq_true (List.mem_filter.1 hmem).2

/-- A choice or gather that was written into a scope goes on top of its stack. -/
theorem Opens.push (h : c.Opens knot s outer) {i : NodeId} {level : Nat}
    (hparent : (c.node i).parent = some s.top) (hstrand : (c.node i).isStrand = true)
    (hlevel : (c.node i).level = level) (hlt : ∀ e ∈ s.stack, e.2 < level)
    (hinside : c.Inside i (within (s :: outer))) : c.Opens knot (s.push i level) outer where
  owner := h.owner
  stack := ⟨⟨hparent, hstrand, hlevel, hlt⟩, h.stack⟩
  inside := by
    intro e he
    rcases List.mem_cons.1 he with rfl | he
    · exact hinside
    · exact h.inside e he
  outside := h.outside
  unblocked := h.unblocked
  root := h.root
  block := h.block

/-- Scopes stay where no block in them changes. -/
theorem Nested.retains {scopes : List Scope} (h : c.Nested knot scopes) (hretains : d.Retains c)
    (hc : c.Descends) (hd : d.Descends) (hkind : ∀ s ∈ scopes, ∀ mode, s.mode? = some mode →
      (d.node s.owner).kind = (c.node s.owner).kind) : d.Nested knot scopes := by
  induction scopes with
  | nil => trivial
  | cons s outer ih =>
    obtain ⟨hopens, hnested⟩ := h
    refine ⟨hopens.retains hretains hc hd (.inl rfl) fun mode list hmode hlist hlength => ?_,
      ih hnested fun s hs => hkind s (List.mem_cons_of_mem _ hs)⟩
    rw [hkind s List.mem_cons_self mode hmode]
    exact ⟨list, hlist, hlength⟩

/-- What is hung under the top of a scope is written where the scope is, and the scope stays. -/
theorem Opens.hang {n : Node} (h : c.Opens knot s outer) (htree : c.Tree) (hd : d.Descends)
    (hhang : c.hang? s.top n = some d) :
    d.Opens knot s.written outer ∧ d.Inside c.size (within (s.written :: outer)) := by
  have hp := h.top_lt
  have hretains := Retains.hang? hp hhang
  have hparent : (d.node c.size).parent = some s.top := by
    rw [Tree.parent_of_hang? hp hhang, if_pos rfl]
  have hnode {i : Nat} (hi : i < c.size) (hne : i ≠ s.top) : d.node i = c.node i := by
    rw [node_of_hang? hhang hp, if_neg (Nat.ne_of_lt hi), if_neg hne]
  cases hstack : s.stack with
  | cons e rest =>
    have htop : s.top = e.1 := by rw [Scope.top, hstack, topOf]
    have hmem : e ∈ s.stack := hstack ▸ List.mem_cons_self
    have hwritten : s.written = s := by rw [Scope.written, hstack]; rfl
    rw [hwritten]
    -- the block is not the choice or gather under which the node is hung
    have hne : s.owner ≠ s.top := by
      intro heq
      have hstrand := (h.stack.mem hmem).1
      rw [← htop, ← heq, h.owner.2] at hstrand
      cases hstrand
    refine ⟨h.retains hretains htree.descends hd (.inl rfl) fun mode list _ hlist hlength => ?_, ?_⟩
    · rw [hnode h.owner.1 hne]
      exact ⟨list, hlist, hlength⟩
    · have hinside := (h.inside e hmem).retains hretains htree.descends hd (htop ▸ hp)
      exact hinside.of_parent hd (htop ▸ hparent)
  | nil =>
    have htop : s.top = s.owner := by rw [Scope.top, hstack, topOf]
    have hwritten : s.written = { s with options := max s.options 1 } := by
      rw [Scope.written, hstack]
      rfl
    have howner : d.node s.owner = (c.node s.owner).addChild c.size := by
      rw [node_of_hang? hhang hp, if_neg (Nat.ne_of_lt h.owner.1), if_pos htop.symm, htop]
    rw [htop] at hparent
    rw [hwritten]
    refine ⟨h.retains hretains htree.descends hd (.inr hstack) fun mode list _ hlist hlength => ?_,
      fun o ho => ?_⟩
    · rw [howner, ← hlength]
      exact (Node.kind_addChild hlist c.size).1
    · have houtside := (h.outside.retains hretains htree.descends hd h.owner.1).of_parent hd hparent
      cases hmode : s.mode? with
      | none => exact houtside o (by simpa [within, Scope.option?, hmode] using ho)
      | some mode =>
        obtain ⟨-, list, hlist, hlength⟩ := h.block mode hmode
        have hcases : o = (s.owner, max s.options 1 - 1) ∨ o ∈ within outer := by
          simpa [within, Scope.option?, hmode] using ho
        obtain rfl | ho := hcases
        · refine ⟨?_, c.size, d.mem_lineage_self c.size, ?_⟩
          · rw [(hretains.alike h.owner.1).isBlock_eq, h.isBlock hmode]
          · rw [howner, ← hlength]
            exact (Node.kind_addChild hlist c.size).2
        · exact houtside o ho

/-- Every scope is opened somewhere. -/
theorem Nested.mem {scopes : List Scope} (h : c.Nested knot scopes) {s : Scope} (hs : s ∈ scopes) :
    ∃ outer, c.Opens knot s outer := by
  induction scopes with
  | nil => cases hs
  | cons s' rest ih =>
    rcases List.mem_cons.1 hs with rfl | hs
    · exact ⟨rest, h.1⟩
    · exact ih h.2 hs

/-- What is hung under the top of the innermost scope changes no scope outside. -/
theorem Nested.hang {n : Node} (h : c.Nested knot (s :: outer)) (htree : c.Tree) (hd : d.Descends)
    (hordered : ((s :: outer).filterMap Scope.block?).Pairwise fun inner outer => outer < inner)
    (hhang : c.hang? s.top n = some d) :
    d.Nested knot (s.written :: outer) ∧ d.Inside c.size (within (s.written :: outer)) := by
  obtain ⟨hopens, hnested⟩ := h
  have hp := hopens.top_lt
  obtain ⟨hopens', hinside⟩ := hopens.hang htree hd hhang
  refine ⟨⟨hopens', hnested.retains (.hang? hp hhang) htree.descends hd ?_⟩, hinside⟩
  intro s' hs' mode' hmode'
  obtain ⟨outer', hinner⟩ := hnested.mem hs'
  have hne : s'.owner ≠ s.top := by
    intro heq
    cases hstack : s.stack with
    | cons e rest =>
      have hstrand := (hopens.stack.mem (hstack ▸ List.mem_cons_self)).1
      rw [Scope.top, hstack, topOf] at heq
      rw [← heq, hinner.owner.2] at hstrand
      cases hstrand
    | nil =>
      rw [Scope.top, hstack, topOf] at heq
      cases hmode : s.mode? with
      | none =>
        rw [(hopens.root hmode).1] at hs'
        cases hs'
      | some mode =>
        rw [List.filterMap_cons_some (by rw [Scope.block?, hmode]; rfl)] at hordered
        have hblock : s'.block? = some s'.owner := by rw [Scope.block?, hmode']; rfl
        have hlt := (List.pairwise_cons.1 hordered).1 _ (List.mem_filterMap.2 ⟨s', hs', hblock⟩)
        exact Nat.ne_of_lt hlt heq
  rw [node_of_hang? hhang hp, if_neg (Nat.ne_of_lt hinner.owner.1), if_neg hne]

end Scopes

end Content

end Narrative
