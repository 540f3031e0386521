import Mathlib.Data.List.TakeWhile
import Narrative.Proofs.Story.Forward
import Narrative.Proofs.Story.Reachable

/-!
# Convergence

From an exhausted choice or gather play goes on at the nearest gather behind it: among the nodes
that are written behind it in its list, or else behind the node above, and so on upward. The content
alone says which one that is. Play looks for it in the lists that it goes through, and inside a
block it goes through one option only. So it finds the nearest one unless that is written in an
option of a block which is not the chosen one, as it can be where a divert has led past the block to
a label inside.
-/

namespace Narrative

/-- Behind a node in a list is what remains after all in front of the node and the node itself. -/
theorem drop_positionAfter {list : List NodeId} (hlist : list.length ≤ beyondAll) (i : NodeId) :
    list.drop (positionAfter list i) = (list.dropWhile (· != i)).tail := by
  unfold positionAfter
  cases hfind : list.findIdx? (· == i) with
  | none =>
    have habsent : ∀ j ∈ list, (j != i) = true := by
      intro j hj
      rw [bne, List.findIdx?_eq_none_iff.1 hfind j hj]
      rfl
    rw [List.dropWhile_eq_nil_iff.2 habsent]
    exact List.drop_eq_nil_of_le hlist
  | some k =>
    obtain ⟨hk, hki, hbefore⟩ := List.findIdx?_eq_some_iff_getElem.1 hfind
    have hsplit : list.dropWhile (· != i) = list.drop k := by
      rw [List.dropWhile_eq_drop_findIdx_not]
      congr 1
      refine (List.findIdx_eq hk).2 ⟨by simpa using hki, fun j hj => ?_⟩
      simpa using hbefore j hj
    rw [hsplit, List.tail_drop]
    rfl

namespace Content

/-- The nodes that are written behind a node in its list: among the children of the node above, or
among the lines of one of its options. -/
def followers (c : Content) (i : NodeId) : List NodeId :=
  match (c.node i).parent with
  | none => []
  | some p => ((((c.node p).lists.find? (·.contains i)).getD []).dropWhile (· != i)).tail

/-- Whether play that has exhausted the node `x` can go on at the node `j`, which is written behind
`i`: at a gather, and from a gather also at a choice behind it in its own list. -/
def receives (c : Content) (x i j : NodeId) : Bool :=
  (c.node j).isGather || i == x && (c.node x).isGather && (c.node j).isChoice

/-- Where play should go on after the node `x`: at the first node that can receive it among those
behind it in its list, or else among those behind the node above in its own list, and so on
upward. -/
def convergence? (c : Content) (x : NodeId) : Option NodeId :=
  (c.lineage x).findSome? fun i => (c.followers i).find? (c.receives x i)

variable {c : Content}

/-- A node and one behind it stand in one list under the node above both. -/
theorem exists_of_mem_followers {i j : NodeId} (h : j ∈ c.followers i) :
    ∃ p, (c.node i).parent = some p ∧ ∃ list ∈ (c.node p).lists, i ∈ list ∧ j ∈ list := by
  unfold followers at h
  split at h
  · cases h
  · next p hparent =>
    cases hfind : (c.node p).lists.find? (·.contains i) with
    | none =>
      rw [hfind] at h
      cases h
    | some list =>
      rw [hfind] at h
      have hi : list.contains i = true :=
        List.find?_some (p := fun list : List NodeId => list.contains i) hfind
      refine ⟨p, hparent, list, List.mem_of_find?_eq_some hfind, List.contains_iff_mem.1 hi, ?_⟩
      exact (List.dropWhile_sublist _).mem (List.mem_of_mem_tail h)

/-- The list of a node is the only one under the node above that has it. -/
theorem Tree.followers_eq (h : c.Tree) {i p : Nat} {list : List NodeId}
    (hlist : list ∈ (c.node p).lists) (hi : i ∈ list) :
    c.followers i = (list.dropWhile (· != i)).tail := by
  have hparent := h.parent_of_mem_list hlist hi
  have hfound : (c.node p).lists.find? (·.contains i) = some list := by
    cases hfind : (c.node p).lists.find? (·.contains i) with
    | none =>
      have hnone := List.find?_eq_none.1 hfind list hlist
      exact absurd (List.contains_iff_mem.2 hi) hnone
    | some list' =>
      have hi' : list'.contains i = true :=
        List.find?_some (p := fun list : List NodeId => list.contains i) hfind
      obtain ⟨j, hj⟩ := List.getElem?_of_mem hi
      obtain ⟨k, hk⟩ := List.getElem?_of_mem (List.contains_iff_mem.1 hi')
      rw [(h.position_eq hlist (List.mem_of_find?_eq_some hfind) hj hk).1]
  rw [followers, hparent]
  simp only [hfound, Option.getD_some]

end Content

/-- The node at which a landing puts the cursor, or which it enters. -/
def Landing.node? (s : Story) : Landing → Option NodeId
  | .gather i => some i
  | .choice p position => (s.children p)[position]?

namespace Story

variable {w : World} {s : Story}

/-- Whether play goes through the list in which a node is written. -/
def shows (s : Story) (i : NodeId) : Bool :=
  (s.node i).parent.any fun p => (s.children p).contains i

/-- The first node that can receive play from the node `x` behind those in a line whose lists play
goes through. -/
def outletAlong? (s : Story) (x : NodeId) (line : List NodeId) : Option NodeId :=
  (line.filter s.shows).findSome? fun i => (s.content.followers i).find? (s.content.receives x i)

/-- Where play goes on after the node `x`. -/
def outlet? (s : Story) (x : NodeId) : Option NodeId :=
  s.outletAlong? x (s.content.lineage x)

/-! ## The nearest node that play sees -/

/-- Play goes through the list of a node just if it does so for the nodes behind it. -/
theorem shows_of_mem_followers (htree : s.content.Tree) {i j : NodeId}
    (h : j ∈ s.content.followers i) : s.shows j = s.shows i := by
  obtain ⟨p, hi, list, hlist, himem, hjmem⟩ := Content.exists_of_mem_followers h
  have hj : (s.node j).parent = some p := htree.parent_of_mem_list hlist hjmem
  have hsame {a b : NodeId} (ha : a ∈ list) (hb : b ∈ list) (hshown : a ∈ s.children p) :
      b ∈ s.children p := by
    -- a list that has the node is the one in which it is written
    obtain ⟨k, hk⟩ := List.getElem?_of_mem ha
    obtain ⟨k', hk'⟩ := List.getElem?_of_mem hshown
    have hchildren := Node.childrenAt_mem_lists (List.ne_nil_of_mem hshown)
    have hsame : list = s.children p := (htree.position_eq hlist hchildren hk hk').1
    rwa [← hsame]
  have hi' : (s.node i).parent = some p := hi
  rw [shows, shows, hi', hj, Option.any_some, Option.any_some, Bool.eq_iff_iff,
    List.contains_iff_mem, List.contains_iff_mem]
  exact ⟨hsame hjmem himem, hsame himem hjmem⟩

/-- Play sees the nearest node just if it goes through the list in which that one is written. -/
theorem outlet?_eq_convergence?_iff (htree : s.content.Tree) (x : NodeId) :
    s.outlet? x = s.content.convergence? x ↔
      ∀ j, s.content.convergence? x = some j → s.shows j = true := by
  constructor
  · intro heq j hj
    rw [← heq] at hj
    obtain ⟨i, hi, hfind⟩ := List.exists_of_findSome?_eq_some hj
    rw [shows_of_mem_followers htree (List.mem_of_find?_eq_some hfind)]
    exact (List.mem_filter.1 hi).2
  · intro hshown
    cases hnearest : s.content.convergence? x with
    | none =>
      refine List.findSome?_eq_none_iff.2 fun i hi => ?_
      exact List.findSome?_eq_none_iff.1 hnearest i (List.mem_of_mem_filter hi)
    | some j =>
      obtain ⟨before, i, above, hline, hfind, hbefore⟩ := List.findSome?_eq_some_iff.1 hnearest
      have hi : s.shows i = true := by
        rw [← shows_of_mem_followers htree (List.mem_of_find?_eq_some hfind)]
        exact hshown j hnearest
      refine List.findSome?_eq_some_iff.2
        ⟨before.filter s.shows, i, above.filter s.shows, ?_, hfind, ?_⟩
      · rw [hline, List.filter_append, List.filter_cons_of_pos hi]
      · exact fun a ha => hbefore a (List.mem_of_mem_filter ha)

/-! ## Where play lands -/

/-- Play lands at the first gather among the nodes, or choice where one is taken. -/
theorem node?_landingAmong? {p : NodeId} {takesChoice : Bool} {position : Nat}
    {list : List NodeId} (hlist : (s.children p).drop position = list) :
    (s.landingAmong? p takesChoice position list).bind (Landing.node? s) =
      list.find? fun j => (s.node j).isGather || takesChoice && (s.node j).isChoice := by
  induction list generalizing position with
  | nil => rfl
  | cons i rest ih =>
    have hrest : (s.children p).drop (position + 1) = rest := by
      rw [← List.tail_drop, hlist, List.tail_cons]
    have hi : (s.children p)[position]? = some i := by
      rw [← List.head?_drop, hlist, List.head?_cons]
    rw [landingAmong?]
    split
    · next hgather =>
      rw [List.find?_cons_of_pos (by rw [hgather, Bool.true_or])]
      rfl
    · next hgather =>
      rw [Bool.not_eq_true] at hgather
      split
      · next hchoice =>
        rw [List.find?_cons_of_pos (by rw [hgather, Bool.false_or, hchoice])]
        exact hi
      · next hchoice =>
        rw [List.find?_cons_of_neg (by rw [hgather, Bool.false_or]; exact hchoice)]
        exact ih hrest

/-- What play finds behind a node is a node. -/
theorem node?_isSome_of_landingAmong? {p : NodeId} {takesChoice : Bool} {position : Nat}
    {list : List NodeId} {landing : Landing} (hlist : (s.children p).drop position = list)
    (h : s.landingAmong? p takesChoice position list = some landing) :
    (landing.node? s).isSome = true := by
  obtain ⟨n, i, hi, rfl | ⟨rfl, -⟩⟩ := exists_of_landingAmong? h
  · rfl
  · rw [← hlist, List.getElem?_drop] at hi
    rw [Landing.node?, hi]
    rfl

/-- Above a node play looks behind the node first, and then behind the node above it. -/
theorem landingAbove?_of_parent (hdescends : s.content.Descends) {takesChoice : Bool} {i p : Nat}
    (hp : (s.content.node i).parent = some p) :
    s.landingAbove? takesChoice (s.content.lineage i) =
      (s.landingAmong? p takesChoice (positionAfter (s.children p) i)
        ((s.children p).drop (positionAfter (s.children p) i))).or
        (s.landingAbove? false (s.content.lineage p)) := by
  rw [hdescends.lineage_of_parent hp, Content.lineage, landingAbove?, Option.orElse_eq_orElse,
    Option.orElse_eq_or]

/-- Outward from a node, an outlet follows there or from its parent on. -/
theorem outletAlong?_of_parent (hdescends : s.content.Descends) {x i p : Nat}
    (hp : (s.content.node i).parent = some p) :
    s.outletAlong? x (s.content.lineage i) =
      ((if s.shows i then s.content.followers i else []).find? (s.content.receives x i)).or
        (s.outletAlong? x (s.content.lineage p)) := by
  rw [hdescends.lineage_of_parent hp, outletAlong?, List.filter_cons]
  split
  · rw [List.findSome?_cons]
    cases (s.content.followers i).find? (s.content.receives x i) <;> rfl
  · rfl

section Landing

variable (htree : s.content.Tree) (hbounded : s.content.size < beyondAll)

include htree hbounded

/-- Behind a node play sees what is written there if it goes through its list, and else nothing. -/
theorem drop_children {i p : Nat} (hp : (s.node i).parent = some p) :
    (s.children p).drop (positionAfter (s.children p) i) =
      if s.shows i then s.content.followers i else [] := by
  have hlength := Nat.le_trans (length_children_le htree p) (Nat.le_of_lt hbounded)
  rw [drop_positionAfter hlength, shows, hp, Option.any_some]
  split
  · next hshown =>
    have hmem := List.contains_iff_mem.1 hshown
    exact (htree.followers_eq (Node.childrenAt_mem_lists (List.ne_nil_of_mem hmem)) hmem).symm
  · next hhidden =>
    have habsent : ∀ j ∈ s.children p, (j != i) = true := by
      intro j hj
      rw [bne_iff_ne]
      rintro rfl
      exact hhidden (List.contains_iff_mem.2 hj)
    rw [List.dropWhile_eq_nil_iff.2 habsent]
    rfl

/-- Along the line of a node, of which a part has been looked at, play lands on the first node that
can receive it behind those it goes through. -/
theorem node?_landingAbove? {x i : Nat} (hi : i ≤ x) :
    (s.landingAbove? (i == x && (s.node x).isGather) (s.content.lineage i)).bind (Landing.node? s) =
      s.outletAlong? x (s.content.lineage i) := by
  induction i using Nat.strongRecOn with
  | ind i ih =>
    cases hparent : (s.content.node i).parent with
    | none =>
      have hhidden : s.shows i = false := by
        rw [shows, node, hparent]
        rfl
      rw [Content.lineage_of_root hparent, outletAlong?, List.filter_singleton, hhidden]
      rfl
    | some p =>
      have hlt := htree.descends.lt hparent
      have hltx : p < x := Nat.lt_of_lt_of_le hlt hi
      have hne : (p == x) = false := beq_eq_false_iff_ne.2 (Nat.ne_of_lt hltx)
      have habove := ih p hlt (Nat.le_of_lt hltx)
      rw [hne, Bool.false_and] at habove
      have hseen := drop_children htree hbounded hparent
      have hhere : (s.landingAmong? p (i == x && (s.node x).isGather)
          (positionAfter (s.children p) i)
          (if s.shows i then s.content.followers i else [])).bind (Landing.node? s) =
            (if s.shows i then s.content.followers i else []).find? (s.content.receives x i) :=
        node?_landingAmong? hseen
      rw [landingAbove?_of_parent htree.descends hparent, hseen,
        outletAlong?_of_parent htree.descends hparent, ← habove, ← hhere]
      cases hlanding : s.landingAmong? p (i == x && (s.node x).isGather)
          (positionAfter (s.children p) i) (if s.shows i then s.content.followers i else []) with
      | none => rfl
      | some landing =>
        obtain ⟨j, hj⟩ := Option.isSome_iff_exists.1 (node?_isSome_of_landingAmong? hseen hlanding)
        rw [Option.some_or, Option.bind_some, hj]
        rfl

/-- Behind an exhausted node play lands on the nearest node that it sees. -/
theorem node?_landing? (x : NodeId) : (s.landing? x).bind (Landing.node? s) = s.outlet? x := by
  have halong := node?_landingAbove? htree hbounded (Nat.le_refl x)
  rwa [beq_self_eq_true, Bool.true_and] at halong

end Landing

/-! ## Going on -/

/-- Where one round leads from an exhausted choice or gather: none is the end of the story. -/
inductive Converges (w : World) (s : Story) : Option NodeId → Prop
  /-- Into a gather. -/
  | gather {j : NodeId} : settleOnce w s = some (true, s.moveInto j) → Converges w s (some j)
  /-- In front of a choice. -/
  | choice {j p : NodeId} {position : Nat} : (s.children p)[position]? = some j →
      settleOnce w s = some (true, { s with container := some p, index := position }) →
      Converges w s (some j)
  /-- To the end. -/
  | nowhere : settleOnce w s = some (false, s.runOut) → Converges w s none

/-- Entering a node counts a visit of it. -/
theorem moveInto_ne {j p : NodeId} {position : Nat} :
    s.moveInto j ≠ { s with container := some p, index := position } := by
  intro h
  have hmark : (s.memory.visit j).mark j = s.memory.mark j :=
    congrArg (fun t : Story => t.memory.mark j) h
  rw [Memory.mark_visit, if_pos rfl] at hmark
  exact Nat.succ_ne_self _ (congrArg Mark.visits hmark)

/-- A round leads to one place. -/
theorem Converges.unique {a b : Option NodeId} (ha : s.Converges w a) (hb : s.Converges w b) :
    a = b := by
  cases ha with
  | gather ha =>
    cases hb with
    | gather hb =>
      rw [ha] at hb
      exact congrArg Story.container (Prod.mk.inj (Option.some.inj hb)).2
    | choice _ hb =>
      rw [ha] at hb
      exact absurd (Prod.mk.inj (Option.some.inj hb)).2 moveInto_ne
    | nowhere hb =>
      rw [ha] at hb
      cases hb
  | choice hj ha =>
    cases hb with
    | gather hb =>
      rw [ha] at hb
      exact absurd (Prod.mk.inj (Option.some.inj hb)).2.symm moveInto_ne
    | choice hj' hb =>
      rw [ha] at hb
      obtain ⟨-, hsame⟩ := Prod.mk.inj (Option.some.inj hb)
      cases congrArg Story.container hsame
      cases congrArg Story.index hsame
      rw [← hj, hj']
    | nowhere hb =>
      rw [ha] at hb
      cases hb
  | nowhere ha =>
    cases hb with
    | gather hb =>
      rw [ha] at hb
      cases hb
    | choice _ hb =>
      rw [ha] at hb
      cases hb
    | nowhere _ => rfl

/-- An exhausted choice or gather is left for the place where play lands behind it. -/
theorem settleOnce_of_exhausted {x : NodeId} (hx : s.container = some x)
    (hkind : (s.node x).isChoice = true ∨ (s.node x).isGather = true)
    (hexhausted : s.cursor? = none) (hchoices : s.choices = []) :
    settleOnce w s = match s.landing? x with
      | some (.gather j) => some (true, s.moveInto j)
      | some (.choice p position) => some (true, { s with container := some p, index := position })
      | none => some (false, s.runOut) := by
  have hblock : (s.node x).isBlock = false := by
    rcases hkind with hchoice | hgather
    · exact isBlock_of_isChoice hchoice
    · exact isBlock_of_isGather hgather
  have hconverges : ((s.node x).isChoice || (s.node x).isGather) = true :=
    Bool.or_eq_true _ _ ▸ hkind
  have hempty : s.choices.isEmpty = true := List.isEmpty_iff.2 hchoices
  rw [settleOnce, Run.get_bind_apply]
  simp only [hx, hexhausted]
  rw [settleExhausted, Run.get_bind_apply]
  simp only [hblock, hempty, hconverges, Bool.false_eq_true, if_false, if_true, Bool.not_true]
  cases hlanding : s.landing? x with
  | none => rfl
  | some landing =>
    cases landing with
    | gather j =>
      have hj := isBlock_of_isGather (isGather_of_landing? hlanding)
      simp only
      rw [Run.bind_apply, enter_of_not_block hj]
      rfl
    | choice p position => rfl

/-- From an exhausted choice or gather play goes on at the nearest node that it sees. -/
theorem converges_outlet? {x : NodeId} (hs : s.Placed) (hx : s.container = some x)
    (hkind : (s.node x).isChoice = true ∨ (s.node x).isGather = true)
    (hexhausted : s.cursor? = none) (hchoices : s.choices = []) :
    s.Converges w (s.outlet? x) := by
  have hround := settleOnce_of_exhausted (w := w) hx hkind hexhausted hchoices
  rw [← node?_landing? hs.tree hs.bounded]
  cases hlanding : s.landing? x with
  | none =>
    rw [hlanding] at hround
    exact .nowhere hround
  | some landing =>
    rw [hlanding] at hround
    cases landing with
    | gather j => exact .gather hround
    | choice p position =>
      obtain ⟨_, j, -, -, hj⟩ := exists_of_landing_choice hs.tree hs.bounded hlanding
      rw [Option.bind_some, Landing.node?, hj]
      exact .choice hj hround

/-- From an exhausted choice or gather play goes on at the nearest node behind it that it sees. That
is the nearest one that is written behind it just if play goes through the list of that one,
wherever it has come from. -/
theorem converges_iff_shown {x : NodeId} (hs : s.Placed) (hx : s.container = some x)
    (hkind : (s.node x).isChoice = true ∨ (s.node x).isGather = true)
    (hexhausted : s.cursor? = none) (hchoices : s.choices = []) :
    s.Converges w (s.outlet? x) ∧
      (s.Converges w (s.content.convergence? x) ↔
        ∀ j, s.content.convergence? x = some j → s.shows j = true) := by
  have hgoes := converges_outlet? (w := w) hs hx hkind hexhausted hchoices
  refine ⟨hgoes, ?_⟩
  rw [← outlet?_eq_convergence?_iff hs.tree]
  constructor
  · exact hgoes.unique
  · intro hsame
    rwa [← hsame]

/-- A world in which a gather stands behind the block that holds a choice. -/
def arborWorld : World :=
  ⟨.ofSources (.ofList [("main",
    "== start\nHi.\n\x7b\n- 1 < 2:\n* (x) [A]\n  In x.\n  Still.\n\x7d\n- (g) Gathered.\n")])
    fun _ => "", 4, 40⟩

/-- Behind the last line of the choice play goes on in that gather, which is the nearest one. -/
theorem converges_arbor : ∃ (s : Story) (x j : NodeId), s.Placed ∧ s.container = some x ∧
    ((s.node x).isChoice = true ∨ (s.node x).isGather = true) ∧ s.cursor? = none ∧
    s.choices = [] ∧ (s.node j).id = "start.g" ∧ s.content.convergence? x = some j ∧
    s.Converges arborWorld (some j) := by
  have hplayed : (played? arborWorld "main" 0 [.advance, .choose 0, .advance]).any (fun u =>
      u.content.size < beyondAll ∧ u.cursor?.any (fun i =>
        (u.pass i).cursor? = none ∧ (u.pass i).choices = [] ∧
        (u.pass i).container.any (fun x => ((u.pass i).node x).isChoice = true ∧
          ((u.pass i).content.convergence? x).any (fun j =>
            ((u.pass i).node j).id = "start.g" ∧ (u.pass i).shows j = true) = true) = true) =
        true) = true := by
    decide +kernel
  obtain ⟨u, hu, hplays⟩ := (Option.any_eq_true _ _).1 hplayed
  obtain ⟨hbounded, hcursor⟩ := of_decide_eq_true hplays
  obtain ⟨i, -, hpasses⟩ := (Option.any_eq_true _ _).1 hcursor
  obtain ⟨hexhausted, hchoices, hcontainer⟩ := of_decide_eq_true hpasses
  obtain ⟨x, hx, hinside⟩ := (Option.any_eq_true _ _).1 hcontainer
  obtain ⟨hchoice, hfinds⟩ := of_decide_eq_true hinside
  obtain ⟨j, hj, hfound⟩ := (Option.any_eq_true _ _).1 hfinds
  obtain ⟨hid, hshown⟩ := of_decide_eq_true hfound
  have hreached : Reachable arborWorld.host "main" (fun _ => True) u :=
    reachable_of_played? (fun _ _ => trivial) hu
  have hs : (u.pass i).Placed :=
    (hreached.sound.pass i).placed (by rw [content_pass]; exact hbounded)
  obtain ⟨-, hiff⟩ := converges_iff_shown (w := arborWorld) hs hx (.inl hchoice) hexhausted hchoices
  have hnearest := hiff.2 fun j' hj' => by
    rw [hj] at hj'
    cases hj'
    exact hshown
  rw [hj] at hnearest
  exact ⟨_, x, j, hs, hx, .inl hchoice, hexhausted, hchoices, hid, hj, hnearest⟩

/-- A world in which a divert leads to a choice in an option that is not played, where a gather
follows. -/
def atticWorld : World :=
  ⟨.ofSources (.ofList [("main",
    "== start\nHi.\n-> x\n\x7b\n- 1 > 2:\nNever.\n- else:\n* (x) [A]\n  In x.\n  Still.\n" ++
    "- (g) Gathered.\n\x7d\n")]) fun _ => "", 4, 40⟩

/-- Behind the last line of that choice the story ends, although the gather is written behind the
choice in its option. -/
theorem overlooked_attic : ¬ ∀ (w : World) (main : String) (u : Story) (i x : NodeId),
    Reachable w.host main (fun _ => True) u → u.cursor? = some i → (u.pass i).Placed →
      (u.pass i).container = some x →
      (((u.pass i).node x).isChoice = true ∨ ((u.pass i).node x).isGather = true) →
      (u.pass i).cursor? = none → (u.pass i).choices = [] →
      (u.pass i).Converges w ((u.pass i).content.convergence? x) := by
  intro hnearest
  have hplayed : (played? atticWorld "main" 0 [.advance, .advance]).any (fun u =>
      u.content.size < beyondAll ∧ u.cursor?.any (fun i =>
        (u.pass i).cursor? = none ∧ (u.pass i).choices = [] ∧
        (u.pass i).container.any (fun x => ((u.pass i).node x).isChoice = true ∧
          ((u.pass i).content.convergence? x).isSome = true ∧
          (u.pass i).landing? x = none) = true) = true) = true := by
    decide +kernel
  obtain ⟨u, hu, hplays⟩ := (Option.any_eq_true _ _).1 hplayed
  obtain ⟨hbounded, hcursor⟩ := of_decide_eq_true hplays
  obtain ⟨i, hi, hpasses⟩ := (Option.any_eq_true _ _).1 hcursor
  obtain ⟨hexhausted, hchoices, hcontainer⟩ := of_decide_eq_true hpasses
  obtain ⟨x, hx, hinside⟩ := (Option.any_eq_true _ _).1 hcontainer
  obtain ⟨hchoice, hfinds, hlost⟩ := of_decide_eq_true hinside
  have hreached : Reachable atticWorld.host "main" (fun _ => True) u :=
    reachable_of_played? (fun _ _ => trivial) hu
  have hs : (u.pass i).Placed :=
    (hreached.sound.pass i).placed (by rw [content_pass]; exact hbounded)
  have hgoes :=
    hnearest atticWorld "main" u i x hreached hi hs hx (.inl hchoice) hexhausted hchoices
  have hends := converges_outlet? (w := atticWorld) hs hx (.inl hchoice) hexhausted hchoices
  rw [← node?_landing? hs.tree hs.bounded, hlost] at hends
  rw [hgoes.unique hends] at hfinds
  cases hfinds

end Story

end Narrative
