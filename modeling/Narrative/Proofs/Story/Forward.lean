import Mathlib.Data.Nat.Find
import Narrative.Proofs.Story.Settling

/-!
# Going forward

Nodes are numbered in the order in which they were read. The cursor has a place in that order: that
of the node at it, or the one behind all that hangs under an exhausted container. Coming to rest and
playing a node that is no divert lead forward, as long as the lists that play goes through stay as
they are. They do outside of functions: a call chooses options only in the body of a function.
-/

namespace Narrative

namespace Content

variable {c : Content} {b i n p z : Nat}

/-- The place behind all that hangs under a node. -/
def behind (c : Content) (i : NodeId) : Nat :=
  Nat.findGreatest (fun z => i ∈ c.lineage z) c.size + 1

/-- What is below a node is in front of what is behind it. -/
theorem lt_behind (hi : i < c.size) (hz : i ∈ c.lineage z) : z < c.behind i :=
  Nat.lt_succ_of_le (Nat.le_findGreatest (Nat.le_of_lt (lt_size_of_mem_lineage hi hz)) hz)

/-- Nothing is behind a node but what is not below it. -/
theorem behind_le (hi : i < c.size) (h : ∀ z, i ∈ c.lineage z → z < n) : c.behind i ≤ n := by
  have hlast := Nat.findGreatest_spec (P := fun z => i ∈ c.lineage z) (Nat.le_of_lt hi)
    (c.mem_lineage_self i)
  exact Nat.succ_le_of_lt (h _ hlast)

/-- Behind every node is another one, or the end. -/
theorem behind_le_size (hi : i < c.size) : c.behind i ≤ c.size :=
  behind_le hi fun _ => lt_size_of_mem_lineage hi

section Tree

variable (h : c.Tree)

include h

/-- What hangs under a node ends no later than the node does. -/
theorem Tree.behind_le_behind (hb : b < c.size) (hp : p ∈ c.lineage b) :
    c.behind b ≤ c.behind p := by
  have hp' : p < c.size := Nat.lt_of_le_of_lt (h.descends.le_of_mem_lineage hp) hb
  exact behind_le hb fun z hz => lt_behind hp' (h.descends.mem_lineage_trans hz hp)

/-- What hangs under a node ends before the nodes that follow it. -/
theorem Tree.behind_le_of_follows {list : List NodeId} {j k : Nat} (hlist : c.Listed p list)
    (hk : list[k]? = some b) (hj : list[j]? = some i) (hlt : k < j) : c.behind b ≤ i := by
  have hmem := hlist (List.ne_nil_of_mem (List.mem_of_getElem? hk))
  exact behind_le (lt_size_of_parent (h.parent_of_view hlist hk)) fun z hz =>
    h.lt_of_follows hmem hk hj hlt hz

end Tree

end Content

namespace Story

variable {w : World} {s t : Story} {again : Bool}

/-- The place of the cursor in the order in which the nodes were read; behind them all where the
story has ended. -/
def place (s : Story) : Nat :=
  match s.container, s.cursor? with
  | none, _ => s.content.size
  | some _, some i => i
  | some c, none => s.content.behind c

/-- Content that was read, in which the cursor stands. -/
structure Placed (s : Story) : Prop where
  /-- Nodes are listed in the order in which they were read. -/
  tree : s.content.Tree
  /-- Every position comes before the one beyond all. -/
  bounded : s.content.size < beyondAll
  /-- The container being played is a node. -/
  container {c : NodeId} : s.container = some c → c < s.content.size

/-- A sound story is at a place. -/
theorem Sound.placed (h : s.Sound) (hbounded : s.content.size < beyondAll) : s.Placed :=
  ⟨h.content.tree, hbounded, h.container⟩

/-- Whether play is in the body of no function. -/
def InNoFunction (s : Story) : Prop :=
  ∀ c, s.container = some c → ¬ s.content.InFunction c

/-- A story whose content has ended is at the end. -/
theorem place_of_ended (h : s.container = none) : s.place = s.content.size := by
  rw [place, h]

/-- A story with a cursor is at the node there. -/
theorem place_of_cursor? {i : NodeId} (hi : s.cursor? = some i) : s.place = i := by
  obtain ⟨c, hc, -⟩ := exists_of_cursor? hi
  simp only [place, hc, hi]

/-- A story at the end of a container is behind it. -/
theorem place_of_exhausted {c : NodeId} (hc : s.container = some c) (hnone : s.cursor? = none) :
    s.place = s.content.behind c := by
  simp only [place, hc, hnone]

section Place

variable (h : s.Placed)

include h

/-- The place is no further than the end. -/
theorem Placed.place_le_size : s.place ≤ s.content.size := by
  cases hc : s.container with
  | none => exact Nat.le_of_eq (place_of_ended hc)
  | some c =>
    cases hi : s.cursor? with
    | none =>
      rw [place_of_exhausted hc hi]
      exact Content.behind_le_size (h.container hc)
    | some i =>
      obtain ⟨_, -, hmem⟩ := exists_of_cursor? hi
      rw [place_of_cursor? hi]
      exact Nat.le_of_lt (Content.lt_size_of_parent
        (parent_of_mem_children h.tree (List.mem_of_getElem? hmem)))

/-- Inside a node the cursor is behind the node. -/
theorem Placed.lt_place {i : NodeId} (hi : s.container = some i) : i < s.place := by
  cases hj : s.cursor? with
  | none =>
    rw [place_of_exhausted hi hj]
    exact Content.lt_behind (h.container hi) (s.content.mem_lineage_self i)
  | some j =>
    obtain ⟨c, hc, hmem⟩ := exists_of_cursor? hj
    rw [hi] at hc
    cases hc
    rw [place_of_cursor? hj]
    exact h.tree.descends.lt (parent_of_mem_children h.tree (List.mem_of_getElem? hmem))

/-- Behind a node the cursor is behind all that hangs under the node. -/
theorem Placed.behind_le_place {b p : NodeId} (hp : s.container = some p)
    (hparent : (s.node b).parent = some p)
    (hbehind : s.index < beyondAll → ∃ k, (s.children p)[k]? = some b ∧ k < s.index) :
    s.content.behind b ≤ s.place := by
  have hb := Content.lt_size_of_parent hparent
  cases hi : s.cursor? with
  | none =>
    rw [place_of_exhausted hp hi]
    exact h.tree.behind_le_behind hb (h.tree.descends.parent_mem hparent)
  | some i =>
    obtain ⟨_, hc, hmem⟩ := exists_of_cursor? hi
    rw [hp] at hc
    cases hc
    obtain ⟨k, hk, hlt⟩ := hbehind (lt_of_cursor? hi)
    rw [place_of_cursor? hi]
    exact h.tree.behind_le_of_follows (listed_children s p) hk hmem hlt

end Place

/-! ## Rounds -/

/-- A round leads to a place. -/
theorem Round.placed (h : s.Round w again t) (hs : s.Placed) : t.Placed := by
  have htree := hs.tree
  refine ⟨h.content_eq ▸ htree, h.content_eq ▸ hs.bounded, fun {c'} hc' => ?_⟩
  rw [h.content_eq]
  cases h with
  | still => exact hs.container hc'
  | wait _ _ _ => exact hs.container hc'
  | runOut _ _ _ => cases hc'
  | @leave c hc _ _ =>
    unfold leaveBlock at hc'
    split at hc'
    · cases hc'
    · next p hparent =>
      cases hc'
      exact Nat.lt_trans (htree.descends.lt hparent) (hs.container hc)
  | @land c i _ hc _ _ hlanding henter =>
    obtain ⟨m, m', -, -, rfl⟩ := moveInto_of_enterWith .refl henter
    cases hc'
    exact Content.lt_size (p := Node.isGather) rfl (isGather_of_landing? hlanding)
  | @converge c p position hc _ _ hlanding =>
    obtain ⟨k, i, hk, -, -⟩ := exists_of_landing_choice htree hs.bounded hlanding
    cases hc'
    have hparent := parent_of_mem_children htree (List.mem_of_getElem? hk)
    exact Nat.lt_trans (htree.descends.lt hparent) (hs.container hc)
  | enter hi _ hchanges henter =>
    obtain ⟨c, hc, hmem⟩ := exists_of_cursor? hi
    obtain ⟨m, m', -, -, rfl⟩ := moveInto_of_enterWith hchanges henter
    cases hc'
    exact Content.lt_size_of_parent (parent_of_mem_children htree (List.mem_of_getElem? hmem))
  | decline _ _ _ _ => exact hs.container hc'

/-- Where the node at the cursor is passed, and the list that play goes through stays, the cursor is
behind it. -/
theorem Placed.lt_place_of_pass {i : NodeId} (ht : t.Placed) (hi : s.cursor? = some i)
    (hcontainer : t.container = s.container) (hindex : t.index = s.index + 1)
    (hchildren : ∀ c, s.container = some c → t.children c = s.children c) : i < t.place := by
  obtain ⟨c, hc, hmem⟩ := exists_of_cursor? hi
  rw [← hchildren c hc] at hmem
  have hparent := parent_of_mem_children ht.tree (List.mem_of_getElem? hmem)
  have hbehind := ht.behind_le_place (hcontainer.trans hc) hparent fun _ =>
    ⟨s.index, hmem, hindex ▸ Nat.lt_succ_self _⟩
  exact Nat.lt_of_lt_of_le
    (Content.lt_behind (Content.lt_size_of_parent hparent) (t.content.mem_lineage_self i)) hbehind

/-- A round leads forward, unless it passes a fallback choice in the body of a function, where the
conditions that were evaluated chose another list. -/
theorem Round.forward (h : s.Round w again t) (hs : s.Placed) :
    s.place ≤ t.place ∨ ∃ c i, s.container = some c ∧ s.content.InFunction c ∧
      s.cursor? = some i ∧ (s.node i).isFallback = true ∧ t.container = some c ∧
      t.children c ≠ s.children c := by
  have htree := hs.tree
  have ht := h.placed hs
  have hcontent := h.content_eq
  cases h with
  | still => exact .inl (Nat.le_refl _)
  | wait _ _ _ => exact .inl (Nat.le_refl _)
  | runOut _ _ _ => exact .inl hs.place_le_size
  | @leave c hc hnone _ =>
    left
    rw [place_of_exhausted hc hnone, ← hcontent]
    cases hparent : (s.node c).parent with
    | none =>
      have hended : (s.leaveBlock c).container = none := by rw [leaveBlock, hparent]
      rw [place_of_ended hended, hcontent]
      exact Content.behind_le_size (hs.container hc)
    | some p =>
      have hleft : s.leaveBlock c =
          { s with container := some p, index := positionAfter (s.children p) c } := by
        rw [leaveBlock, hparent]
      rw [hleft] at ht ⊢
      refine ht.behind_le_place rfl hparent fun hlt => ?_
      obtain ⟨k, hafter, hk⟩ := exists_of_positionAfter hlt
      exact ⟨k, hk, hafter ▸ Nat.lt_succ_self k⟩
  | @land c i _ hc hnone _ hlanding henter =>
    left
    rw [place_of_exhausted hc hnone]
    obtain ⟨b, p, k, j, hb, hk, hkj, hj⟩ := exists_of_landing_gather htree hs.bounded hlanding
    obtain ⟨m, m', -, -, rfl⟩ := moveInto_of_enterWith .refl henter
    calc s.content.behind c
      _ ≤ s.content.behind b := htree.behind_le_behind (hs.container hc) hb
      _ ≤ i := htree.behind_le_of_follows (listed_children s p) hk hj hkj
      _ ≤ _ := Nat.le_of_lt (ht.lt_place rfl)
  | @converge c p position hc hnone _ hlanding =>
    left
    rw [place_of_exhausted hc hnone]
    obtain ⟨k, i, hk, hkj, -⟩ := exists_of_landing_choice htree hs.bounded hlanding
    exact ht.behind_le_place rfl (parent_of_mem_children htree (List.mem_of_getElem? hk))
      fun _ => ⟨k, hk, hkj⟩
  | enter hi _ hchanges henter =>
    left
    rw [place_of_cursor? hi]
    obtain ⟨m, m', -, -, rfl⟩ := moveInto_of_enterWith hchanges henter
    exact Nat.le_of_lt (ht.lt_place rfl)
  | @decline i m hi hfallback _ hchanges =>
    obtain ⟨c, hc, -⟩ := exists_of_cursor? hi
    -- only a node that is called can have got another list
    by_cases hsame : m.children s.content c = s.children c
    · left
      rw [place_of_cursor? hi]
      refine Nat.le_of_lt (ht.lt_place_of_pass hi rfl rfl fun c' hc' => ?_)
      rw [hc] at hc'
      cases hc'
      exact hsame
    · refine .inr ⟨c, i, hc, ?_, hi, hfallback, hc, hsame⟩
      by_contra hout
      exact hsame (hchanges.children_eq (mt htree.inFunction_of_called hout))

/-- The position behind a node is in the list or behind all of it. -/
theorem positionAfter_le {list : List NodeId} {i : NodeId} (hlist : list.length ≤ beyondAll) :
    positionAfter list i ≤ beyondAll := by
  rcases Nat.lt_or_ge (positionAfter list i) beyondAll with hlt | hge
  · exact Nat.le_of_lt hlt
  · unfold positionAfter at hge ⊢
    cases hfind : list.findIdx? (· == i) with
    | none => exact Nat.le_refl _
    | some k =>
      obtain ⟨hlt, -⟩ := List.findIdx?_eq_some_iff_getElem.1 hfind
      exact Nat.le_trans (Nat.succ_le_of_lt hlt) hlist

/-- No round takes the cursor to a position further than the one beyond all. -/
theorem Round.index_le (h : s.Round w again t) (hs : s.Placed) (hindex : s.index ≤ beyondAll) :
    t.index ≤ beyondAll := by
  have hlength (i : NodeId) : (s.children i).length ≤ beyondAll :=
    Nat.le_trans (length_children_le hs.tree i) (Nat.le_of_lt hs.bounded)
  cases h with
  | still => exact hindex
  | wait _ _ _ => exact hindex
  | runOut _ _ _ => exact hindex
  | @leave c _ _ _ =>
    unfold leaveBlock
    split
    · exact hindex
    · exact positionAfter_le (hlength _)
  | land _ _ _ _ henter =>
    obtain ⟨m, m', -, -, rfl⟩ := moveInto_of_enterWith .refl henter
    exact Nat.zero_le _
  | @converge c p position hc _ _ hlanding =>
    obtain ⟨k, i, -, -, hj⟩ := exists_of_landing_choice hs.tree hs.bounded hlanding
    have hlt := (List.getElem?_eq_some_iff.1 hj).1
    exact Nat.le_trans (Nat.le_of_lt hlt) (hlength p)
  | enter _ _ hchanges henter =>
    obtain ⟨m, m', -, -, rfl⟩ := moveInto_of_enterWith hchanges henter
    exact Nat.zero_le _
  | decline hi _ _ _ => exact Nat.succ_le_of_lt (lt_of_cursor? hi)

/-- Rounds lead to a place. -/
theorem Rounds.placed (h : s.Rounds w t) (hs : s.Placed) : t.Placed := by
  induction h with
  | refl => exact hs
  | tail _ hround ih => exact (round_of_settleOnce hround).placed ih

/-! ## Staying outside of functions -/

/-- The route of play that no divert and no choice leads anywhere. -/
def nowhere : Route :=
  fun _ _ => False

/-- Play comes into the body of a function by diverts and choices only. -/
theorem Moves.inNoFunction (htree : s.content.Tree) (h : s.Moves nowhere t)
    (hs : s.InNoFunction) : t.InNoFunction := by
  induction h with
  | refl => exact hs
  | @tail u v hmoves hmove ih =>
    intro i hi
    have hcontent : u.content = s.content := Moves.content_eq hmoves
    have hcontent' : v.content = u.content := congrArg Sources.content hmove.steady.sources
    obtain ⟨c, p, hc, hp, hplace⟩ | hleads := hmove.nearby (hcontent ▸ htree) hi
    · rw [hcontent']
      rw [← hcontent] at htree
      have hp' := htree.descends.not_inFunction_of_mem hp (ih c hc)
      obtain rfl | hparent := hplace
      · exact hp'
      · exact htree.not_inFunction_of_parent hparent hp'
    · exact hleads.elim

/-- Rounds stay outside of functions. -/
theorem Rounds.inNoFunction (h : s.Rounds w t) (htree : s.content.Tree) (hs : s.InNoFunction) :
    t.InNoFunction := by
  induction h with
  | refl => exact hs
  | @tail u v hrounds hround ih =>
    have htree' : u.content.Tree := Rounds.content_eq hrounds ▸ htree
    exact Moves.inNoFunction htree' (plays_settleOnce w u true v hround) ih

/-- Outside of functions rounds lead forward. -/
theorem Rounds.place_le (h : s.Rounds w t) (hs : s.Placed) (hout : s.InNoFunction) :
    s.place ≤ t.place := by
  induction h with
  | refl => exact Nat.le_refl _
  | @tail u v hrounds hround ih =>
    obtain hle | ⟨c, _, hc, hin, -⟩ :=
      (round_of_settleOnce hround).forward (Rounds.placed hrounds hs)
    · exact Nat.le_trans ih hle
    · exact absurd hin (Rounds.inNoFunction hrounds hs.tree hout c hc)

/-- The cursor comes to rest by rounds, the last of which does not have to go on. -/
theorem rounds_of_settleWithin {moves : Nat} (h : settleWithin w moves s = some ((), t)) :
    ∃ u, s.Rounds w u ∧ settleOnce w u = some (false, t) := by
  induction moves generalizing s with
  | zero => cases h
  | succ moves ih =>
    obtain ⟨again, v, hround, hrest⟩ := Run.bind_eq_some.1 h
    cases again with
    | true =>
      obtain ⟨u, hrounds, hlast⟩ := ih hrest
      exact ⟨u, .head hround hrounds, hlast⟩
    | false =>
      cases hrest
      exact ⟨s, .refl, hround⟩

/-- Coming to rest consists of rounds, and a last one that stops. -/
theorem rounds_of_settle (h : settle w s = some ((), t)) :
    ∃ u, s.Rounds w u ∧ settleOnce w u = some (false, t) :=
  rounds_of_settleWithin h

/-- Where the cursor comes to rest, it stands in the content, and nothing came up on the way. -/
theorem placed_of_settle (hs : s.Placed) (h : settle w s = some ((), t)) :
    t.Placed ∧ t.content = s.content ∧ t.ahead ⊆ s.ahead := by
  obtain ⟨u, hrounds, hlast⟩ := rounds_of_settle h
  have hu := Rounds.placed hrounds hs
  have hround := round_of_settleOnce hlast
  refine ⟨hround.placed hu, hround.content_eq.trans (Rounds.content_eq hrounds), ?_⟩
  exact (hround.ahead_subset hu.tree hu.bounded).trans
    (Rounds.ahead_subset hs.tree hs.bounded hrounds)

/-- Outside of functions the cursor comes to rest further on. -/
theorem place_le_of_settle (hs : s.Placed) (hout : s.InNoFunction)
    (h : settle w s = some ((), t)) : s.place ≤ t.place := by
  obtain ⟨u, hrounds, hlast⟩ := rounds_of_settle h
  have hle := Rounds.place_le hrounds hs hout
  obtain hle' | ⟨c, _, hc, hin, -⟩ :=
    (round_of_settleOnce hlast).forward (Rounds.placed hrounds hs)
  · exact Nat.le_trans hle hle'
  · rw [Rounds.content_eq hrounds] at hin
    have hout' := Rounds.inNoFunction hrounds hs.tree hout c hc
    rw [Rounds.content_eq hrounds] at hout'
    exact absurd hin hout'

end Story

end Narrative
