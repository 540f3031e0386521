import Narrative.Proofs.Story.Conservation
import Narrative.Proofs.Story.Forward
import Narrative.Proofs.Story.Progress
import Narrative.Proofs.Story.Telling

/-!
# Advancing

As long as no divert leads it elsewhere, a unit of text comes to an end: each node that is played is
passed for good. Outside of functions the nodes are played in the order in which they were read.
-/

namespace Narrative.Story

variable {w : World} {s t : Story}

/-! ## Playing a node -/

/-- Where play goes on after the node at the cursor: behind it, or inside it. -/
inductive Leaves (s : Story) (i : NodeId) (t : Story) : Prop
  /-- The node is passed. -/
  | behind :
      t.container = s.container → t.index = s.index + 1 →
      (∀ c, ¬ s.content.Called c → t.children c = s.children c) → Leaves s i t
  /-- The node is entered. -/
  | inside : t.container = some i → t.index = 0 → Leaves s i t

/-- A node that was played is passed or entered. -/
theorem leaves_of_resolve {i : NodeId} {text : List Char} {u : Story} (htree : s.content.Tree)
    (hi : s.cursor? = some i) (h : resolve w i s = some (.ok text, u)) :
    u.content = s.content ∧ s.Leaves i (u.pass i) := by
  obtain ⟨c, hc, hmem⟩ := exists_of_cursor? hi
  have hne : s.container ≠ some i := by
    rw [hc]
    rintro ⟨⟩
    exact Nat.lt_irrefl _ (htree.descends.lt (parent_of_mem_children htree
      (List.mem_of_getElem? hmem)))
  have hpassed {v : Story} (hcontainer : v.container = s.container) (hindex : v.index = s.index)
      (hchildren : ∀ c, ¬ s.content.Called c → v.children c = s.children c) :
      s.Leaves i (v.pass i) := by
    have hpass : v.pass i = { v with index := v.index + 1 } := if_neg (hcontainer ▸ hne)
    rw [hpass]
    exact .behind hcontainer (congrArg (· + 1) hindex) hchildren
  by_cases hchoice : (s.node i).isChoice = true
  · rw [resolve_of_isChoice hchoice] at h
    obtain ⟨⟨_, v⟩, hadd, heq⟩ := Option.map_eq_some_iff.1 h
    cases heq
    obtain ⟨available, x, havailable, hrest⟩ := Run.bind_eq_some.1 hadd
    obtain ⟨m, hchanges, rfl, -⟩ := changes_of_isAvailable havailable
    have hsame (c : NodeId) (hcalled : ¬ s.content.Called c) :
        m.children s.content c = s.children c := hchanges.children_eq hcalled
    cases available with
    | false =>
      cases hrest
      exact ⟨rfl, hpassed rfl rfl hsame⟩
    | true =>
      cases hrest
      simp only
      split
      · split
        · refine ⟨rfl, ?_⟩
          rw [pass, if_pos rfl]
          exact .inside rfl rfl
        · exact ⟨rfl, hpassed rfl rfl hsame⟩
      · exact ⟨rfl, hpassed rfl rfl hsame⟩
  · have hthinks : s.Thinks u := plays_resolve (Bool.eq_false_iff.2 hchoice) _ _ h
    refine ⟨hthinks.content_eq, hpassed ?_ ?_ fun _ => hthinks.children_eq⟩
    · rw [hthinks.eq]
    · rw [hthinks.eq]

section Leaves

variable {i : NodeId} (h : s.Leaves i t) (hi : s.cursor? = some i)
  (hcontent : t.content = s.content)

include h hi hcontent

/-- Play goes on at a place. -/
theorem Leaves.placed (hs : s.Placed) : t.Placed := by
  refine ⟨hcontent ▸ hs.tree, hcontent ▸ hs.bounded, fun {c} hc => ?_⟩
  rw [hcontent]
  cases h with
  | behind hcontainer _ _ => exact hs.container (hcontainer ▸ hc)
  | inside hentered _ =>
    rw [hentered] at hc
    cases hc
    obtain ⟨_, -, hmem⟩ := exists_of_cursor? hi
    exact Content.lt_size_of_parent (parent_of_mem_children hs.tree (List.mem_of_getElem? hmem))

/-- What is ahead then was ahead before. -/
theorem Leaves.ahead_subset (htree : s.content.Tree) : t.ahead ⊆ s.ahead := by
  obtain ⟨c, hc, hmem⟩ := exists_of_cursor? hi
  rintro z ⟨p, hp, hz⟩
  rw [hcontent] at hz
  refine ⟨c, hc, ?_⟩
  cases h with
  | behind hcontainer hindex _ =>
    rw [hcontainer, hc] at hp
    cases hp
    rw [hindex] at hz
    exact hz.pred
  | inside hentered hindex =>
    rw [hentered] at hp
    cases hp
    rw [hindex] at hz
    exact hz.of_enter htree id (listed_children s c) hmem (lt_of_cursor? hi) id fun _ _ _ h => h

/-- The node is no longer ahead. -/
theorem Leaves.not_mem_ahead (htree : s.content.Tree) : i ∉ t.ahead := by
  cases h with
  | behind hcontainer hindex _ => exact not_mem_ahead_of_pass htree hi hcontent hcontainer hindex
  | inside hentered _ =>
    rintro ⟨p, hp, hself⟩
    rw [hentered] at hp
    cases hp
    rw [hcontent] at hself
    exact not_upcoming_self htree hself

/-- Play goes on outside of functions. -/
theorem Leaves.inNoFunction (htree : s.content.Tree) (hout : s.InNoFunction) :
    t.InNoFunction := by
  intro p hp
  rw [hcontent]
  cases h with
  | behind hcontainer _ _ => exact hout p (hcontainer ▸ hp)
  | inside hentered _ =>
    rw [hentered] at hp
    cases hp
    obtain ⟨c, hc, hmem⟩ := exists_of_cursor? hi
    exact htree.not_inFunction_of_parent
      (parent_of_mem_children htree (List.mem_of_getElem? hmem)) (hout c hc)

/-- Outside of functions play goes on further on. -/
theorem Leaves.lt_place (hs : s.Placed) (hout : s.InNoFunction) : i < t.place := by
  have ht := h.placed hi hcontent hs
  cases h with
  | behind hcontainer hindex hchildren =>
    exact ht.lt_place_of_pass hi hcontainer hindex fun c hc =>
      hchildren c (mt hs.tree.inFunction_of_called (hout c hc))
  | inside hentered _ => exact ht.lt_place hentered

end Leaves

/-- A node that leads nowhere is left when it has been played, and the cursor comes to rest from
there. -/
theorem leaves_of_playNode {i : NodeId} {text : List Char} (htree : s.content.Tree)
    (hi : s.cursor? = some i) (hplain : destination? w i s = none)
    (h : playNode w i s = some (.ok text, t)) :
    ∃ u, u.content = s.content ∧ s.Leaves i u ∧ settle w u = some ((), t) := by
  have hnot : (s.node i).isDivert = false := by
    rw [Bool.eq_false_iff]
    intro hdivert
    -- a divert that was taken leads somewhere
    rw [playNode, Attempt.bind_apply, resolve_of_isDivert hdivert, Option.bind_some] at h
    simp only at h
    rw [Attempt.bind_apply, Option.bind_eq_some_iff] at h
    obtain ⟨⟨stepped, v⟩, hstep, hend⟩ := h
    obtain ⟨e, rfl, -⟩ | ⟨u, -, htake, -⟩ | ⟨u, target, args, m, m', -, htake, -⟩ :=
      step_of_isDivert hdivert hstep
    · cases hend
    · rw [destination?_of_takeDivert hdivert htake] at hplain
      cases hplain
    · rw [destination?_of_takeDivert hdivert htake] at hplain
      cases hplain
  obtain ⟨u, hresolve⟩ := resolve_of_playNode h
  obtain ⟨hcontent, hleaves⟩ := leaves_of_resolve htree hi hresolve
  exact ⟨u.pass i, (content_pass u i).trans hcontent, hleaves,
    (settle_of_playNode hnot hresolve hcontent h).2⟩

/-- What a node that leads nowhere leaves: it is passed for good, and outside of functions play is
further on. -/
theorem forward_of_playNode {i : NodeId} {text : List Char} (hs : s.Placed)
    (hi : s.cursor? = some i) (hplain : destination? w i s = none)
    (h : playNode w i s = some (.ok text, t)) :
    t.Placed ∧ t.content = s.content ∧ t.ahead ⊆ s.ahead ∧ i ∉ t.ahead ∧
      (s.InNoFunction → t.InNoFunction ∧ i < t.place) := by
  obtain ⟨u, hcontent, hleaves, hsettle⟩ := leaves_of_playNode hs.tree hi hplain h
  have hpassed := hleaves.placed hi hcontent hs
  obtain ⟨ht, hkept, hsubset⟩ := placed_of_settle hpassed hsettle
  refine ⟨ht, hkept.trans hcontent, hsubset.trans (hleaves.ahead_subset hi hcontent hs.tree),
    fun hmem => hleaves.not_mem_ahead hi hcontent hs.tree (hsubset hmem), fun hout => ?_⟩
  have hout' := hleaves.inNoFunction hi hcontent hs.tree hout
  have hlt := hleaves.lt_place hi hcontent hs hout
  constructor
  · exact Moves.inNoFunction hpassed.tree (plays_settle w _ _ _ hsettle) hout'
  · exact Nat.lt_of_lt_of_le hlt (place_le_of_settle hpassed hout' hsettle)

/-! ## Advancing -/

/-- The nodes that are played in a unit of text, each with the story in which it is, also the last
one where playing it fails or does not come to an end. -/
def turnsWithin (w : World) :
    (steps : Nat) → (backwards : List Char) → Story → List (NodeId × Story)
  | 0, _, _ => []
  | steps + 1, backwards, s =>
    match s.current? with
    | none => []
    | some i =>
      (i, s) :: match playNode w i s with
        | some (.ok fragment, t) =>
          let backwards := fragment.reverse ++ backwards
          if t.goesOn w.host backwards then turnsWithin w steps backwards t else []
        | _ => []

/-- The nodes that are played when a story is advanced. -/
def turns (w : World) (s : Story) : List (NodeId × Story) :=
  if s.hasMore then turnsWithin w w.steps [] s else []

/-- What is current is at the cursor. -/
theorem cursor?_of_current? {i : NodeId} (h : s.current? = some i) : s.cursor? = some i := by
  rw [current?] at h
  split at h
  · exact h
  · cases h

/-- The nodes of a unit are the one at the cursor, where it fails or the unit is over, and else that
one and those of the rest. -/
theorem turns_of_playUnit {steps : Nat} {backwards : List Char} {r : Except StoryError (List Char)}
    (hmore : s.hasMore = true) (h : playUnit w (steps + 1) backwards s = some (r, t)) :
    ∃ i, s.cursor? = some i ∧
      ((turnsWithin w (steps + 1) backwards s = [(i, s)] ∧
          ∃ played, playNode w i s = some (played, t) ∧ ∀ e, played = .error e ↔ r = .error e) ∨
        ∃ fragment u, playNode w i s = some (.ok fragment, u) ∧ u.hasMore = true ∧
          turnsWithin w (steps + 1) backwards s =
            (i, s) :: turnsWithin w steps (fragment.reverse ++ backwards) u ∧
          playUnit w steps (fragment.reverse ++ backwards) u = some (r, t)) := by
  obtain ⟨i, hi, hcurrent⟩ := current?_of_hasMore hmore
  refine ⟨i, hi, ?_⟩
  obtain ⟨e, rfl, hfails⟩ | ⟨fragment, u, hplayed, ⟨hon, hrest⟩ | ⟨hoff, rfl, rfl⟩⟩ :=
    playUnit_succ hcurrent h
  · refine .inl ⟨?_, .error e, hfails, fun _ => .rfl⟩
    rw [turnsWithin]
    simp only [hcurrent, hfails]
  · refine .inr ⟨fragment, u, hplayed, hasMore_of_goesOn hon, ?_, hrest⟩
    rw [turnsWithin]
    simp only [hcurrent, hplayed, hon, if_true]
  · refine .inl ⟨?_, .ok fragment, hplayed, fun _ => ⟨nofun, nofun⟩⟩
    rw [turnsWithin]
    simp only [hcurrent, hplayed, hoff, Bool.false_eq_true, if_false]

/-- What is played later stands in a relation to what was played before, where it does in one step. -/
theorem pairwise_turnsWithin {P : Story → Prop} {L : Story → NodeId → Prop}
    {R : NodeId → NodeId → Prop} (hcursor : ∀ {s i}, P s → s.cursor? = some i → L s i)
    (hstep : ∀ {s t i text}, P s → s.cursor? = some i → destination? w i s = none →
      playNode w i s = some (.ok text, t) → P t ∧ ∀ j, L t j → L s j ∧ R i j)
    {steps : Nat} {backwards : List Char} (hs : P s)
    (hplain : ∀ v ∈ turnsWithin w steps backwards s, destination? w v.1 v.2 = none) :
    ((turnsWithin w steps backwards s).map (·.1)).Pairwise R ∧
      ∀ v ∈ turnsWithin w steps backwards s, L s v.1 := by
  induction steps generalizing backwards s with
  | zero => exact ⟨.nil, List.forall_mem_nil _⟩
  | succ steps ih =>
    rw [turnsWithin] at hplain ⊢
    cases hcurrent : s.current? with
    | none => exact ⟨.nil, List.forall_mem_nil _⟩
    | some i =>
      simp only [hcurrent] at hplain ⊢
      have hi := cursor?_of_current? hcurrent
      have hhere := hcursor hs hi
      split
      · next fragment t hplay =>
        simp only [hplay] at hplain
        obtain ⟨ht, hafter⟩ := hstep hs hi (hplain (i, s) List.mem_cons_self) hplay
        split
        · next hon =>
          rw [if_pos hon] at hplain
          obtain ⟨hpairwise, hlater⟩ := ih ht fun v hv => hplain v (List.mem_cons_of_mem _ hv)
          refine ⟨List.pairwise_cons.2 ⟨fun j hj => ?_, hpairwise⟩, fun v hv => ?_⟩
          · obtain ⟨v, hv, rfl⟩ := List.mem_map.1 hj
            exact (hafter _ (hlater v hv)).2
          · rcases List.mem_cons.1 hv with rfl | hv
            · exact hhere
            · exact (hafter _ (hlater v hv)).1
        · exact ⟨List.pairwise_singleton _ _, by simpa using hhere⟩
      · exact ⟨List.pairwise_singleton _ _, by simpa using hhere⟩

/-- No node is played twice in a unit without a divert. -/
theorem nodup_turns (hs : s.Placed)
    (hplain : ∀ v ∈ turns w s, destination? w v.1 v.2 = none) :
    ((turns w s).map (·.1)).Nodup := by
  unfold turns at hplain ⊢
  split
  · next hmore =>
    rw [if_pos hmore] at hplain
    refine (pairwise_turnsWithin (P := Placed) (fun _ hi => mem_ahead_of_cursor? hi)
      (fun hs hi hplain hplay => ?_) hs hplain).1
    obtain ⟨ht, -, hsubset, hnot, -⟩ := forward_of_playNode hs hi hplain hplay
    refine ⟨ht, fun j hj => ⟨hsubset hj, ?_⟩⟩
    rintro rfl
    exact hnot hj
  · exact .nil

/-- Outside of functions each node that is played in a unit without a divert stands behind those
before it. -/
theorem pairwise_turns (hs : s.Placed) (hout : s.InNoFunction)
    (hplain : ∀ v ∈ turns w s, destination? w v.1 v.2 = none) :
    ((turns w s).map (·.1)).Pairwise (· < ·) := by
  unfold turns at hplain ⊢
  split
  · next hmore =>
    rw [if_pos hmore] at hplain
    refine (pairwise_turnsWithin (P := fun s => s.Placed ∧ s.InNoFunction)
      (L := fun s j => s.place ≤ j) (fun _ hi => Nat.le_of_eq (place_of_cursor? hi))
      (fun ⟨hs, hout⟩ hi hplain hplay => ?_) ⟨hs, hout⟩ hplain).1
    obtain ⟨ht, -, -, -, hforward⟩ := forward_of_playNode hs hi hplain hplay
    obtain ⟨hout', hlt⟩ := hforward hout
    refine ⟨⟨ht, hout'⟩, fun j hj => ⟨?_, Nat.lt_of_lt_of_le hlt hj⟩⟩
    rw [place_of_cursor? hi]
    exact Nat.le_of_lt (Nat.lt_of_lt_of_le hlt hj)
  · exact .nil

/-! ## The end of a unit -/

/-- Whether all that is evaluated while a node is played comes to an end. -/
structure PlaysOut (w : World) (i : NodeId) (s : Story) : Prop where
  /-- What the node evaluates. -/
  played : (resolve w i s).isSome = true
  /-- What a divert evaluates to find its target. -/
  divert : (s.node i).isDivert = true → (takeDivert w (s.node i) s).isSome = true
  /-- The conditions that are evaluated until the cursor is at rest. -/
  rest {text : List Char} {u t : Story} : (s.node i).isDivert = false →
    resolve w i s = some (.ok text, u) → (u.pass i).Rounds w t → ¬ t.Undecided w

/-- Whether all that is evaluated while a story is advanced comes to an end. -/
structure Decided (w : World) (s : Story) : Prop where
  /-- While its nodes are played. -/
  turn {v : NodeId × Story} : v ∈ turns w s → v.2.PlaysOut w v.1
  /-- While interrupts offer their choices. -/
  overlay {unit : List Char} {u : Story} : s.hasMore = true →
    playUnit w w.steps [] s = some (.ok unit, u) → u.hasMore = false →
    (addInterruptChoices w u.interrupts u).isSome = true

section PlayNode

variable {i : NodeId} (hplain : destination? w i s = none)

include hplain in
/-- A divert that is not taken fails, unless looking for its target does not come to an end. -/
theorem isSome_playNode_of_isDivert (hdivert : (s.node i).isDivert = true) :
    (playNode w i s).isSome = true ↔ (takeDivert w (s.node i) s).isSome = true := by
  rw [playNode, Attempt.bind_apply, resolve_of_isDivert hdivert, Option.bind_some]
  simp only
  rw [Attempt.bind_apply, step, Attempt.get_bind_apply]
  simp only [hdivert, if_true]
  rw [Attempt.bind_apply]
  cases htake : takeDivert w (s.node i) s with
  | none => exact Iff.rfl
  | some r =>
    obtain ⟨e | target, u⟩ := r
    · exact ⟨fun _ => rfl, fun _ => rfl⟩
    · rw [destination?_of_takeDivert hdivert htake] at hplain
      cases hplain

/-- After a node that is no divert has been resolved, playing it comes to an end just if the cursor
comes to rest. -/
theorem isSome_playNode_of_resolve {text : List Char} {u : Story}
    (hdivert : (s.node i).isDivert = false) (hresolve : resolve w i s = some (.ok text, u))
    (hcontent : u.content = s.content) :
    (playNode w i s).isSome = true ↔ (settle w (u.pass i)).isSome = true := by
  have hdivert' : (u.node i).isDivert = false := by
    rw [node, hcontent]
    exact hdivert
  rw [playNode, Attempt.bind_apply, hresolve, Option.bind_some]
  simp only
  rw [Attempt.bind_apply, step_of_not_isDivert hdivert']
  cases settle w (u.pass i) with
  | none => exact Iff.rfl
  | some _ => exact ⟨fun _ => rfl, fun _ => rfl⟩

include hplain in
/-- Playing a node that leads nowhere comes to an end just if what is evaluated does. -/
theorem isSome_playNode_iff (hs : s.Placed) (hi : s.cursor? = some i) :
    (playNode w i s).isSome = true ↔ s.PlaysOut w i := by
  by_cases hdivert : (s.node i).isDivert = true
  · rw [isSome_playNode_of_isDivert hplain hdivert]
    constructor
    · intro htaken
      refine ⟨by rw [resolve_of_isDivert hdivert]; rfl, fun _ => htaken, fun {text u t} hnot => ?_⟩
      rw [hdivert] at hnot
      cases hnot
    · intro h
      exact h.divert hdivert
  · have hnot : (s.node i).isDivert = false := Bool.eq_false_iff.2 hdivert
    cases hresolve : resolve w i s with
    | none =>
      rw [playNode, Attempt.bind_apply, hresolve]
      constructor
      · intro h
        cases h
      · intro h
        have hplayed := h.played
        rw [hresolve] at hplayed
        cases hplayed
    | some r =>
      have hplayed : (resolve w i s).isSome = true := by rw [hresolve]; rfl
      obtain ⟨e | text, u⟩ := r
      · rw [playNode, Attempt.bind_apply, hresolve]
        refine ⟨fun _ => ⟨hplayed, fun h => absurd h hdivert, ?_⟩, fun _ => rfl⟩
        intro text u t _ hother
        rw [hresolve] at hother
        cases hother
      · obtain ⟨hcontent, hleaves⟩ := leaves_of_resolve hs.tree hi hresolve
        have hpassed := hleaves.placed hi ((content_pass u i).trans hcontent) hs
        rw [isSome_playNode_of_resolve hnot hresolve hcontent,
          isSome_settle_iff hpassed.tree hpassed.bounded]
        constructor
        · intro h
          refine ⟨hplayed, fun h => absurd h hdivert, fun {text' u' t} _ hsame ht => ?_⟩
          rw [hresolve] at hsame
          cases hsame
          exact h t ht
        · intro h t ht
          exact h.rest hnot hresolve ht

end PlayNode

/-- Each node that is played is one less to come, so a unit ends before the steps run out, just if
what is evaluated comes to an end. -/
theorem isSome_playUnit_iff {steps : Nat} {backwards : List Char} (hs : s.Placed)
    (hsteps : s.ahead.ncard < steps)
    (hplain : ∀ v ∈ turnsWithin w steps backwards s, destination? w v.1 v.2 = none) :
    (playUnit w steps backwards s).isSome = true ↔
      ∀ v ∈ turnsWithin w steps backwards s, v.2.PlaysOut w v.1 := by
  induction steps generalizing backwards s with
  | zero => exact absurd hsteps (Nat.not_lt_zero _)
  | succ steps ih =>
    rw [turnsWithin] at hplain ⊢
    cases hcurrent : s.current? with
    | none =>
      rw [playUnit, Attempt.get_bind_apply]
      simp only [hcurrent]
      exact ⟨fun _ => List.forall_mem_nil _, fun _ => rfl⟩
    | some i =>
      simp only [hcurrent] at hplain ⊢
      have hi := cursor?_of_current? hcurrent
      have hhere := hplain (i, s) List.mem_cons_self
      rw [List.forall_mem_cons, ← isSome_playNode_iff hhere hs hi]
      cases hplay : playNode w i s with
      | none =>
        rw [playUnit, Attempt.get_bind_apply]
        simp only [hcurrent]
        rw [Attempt.bind_apply, hplay]
        constructor
        · intro h
          cases h
        · intro h
          exact h.1
      | some r =>
        obtain ⟨e | fragment, t⟩ := r
        · rw [playUnit_of_error hcurrent hplay]
          exact ⟨fun _ => ⟨rfl, List.forall_mem_nil _⟩, fun _ => rfl⟩
        · rw [playUnit_of_playNode hcurrent hplay]
          simp only [hplay] at hplain ⊢
          split
          · next hon =>
            rw [if_pos hon] at hplain
            obtain ⟨ht, -, hsubset, hnot, -⟩ := forward_of_playNode hs hi hhere hplay
            have hlt := Set.ncard_lt_ncard
              ⟨hsubset, fun hall => hnot (hall (mem_ahead_of_cursor? hi))⟩ (finite_ahead hs.tree)
            rw [ih ht (by omega) fun v hv => hplain v (List.mem_cons_of_mem _ hv)]
            exact ⟨fun h => ⟨rfl, h⟩, fun h => h.2⟩
          · exact ⟨fun _ => ⟨rfl, List.forall_mem_nil _⟩, fun _ => rfl⟩

/-- An advance does not end where its unit does not. -/
theorem advance_eq_none (hmore : s.hasMore = true) (h : playUnit w w.steps [] s = none) :
    advance w s = none := by
  rw [advance, Attempt.get_bind_apply]
  simp only [hmore]
  change (playUnit w w.steps [] >>= _) s = _
  rw [Attempt.bind_apply, h]
  rfl

/-- After a unit has been played advancing comes to an end just if offering the choices of
interrupts does. -/
theorem isSome_advance_of_playUnit {unit : List Char} {u : Story} (hmore : s.hasMore = true)
    (h : playUnit w w.steps [] s = some (.ok unit, u)) :
    (advance w s).isSome = true ↔
      (u.hasMore = false → (addInterruptChoices w u.interrupts u).isSome = true) := by
  rw [advance, Attempt.get_bind_apply]
  simp only [hmore]
  change ((playUnit w w.steps [] >>= _) s).isSome = true ↔ _
  rw [Attempt.bind_apply, h, Option.bind_some]
  simp only
  rw [Attempt.get_bind_apply]
  cases u.hasMore with
  | true =>
    constructor
    · intro _ hnone
      cases hnone
    · intro _
      rfl
  | false =>
    simp only [Bool.false_eq_true, if_false, forall_const]
    change (((ExceptT.lift (addInterruptChoices w u.interrupts) : Play Unit) >>= _) u).isSome =
      true ↔ _
    rw [Attempt.bind_apply, Attempt.lift_apply]
    cases addInterruptChoices w u.interrupts u with
    | none => exact Iff.rfl
    | some _ => exact ⟨fun _ => rfl, fun _ => rfl⟩

/-- Advancing without a divert comes to an end just if what is evaluated does. -/
theorem isSome_advance_iff (hs : s.Placed) (hsteps : s.content.size < w.steps)
    (hplain : ∀ v ∈ turns w s, destination? w v.1 v.2 = none) :
    (advance w s).isSome = true ↔ s.Decided w := by
  cases hmore : s.hasMore with
  | false =>
    have hturns : turns w s = [] := if_neg (by rw [hmore]; exact Bool.false_ne_true)
    rw [advance, Attempt.get_bind_apply]
    simp only [hmore]
    refine ⟨fun _ => ⟨fun hv => ?_, fun hother => ?_⟩, fun _ => rfl⟩
    · rw [hturns] at hv
      cases hv
    · rw [hmore] at hother
      cases hother
  | true =>
    have hturns : turns w s = turnsWithin w w.steps [] s := if_pos hmore
    have hahead := ncard_ahead_le hs.tree
    have hunits := isSome_playUnit_iff hs (by omega) (hturns ▸ hplain)
    rw [← hturns] at hunits
    cases hunit : playUnit w w.steps [] s with
    | none =>
      rw [hunit] at hunits
      rw [advance_eq_none hmore hunit]
      constructor
      · intro h
        cases h
      · intro h
        exact hunits.2 fun v hv => h.turn hv
    | some r =>
      rw [hunit] at hunits
      have hturn {v : NodeId × Story} (hv : v ∈ turns w s) : v.2.PlaysOut w v.1 :=
        hunits.1 rfl v hv
      obtain ⟨e | unit, u⟩ := r
      · rw [advance_of_error hmore hunit]
        refine ⟨fun _ => ⟨hturn, fun {unit u} _ hother => ?_⟩, fun _ => rfl⟩
        rw [hunit] at hother
        cases hother
      · rw [isSome_advance_of_playUnit hmore hunit]
        refine ⟨fun hadd => ⟨hturn, fun {unit' u'} _ hsame hnone => ?_⟩,
          fun h hnone => h.overlay hmore hunit hnone⟩
        rw [hunit] at hsame
        cases hsame
        exact hadd hnone

/-- Bringing the cursor to rest comes to an end just if the conditions on the way do. Each round
leaves less to be done, keeps the position in bounds and leads forward, unless it passes a fallback
choice in the body of a function, where its conditions have chosen another list. So a unit of text
without a divert comes to an end just if what is evaluated does and plays no node twice, and outside
of functions it plays each node behind those before it. -/
theorem goes_forward (w : World) (s : Story) (hs : s.Placed) :
    ((settle w s).isSome = true ↔ ∀ t, s.Rounds w t → ¬ t.Undecided w) ∧
      (∀ t again u, s.Rounds w t → settleOnce w t = some (again, u) →
        t.Round w again u ∧ u.ahead ⊆ t.ahead ∧ (again = true → u.effort < t.effort) ∧
          (t.index ≤ beyondAll → u.index ≤ beyondAll) ∧
          (t.place ≤ u.place ∨ ∃ c i, t.container = some c ∧ s.content.InFunction c ∧
            t.cursor? = some i ∧ (s.node i).isFallback = true ∧ u.container = some c ∧
            u.children c ≠ t.children c)) ∧
      (∀ t, settle w s = some ((), t) →
        (∃ u, s.Rounds w u ∧ settleOnce w u = some (false, t)) ∧
          (s.InNoFunction → s.place ≤ t.place)) ∧
      ((∀ v ∈ turns w s, destination? w v.1 v.2 = none) →
        (s.content.size < w.steps → ((advance w s).isSome = true ↔ s.Decided w)) ∧
          ((turns w s).map (·.1)).Nodup ∧
          (s.InNoFunction → ((turns w s).map (·.1)).Pairwise (· < ·))) := by
  refine ⟨isSome_settle_iff hs.tree hs.bounded, ?_, ?_, ?_⟩
  · intro t again u hrounds hlast
    have ht := Rounds.placed hrounds hs
    have hround := round_of_settleOnce hlast
    have hcontent := Rounds.content_eq hrounds
    refine ⟨hround, hround.ahead_subset ht.tree ht.bounded, hround.effort_lt ht.tree ht.bounded,
      hround.index_le ht, ?_⟩
    have hnode (i : NodeId) : t.node i = s.node i := congrArg (·.node i) hcontent
    obtain hle | ⟨c, i, hc, hin, hi, hfallback, hrest⟩ := hround.forward ht
    · exact .inl hle
    · exact .inr ⟨c, i, hc, hcontent ▸ hin, hi, hnode i ▸ hfallback, hrest⟩
  · intro t hsettle
    exact ⟨rounds_of_settle hsettle, fun hout => place_le_of_settle hs hout hsettle⟩
  · intro hplain
    exact ⟨fun hsteps => isSome_advance_iff hs hsteps hplain, nodup_turns hs hplain,
      fun hout => pairwise_turns hs hout hplain⟩

/-- A host with a source whose first line of text stands behind a block and in a gather. -/
def laneHost : Host :=
  .ofSources (.ofList [("lane", "== start\n\x7b\n- 1 > 2:\nMuch.\n- else:\n" ++
    "* \x7b1 > 2\x7d\n  Never.\n\x7d\n- (here)\nHello <>\nworld.\n* [Go]\n")]) fun _ => ""

/-- A world with that host. -/
def laneWorld : World := ⟨laneHost, 4, 40⟩

/-- The cursor comes by the block and its fallback choice to the first text in the gather, and the
unit goes on from there to the choice behind the gather. -/
theorem goes_forward_lane : ∃ s t : Story, s.Placed ∧ settle laneWorld s = some ((), t) ∧
    s.place < t.place ∧ (∀ u, s.Rounds laneWorld u → ¬ u.Undecided laneWorld) ∧
    (turns laneWorld t).map (fun v => (t.node v.1).id) =
      ["start.here.0", "start.here.1", "start.2"] ∧
    ((turns laneWorld t).map (·.1)).Pairwise (· < ·) ∧ t.Decided laneWorld := by
  have hplayed : (Sources.ofMain laneHost "lane").toOption.any (fun r =>
      (atStart r.2 r.1 0).content.size < 40 ∧
      (settle laneWorld (atStart r.2 r.1 0)).any (fun u =>
        (atStart r.2 r.1 0).place < u.2.place ∧
        (turns laneWorld u.2).map (fun v => (u.2.node v.1).id) =
          ["start.here.0", "start.here.1", "start.2"] ∧
        (∀ v ∈ turns laneWorld u.2, destination? laneWorld v.1 v.2 = none) ∧
        (advance laneWorld u.2).isSome = true) = true) = true := by
    decide +kernel
  obtain ⟨⟨start, sources⟩, hmain, hplays⟩ := (Option.any_eq_true _ _).1 hplayed
  obtain ⟨hsize, hsettles⟩ := of_decide_eq_true hplays
  obtain ⟨⟨_, t⟩, hsettle, hrest⟩ := (Option.any_eq_true _ _).1 hsettles
  obtain ⟨hlt, hids, hplain, hsome⟩ := of_decide_eq_true hrest
  replace hmain : Sources.ofMain laneHost "lane" = .ok (start, sources) := by
    cases h : Sources.ofMain laneHost "lane" with
    | error e =>
      rw [h] at hmain
      cases hmain
    | ok r =>
      rw [h] at hmain
      cases hmain
      rfl
  obtain ⟨hgrown, hstart, hknot⟩ := Sources.grown_ofMain hmain
  have houtside := outside_atStart hgrown hstart hknot 0
  have hs := houtside.sound.placed (Nat.lt_trans hsize (by decide))
  obtain ⟨ht, hcontent, -⟩ := placed_of_settle hs hsettle
  have hout : t.InNoFunction := Moves.inNoFunction hs.tree (plays_settle _ _ _ _ hsettle)
    fun _ => houtside.container
  obtain ⟨hplaysOut, -⟩ := goes_forward laneWorld _ hs
  obtain ⟨-, -, -, hforward⟩ := goes_forward laneWorld t ht
  obtain ⟨hadvances, -, hlater⟩ := hforward hplain
  exact ⟨_, t, hs, hsettle, hlt, hplaysOut.1 (by rw [hsettle]; rfl), hids, hlater hout,
    (hadvances (by rw [hcontent]; exact hsize)).1 hsome⟩

/-- A host with a source that leads play into a function whose list of lines depends on calling
it. -/
def spinHost : Host :=
  .ofSources (.ofList [("spin", "== start\nVAR v = 0\n-> f\n== function f()\n~ v = v + 1\n" ++
    "\x7b\n- v > 1:\nOne.\nTwo.\nThree.\nFour.\n- else:\nOther.\nMore.\n" ++
    "* \x7bf() == \"x\"\x7d\n\x7d\n")]) fun _ => ""

/-- A world with that host. -/
def spinWorld : World := ⟨spinHost, 4, 40⟩

/-- In the body of a function the cursor can come to rest further back: the condition of the
fallback choice behind the text calls the function, which chooses the first option of the block that
play goes through. -/
theorem settle_backwards : ¬ ∀ (w : World) (s t : Story), s.Placed →
    settle w s = some ((), t) → t.container = none ∨ s.place ≤ t.place := by
  intro hforward
  have hplayed : (played? spinWorld "spin" 0 [.advance]).any (fun u =>
      u.content.size < beyondAll ∧ u.cursor?.any (fun i =>
        (settle spinWorld (u.pass i)).any fun r =>
          r.2.container ≠ none ∧ r.2.place < (u.pass i).place) = true) = true := by
    decide +kernel
  obtain ⟨u, hu, hplays⟩ := (Option.any_eq_true _ _).1 hplayed
  obtain ⟨hbounded, hcursor⟩ := of_decide_eq_true hplays
  obtain ⟨i, -, hsettles⟩ := (Option.any_eq_true _ _).1 hcursor
  obtain ⟨⟨_, t⟩, hsettle, hback⟩ := (Option.any_eq_true _ _).1 hsettles
  obtain ⟨hstays, hlt⟩ := of_decide_eq_true hback
  have hreached : Reachable spinHost "spin" (fun _ => True) u :=
    reachable_of_played? (fun _ _ => trivial) hu
  have hplaced : (u.pass i).Placed :=
    (hreached.sound.pass i).placed (by rw [content_pass]; exact hbounded)
  obtain hended | hle := hforward spinWorld (u.pass i) t hplaced hsettle
  · exact hstays hended
  · exact absurd hlt (Nat.not_lt.2 hle)

end Narrative.Story
