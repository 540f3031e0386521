import Narrative.Proofs.Story.Reachable

/-!
# Visits are counted

No visit is taken back while a story is played, and a choice that play enters has been visited,
however it came there.
-/

namespace Narrative.Story

open Relation

variable {leads : Route} {w : World} {s t : Story}

/-! ## Visits stay -/

/-- Entering a node takes no visit back. -/
theorem visits_le_enter {m m' : Memory} {i : NodeId}
    (hchanges : Memory.Changes s.content s.memory m)
    (hreadies : Memory.Readies s.content i m m') (j : NodeId) :
    (s.memory.mark j).visits ≤ ((m'.visit i).mark j).visits :=
  calc (s.memory.mark j).visits
    _ ≤ (m.mark j).visits := hchanges.visits_le j
    _ = (m'.mark j).visits := (hreadies.visits_eq j).symm
    _ ≤ ((m'.visit i).mark j).visits := Memory.visits_le_visit m' j i

/-- A thought takes no visit back. -/
theorem Thought.visits_le (h : s.Thought t) (i : NodeId) :
    (s.memory.mark i).visits ≤ (t.memory.mark i).visits := by
  cases h with
  | think hchanges => exact hchanges.visits_le i
  | utter _ => exact Memory.visits_le_visit ..
  | note _ =>
    unfold addComment
    split <;> exact Nat.le_refl _
  | forget _ => exact Nat.le_refl _
  | fire _ _ => exact Nat.le_refl _

/-- No move takes a visit back. -/
theorem Move.visits_le (h : s.Move leads t) (i : NodeId) :
    (s.memory.mark i).visits ≤ (t.memory.mark i).visits := by
  cases h with
  | thought h => exact h.visits_le i
  | enter _ _ hchanges hreadies => exact visits_le_enter hchanges hreadies i
  | land _ _ _ hchanges hreadies => exact visits_le_enter hchanges hreadies i
  | divert _ _ _ hchanges hreadies => exact visits_le_enter hchanges hreadies i
  | leave _ _ _ =>
    unfold leaveBlock
    split <;> exact Nat.le_refl _
  | offer _ _ _ _ _ hchanges =>
    unfold Story.pass
    split <;> exact hchanges.visits_le i
  | fallBack _ _ _ hchanges => exact Nat.le_trans (hchanges.visits_le i) (Memory.visits_le_visit ..)
  | take _ _ => exact Memory.visits_le_visit ..
  | interpose _ _ _ _ _ _ _ hchanges => exact hchanges.visits_le i
  | converge _ _ _ => exact Nat.le_refl _
  | runOut _ => exact Nat.le_refl _
  | wait _ => exact Nat.le_refl _
  | pass => exact Nat.le_refl _
  | finish _ _ => exact Nat.le_refl _

/-- Moves take no visit back. -/
theorem Moves.visits_le (h : s.Moves leads t) (i : NodeId) :
    (s.memory.mark i).visits ≤ (t.memory.mark i).visits := by
  induction h with
  | refl => exact Nat.le_refl _
  | tail _ hmove ih => exact Nat.le_trans ih (hmove.visits_le i)

/-- Whether a story may come later than another one: it has its nodes, and no visit is taken back.
-/
structure Later (s t : Story) : Prop where
  /-- The nodes stay. -/
  extends_content : t.content.Extends s.content
  /-- The visits stay. -/
  visits_le (i : NodeId) : (s.memory.mark i).visits ≤ (t.memory.mark i).visits

/-- What comes later than a later story comes later. -/
theorem Later.trans {u : Story} (h : s.Later t) (h' : t.Later u) : s.Later u :=
  ⟨h'.extends_content.trans h.extends_content,
    fun i => Nat.le_trans (h.visits_le i) (h'.visits_le i)⟩

/-- Every action makes the story a later one. -/
theorem later_of_perform {action : Action} {answer : Answer} (hs : s.Sound)
    (h : perform w action s = some (answer, t)) : s.Later t := by
  have hmoved {u : Story} (hmoves : s.Moves anywhere u) : s.Later u :=
    ⟨hmoves.content_eq ▸ .refl _, hmoves.visits_le⟩
  obtain ⟨u, hmoves, rfl | ⟨text, rfl⟩⟩ | ⟨-, hwidens⟩ :=
    moves_of_perform hs.content (led_anywhere w action s) h
  · exact hmoved hmoves
  · refine (hmoved hmoves).trans ?_
    rw [record_eq]
    exact ⟨.refl _, fun _ => Nat.le_refl _⟩
  · exact ⟨hwidens.extends_content, fun i => Nat.le_of_eq (by rw [hwidens.eq])⟩

/-- Whatever a story is asked for, it keeps its nodes and takes no visit back. -/
theorem later_of_performAll {actions : List Action} {answers : List Answer} {host : Host}
    {main : String} (hs : Reachable host main (fun _ => True) s) (hhost : w.host = host)
    (h : performAll w actions s = some (answers, t)) : s.Later t := by
  induction actions generalizing s answers with
  | nil =>
    cases h
    exact ⟨.refl _, fun _ => Nat.le_refl _⟩
  | cons action rest ih =>
    obtain ⟨answer, u, hfirst, hrest⟩ := Run.bind_eq_some.1 h
    obtain ⟨answers', v, hrest, hend⟩ := Run.bind_eq_some.1 hrest
    cases hend
    exact (later_of_perform hs.sound hfirst).trans (ih (hs.perform hhost trivial hfirst) hrest)

/-! ## Choices that are entered -/

/-- Whether a choice that has just been entered counts as visited. -/
def Counted (s : Story) : Prop :=
  ∀ i, s.container = some i → s.index = 0 → (s.node i).isChoice = true →
    0 < (s.memory.mark i).visits

/-- Wherever a move leads into a choice, the choice is visited. -/
theorem Counted.move (h : s.Counted) (hmove : s.Move leads t) : t.Counted := by
  intro i hcontainer hindex hchoice
  have hnode : (s.node i).isChoice = true := by
    have hcontent : t.content = s.content := congrArg Sources.content hmove.steady.sources
    rw [node, hcontent] at hchoice
    exact hchoice
  cases hmove with
  | thought hthought =>
    have heq := Thinks.eq (.single hthought)
    rw [heq] at hcontainer hindex
    exact Nat.lt_of_lt_of_le (h i hcontainer hindex hnode) (hthought.visits_le i)
  | enter _ _ _ _ =>
    cases hcontainer
    exact Memory.visits_visit_pos ..
  | land _ _ _ _ _ =>
    cases hcontainer
    exact Memory.visits_visit_pos ..
  | divert _ _ _ _ _ =>
    cases hcontainer
    exact Memory.visits_visit_pos ..
  | fallBack _ _ _ _ =>
    cases hcontainer
    exact Memory.visits_visit_pos ..
  | take _ _ =>
    cases hcontainer
    exact Memory.visits_visit_pos ..
  | converge _ _ hlanding =>
    obtain ⟨p, -, ⟨j, -, hother, -⟩ | ⟨_, hposition, hpos, -⟩⟩ := landing_of_landingAbove? hlanding
    · cases hother
    · cases hposition
      exact absurd hindex (Nat.ne_of_gt hpos)
  | leave _ _ _ =>
    unfold leaveBlock at hcontainer hindex
    split at hcontainer
    · cases hcontainer
    · next hparent =>
      rw [hparent] at hindex
      exact absurd hindex (Nat.ne_of_gt (positionAfter_pos _ _))
  | pass => cases hindex
  | offer _ _ _ _ _ hchanges =>
    unfold Story.pass at hcontainer hindex ⊢
    split at hindex
    · next hself =>
      rw [if_pos hself] at hcontainer ⊢
      exact Nat.lt_of_lt_of_le (h i hcontainer hindex hnode) (hchanges.visits_le i)
    · cases hindex
  | runOut _ => cases hcontainer
  | finish _ _ => cases hcontainer
  | wait _ => exact h i hcontainer hindex hnode
  | interpose _ _ _ _ _ _ _ hchanges =>
    exact Nat.lt_of_lt_of_le (h i hcontainer hindex hnode) (hchanges.visits_le i)

/-- A section is no choice. -/
theorem isChoice_of_isSection {n : Node} (h : n.isSection = true) : n.isChoice = false := by
  unfold Node.isSection at h
  unfold Node.isChoice
  split at h <;> simp_all

/-- A story starts in a section. -/
theorem isSection_descend {i : NodeId} (hi : (s.node i).isKnot = true) :
    (s.node (s.descend i)).isSection = true := by
  have hknot : (s.node i).isSection = true := by
    unfold Node.isKnot at hi
    unfold Node.isSection
    split at hi <;> simp_all
  rw [descend, if_pos hi]
  split
  · split
    · next hstitch =>
      unfold Node.isStitch at hstitch
      unfold Node.isSection
      split at hstitch <;> simp_all
    · exact hknot
  · exact hknot

/-- Choices that are entered are counted whatever is done. -/
theorem kept_counted (leads : Route) :
    Kept leads fun s => s.Sound ∧ s.Counted where
  sound h := h.1
  move h hmove := ⟨h.1.move hmove, h.2.move hmove⟩
  record text h := by
    refine ⟨h.1.record text, ?_⟩
    rw [record_eq]
    exact h.2
  widen {s t} h hwidens := by
    refine ⟨h.1.widen hwidens, fun i hcontainer hindex hchoice => ?_⟩
    have heq := hwidens.eq
    rw [heq] at hcontainer hindex ⊢
    refine h.2 i hcontainer hindex ?_
    rw [node, hwidens.extends_content.node_eq (h.1.container hcontainer)] at hchoice
    exact hchoice

/-- Every choice into which play has just led is counted. -/
theorem Reachable.counted {host : Host} {main : String} {permitted : Action → Prop}
    (h : Reachable host main permitted s) : s.Counted := by
  refine (h.keeps (kept_counted anywhere) fun start sources seed hmain => ?_).2
  obtain ⟨hgrown, hstart, hknot⟩ := Sources.grown_ofMain hmain
  refine ⟨sound_atStart hgrown hstart seed, ?_⟩
  rintro i ⟨⟩ - hchoice
  have hsection := isSection_descend (s := { sources, container := some start }) hknot
  cases (isChoice_of_isSection hsection).symm.trans hchoice

/-! ## Choices that are taken -/

/-- A choice that is taken is visited. -/
theorem visits_pos_of_choose {index : Nat} {i : NodeId} {r : Except StoryError Unit}
    (hi : s.choices[index]? = some i) (h : choose w index s = some (r, t)) :
    0 < (t.memory.mark i).visits := by
  obtain ⟨hnone, -, -⟩ | ⟨choice, hchoice, -, hsettle⟩ := choose_eq_some h
  · rw [hi] at hnone
    cases hnone
  · rw [hi] at hchoice
    cases hchoice
    have hmoves : Moves anywhere (s.take i) t := plays_settle w _ _ _ hsettle
    exact Nat.lt_of_lt_of_le (Memory.visits_visit_pos ..) (Moves.visits_le hmoves i)

/-- A node to which a divert has led is visited. -/
theorem visits_pos_of_playNode {i target : NodeId} {fragment : List Char}
    (hi : destination? w i s = some (some target))
    (h : playNode w i s = some (.ok fragment, t)) : 0 < (t.memory.mark target).visits := by
  have hdivert : (s.node i).isDivert = true := by
    by_contra hplain
    rw [destination?_of_not_isDivert (Bool.eq_false_iff.2 hplain)] at hi
    cases hi
  rw [playNode, Attempt.bind_apply, resolve_of_isDivert hdivert, Option.bind_some] at h
  obtain ⟨_, u, hstep, hend⟩ := Attempt.bind_eq_ok.1 h
  cases hend
  obtain ⟨e, herror, -⟩ | ⟨u, -, htake, -⟩ | ⟨u, target', args, m, m', -, htake, -, -, hsettle⟩ :=
    step_of_isDivert hdivert hstep
  · cases herror
  · rw [destination?_of_takeDivert hdivert htake] at hi
    cases hi
  · rw [destination?_of_takeDivert hdivert htake] at hi
    cases hi
    have hmoves : Moves anywhere _ t := plays_settle w _ _ _ hsettle
    exact Nat.lt_of_lt_of_le (Memory.visits_visit_pos ..) (Moves.visits_le hmoves target')

/-- A node to which a unit is led has been visited. -/
theorem visits_pos_of_playUnit {steps : Nat} {backwards : List Char} {target : NodeId}
    {r : Except StoryError (List Char)} (hmore : s.hasMore = true)
    (hvisit : ∃ v ∈ visitsWithin w steps backwards s, v.destination = some (some target))
    (h : playUnit w steps backwards s = some (r, t)) : 0 < (t.memory.mark target).visits := by
  induction steps generalizing backwards s with
  | zero => cases h
  | succ steps ih =>
    obtain ⟨i, hi, hcurrent⟩ := current?_of_hasMore hmore
    obtain ⟨v, hv, hdestination⟩ := hvisit
    rw [visitsWithin] at hv
    simp only [hcurrent] at hv
    obtain ⟨e, -, hfails⟩ | ⟨fragment, u, hplayed, hrest⟩ := playUnit_succ hcurrent h
    · simp only [hfails] at hv
      cases hv
    · simp only [hplayed] at hv
      rcases List.mem_cons.1 hv with rfl | hv
      · have hu := visits_pos_of_playNode hdestination hplayed
        obtain ⟨hon, hrest⟩ | ⟨-, -, rfl⟩ := hrest
        · have hmoves : Moves anywhere u t :=
            plays_playUnit (hasMore_of_goesOn hon) (fun _ _ _ _ => trivial) _ _ hrest
          exact Nat.lt_of_lt_of_le hu (Moves.visits_le hmoves target)
        · exact hu
      · obtain ⟨hon, hrest⟩ | ⟨hoff, -, -⟩ := hrest
        · rw [if_pos hon] at hv
          exact ih (hasMore_of_goesOn hon) ⟨v, hv, hdestination⟩ hrest
        · rw [if_neg (by rw [hoff]; exact Bool.false_ne_true)] at hv
          cases hv

/-- A node to which a divert leads while a story is advanced is visited, also where advancing fails
later on. -/
theorem visits_pos_of_advance {target : NodeId} {r : Except StoryError String}
    (hvisit : ∃ v ∈ visits w s, v.destination = some (some target))
    (h : advance w s = some (r, t)) : 0 < (t.memory.mark target).visits := by
  obtain ⟨hmore, -, -⟩ | ⟨hmore, hplayed⟩ := advance_eq_some h
  · rw [visits, if_neg (by rw [hmore]; exact Bool.false_ne_true)] at hvisit
    obtain ⟨v, hv, -⟩ := hvisit
    cases hv
  · rw [visits, if_pos hmore] at hvisit
    obtain ⟨e, -, hunit⟩ | ⟨unit, u, v, hunit, hadd, -, rfl⟩ := hplayed
    · exact visits_pos_of_playUnit hmore hvisit hunit
    · have hmoves : u.Moves anywhere v := moves_of_overlay hmore hunit hadd
      have hv := Nat.lt_of_lt_of_le (visits_pos_of_playUnit hmore hvisit hunit)
        (hmoves.visits_le target)
      rw [record_eq]
      exact hv

end Narrative.Story
