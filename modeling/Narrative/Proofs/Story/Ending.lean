import Narrative.Proofs.Story.Reachable

/-!
# The end of a story

Where a divert leads to the end, the story is over: nothing more is played, whatever it is asked
for. Interrupts can still offer their choices then, and taking one of them leaves the end.
-/

namespace Narrative.Story

variable {w : World} {s t : Story}

/-! ## Reaching the end -/

/-- A unit in which a divert leads to the end of the story ends there. -/
theorem finish_of_playUnit {steps : Nat} {backwards : List Char}
    {r : Except StoryError (List Char)} (hmore : s.hasMore = true)
    (hend : ∃ v ∈ visitsWithin w steps backwards s, v.destination = some none)
    (h : playUnit w steps backwards s = some (r, t)) :
    ∃ unit u, r = .ok unit ∧ t = finish u := by
  induction steps generalizing backwards s with
  | zero => cases h
  | succ steps ih =>
    obtain ⟨i, hi, hcurrent⟩ := current?_of_hasMore hmore
    rw [visitsWithin] at hend
    simp only [hcurrent] at hend
    obtain ⟨e, -, hfails⟩ | ⟨fragment, u, hplayed, hrest⟩ := playUnit_succ hcurrent h
    · simp only [hfails] at hend
      obtain ⟨v, hv, -⟩ := hend
      cases hv
    · simp only [hplayed] at hend
      obtain ⟨v, hv, hdestination⟩ := hend
      rcases List.mem_cons.1 hv with rfl | hv
      · -- this node leads to the end, where there is no node to go on with
        obtain ⟨e, herror, -⟩ | ⟨x, -, -, -, rfl⟩ | ⟨_, _, -, hother, -⟩ :=
          playNode_anywhere hmore hi hplayed
        · cases herror
        · obtain ⟨hon, -⟩ | ⟨-, rfl, rfl⟩ := hrest
          · have hover : (finish x).hasMore = false := Halted.hasMore_eq (.inr (.inl rfl))
            rw [hasMore_of_goesOn hon] at hover
            cases hover
          · exact ⟨_, x, rfl, rfl⟩
        · exact absurd hdestination hother
      · obtain ⟨hon, hrest⟩ | ⟨hoff, -, -⟩ := hrest
        · rw [if_pos hon] at hv
          exact ih (hasMore_of_goesOn hon) ⟨v, hv, hdestination⟩ hrest
        · rw [if_neg (by rw [hoff]; exact Bool.false_ne_true)] at hv
          cases hv

/-- Advancing a story along a divert to its end succeeds and ends it. The choices that are pending
then are those of interrupts. -/
theorem ended_of_advance {r : Except StoryError String}
    (hend : ∃ v ∈ visits w s, v.destination = some none) (h : advance w s = some (r, t)) :
    (∃ text, r = .ok text) ∧ t.running = false ∧ t.isEnded = true ∧
      ∀ i ∈ t.choices, ∃ k ∈ t.interrupts, k.kind = .choice ∧ t.content.find? k.id = some i := by
  obtain ⟨hmore, -, -⟩ | ⟨hmore, hplayed⟩ := advance_eq_some h
  · rw [visits, if_neg (by rw [hmore]; exact Bool.false_ne_true)] at hend
    obtain ⟨v, hv, -⟩ := hend
    cases hv
  · rw [visits, if_pos hmore] at hend
    obtain ⟨e, -, hunit⟩ | ⟨unit, u, v, hunit, hadd, rfl, rfl⟩ := hplayed
    · obtain ⟨_, _, herror, -⟩ := finish_of_playUnit hmore hend hunit
      cases herror
    · obtain ⟨_, x, -, rfl⟩ := finish_of_playUnit hmore hend hunit
      have hv : ∃ m added, v = { finish x with memory := m, choices := added } ∧
          ∀ i ∈ added, ∃ k ∈ x.interrupts, k.kind = .choice ∧ x.content.find? k.id = some i := by
        obtain ⟨-, rfl⟩ | ⟨-, hadd⟩ := hadd
        · exact ⟨x.memory, [], rfl, fun i hi => by cases hi⟩
        · obtain ⟨m, added, -, rfl, hadded⟩ := addInterruptChoices_eq_some hadd
          exact ⟨m, added, by rw [show (finish x).choices = [] from rfl, List.append_nil], hadded⟩
      obtain ⟨m, added, rfl, hadded⟩ := hv
      refine ⟨⟨_, rfl⟩, ?_⟩
      rw [record_eq]
      exact ⟨rfl, rfl, hadded⟩

/-! ## After the end -/

/-- What no action changes about a story that was diverted to its end. -/
structure StaysOver (s t : Story) : Prop where
  /-- It is not started again. -/
  running : t.running = false
  /-- No text is shown. -/
  transcript : t.transcript = s.transcript

/-- A story that was diverted to its end plays no text, whatever it is asked for. It stays at its
end with the same choices unless one of them is taken. -/
theorem perform_of_over {action : Action} {answer : Answer} (hover : s.running = false)
    (h : perform w action s = some (answer, t)) :
    s.StaysOver t ∧ (∀ text, answer ≠ .text (.ok text)) ∧
      ((s.choices = [] ∨ ∀ index, action ≠ .choose index) →
        t.container = s.container ∧ t.choices = s.choices) := by
  obtain ⟨r, -, rfl, hadvance⟩ | ⟨index, r, rfl, rfl, hchoose⟩ | ⟨i, r, -, rfl, hadd⟩ |
    ⟨hthinks, -, hanswer⟩ := perform_eq_some h
  · obtain ⟨-, rfl, rfl⟩ | ⟨hmore, -⟩ := advance_eq_some hadvance
    · exact ⟨⟨hover, rfl⟩, nofun, fun _ => ⟨rfl, rfl⟩⟩
    · rw [Halted.hasMore_eq (.inr (.inl hover))] at hmore
      cases hmore
  · have hmoves : s.Moves anywhere t := plays_choose (fun _ _ => trivial) _ _ hchoose
    refine ⟨⟨?_, hmoves.steady.transcript⟩, nofun, fun hleaves => ?_⟩
    · refine Bool.eq_false_iff.2 fun hrunning => ?_
      rw [hmoves.steady.running hrunning] at hover
      cases hover
    · obtain ⟨-, -, rfl⟩ | ⟨choice, hchoice, -⟩ := choose_eq_some hchoose
      · exact ⟨rfl, rfl⟩
      · obtain hnone | hother := hleaves
        · rw [hnone] at hchoice
          cases hchoice
        · exact absurd rfl (hother index)
  · rw [addInterrupt_eq hadd]
    exact ⟨⟨hover, rfl⟩, nofun, fun _ => ⟨rfl, rfl⟩⟩
  · rw [hthinks.eq]
    exact ⟨⟨hover, rfl⟩, fun text => hanswer (.ok text), fun _ => ⟨rfl, rfl⟩⟩

/-- Whatever a story that was diverted to its end is asked for, one thing after another, it plays no
text. Where no choice is pending or none is taken it stays at its end with the same choices. -/
theorem performAll_of_over {actions : List Action} {answers : List Answer}
    (hover : s.running = false) (h : performAll w actions s = some (answers, t)) :
    s.StaysOver t ∧ (∀ text, .text (.ok text) ∉ answers) ∧
      ((s.choices = [] ∨ ∀ index, .choose index ∉ actions) →
        t.container = s.container ∧ t.choices = s.choices) := by
  induction actions generalizing s answers with
  | nil =>
    cases h
    exact ⟨⟨hover, rfl⟩, nofun, fun _ => ⟨rfl, rfl⟩⟩
  | cons action rest ih =>
    obtain ⟨answer, u, hfirst, hrest⟩ := Run.bind_eq_some.1 h
    obtain ⟨answers', v, hrest, hend⟩ := Run.bind_eq_some.1 hrest
    cases hend
    obtain ⟨hfirst, hanswer, hplace⟩ := perform_of_over hover hfirst
    obtain ⟨hlater, hanswers, hplaces⟩ := ih hfirst.running hrest
    refine ⟨⟨hlater.running, hlater.transcript.trans hfirst.transcript⟩, fun text hmem => ?_,
      fun hleaves => ?_⟩
    · rcases List.mem_cons.1 hmem with heq | hmem
      · exact hanswer text heq.symm
      · exact hanswers text hmem
    · have hhere := hplace (hleaves.imp_right fun hnone index heq =>
        hnone index (heq ▸ List.mem_cons_self))
      have hthere := hplaces (hleaves.imp (fun hnone => hhere.2.trans hnone) fun hnone index hmem =>
        hnone index (List.mem_cons_of_mem _ hmem))
      exact ⟨hthere.1.trans hhere.1, hthere.2.trans hhere.2⟩

/-- The end is final for texts: a story that is advanced along a divert to its end has ended,
whatever the depth and the interrupts, and whatever it is asked for from there, it never plays a
text again. Its pending choices are those of interrupts, and while none of them is taken it stays at
its end with these choices. Where there are none it stays there for good. -/
theorem over_after_end {r : Except StoryError String}
    (hend : ∃ v ∈ visits w s, v.destination = some none) (h : advance w s = some (r, t)) :
    (∃ text, r = .ok text) ∧ t.isEnded = true ∧
      (∀ i ∈ t.choices, ∃ k ∈ t.interrupts, k.kind = .choice ∧ t.content.find? k.id = some i) ∧
      ∀ w' actions answers u, performAll w' actions t = some (answers, u) →
        u.hasMore = false ∧ u.transcript = t.transcript ∧ (∀ text, .text (.ok text) ∉ answers) ∧
          ((t.choices = [] ∨ ∀ index, .choose index ∉ actions) →
            u.isEnded = true ∧ u.choices = t.choices) := by
  obtain ⟨hok, hover, hended, hchoices⟩ := ended_of_advance hend h
  refine ⟨hok, hended, hchoices, fun w' actions answers u hrun => ?_⟩
  obtain ⟨hstays, hanswers, hplaces⟩ := performAll_of_over hover hrun
  refine ⟨Halted.hasMore_eq (.inr (.inl hstays.running)), hstays.transcript, hanswers,
    fun hleaves => ?_⟩
  obtain ⟨hcontainer, hsame⟩ := hplaces hleaves
  exact ⟨by rw [isEnded, hcontainer]; exact hended, hsame⟩

/-- A host with a source that says farewell in a conditional line of a nested choice. -/
def farewellHost : Host :=
  .ofSources (.ofList [("farewell", "== start\nHello.\n* [Go]\n  \x7b\n  - true:\n    Bye.<>\n" ++
    "    -> home\n  \x7d\n== home\nHome.\n")]) fun _ => ""

/-- A world with that host. -/
def farewellWorld : World := ⟨farewellHost, 4, 40⟩

/-- An interrupt leads the divert to the end, another one has a choice, and the choice of the source
is taken. -/
def farewellActions : List Action :=
  [.addInterrupt { id := "late", kind := .divert, text := "home -> END" },
    .addInterrupt { id := "extra", kind := .choice, text := "* [Wait] More." },
    .advance, .choose 1]

/-- The next unit of this story ends it, and offers the choice of the interrupt then. -/
theorem farewell_ends : ∃ s t u : Story,
    Reachable farewellHost "farewell" (fun _ => True) s ∧
    (∃ v ∈ visits farewellWorld s, v.destination = some none) ∧
    advance farewellWorld s = some (.ok "Bye.", t) ∧
    choose farewellWorld 0 t = some (.ok (), u) ∧ u.isEnded = false := by
  have hplayed : (played? farewellWorld "farewell" 0 farewellActions).any (fun s =>
      ((visits farewellWorld s).any (fun v => v.destination = some none)) = true ∧
      (advance farewellWorld s).any (fun r => r.1.toOption = some "Bye." ∧
        (choose farewellWorld 0 r.2).any (fun r => r.1.toOption = some () ∧
          r.2.isEnded = false) = true) = true) = true := by
    decide +kernel
  obtain ⟨s, hs, hplays⟩ := (Option.any_eq_true _ _).1 hplayed
  obtain ⟨hvisits, hadvance⟩ := of_decide_eq_true hplays
  obtain ⟨v, hv, hend⟩ := List.any_eq_true.1 hvisits
  obtain ⟨⟨r, t⟩, hrun, ht⟩ := (Option.any_eq_true _ _).1 hadvance
  obtain ⟨htext, hchoose⟩ := of_decide_eq_true ht
  obtain ⟨⟨r', u⟩, hchosen, hu⟩ := (Option.any_eq_true _ _).1 hchoose
  obtain ⟨hdone, hended⟩ := of_decide_eq_true hu
  cases r with
  | error e => cases htext
  | ok text =>
    cases htext
    cases r' with
    | error e => cases hdone
    | ok =>
      exact ⟨s, t, u, reachable_of_played? (fun _ _ => trivial) hs, ⟨v, hv, of_decide_eq_true hend⟩,
        hrun, hchosen, hended⟩

/-- A divert in a conditional line of a nested choice is led to the end by an interrupt. -/
theorem over_after_end_farewell : ∃ s t : Story,
    Reachable farewellHost "farewell" (fun _ => True) s ∧
    (∃ v ∈ visits farewellWorld s, v.destination = some none) ∧
    advance farewellWorld s = some (.ok "Bye.", t) ∧ t.isEnded = true ∧
    ∀ w' actions answers u, performAll w' actions t = some (answers, u) →
      u.hasMore = false ∧ u.transcript = t.transcript ∧ (∀ text, .text (.ok text) ∉ answers) := by
  obtain ⟨s, t, -, hs, hend, hrun, -⟩ := farewell_ends
  obtain ⟨-, hended, -, hlater⟩ := over_after_end hend hrun
  refine ⟨s, t, hs, hend, hrun, hended, fun w' actions answers u hactions => ?_⟩
  obtain ⟨hmore, htranscript, hanswers, -⟩ := hlater w' actions answers u hactions
  exact ⟨hmore, htranscript, hanswers⟩

/-- The end is not final for the place: taking the choice of an interrupt leaves it. -/
theorem end_not_final : ¬ ∀ (w : World) (main : String) (s t u : Story) (actions : List Action)
    (answers : List Answer) (r : Except StoryError String),
    Reachable w.host main (fun _ => True) s → (∃ v ∈ visits w s, v.destination = some none) →
    advance w s = some (r, t) → performAll w actions t = some (answers, u) →
    u.isEnded = true ∧ u.choices = [] := by
  intro hfinal
  obtain ⟨s, t, u, hs, hend, hrun, hchoose, hleft⟩ := farewell_ends
  have hactions : performAll farewellWorld [.choose 0] t = some ([.done (.ok ())], u) := by
    simp only [performAll, perform, Run.bind_apply]
    change ((choose farewellWorld 0 t).bind _).bind _ = _
    rw [hchoose]
    rfl
  have hended := (hfinal farewellWorld "farewell" s t u _ _ _ hs hend hrun hactions).1
  rw [hleft] at hended
  cases hended

end Narrative.Story
