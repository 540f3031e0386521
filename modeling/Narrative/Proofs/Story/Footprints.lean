import Narrative.Proofs.Story.Tours

/-!
# What a run leaves

A run of a story leaves two things that say where it has been: how often each container was visited,
and the background. Here they are read off the entrances of the run. Every entrance counts once but
the first one, into the section in which the story starts; and not every entrance shows the background
of the container.
-/

namespace Narrative

namespace Story

variable {w : World} {s t : Story}

/-! ## Actions -/

/-- An advance tours the containers it enters. -/
theorem tours_advance {r : Except StoryError String} (h : advance w s = some (r, t)) :
    s.Tours (s.actionEntrances w .advance) t := by
  rw [actionEntrances]
  obtain ⟨hmore, -, rfl⟩ | ⟨hmore, ⟨e, -, hunit⟩ | ⟨unit, u, v, hunit, hadd, -, rfl⟩⟩ :=
    advance_eq_some h
  · rw [if_neg (by rw [hmore]; exact Bool.false_ne_true)]
    exact .refl t
  · rw [if_pos hmore]
    exact tours_playUnit hunit
  · rw [if_pos hmore]
    have hv : u.Tours [] v := by
      obtain ⟨-, rfl⟩ | ⟨-, hadd⟩ := hadd
      · exact .refl _
      · exact touring_addInterruptChoices w _ _ _ _ hadd
    have hrecord : v.Tours [] (v.record (String.ofList (Text.cleanUp unit))) := by
      rw [record_eq]
      exact .of_memory_eq rfl rfl rfl
    exact (tours_playUnit hunit).trans_nil (hv.trans hrecord)

/-- Taking a choice tours the containers it enters. -/
theorem tours_choose {index : Nat} {r : Except StoryError Unit}
    (h : choose w index s = some (r, t)) : s.Tours (s.actionEntrances w (.choose index)) t := by
  rw [actionEntrances]
  obtain ⟨hnone, -, rfl⟩ | ⟨choice, hchoice, -, hsettle⟩ := choose_eq_some h
  · simp only [hnone]
    exact .refl t
  · simp only [hchoice]
    have htake : s.Tours [⟨.choice, choice⟩] (s.take choice) :=
      tours_of_hidden rfl rfl rfl (.refl _ _) rfl
    exact htake.trans (tours_settle hsettle)

/-- What a story is asked for enters what is listed, unless it adds an interrupt. -/
theorem tours_perform {action : Action} {answer : Answer} (hundisturbed : action.isUndisturbed = true)
    (h : perform w action s = some (answer, t)) : s.Tours (s.actionEntrances w action) t := by
  cases action with
  | advance =>
    obtain ⟨r, u, hadvance, hend⟩ := Run.bind_eq_some.1 h
    cases hend
    exact tours_advance hadvance
  | choose index =>
    obtain ⟨r, u, hchoose, hend⟩ := Run.bind_eq_some.1 h
    cases hend
    exact tours_choose hchoose
  | setVariable name value =>
    obtain ⟨_, u, hassign, hend⟩ := Run.bind_eq_some.1 h
    cases hassign
    cases hend
    exact .of_recounts rfl rfl
      (.of_visits_eq fun i => (Memory.mark_assign (s.stage w.host) s.memory name value i).1)
  | pendingChoices =>
    obtain ⟨texts, u, htexts, hend⟩ := Run.bind_eq_some.1 h
    cases hend
    exact touring_of_musing (musing_inquire w .pendingTexts) _ _ _ htexts
  | currentComment =>
    obtain ⟨comment, u, hcomment, hend⟩ := Run.bind_eq_some.1 h
    cases hend
    exact touring_get (fun s => touring_commentFrom w 0 s.comments) _ _ _ hcomment
  | addInterrupt i => cases hundisturbed

/-- A course of actions tours the containers it enters. -/
theorem tours_performAll {actions : List Action} {answers : List Answer}
    (hundisturbed : ∀ action ∈ actions, action.isUndisturbed = true)
    (h : performAll w actions s = some (answers, t)) : s.Tours (s.runEntrances w actions) t := by
  induction actions generalizing s answers with
  | nil =>
    cases h
    exact .refl _
  | cons action rest ih =>
    obtain ⟨answer, u, hfirst, hrest⟩ := Run.bind_eq_some.1 h
    obtain ⟨answers', v, hrest, hend⟩ := Run.bind_eq_some.1 hrest
    cases hend
    rw [runEntrances]
    simp only [hfirst]
    exact (tours_perform (hundisturbed action List.mem_cons_self) hfirst).trans
      (ih (fun a ha => hundisturbed a (List.mem_cons_of_mem _ ha)) hrest)

/-! ## Runs -/

variable {main : String} {seed : Nat} {actions : List Action}

/-- A run begins with the entrance into the section in which the story starts, and what it enters
after that leads from the start to where it ends. -/
theorem tours_of_played? (hundisturbed : ∀ action ∈ actions, action.isUndisturbed = true)
    (h : played? w main seed actions = some s) :
    ∃ start sources es, Sources.ofMain w.host main = .ok (start, sources) ∧
      entrances w main seed actions =
        ⟨.start, ({ sources, container := some start } : Story).descend start⟩ :: es ∧
      (atStart sources start seed).Tours es s := by
  obtain ⟨s₀, answers, hload, hrun⟩ := load_of_played? h
  obtain ⟨start, sources, hmain, hsettle⟩ := settle_of_load hload
  refine ⟨start, sources, _, hmain, ?_,
    (tours_settle hsettle).trans (tours_performAll hundisturbed hrun)⟩
  rw [entrances, hmain]
  simp only [hsettle]
  rfl

/-- At the start nothing has been visited. -/
theorem visits_atStart (sources : Sources) (start : NodeId) (seed : Nat) (i : NodeId) :
    ((atStart sources start seed).memory.mark i).visits = 0 := by
  simp [atStart, Memory.mark, Marks.get]

/-- Every container in which no call of a function plays counts how often play has entered it, where
the entrance into the section in which the story starts is left out. Functions and the blocks in their
bodies count the visits in calls besides. The counters are words of 32 bits, and start again behind
their last value. -/
theorem count_eq_entrances (hundisturbed : ∀ action ∈ actions, action.isUndisturbed = true)
    (h : played? w main seed actions = some s) :
    ∃ first es log, entrances w main seed actions = ⟨.start, first⟩ :: es ∧
      Event.Genuine s.content log ∧ ∀ i, (s.node i).isContainer = true →
        (s.memory.mark i).count =
          (es.countP (·.enters i) + log.countP (·.visits i)) % Mark.counterRange ∧
        (¬ s.content.Called i →
          (s.memory.mark i).count = es.countP (·.enters i) % Mark.counterRange) := by
  obtain ⟨start, sources, es, -, hentrances, htours⟩ := tours_of_played? hundisturbed h
  obtain ⟨log, hlog, hcount⟩ := htours.counts
  have hnode (i : NodeId) : s.node i = (atStart sources start seed).node i := by
    rw [node, htours.content_eq, ← node]
  rw [← htours.content_eq] at hlog
  refine ⟨_, es, log, hentrances, hlog, fun i hi => ?_⟩
  have hi' : ((atStart sources start seed).node i).isContainer = true := hnode i ▸ hi
  have hcount' := hcount i hi'
  rw [visits_atStart, Nat.zero_add] at hcount'
  refine ⟨by rw [Mark.count, hcount'], fun hcalled => ?_⟩
  rw [Mark.count, hcount', hlog.countP_eq_zero hi hcalled, Nat.add_zero]

/-- The background is the one that was declared last among the entrances where it is shown, or else
that of the knot with which the story starts. -/
theorem background_eq_shown (hundisturbed : ∀ action ∈ actions, action.isUndisturbed = true)
    (h : played? w main seed actions = some s) :
    ∃ start sources, Sources.ofMain w.host main = .ok (start, sources) ∧
      s.background = (sources.content.shown? (entrances w main seed actions)).or
        (sources.content.node start).background := by
  obtain ⟨start, sources, es, hmain, hentrances, htours⟩ := tours_of_played? hundisturbed h
  refine ⟨start, sources, hmain, ?_⟩
  have hhidden (e : Entrance) (he : e.manner = .start) :
      sources.content.shown? (e :: es) = sources.content.shown? es := by
    rw [Content.shown?, List.filterMap_cons, he]
    rfl
  rw [hentrances, hhidden _ rfl]
  exact htours.background_eq

/-! ## A walk -/

/-- A world with a source in which every container declares a background: two knots, a choice and a
gather. -/
def strollWorld : World :=
  ⟨.ofSources (.ofList [("walk", "== gate // @img(gate)\nA gate.\n* [Walk] // @img(wood)\n  A wood.\n" ++
    "- A green. // @img(green)\n-> hall\n== hall // @img(hall)\nA hall.\n")]) fun _ => "", 4, 40⟩

/-- The player takes the choice. -/
def walkActions : List Action := [.advance, .choose 0]

/-- The player plays on from there. -/
def strollActions : List Action := walkActions ++ .replicate 3 .advance

/-- On the walk to the hall three containers are entered after the start. -/
theorem count_eq_entrances_walk : ∃ (s : Story) (first : NodeId) (es : List Entrance),
    played? strollWorld "walk" 0 strollActions = some s ∧
    entrances strollWorld "walk" 0 strollActions = ⟨.start, first⟩ :: es ∧
    es.map (·.manner) = [.choice, .convergence, .divert] ∧
    ∀ i, (s.node i).isContainer = true → ¬ s.content.Called i →
      (s.memory.mark i).count = es.countP (·.enters i) % Mark.counterRange := by
  have hplayed : (played? strollWorld "walk" 0 strollActions).any (fun _ =>
      (entrances strollWorld "walk" 0 strollActions).map (·.manner) =
        [.start, .choice, .convergence, .divert]) = true := by
    decide +kernel
  obtain ⟨s, hs, hplayed⟩ := (Option.any_eq_true _ _).1 hplayed
  have hmanners := of_decide_eq_true hplayed
  obtain ⟨first, es, log, hentrances, -, hcount⟩ := count_eq_entrances (by decide) hs
  rw [hentrances, List.map_cons, List.cons.injEq] at hmanners
  exact ⟨s, first, es, hs, hentrances, hmanners.2, fun i hi => (hcount i hi).2⟩

/-- The entrance into the knot in which the story starts does not count. -/
theorem start_not_counted : ∃ (s : Story) (i : NodeId),
    played? strollWorld "walk" 0 [] = some s ∧ s.content.find? "gate" = some i ∧
    (s.node i).isKnot = true ∧ (entrances strollWorld "walk" 0 []).countP (·.enters i) = 1 ∧
    (s.memory.mark i).count = 0 := by
  have hplayed : (played? strollWorld "walk" 0 []).any (fun s =>
      (s.content.find? "gate").any fun i => (s.node i).isKnot = true ∧
        (entrances strollWorld "walk" 0 []).countP (·.enters i) = 1 ∧
        (s.memory.mark i).count = 0) = true := by
    decide +kernel
  obtain ⟨s, hs, hplayed⟩ := (Option.any_eq_true _ _).1 hplayed
  obtain ⟨i, hi, hplayed⟩ := (Option.any_eq_true _ _).1 hplayed
  exact ⟨s, i, hs, hi, of_decide_eq_true hplayed⟩

/-- On the walk to the hall the background is that of the last container that was entered other than
by choice. -/
theorem background_eq_shown_walk : ∃ (s : Story) (start : NodeId) (sources : Sources),
    played? strollWorld "walk" 0 strollActions = some s ∧ s.background = some "hall" ∧
    Sources.ofMain strollWorld.host "walk" = .ok (start, sources) ∧
    s.background = (sources.content.shown? (entrances strollWorld "walk" 0 strollActions)).or
      (sources.content.node start).background := by
  have hplayed : (played? strollWorld "walk" 0 strollActions).any
      (fun s => s.background = some "hall") = true := by
    decide +kernel
  obtain ⟨s, hs, hplayed⟩ := (Option.any_eq_true _ _).1 hplayed
  obtain ⟨start, sources, hmain, hshown⟩ := background_eq_shown (by decide) hs
  exact ⟨s, start, sources, hs, of_decide_eq_true hplayed, hmain, hshown⟩

/-- The background of a choice is not shown when the player takes it. -/
theorem choice_not_shown : ∃ s : Story, played? strollWorld "walk" 0 walkActions = some s ∧
    ((entrances strollWorld "walk" 0 walkActions).filterMap
      fun e => (s.node e.node).background).getLast? = some "wood" ∧
    s.background = some "gate" := by
  have hplayed : (played? strollWorld "walk" 0 walkActions).any (fun s =>
      ((entrances strollWorld "walk" 0 walkActions).filterMap
        fun e => (s.node e.node).background).getLast? = some "wood" ∧
      s.background = some "gate") = true := by
    decide +kernel
  obtain ⟨s, hs, hplayed⟩ := (Option.any_eq_true _ _).1 hplayed
  exact ⟨s, hs, of_decide_eq_true hplayed⟩

end Story

end Narrative
