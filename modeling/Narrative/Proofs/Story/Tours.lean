import Narrative.Proofs.Story.Entrances
import Narrative.Proofs.Story.Inquiry

/-!
# What the entrances of play leave

Every container counts its visits, and the background is that of a container. Whatever is played, the
counts grow by the entrances of play and by what is visited in calls of functions, and the background
is the last one that was declared where it is shown on entering.
-/

namespace Narrative

/-- Whether the background of a container is shown when play comes into it in this manner: where a
divert leads, in passing and by convergence, but neither at the start nor when the player takes a
choice nor when a fallback choice is played. -/
def Manner.shows : Manner → Bool
  | divert | passage | convergence => true
  | start | choice | fallback => false

/-- The background that was declared last among the entrances where it is shown. -/
def Content.shown? (c : Content) (es : List Entrance) : Option String :=
  (es.filterMap fun e => if e.manner.shows then (c.node e.node).background else none).getLast?

/-- The entrance into a container. -/
def Entrance.enters (i : NodeId) (e : Entrance) : Bool :=
  e.node == i

/-- The background after more entrances is the one they show, or else the one before. -/
theorem Content.shown?_append (c : Content) (es es' : List Entrance) :
    c.shown? (es ++ es') = (c.shown? es').or (c.shown? es) := by
  rw [shown?, List.filterMap_append, List.getLast?_append, shown?, shown?]

/-- An entrance shows the background of its container where its manner does. -/
theorem Content.shown?_singleton (c : Content) (e : Entrance) :
    c.shown? [e] = if e.manner.shows then (c.node e.node).background else none := by
  rw [shown?, List.filterMap_cons, List.filterMap_nil]
  split
  · next h => rw [h, List.getLast?_nil]
  · next h => rw [h, List.getLast?_singleton]

/-! ## Memory -/

namespace Memory

/-- Memories that differ in their counts by what is visited while expressions are evaluated. -/
def Recounts (c : Content) (m m' : Memory) : Prop :=
  ∃ log, Event.Genuine c log ∧
    ∀ i, (m'.mark i).visits = (m.mark i).visits + log.countP (·.visits i)

/-- Memories with the same counts recount the visits. -/
theorem Recounts.of_visits_eq {c : Content} {m m' : Memory}
    (h : ∀ i, (m'.mark i).visits = (m.mark i).visits) : Recounts c m m' :=
  ⟨[], .nil c, h⟩

/-- A memory recounts its own visits. -/
theorem Recounts.refl (c : Content) (m : Memory) : Recounts c m m :=
  .of_visits_eq fun _ => rfl

/-- What recounts the visits twice recounts them. -/
theorem Recounts.trans {c : Content} {m m' m'' : Memory} (h : Recounts c m m')
    (h' : Recounts c m' m'') : Recounts c m m'' := by
  obtain ⟨log, hlog, hcount⟩ := h
  obtain ⟨more, hmore, hcount'⟩ := h'
  refine ⟨log ++ more, hlog.append hmore, fun i => ?_⟩
  rw [hcount', hcount, List.countP_append, Nat.add_assoc]

/-- The computations that recount the visits. -/
def recounting (c : Content) : Discipline Memory :=
  .along (Recounts c) (Recounts.refl c) fun _ _ _ => Recounts.trans

/-- What events make of the memory recounts the visits. -/
theorem recounting_of_unfolding {host : Host} {c : Content} {α : Type} {x : Run Memory α}
    (h : (unfolding host c none).Allows x) : (recounting c).Allows x := by
  intro m a m' hrun
  obtain ⟨log, hlog⟩ := h m a m' hrun
  exact ⟨log, hlog.genuine, hlog.visits_eq⟩

/-- Expressions recount the visits. -/
theorem recounting_context (s : Stage) (depth : Nat) :
    (s.context depth).Obeys (recounting s.content) where
  names := recounting_of_unfolding (unfolding_context s depth none).names
  value name := recounting_of_unfolding ((unfolding_context s depth none).value name)
  call name args := recounting_of_unfolding ((unfolding_context s depth none).call name args)
  draw bound := recounting_of_unfolding ((unfolding_context s depth none).draw bound)

/-- Statements recount the visits. -/
theorem recounting_executes (s : Stage) : (recounting s.content).Executes s where
  names := Discipline.along_reads _
  value _ := Discipline.along_reads _
  address _ := Discipline.along_reads _
  draw := (recounting_context s 0).draw
  assign name v := Discipline.along_modify fun m =>
    .of_visits_eq fun i => (mark_assign s m name v i).1

/-- Choosing the option of a block recounts the visits. -/
theorem recounting_selectOption {s : Stage} {ctx : Context Memory}
    (hctx : ctx.Obeys (recounting s.content)) (i : NodeId) :
    (recounting s.content).Allows (s.selectOption ctx i) := by
  unfold Stage.selectOption
  split
  · next mode options hkind =>
    have hisBlock : (s.content.node i).isBlock = true := by rw [Node.isBlock, hkind]
    refine Discipline.consult (g := fun m : Memory => (m.mark i).count)
      (Discipline.along_reads fun m : Memory => (m.mark i).count)
      (fun m m' e => by simp only [e]) fun m => ?_
    exact (recounting s.content).bind (hctx.chooseOption mode options _) fun selection =>
      Discipline.along_modify fun m =>
        .of_visits_eq ((Readies.option selection hisBlock : Readies s.content i m _).visits_eq)
  · exact (recounting s.content).pure _

end Memory

namespace Story

/-! ## Tours -/

/-- What is left of a story after play has entered some containers. -/
structure Tours (s : Story) (es : List Entrance) (t : Story) : Prop where
  /-- The nodes stay. -/
  content_eq : t.content = s.content
  /-- The background is the last one that was declared where it is shown. -/
  background_eq : t.background = (s.content.shown? es).or s.background
  /-- Containers count their entrances, and what is visited in calls of functions. -/
  counts : ∃ log, Event.Genuine s.content log ∧ ∀ i, (s.node i).isContainer = true →
    (t.memory.mark i).visits =
      (s.memory.mark i).visits + es.countP (·.enters i) + log.countP (·.visits i)

/-- Tours follow each other. -/
theorem Tours.trans {s t u : Story} {es es' : List Entrance} (h : s.Tours es t)
    (h' : t.Tours es' u) : s.Tours (es ++ es') u where
  content_eq := h'.content_eq.trans h.content_eq
  background_eq := by
    rw [h'.background_eq, h.background_eq, h.content_eq, Content.shown?_append, Option.or_assoc]
  counts := by
    obtain ⟨log, hlog, hcount⟩ := h.counts
    obtain ⟨more, hmore, hcount'⟩ := h'.counts
    rw [h.content_eq] at hmore
    refine ⟨log ++ more, hlog.append hmore, fun i hi => ?_⟩
    have hi' : (t.node i).isContainer = true := by rwa [node, h.content_eq]
    rw [hcount' i hi', hcount i hi, List.countP_append, List.countP_append]
    omega

/-- A tour stays the same when nothing is entered after it. -/
theorem Tours.trans_nil {s t u : Story} {es : List Entrance} (h : s.Tours es t)
    (h' : t.Tours [] u) : s.Tours es u :=
  List.append_nil es ▸ h.trans h'

/-- A story that enters nothing and recounts the visits. -/
theorem Tours.of_recounts {s t : Story} (hcontent : t.content = s.content)
    (hbackground : t.background = s.background)
    (hmemory : Memory.Recounts s.content s.memory t.memory) : s.Tours [] t where
  content_eq := hcontent
  background_eq := hbackground
  counts := by
    obtain ⟨log, hlog, hcount⟩ := hmemory
    exact ⟨log, hlog, fun i _ => hcount i⟩

/-- A story that enters nothing and leaves the memory. -/
theorem Tours.of_memory_eq {s t : Story} (hcontent : t.content = s.content)
    (hbackground : t.background = s.background) (hmemory : t.memory = s.memory) :
    s.Tours [] t :=
  .of_recounts hcontent hbackground (hmemory ▸ .refl _ _)

/-- A story that stays as it is has entered nothing. -/
theorem Tours.refl (s : Story) : s.Tours [] s :=
  .of_memory_eq rfl rfl rfl

/-- The computations that enter nothing. -/
def touring : Discipline Story :=
  .along (fun s t => s.Tours [] t) Tours.refl fun _ _ _ h h' => h.trans h'

section Quiet

variable {α : Type} {w : World}

/-- Reading the story enters nothing. -/
theorem touring_get {k : Story → Run Story α} (hk : ∀ s, touring.Allows (k s)) :
    touring.Allows (do k (← get)) :=
  Discipline.consult (g := id) (Discipline.along_reads id) (fun _ _ h => congrArg k h) hk

/-- What leaves the content, the background and the memory enters nothing. -/
theorem touring_modify {f : Story → Story}
    (h : ∀ s, (f s).content = s.content ∧ (f s).background = s.background ∧
      (f s).memory = s.memory) : touring.Allows (modify f) :=
  Discipline.along_modify fun s => .of_memory_eq (h s).1 (h s).2.1 (h s).2.2

/-- Musing enters nothing. -/
theorem touring_of_musing {x : Run Story α} (h : (musing w).Allows x) : touring.Allows x := by
  intro s a t hrun
  obtain ⟨log, m, hlog, rfl⟩ := h s a t hrun
  exact .of_recounts rfl rfl ⟨log, hlog.genuine, hlog.visits_eq⟩

/-- Thoughts that recount the visits enter nothing. -/
theorem touring_think {f : Stage → Context Memory → Run Memory α}
    (hf : ∀ (s : Story) (ctx : Context Memory), ctx.Obeys (Memory.recounting s.content) →
      (Memory.recounting s.content).Allows (f (s.stage w.host) ctx)) :
    touring.Allows (think w f) := by
  intro s a t h
  obtain ⟨m, hrun, rfl⟩ := think_eq_some h
  exact .of_recounts rfl rfl
    (hf s _ (Memory.recounting_context (s.stage w.host) w.depth) _ _ _ hrun)

/-- Executing a statement enters nothing. -/
theorem touring_execute (line : Nat) (t : Statement) :
    touring.AllowsAttempt (act w fun stage ctx => stage.execute ctx line t) :=
  touring_think (f := fun stage ctx => (stage.execute ctx line t).run) fun s _ hctx =>
    (Memory.recounting_executes (s.stage w.host)).execute hctx line t

/-- Finding out whether a condition holds enters nothing. -/
theorem touring_holds (w : World) (source : String) : touring.Allows (holds w source) :=
  touring_of_musing (w := w) (musing_think fun _ _ hctx => hctx.holds _)

/-- Evaluating an expression enters nothing. -/
theorem touring_evaluate (w : World) (source : String) : touring.Allows (evaluate w source) :=
  touring_of_musing (w := w) (musing_inquire w (.value source))

/-- Finding out whether an interrupt fires enters nothing. -/
theorem touring_fires (w : World) (i : Interrupt) (occasion : Bool) :
    touring.Allows (fires w i occasion) := by
  unfold fires
  split
  · exact touring.pure _
  · split
    · exact touring.pure _
    · exact touring_holds w _

/-- An interrupt that fires enters nothing. -/
theorem touring_fire (position : Nat) (i : Interrupt) :
    touring.Allows (modify (·.fire position i)) :=
  Discipline.along_modify fun _ => .of_recounts rfl rfl (.of_visits_eq fun _ => rfl)

/-- Looking for an interrupt that redirects a divert enters nothing. -/
theorem touring_redirectBy (w : World) (target : List Char) (position : Nat)
    (interrupts : List Interrupt) : touring.Allows (redirectBy w target position interrupts) := by
  induction interrupts generalizing position with
  | nil => exact touring.pure _
  | cons i rest ih =>
    unfold redirectBy
    split
    · refine touring.bind (touring_fires w i _) fun fired => ?_
      cases fired with
      | true => exact Discipline.returning (touring_fire position i) _
      | false => exact ih _
    · exact ih _

/-- Evaluating the arguments of a divert enters nothing. -/
theorem touring_evaluateArguments (w : World) (line : Nat) (args : List (List Char)) :
    touring.AllowsAttempt (evaluateArguments w line args) := by
  induction args with
  | nil => exact Discipline.attempt_pure _
  | cons arg rest ih =>
    refine Discipline.attempt_bind (Discipline.attempt_lift (touring_evaluate w _)) fun r => ?_
    cases r with
    | ok v => exact Discipline.attempt_bind ih fun _ => Discipline.attempt_pure _
    | error e => exact Discipline.attempt_throw _

/-- Finding out where a divert leads enters nothing. -/
theorem touring_takeDivert (w : World) (n : Node) : touring.AllowsAttempt (takeDivert w n) := by
  unfold takeDivert
  simp only
  split
  · exact Discipline.attempt_pure _
  · refine touring_get fun s => Discipline.attempt_bind
      (Discipline.attempt_lift (touring_redirectBy w _ 0 s.interrupts)) fun name => ?_
    split
    · exact Discipline.attempt_pure _
    · refine touring_get fun t => ?_
      split
      · exact Discipline.attempt_throw _
      · exact Discipline.attempt_bind (touring_evaluateArguments w _ _) fun _ =>
          Discipline.attempt_pure _

/-- Offering the choices of interrupts enters nothing. -/
theorem touring_addInterruptChoice (w : World) (i : Interrupt) :
    touring.Allows (addInterruptChoice w i) := by
  refine touring.bind (touring_fires w i _) fun fired => ?_
  split
  · refine touring_get fun s => ?_
    split
    · exact touring.pure _
    · split
      · exact touring.pure _
      · refine touring.bind (touring_of_musing (musing_isAvailable w _)) fun available => ?_
        split
        · exact touring_modify fun _ => ⟨rfl, rfl, rfl⟩
        · exact touring.pure _
  · exact touring.pure _

/-- Offering the choices of interrupts enters nothing. -/
theorem touring_addInterruptChoices (w : World) (interrupts : List Interrupt) :
    touring.Allows (addInterruptChoices w interrupts) := by
  induction interrupts with
  | nil => exact touring.pure _
  | cons i rest ih => exact touring.bind (touring_addInterruptChoice w i) fun _ => ih

/-- Looking for a comment to show enters nothing. -/
theorem touring_commentFrom (w : World) (position : Nat) (is : List NodeId) :
    touring.Allows (commentFrom w position is) := by
  induction is generalizing position with
  | nil => exact touring.pure _
  | cons i rest ih =>
    refine touring_get fun s => ?_
    split
    · refine touring.bind (touring_of_musing (w := w)
        (musing_think fun _ _ hctx => hctx.allHold _)) fun shown => ?_
      have hshown := touring_of_musing (musing_shownText w i)
      split
      · split
        · exact touring.bind (touring_modify fun _ => ⟨rfl, rfl, rfl⟩) fun _ =>
            Discipline.returning hshown _
        · exact Discipline.returning hshown _
      · exact ih _
    · exact ih _

end Quiet

/-! ## Entering -/

section Entering

variable {w : World} {s t : Story} {i : NodeId} {a : Unit}

/-- A visit of a container is one entrance. -/
theorem tours_of_visit {e : Entrance} {m : Memory} (hcontent : t.content = s.content)
    (hbackground : t.background = (s.content.shown? [e]).or s.background)
    (hm : Memory.Recounts s.content s.memory m) (hmemory : t.memory = m.visit e.node) :
    s.Tours [e] t where
  content_eq := hcontent
  background_eq := hbackground
  counts := by
    obtain ⟨log, hlog, hcount⟩ := hm
    refine ⟨log, hlog, fun i _ => ?_⟩
    rw [hmemory, mark_visit_eq _ s.content, Event.visits_remark, hcount, List.countP_singleton]
    rw [Event.visits, Entrance.enters]
    omega

/-- An entrance that does not show the background leaves it. -/
theorem tours_of_hidden {e : Entrance} (hhidden : e.manner.shows = false) {m : Memory}
    (hcontent : t.content = s.content) (hbackground : t.background = s.background)
    (hm : Memory.Recounts s.content s.memory m) (hmemory : t.memory = m.visit e.node) :
    s.Tours [e] t := by
  refine tours_of_visit hcontent ?_ hm hmemory
  rw [Content.shown?_singleton, hhidden, hbackground]
  rfl

/-- Moving into a container is an entrance that shows its background. -/
theorem tours_moveInto {manner : Manner} (hshows : manner.shows = true) {m : Memory}
    (hm : Memory.Recounts s.content s.memory m) :
    s.Tours [⟨manner, i⟩] ({ s with memory := m }.moveInto i) := by
  refine tours_of_visit rfl ?_ hm rfl
  rw [Content.shown?_singleton, if_pos hshows]
  exact Option.orElse_eq_or ..

/-- Entering a container is a tour of that container, where the entrance shows its background. -/
theorem tours_enter {manner : Manner} (hshows : manner.shows = true)
    (h : enter w i s = some (a, t)) : s.Tours [⟨manner, i⟩] t := by
  obtain ⟨_, u, hselect, hmove⟩ := Run.bind_eq_some.1 h
  cases hmove
  have hquiet : touring.Allows (think w fun stage ctx => stage.selectOption ctx i) :=
    touring_think fun _ _ hctx => Memory.recounting_selectOption hctx i
  exact (hquiet s _ u hselect).trans (tours_moveInto hshows (.refl _ u.memory))

/-- A divert that reaches its target enters it, and one that fails enters nothing. -/
theorem tours_enterWith {args : List Value} {r : Except StoryError Unit}
    (h : enterWith w i args s = some (r, t)) :
    r = .ok () ∧ s.Tours [⟨.divert, i⟩] t ∨ (∃ e, r = .error e) ∧ s.Tours [] t := by
  have hplain {u : Story} (hu : s.Tours [] u)
      (h : (ExceptT.lift (enter w i) : Play Unit) u = some (r, t)) :
      r = .ok () ∧ s.Tours [⟨.divert, i⟩] t := by
    rw [Attempt.lift_apply] at h
    obtain ⟨⟨a, v⟩, henter, heq⟩ := Option.map_eq_some_iff.1 h
    cases heq
    exact ⟨rfl, hu.trans (tours_enter rfl henter)⟩
  rw [enterWith, Attempt.get_bind_apply] at h
  simp only at h
  split at h
  · next hsection =>
    split at h
    · next hlength =>
      split at h
      · exact .inl (hplain (.refl s) h)
      · have hbind : Memory.Readies s.content i s.memory
            (s.memory.bind i (s.node i).params args) := .params hsection hlength
        have hbound : s.Tours []
            { s with memory := s.memory.bind i (s.node i).params args } :=
          .of_recounts rfl rfl (.of_visits_eq hbind.visits_eq)
        exact .inl (hplain hbound h)
    · cases h
      exact .inr ⟨⟨_, rfl⟩, .refl s⟩
  · exact .inl (hplain (.refl s) h)

/-! ## Coming to rest -/

/-- At the end of a container play enters at most what it converges to. -/
theorem tours_settleExhausted {c : NodeId} {again : Bool}
    (h : settleExhausted w c s = some (again, t)) : s.Tours (s.exhaustedEntrance? c).toList t := by
  rw [settleExhausted, Run.get_bind_apply] at h
  rw [exhaustedEntrance?]
  split at h
  · next hblock =>
    obtain ⟨_, u, hleave, hend⟩ := Run.bind_eq_some.1 h
    cases hleave
    cases hend
    rw [if_pos (by rw [hblock, Bool.true_or])]
    change s.Tours [] (s.leaveBlock c)
    unfold leaveBlock
    split <;> exact .of_memory_eq rfl rfl rfl
  · next hblock =>
    split at h
    · next hpending =>
      cases h
      rw [if_pos (by rw [hpending, Bool.or_true])]
      exact .refl s
    · next hpending =>
      rw [if_neg (by simp [hblock, hpending])]
      generalize (if (s.node c).isChoice || (s.node c).isGather then s.landing? c else none) =
        landing at h ⊢
      cases landing with
      | none =>
        obtain ⟨_, u, hmove, hend⟩ := Run.bind_eq_some.1 h
        cases hmove
        cases hend
        exact .of_memory_eq rfl rfl rfl
      | some landing =>
        cases landing with
        | gather i =>
          obtain ⟨_, u, henter, hend⟩ := Run.bind_eq_some.1 h
          cases hend
          exact tours_enter rfl henter
        | choice parent position =>
          obtain ⟨_, u, hmove, hend⟩ := Run.bind_eq_some.1 h
          cases hmove
          cases hend
          exact .of_memory_eq rfl rfl rfl

/-- What is found available is offered. -/
theorem isOffered_eq {available : Bool} (h : isAvailable w i s = some (available, t)) :
    s.isOffered w i = available := by
  rw [isOffered, h]
  rfl

/-- Settling at a node enters at most that node, in passing. -/
theorem tours_settleAt {again : Bool} (h : settleAt w i s = some (again, t)) :
    s.Tours (s.passageEntrance? w i).toList t := by
  rw [settleAt, Run.get_bind_apply] at h
  rw [passageEntrance?]
  split at h
  · next hfallback =>
    rw [if_pos hfallback]
    obtain ⟨available, u, havailable, hrest⟩ := Run.bind_eq_some.1 h
    have hu : s.Tours [] u := touring_of_musing (musing_isAvailable w i) _ _ _ havailable
    rw [isOffered_eq havailable]
    cases available with
    | true =>
      obtain ⟨_, v, henter, hend⟩ := Run.bind_eq_some.1 hrest
      cases hend
      exact hu.trans (tours_enter rfl henter)
    | false =>
      cases hrest
      exact hu.trans (.of_memory_eq rfl rfl rfl)
  · next hplain =>
    rw [if_neg hplain]
    split at h
    · next hblock =>
      obtain ⟨_, v, henter, hend⟩ := Run.bind_eq_some.1 h
      cases hend
      rw [if_pos (by rw [hblock, Bool.true_or])]
      exact tours_enter rfl henter
    · next hblock =>
      split at h
      · next hgather =>
        split at h
        · next hnone =>
          obtain ⟨_, v, henter, hend⟩ := Run.bind_eq_some.1 h
          cases hend
          rw [if_pos (by simp [hgather, hnone])]
          exact tours_enter rfl henter
        · next hpending =>
          obtain ⟨_, v, hwait, hend⟩ := Run.bind_eq_some.1 h
          cases hwait
          cases hend
          rw [if_neg (by simp [hblock, hpending])]
          exact .of_memory_eq rfl rfl rfl
      · next hgather =>
        cases h
        rw [if_neg (by simp [hblock, hgather])]
        exact .refl s

/-- One move of settling makes at most one entrance. -/
theorem tours_settleOnce {again : Bool} (h : settleOnce w s = some (again, t)) :
    s.Tours (s.settlingEntrance? w).toList t := by
  rw [settleOnce, Run.get_bind_apply] at h
  rw [settlingEntrance?]
  cases hc : s.container with
  | none =>
    simp only [hc] at h ⊢
    cases h
    exact .refl s
  | some c =>
    cases hi : s.cursor? with
    | none =>
      simp only [hc, hi] at h ⊢
      exact tours_settleExhausted h
    | some i =>
      simp only [hc, hi] at h ⊢
      exact tours_settleAt h

/-- Settling tours the containers it enters. -/
theorem tours_settleWithin {moves : Nat} (h : settleWithin w moves s = some (a, t)) :
    s.Tours (settlingEntrances w moves s) t := by
  induction moves generalizing s with
  | zero => cases h
  | succ moves ih =>
    obtain ⟨again, u, hfirst, hrest⟩ := Run.bind_eq_some.1 h
    have hu := tours_settleOnce hfirst
    rw [settlingEntrances]
    simp only [hfirst]
    cases again with
    | true => exact hu.trans (ih hrest)
    | false =>
      cases hrest
      exact hu.trans (.refl _)

/-- The cursor comes to rest by way of the entrances that are listed. -/
theorem tours_settle (h : settle w s = some (a, t)) : s.Tours (s.restEntrances w) t :=
  tours_settleWithin h

/-! ## Playing -/

/-- Playing a choice enters it if it is a fallback choice that is available where none is pending. -/
theorem tours_addChoice (h : addChoice w i s = some (a, t)) :
    s.Tours (s.fallbackEntrances w i) t := by
  obtain ⟨available, u, havailable, hrest⟩ := Run.bind_eq_some.1 h
  obtain ⟨log, m, hlog, rfl⟩ := musing_isAvailable w i _ _ _ havailable
  have hm : Memory.Recounts s.content s.memory m := ⟨log, hlog.genuine, hlog.visits_eq⟩
  rw [fallbackEntrances, isOffered_eq havailable]
  cases available with
  | false =>
    cases hrest
    rw [if_neg (by simp)]
    exact .of_recounts rfl rfl hm
  | true =>
    cases hrest
    by_cases hfallback : (s.node i).isFallback = true
    · have hfallback' : (node { s with memory := m } i).isFallback = true := hfallback
      by_cases hnone : s.choices.isEmpty = true
      · rw [if_pos (by simp [hfallback, hnone])]
        simp only [hfallback', hnone, if_true]
        exact tours_of_hidden rfl rfl rfl hm rfl
      · rw [if_neg (by simp [hnone])]
        simp only [hfallback', hnone, if_true]
        exact .of_recounts rfl rfl hm
    · have hfallback' : ¬ (node { s with memory := m } i).isFallback = true := hfallback
      rw [if_neg (by simp [hfallback])]
      simp only [hfallback']
      exact .of_recounts rfl rfl hm

/-- What is no choice is not entered as a fallback. -/
theorem fallbackEntrances_of_not_isChoice (hi : (s.node i).isChoice = false) :
    s.fallbackEntrances w i = [] := by
  rw [fallbackEntrances, Node.isFallback, hi]
  rfl

/-- Playing a text visits no container. -/
theorem tours_utter {i : NodeId} (hi : (s.node i).kind = .text) :
    s.Tours [] { s with memory := s.memory.visit i } where
  content_eq := rfl
  background_eq := rfl
  counts := by
    refine ⟨[], .nil _, fun j hj => ?_⟩
    have hne : i ≠ j := by
      rintro rfl
      rw [Node.isContainer, hi] at hj
      cases hj
    exact congrArg Mark.visits ((Memory.mark_visit ..).trans (if_neg hne))

/-- Playing a node enters nothing but a fallback choice. -/
theorem tours_resolve {r : Except StoryError (List Char)} (h : resolve w i s = some (r, t)) :
    s.Tours (s.fallbackEntrances w i) t := by
  by_cases hchoice : (s.node i).isChoice = true
  · rw [resolve_of_isChoice hchoice] at h
    obtain ⟨⟨_, u⟩, hadd, heq⟩ := Option.map_eq_some_iff.1 h
    cases heq
    exact tours_addChoice hadd
  · rw [fallbackEntrances_of_not_isChoice (Bool.eq_false_iff.2 hchoice)]
    rw [resolve, Attempt.get_bind_apply] at h
    cases hkind : (s.node i).kind with
    | text =>
      simp only [hkind] at h
      split at h
      · cases h
        exact .refl s
      · rw [Attempt.bind_apply, Attempt.lift_apply, Option.bind_map, Option.bind_eq_some_iff] at h
        obtain ⟨⟨text, u⟩, hexpand, hend⟩ := h
        cases hend
        obtain ⟨log, m, hlog, rfl⟩ := musing_think (w := w)
          (fun _ _ hctx => hctx.expand _ _) _ _ _ hexpand
        have hm : s.Tours [] { s with memory := m } :=
          .of_recounts rfl rfl ⟨log, hlog.genuine, hlog.visits_eq⟩
        exact hm.trans (tours_utter hkind)
    | choice => rw [Node.isChoice, hkind] at hchoice; cases hchoice rfl
    | comment =>
      simp only [hkind] at h
      cases h
      change s.Tours [] (s.addComment i)
      unfold addComment
      split
      · exact .refl s
      · exact .of_memory_eq rfl rfl rfl
    | statement t =>
      simp only [hkind] at h
      have hquiet := Discipline.attempt_bind (touring_execute (w := w) (s.node i).line t)
        fun _ => Discipline.attempt_pure ([] : List Char)
      exact hquiet s _ _ h
    | _ =>
      simp only [hkind] at h
      cases h
      exact .refl s

/-- A step enters what is listed, also where it fails. -/
theorem tours_step {r : Except StoryError Unit} (h : step w i s = some (r, t)) :
    s.Tours (s.stepEntrances w i) t := by
  rw [stepEntrances]
  by_cases hdivert : (s.node i).isDivert = true
  · rw [if_pos hdivert]
    rw [step, Attempt.get_bind_apply] at h
    simp only [hdivert, if_true] at h
    rw [Attempt.bind_apply, Option.bind_eq_some_iff] at h
    obtain ⟨⟨taken, u⟩, htake, h⟩ := h
    have hu : s.Tours [] u := touring_takeDivert w _ s _ _ htake
    simp only [htake]
    cases taken with
    | error e =>
      cases h
      exact hu
    | ok target =>
      cases target with
      | none =>
        cases h
        exact hu.trans (.of_memory_eq rfl rfl rfl)
      | some found =>
        obtain ⟨target, args⟩ := found
        simp only at h
        rw [Attempt.bind_apply, Option.bind_eq_some_iff] at h
        obtain ⟨⟨entered, v⟩, henter, h⟩ := h
        obtain ⟨rfl, hv⟩ | ⟨⟨e, rfl⟩, hv⟩ := tours_enterWith henter
        · simp only at h
          rw [Attempt.modify_bind_apply] at h
          change (ExceptT.lift (settle w) : Play Unit) _ = _ at h
          rw [Attempt.lift_apply] at h
          obtain ⟨⟨_, v'⟩, hsettle, heq⟩ := Option.map_eq_some_iff.1 h
          cases heq
          simp only [henter]
          have hclear : v.Tours [] { v with choices := [] } := .of_memory_eq rfl rfl rfl
          exact (hu.trans hv).trans (hclear.trans (tours_settle hsettle))
        · cases h
          simp only [henter]
          exact hu.trans hv
  · rw [if_neg hdivert]
    rw [step_of_not_isDivert (Bool.eq_false_iff.2 hdivert)] at h
    obtain ⟨⟨_, u⟩, hsettle, heq⟩ := Option.map_eq_some_iff.1 h
    cases heq
    have hpass : s.Tours [] (s.pass i) := by
      unfold Story.pass
      split
      · exact .refl s
      · exact .of_memory_eq rfl rfl rfl
    exact hpass.trans (tours_settle hsettle)

/-- Playing a node tours the containers it leads into. -/
theorem tours_playNode {r : Except StoryError (List Char)} (h : playNode w i s = some (r, t)) :
    s.Tours (s.nodeEntrances w i) t := by
  rw [playNode, Attempt.bind_apply, Option.bind_eq_some_iff] at h
  obtain ⟨⟨resolved, u⟩, hresolve, h⟩ := h
  have hu := tours_resolve hresolve
  rw [nodeEntrances]
  simp only [hresolve]
  cases resolved with
  | error e =>
    cases h
    exact hu.trans (.refl _)
  | ok text =>
    simp only at h
    rw [Attempt.bind_apply, Option.bind_eq_some_iff] at h
    obtain ⟨⟨stepped, v⟩, hstep, h⟩ := h
    have hv := hu.trans (tours_step hstep)
    cases stepped <;> cases h <;> exact hv

/-- Playing a unit tours the containers it enters. -/
theorem tours_playUnit {steps : Nat} {backwards : List Char} {r : Except StoryError (List Char)}
    (h : playUnit w steps backwards s = some (r, t)) :
    s.Tours (unitEntrances w steps backwards s) t := by
  induction steps generalizing backwards s with
  | zero => cases h
  | succ steps ih =>
    rw [unitEntrances]
    cases hcurrent : s.current? with
    | none =>
      rw [playUnit, Attempt.get_bind_apply] at h
      simp only [hcurrent] at h
      cases h
      exact .refl _
    | some i =>
      obtain ⟨e, -, hfails⟩ | ⟨fragment, u, hplayed, hrest⟩ := playUnit_succ hcurrent h
      · simp only [hfails]
        exact (tours_playNode hfails).trans (.refl t)
      · simp only [hplayed]
        obtain ⟨hon, hrest⟩ | ⟨hoff, -, rfl⟩ := hrest
        · rw [if_pos hon]
          exact (tours_playNode hplayed).trans (ih hrest)
        · rw [if_neg (by rw [hoff]; exact Bool.false_ne_true)]
          exact (tours_playNode hplayed).trans (.refl t)

end Entering

end Story

end Narrative
