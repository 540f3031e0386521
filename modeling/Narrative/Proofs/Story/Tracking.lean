import Narrative.Proofs.Source.Housing
import Narrative.Proofs.Story.Events
import Narrative.Proofs.Story.Naming
import Narrative.Proofs.Story.Omission
import Narrative.Proofs.Story.Operations
import Narrative.Proofs.Story.Settling
import Narrative.Proofs.Story.Trailing

/-!
# Keeping track of play

Play evaluates expressions, enters nodes, plays lines of text, collects comments, and else moves the
cursor, offers choices and uses interrupts up. A relation between stories that allows for each of
these holds between a story and whatever play makes of it.
-/

namespace Narrative

/-- Memories that say the same about how often the lines and blocks of a story were visited and which
options were chosen. -/
def Memory.Spares (c : Content) (m m' : Memory) : Prop :=
  ∀ i, (c.node i).isContainer = false ∨ (c.node i).isBlock = true →
    (m'.mark i).visits = (m.mark i).visits ∧ (m'.mark i).selection = (m.mark i).selection

namespace Memory.Spares

variable {c : Content} {m m' : Memory} {i : NodeId}

/-- Memories with the same marks say the same. -/
theorem of_marks (h : m'.marks = m.marks) : Spares c m m' := by
  intro i _
  rw [mark, h]
  exact ⟨rfl, rfl⟩

/-- Visiting a container that is no block says nothing about lines and blocks. -/
theorem visit (hi : (c.node i).isContainer = true) (hplain : (c.node i).isBlock = false) :
    Spares c m (m.visit i) := by
  intro j hj
  have hne : i ≠ j := by
    rintro rfl
    simp [hi, hplain] at hj
  rw [mark_visit, if_neg hne]
  exact ⟨rfl, rfl⟩

/-- The visit of a choice is no visit of a line or block. -/
theorem visit_choice (hi : (c.node i).isChoice = true) : Spares c m (m.visit i) := by
  unfold Node.isChoice at hi
  split at hi
  · next hkind => exact visit (by rw [Node.isContainer, hkind]) (by rw [Node.isBlock, hkind])
  · cases hi

/-- Arguments are no visits. -/
theorem bind (i : NodeId) (params : List String) (args : List Value) :
    Spares c m (m.bind i params args) := by
  intro j _
  rw [Memory.bind, mark_modifyMark]
  split
  · next hij =>
    rw [hij]
    exact ⟨rfl, rfl⟩
  · exact ⟨rfl, rfl⟩

end Memory.Spares

namespace Story

/-- The directives of a line of text are resolved, and the line is visited then. -/
theorem resolve_of_text {w : World} {i : NodeId} {s : Story} (hi : (s.node i).kind = .text)
    (hdivert : (s.node i).isDivert = false) :
    resolve w i s = (think w (fun _ ctx =>
      Directive.expand ctx (s.memory.mark i).count (s.node i).text.toList) s).map fun r =>
        (.ok r.1, { r.2 with memory := r.2.memory.visit i }) := by
  rw [resolve, Attempt.get_bind_apply]
  simp only [hi, hdivert, Bool.false_eq_true, if_false]
  rw [Attempt.bind_apply, Attempt.lift_apply, Option.bind_map]
  cases think w (fun _ ctx =>
      Directive.expand ctx (s.memory.mark i).count (s.node i).text.toList) s <;> rfl

/-- A divert that leads to a node has found a name, asking interrupts, and then the target of that
name. Its arguments are evaluated last. -/
theorem lookup_of_takeDivert {w : World} {n : Node} {i : NodeId} {args : List Value} {s t : Story}
    (h : takeDivert w n s = some (.ok (some (i, args)), t)) :
    ∃ name u target, redirectBy w (splitCall (n.divertTarget?.getD [])).1 0 s.interrupts s =
        some (name, u) ∧
      (u.stage w.host).target? u.memory (String.ofList name) = some target ∧
      i = u.descend target ∧ evaluateArguments w n.line (splitCall (n.divertTarget?.getD [])).2 u =
        some (.ok args, t) := by
  unfold takeDivert at h
  simp only at h
  split at h
  · cases h
  · rw [Attempt.get_bind_apply, Attempt.bind_apply] at h
    change ((ExceptT.lift (redirectBy w _ 0 s.interrupts) : Play _) s).bind _ = _ at h
    rw [Attempt.lift_apply, Option.bind_map, Option.bind_eq_some_iff] at h
    obtain ⟨⟨name, u⟩, hredirect, h⟩ := h
    simp only [Function.comp_apply] at h
    split at h
    · cases h
    · rw [Attempt.get_bind_apply] at h
      cases htarget : (u.stage w.host).target? u.memory (String.ofList name) with
      | none =>
        simp only [htarget] at h
        cases h
      | some target =>
        simp only [htarget] at h
        obtain ⟨args', v, hargs, hend⟩ := Attempt.bind_eq_ok.1 h
        cases hend
        exact ⟨name, u, target, hredirect, htarget, rfl, hargs⟩

/-- Where a name leads to a node that is no container, a global variable holds a reference to it. -/
theorem referred_of_target? {stage : Stage} {m : Memory} {name : String} {i : NodeId}
    (h : stage.target? m name = some i) (hi : (stage.content.node i).isContainer = false) :
    stage.referred? m name = some i := by
  have hother : ¬ stage.isTarget i = true := by
    rw [Stage.isTarget, hi]
    exact Bool.false_ne_true
  rw [Stage.target?_eq, Option.or_eq_some_iff, Option.or_eq_some_iff, Option.or_eq_some_iff] at h
  obtain hbare | ⟨-, hunder | ⟨-, hlabel | ⟨-, hreferred⟩⟩⟩ := h
  · exact absurd (Option.filter_eq_some_iff.1 hbare).2 hother
  · exact absurd (Stage.isTarget_of_firstUnder? hunder) hother
  · exact absurd (Stage.isTarget_of_findByLabel? hlabel) hother
  · exact hreferred

/-- A section is a container. -/
theorem isSection_of_not_isContainer {n : Node} (h : n.isContainer = false) :
    n.isSection = false := by
  unfold Node.isContainer at h
  unfold Node.isSection
  cases hkind : n.kind <;> simp_all

/-- Where play descends from a node it comes to a container. -/
theorem descend_of_not_isContainer {s : Story} {i : NodeId}
    (hi : (s.node (s.descend i)).isContainer = false) : s.descend i = i := by
  unfold descend at hi ⊢
  by_cases hknot : (s.node i).isKnot = true
  · rw [if_pos hknot] at hi ⊢
    cases hfirst : (s.children i).head? with
    | none => rfl
    | some first =>
      simp only [hfirst] at hi ⊢
      split at hi
      · next hstitch =>
        rw [Node.isContainer_of_branch (by rw [hstitch, Bool.true_or, Bool.true_or])] at hi
        cases hi
      · next hother => exact if_neg hother
  · exact if_neg hknot

/-- A relation between stories that allows for what play does, apart from collecting and dropping
comments. -/
structure Tracks (w : World) (R : Story → Story → Prop) : Prop where
  /-- Nothing has happened. -/
  refl (s : Story) : R s s
  /-- One thing happens after another. -/
  trans {s t u : Story} : R s t → R t u → R s u
  /-- The cursor moves, choices are offered, or interrupts are used up. -/
  still {s t : Story} :
    t.sources = s.sources → t.comments = s.comments → t.memory = s.memory → R s t
  /-- Something is remembered that is neither about a line nor about a block. -/
  remember {s : Story} {m : Memory} : s.memory.Spares s.content m → R s { s with memory := m }
  /-- Expressions are evaluated, or a statement is executed. -/
  think {α : Type} {f : Stage → Context Memory → Run Memory α} {s t : Story} {a : α} :
    (∀ (D : Discipline Memory) stage ctx, D.Executes stage → ctx.Obeys D →
      D.Allows (f stage ctx)) → Story.think w f s = some (a, t) → R s t
  /-- A container is entered. -/
  enter {i : NodeId} {s t : Story} {a : Unit} :
    (s.node i).isContainer = true → Story.enter w i s = some (a, t) → R s t
  /-- A divert follows a reference to a node that is no container. Its arguments are evaluated, and
  the node is entered. -/
  stray {i : NodeId} {name : String} {s t u : Story} {a : Unit} :
    (s.node i).isContainer = false → (s.stage w.host).referred? s.memory name = some i →
    t.content = s.content → R s t → Story.enter w i t = some (a, u) → R s u
  /-- A line of text is played. -/
  utter {i : NodeId} {s t : Story} {r : Except StoryError (List Char)} :
    (s.node i).kind = .text → resolve w i s = some (r, t) → R s t

namespace Tracks

variable {w : World} {R : Story → Story → Prop} (h : Tracks w R)

include h

/-- The computations that lead to related stories. -/
def tracking : Discipline Story :=
  .along R h.refl fun _ _ _ => h.trans

/-- Reading the story leads nowhere else. -/
theorem tracking_get {α : Type} {k : Story → Run Story α} (hk : ∀ s, h.tracking.Allows (k s)) :
    h.tracking.Allows (do k (← get)) :=
  Discipline.consult (g := id) (Discipline.along_reads id) (fun _ _ e => congrArg k e) hk

/-- A change that the relation allows for leads to a related story. -/
theorem tracking_modify {f : Story → Story} (hf : ∀ s, R s (f s)) :
    h.tracking.Allows (modify f) :=
  Discipline.along_modify hf

/-- A change of the cursor, the choices, the background or the flags. -/
theorem tracking_move {f : Story → Story} (hf : ∀ s, (f s).sources = s.sources ∧
    (f s).comments = s.comments ∧ (f s).memory = s.memory) : h.tracking.Allows (modify f) :=
  h.tracking_modify fun s => h.still (hf s).1 (hf s).2.1 (hf s).2.2

/-- Finding out whether conditions hold leads to a related story. -/
theorem tracking_allHold (conditions : List String) :
    h.tracking.Allows (Story.think w fun _ ctx => ctx.allHold conditions) :=
  fun _ _ _ => h.think fun _ _ _ _ hctx => hctx.allHold conditions

/-- Finding the text of a node leads to a related story. -/
theorem tracking_shownText (i : NodeId) : h.tracking.Allows (shownText w i) :=
  h.tracking_get fun _ => Discipline.returning
    (fun _ _ _ => h.think fun _ _ _ _ hctx => hctx.expand _ _) _

/-- Finding out whether a choice is available leads to a related story. -/
theorem tracking_isAvailable (i : NodeId) : h.tracking.Allows (isAvailable w i) := by
  refine h.tracking_get fun s => ?_
  split
  · split
    · exact h.tracking.pure _
    · exact h.tracking_allHold _
  · exact h.tracking.pure _

/-! ## Diverts -/

/-- Finding out whether an interrupt fires leads to a related story. -/
theorem tracking_fires (k : Interrupt) (occasion : Bool) :
    h.tracking.Allows (fires w k occasion) := by
  unfold fires
  split
  · exact h.tracking.pure _
  · split
    · exact h.tracking.pure _
    · exact fun _ _ _ => h.think fun _ _ _ _ hctx => hctx.holds _

/-- An interrupt that fires leaves a related story. -/
theorem of_fire (s : Story) (position : Nat) (k : Interrupt) : R s (s.fire position k) :=
  h.trans (h.remember (m := s.memory.setGlobal "event" (.str k.id)) (.of_marks rfl))
    (h.still rfl rfl rfl)

/-- Looking for an interrupt that redirects a divert leads to a related story. -/
theorem tracking_redirectBy (target : List Char) (position : Nat) (interrupts : List Interrupt) :
    h.tracking.Allows (redirectBy w target position interrupts) := by
  induction interrupts generalizing position with
  | nil => exact h.tracking.pure _
  | cons k rest ih =>
    unfold redirectBy
    split
    · refine h.tracking.bind (h.tracking_fires k _) fun fired => ?_
      cases fired with
      | true => exact Discipline.returning (h.tracking_modify fun s => h.of_fire s position k) _
      | false => exact ih _
    · exact ih _

/-- Evaluating the arguments of a divert leads to a related story. -/
theorem tracking_evaluateArguments (line : Nat) (args : List (List Char)) :
    h.tracking.AllowsAttempt (evaluateArguments w line args) := by
  induction args with
  | nil => exact Discipline.attempt_pure _
  | cons arg rest ih =>
    have hevaluate : h.tracking.Allows (evaluate w (String.ofList arg)) :=
      fun _ _ _ => h.think (f := fun _ ctx => (ctx.evalText _).run)
        fun _ _ _ _ hctx => hctx.evalText _
    refine Discipline.attempt_bind (Discipline.attempt_lift hevaluate) fun r => ?_
    cases r with
    | ok v => exact Discipline.attempt_bind ih fun _ => Discipline.attempt_pure _
    | error e => exact Discipline.attempt_throw _

/-- Taking a divert leads to a related story. -/
theorem tracking_takeDivert (n : Node) : h.tracking.AllowsAttempt (takeDivert w n) := by
  unfold takeDivert
  simp only
  split
  · exact Discipline.attempt_pure _
  · refine h.tracking_get fun s => Discipline.attempt_bind
      (Discipline.attempt_lift (h.tracking_redirectBy _ 0 s.interrupts)) fun name => ?_
    split
    · exact Discipline.attempt_pure _
    · refine h.tracking_get fun t => ?_
      split
      · exact Discipline.attempt_throw _
      · exact Discipline.attempt_bind (h.tracking_evaluateArguments _ _) fun _ =>
          Discipline.attempt_pure _

/-- Entering a container with the values of its parameters leads to a related story, also where the
number of the values is wrong. -/
theorem of_enterWith {i : NodeId} {args : List Value} {s t : Story} {r : Except StoryError Unit}
    (hi : (s.node i).isContainer = true) (hrun : enterWith w i args s = some (r, t)) : R s t := by
  have henter {u : Story} (hu : (u.node i).isContainer = true)
      (hrun : (ExceptT.lift (Story.enter w i) : Play Unit) u = some (r, t)) : R u t := by
    rw [Attempt.lift_apply] at hrun
    obtain ⟨⟨a, v⟩, henter, heq⟩ := Option.map_eq_some_iff.1 hrun
    cases heq
    exact h.enter hu henter
  rw [enterWith, Attempt.get_bind_apply] at hrun
  simp only at hrun
  split at hrun
  · split at hrun
    · split at hrun
      · exact henter hi hrun
      · have hbind : R s { s with memory := s.memory.bind i (s.node i).params args } :=
          h.remember (.bind i _ args)
        exact h.trans hbind (henter hi hrun)
    · cases hrun
      exact h.refl _
  · exact henter hi hrun

/-! ## Coming to rest -/

/-- Leaving a block leaves a related story. -/
theorem of_leaveBlock (s : Story) (block : NodeId) : R s (s.leaveBlock block) := by
  unfold Story.leaveBlock
  split <;> exact h.still rfl rfl rfl

/-- What is done at the end of a container leaves a related story. -/
theorem of_settleExhausted {c : NodeId} {again : Bool} {s t : Story}
    (hrun : settleExhausted w c s = some (again, t)) : R s t := by
  rw [settleExhausted, Run.get_bind_apply] at hrun
  split at hrun
  · cases hrun
    exact h.of_leaveBlock s c
  · split at hrun
    · cases hrun
      exact h.refl _
    · cases hlanding :
        (if (s.node c).isChoice || (s.node c).isGather then s.landing? c else none) with
      | none =>
        simp only [hlanding] at hrun
        cases hrun
        exact h.still rfl rfl rfl
      | some landing =>
        simp only [hlanding] at hrun
        replace hlanding : s.landing? c = some landing := (Option.ite_none_right_eq_some.1 hlanding).2
        cases landing with
        | gather i =>
          obtain ⟨_, u, henter, hend⟩ := Run.bind_eq_some.1 hrun
          cases hend
          have hgather := isGather_of_landing? hlanding
          exact h.enter (Node.isContainer_of_branch (by rw [hgather, Bool.or_true])) henter
        | choice parent position =>
          cases hrun
          exact h.still rfl rfl rfl

/-- Settling at a node leaves a related story. -/
theorem of_settleAt {i : NodeId} {again : Bool} {s t : Story}
    (hrun : settleAt w i s = some (again, t)) : R s t := by
  rw [settleAt, Run.get_bind_apply] at hrun
  split at hrun
  · next hfallback =>
    obtain ⟨available, u, havailable, hrest⟩ := Run.bind_eq_some.1 hrun
    have hu := h.tracking_isAvailable i s available u havailable
    obtain ⟨m, -, rfl, -⟩ := changes_of_isAvailable havailable
    cases available with
    | true =>
      obtain ⟨_, v, henter, hend⟩ := Run.bind_eq_some.1 hrest
      cases hend
      have hchoice : (s.node i).isChoice = true :=
        (Bool.and_eq_true_iff.1 (Bool.and_eq_true_iff.1 hfallback).1).1
      have hcontainer : (s.node i).isContainer = true :=
        Node.isContainer_of_branch (by rw [hchoice, Bool.or_true, Bool.true_or])
      exact h.trans hu (h.enter hcontainer henter)
    | false =>
      cases hrest
      exact h.trans hu (h.still rfl rfl rfl)
  · split at hrun
    · next hblock =>
      obtain ⟨_, v, henter, hend⟩ := Run.bind_eq_some.1 hrun
      cases hend
      exact h.enter (Node.isContainer_of_isBlock hblock) henter
    · split at hrun
      · next hgather =>
        split at hrun
        · obtain ⟨_, v, henter, hend⟩ := Run.bind_eq_some.1 hrun
          cases hend
          exact h.enter (Node.isContainer_of_branch (by rw [hgather, Bool.or_true])) henter
        · cases hrun
          exact h.still rfl rfl rfl
      · cases hrun
        exact h.refl _

/-- One round of coming to rest leads to a related story. -/
theorem tracking_settleOnce : h.tracking.Allows (settleOnce w) := by
  intro s again t hrun
  rw [settleOnce, Run.get_bind_apply] at hrun
  cases hc : s.container with
  | none =>
    simp only [hc] at hrun
    cases hrun
    exact h.refl _
  | some c =>
    cases hi : s.cursor? with
    | none =>
      simp only [hc, hi] at hrun
      exact h.of_settleExhausted hrun
    | some i =>
      simp only [hc, hi] at hrun
      exact h.of_settleAt hrun

/-- Settling leads to a related story. -/
theorem tracking_settleWithin (moves : Nat) : h.tracking.Allows (settleWithin w moves) := by
  induction moves with
  | zero => exact Discipline.along_unfinished
  | succ moves ih =>
    refine h.tracking.bind h.tracking_settleOnce fun again => ?_
    split
    · exact ih
    · exact h.tracking.pure _

/-- The cursor comes to rest in a related story. -/
theorem tracking_settle : h.tracking.Allows (settle w) :=
  h.tracking_get fun _ => h.tracking_settleWithin _

/-- Entering the target of a divert leads to a related story. -/
theorem of_divert {n : Node} {i : NodeId} {args : List Value} {s t u : Story}
    {r : Except StoryError Unit} (htake : takeDivert w n s = some (.ok (some (i, args)), t))
    (hrun : enterWith w i args t = some (r, u)) : R s u := by
  have ht := h.tracking_takeDivert n s _ t htake
  by_cases hi : (t.node i).isContainer = true
  · exact h.trans ht (h.of_enterWith hi hrun)
  · obtain ⟨name, v, target, hredirect, htarget, rfl, hargs⟩ := lookup_of_takeDivert htake
    have hcontent : t.content = v.content :=
      Thinks.content_eq (plays_evaluateArguments w _ _ v _ _ hargs)
    have hstray : (v.node (v.descend target)).isContainer = false := by
      rw [node, ← hcontent]
      exact Bool.eq_false_iff.2 hi
    have hsame := descend_of_not_isContainer hstray
    rw [hsame] at hstray hrun
    have hv : R s v := h.tracking_redirectBy _ 0 s.interrupts s name v hredirect
    have hvt : R v t := h.tracking_evaluateArguments _ _ v _ t hargs
    have hplain : (t.node target).isSection = false :=
      isSection_of_not_isContainer (by rw [node, hcontent]; exact hstray)
    rw [enterWith, Attempt.get_bind_apply] at hrun
    simp only [hplain, Bool.false_eq_true, if_false] at hrun
    change (ExceptT.lift (Story.enter w target) : Play Unit) t = _ at hrun
    rw [Attempt.lift_apply] at hrun
    obtain ⟨⟨a, x⟩, henter, heq⟩ := Option.map_eq_some_iff.1 hrun
    cases heq
    exact h.trans hv (h.stray hstray (referred_of_target? htarget hstray) hcontent hvt henter)

/-- Playing past a node leaves a related story. -/
theorem of_step {i : NodeId} {s t : Story} {r : Except StoryError Unit}
    (hrun : step w i s = some (r, t)) : R s t := by
  by_cases hdivert : (s.node i).isDivert = true
  · rw [step, Attempt.get_bind_apply] at hrun
    simp only [hdivert, if_true] at hrun
    rw [Attempt.bind_apply, Option.bind_eq_some_iff] at hrun
    obtain ⟨⟨taken, u⟩, htake, hrun⟩ := hrun
    have hu := h.tracking_takeDivert _ s taken u htake
    obtain e | _ | ⟨target, args⟩ := taken
    · cases hrun
      exact hu
    · cases hrun
      exact h.trans hu (h.still rfl rfl rfl)
    · simp only at hrun
      rw [Attempt.bind_apply, Option.bind_eq_some_iff] at hrun
      obtain ⟨⟨entered, v⟩, henter, hrun⟩ := hrun
      refine h.trans (h.of_divert htake henter) ?_
      cases entered with
      | error e =>
        cases hrun
        exact h.refl _
      | ok _ =>
        simp only at hrun
        rw [Attempt.modify_bind_apply] at hrun
        have hclear : R v { v with choices := [] } := h.still rfl rfl rfl
        exact h.trans hclear (Discipline.attempt_lift (D := h.tracking) h.tracking_settle _ _ _ hrun)
  · rw [step_of_not_isDivert (Bool.eq_false_iff.2 hdivert)] at hrun
    obtain ⟨⟨_, u⟩, hsettle, heq⟩ := Option.map_eq_some_iff.1 hrun
    cases heq
    have hpass : R s (s.pass i) := by
      unfold Story.pass
      split <;> exact h.still rfl rfl rfl
    exact h.trans hpass (h.tracking_settle _ _ _ hsettle)

/-! ## Playing a node -/

/-- Meeting a choice leads to a related story. -/
theorem tracking_addChoice (i : NodeId) : h.tracking.Allows (addChoice w i) := by
  intro s a t hrun
  obtain ⟨available, u, havailable, hrest⟩ := Run.bind_eq_some.1 hrun
  refine h.trans (h.tracking_isAvailable i s available u havailable) ?_
  obtain ⟨m, -, rfl, hchoice⟩ := changes_of_isAvailable havailable
  cases available with
  | false =>
    cases hrest
    exact h.refl _
  | true =>
    cases hrest
    have hspares : m.Spares s.content (m.visit i) := .visit_choice (hchoice rfl).1
    dsimp only
    split
    · split
      · exact h.trans (h.remember (s := { s with memory := m }) hspares) (h.still rfl rfl rfl)
      · exact h.refl _
    · exact h.still rfl rfl rfl

/-- Playing a node that is no comment leads to a related story. -/
theorem of_resolve {i : NodeId} {s t : Story} {r : Except StoryError (List Char)}
    (hi : (s.node i).isComment = false) (hrun : resolve w i s = some (r, t)) : R s t := by
  cases hkind : (s.node i).kind with
  | text => exact h.utter hkind hrun
  | choice repeatable conditions =>
    rw [resolve_of_isChoice (by rw [Node.isChoice, hkind])] at hrun
    obtain ⟨⟨a, u⟩, hadd, heq⟩ := Option.map_eq_some_iff.1 hrun
    cases heq
    exact h.tracking_addChoice i s a u hadd
  | comment once conditions =>
    rw [Node.isComment, hkind] at hi
    cases hi
  | statement st =>
    rw [resolve, Attempt.get_bind_apply] at hrun
    simp only [hkind] at hrun
    have hexecute : h.tracking.AllowsAttempt
        (act w fun stage ctx => stage.execute ctx (s.node i).line st) :=
      fun _ _ _ => h.think (f := fun stage ctx => (stage.execute ctx (s.node i).line st).run)
        fun _ _ _ hstage hctx => hstage.execute hctx _ st
    exact Discipline.attempt_bind hexecute (fun _ => Discipline.attempt_pure _) s r t hrun
  | _ =>
    rw [resolve, Attempt.get_bind_apply] at hrun
    simp only [hkind] at hrun
    cases hrun
    exact h.refl _

/-- Playing a node that is no comment, and moving on, leads to a related story. -/
theorem of_playNode {i : NodeId} {s t : Story} {r : Except StoryError (List Char)}
    (hi : (s.node i).isComment = false) (hrun : playNode w i s = some (r, t)) : R s t := by
  rw [playNode, Attempt.bind_apply, Option.bind_eq_some_iff] at hrun
  obtain ⟨⟨resolved, u⟩, hresolve, hrest⟩ := hrun
  have hu := h.of_resolve hi hresolve
  cases resolved with
  | error e =>
    cases hrest
    exact hu
  | ok text =>
    simp only at hrest
    rw [Attempt.bind_apply, Option.bind_eq_some_iff] at hrest
    obtain ⟨⟨stepped, v⟩, hstep, hend⟩ := hrest
    have hv : v = t := by cases stepped <;> cases hend <;> rfl
    exact hv ▸ h.trans hu (h.of_step hstep)

/-! ## What the player and the host do -/

/-- Offering the choice of an interrupt leads to a related story. -/
theorem tracking_addInterruptChoice (k : Interrupt) :
    h.tracking.Allows (addInterruptChoice w k) := by
  refine h.tracking.bind (h.tracking_fires k _) fun fired => ?_
  split
  · refine h.tracking_get fun s => ?_
    split
    · exact h.tracking.pure _
    · split
      · exact h.tracking.pure _
      · refine h.tracking.bind (h.tracking_isAvailable _) fun available => ?_
        split
        · refine h.tracking_move ?_
          exact fun _ => ⟨rfl, rfl, rfl⟩
        · exact h.tracking.pure _
  · exact h.tracking.pure _

/-- Offering the choices of interrupts leads to a related story. -/
theorem tracking_addInterruptChoices (interrupts : List Interrupt) :
    h.tracking.Allows (addInterruptChoices w interrupts) := by
  induction interrupts with
  | nil => exact h.tracking.pure _
  | cons k rest ih => exact h.tracking.bind (h.tracking_addInterruptChoice k) fun _ => ih

/-- Taking a choice leads to a related story. -/
theorem of_choose {index : Nat} {s t : Story} {r : Except StoryError Unit}
    (hchoices : ∀ i ∈ s.choices, (s.node i).isChoice = true)
    (hrun : choose w index s = some (r, t)) : R s t := by
  obtain ⟨-, -, rfl⟩ | ⟨i, hi, -, hsettle⟩ := choose_eq_some hrun
  · exact h.refl t
  · have hspares : s.memory.Spares s.content (s.memory.visit i) :=
      .visit_choice (hchoices i (List.mem_of_getElem? hi))
    have htake : R s (s.take i) :=
      h.trans (h.remember hspares) (h.still rfl rfl rfl)
    exact h.trans htake (h.tracking_settle _ _ _ hsettle)

/-- The texts of choices are found in a related story. -/
theorem tracking_choiceTexts (is : List NodeId) : h.tracking.Allows (choiceTexts w is) := by
  induction is with
  | nil => exact h.tracking.pure _
  | cons i rest ih =>
    exact h.tracking.bind (h.tracking_shownText i) fun _ => Discipline.returning ih _

/-- Showing the pending choices leads to a related story. -/
theorem tracking_pendingTexts : h.tracking.Allows (pendingTexts w) :=
  h.tracking_get fun s => h.tracking_choiceTexts s.choices

/-- Storing a variable leads to a related story. -/
theorem of_assign (host : Host) (s : Story) (name : String) (v : Value) :
    R s (s.assign host name v) := by
  exact h.remember fun i _ => Memory.mark_assign (s.stage host) s.memory name v i

/-! ## Whole actions -/

section Comments

variable (hcomments : ∀ (s : Story) (comments : List NodeId), R s { s with comments })

include hcomments

/-- Playing any node, and moving on, leads to a related story. -/
theorem of_played {i : NodeId} {s t : Story} {r : Except StoryError (List Char)}
    (hrun : playNode w i s = some (r, t)) : R s t := by
  cases hi : (s.node i).isComment with
  | false => exact h.of_playNode hi hrun
  | true =>
    have hnote : R s (s.addComment i) := by
      rw [addComment_eq]
      exact hcomments s _
    have hcontent : (s.addComment i).content = s.content := by rw [addComment_eq]; rfl
    obtain ⟨rfl, hsettle⟩ := settle_of_playNode (Node.isDivert_of_isComment hi)
      (resolve_of_isComment hi) hcontent hrun
    have hpass : R (s.addComment i) ((s.addComment i).pass i) := by
      unfold Story.pass
      split <;> exact h.still rfl rfl rfl
    exact h.trans (h.trans hnote hpass) (h.tracking_settle _ _ _ hsettle)

/-- Playing a unit leaves a related story. -/
theorem of_playUnit {steps : Nat} {backwards : List Char} {s t : Story}
    {r : Except StoryError (List Char)} (hrun : playUnit w steps backwards s = some (r, t)) :
    R s t := by
  induction steps generalizing s backwards with
  | zero => cases hrun
  | succ steps ih =>
    cases hcurrent : s.current? with
    | none =>
      rw [playUnit, Attempt.get_bind_apply] at hrun
      simp only [hcurrent] at hrun
      cases hrun
      exact h.refl _
    | some i =>
      obtain ⟨e, -, hfails⟩ | ⟨fragment, u, hplayed, ⟨-, hrest⟩ | ⟨-, -, rfl⟩⟩ :=
        playUnit_succ hcurrent hrun
      · exact h.of_played hcomments hfails
      · exact h.trans (h.of_played hcomments hplayed) (ih hrest)
      · exact h.of_played hcomments hplayed

/-- An advance leaves a related story. -/
theorem of_advance {s t : Story} {r : Except StoryError String}
    (hrun : advance w s = some (r, t)) : R s t := by
  obtain ⟨-, -, rfl⟩ | ⟨-, ⟨e, -, hunit⟩ | ⟨unit, u, v, hunit, hend, -, rfl⟩⟩ :=
    advance_eq_some hrun
  · exact h.refl _
  · exact h.of_playUnit hcomments hunit
  · have huv : R u v := by
      obtain ⟨-, rfl⟩ | ⟨-, hadd⟩ := hend
      · exact h.refl _
      · exact h.tracking_addInterruptChoices _ _ _ _ hadd
    rw [record_eq]
    exact h.trans (h.trans (h.of_playUnit hcomments hunit) huv) (h.still rfl rfl rfl)

/-- Looking for a comment to show leads to a related story. -/
theorem tracking_commentFrom (position : Nat) (is : List NodeId) :
    h.tracking.Allows (commentFrom w position is) := by
  induction is generalizing position with
  | nil => exact h.tracking.pure _
  | cons i rest ih =>
    refine h.tracking_get fun s => ?_
    split
    · refine h.tracking.bind (h.tracking_allHold _) fun shown => ?_
      have hshow : h.tracking.Allows (do return some (← shownText w i)) :=
        Discipline.returning (h.tracking_shownText i) _
      split
      · split
        · exact h.tracking.bind (h.tracking_modify fun s => hcomments s _) fun _ => hshow
        · exact hshow
      · exact ih _
    · exact ih _

/-- Whatever is asked of a story apart from adding an interrupt leads to a related story. -/
theorem of_perform {action : Action} {answer : Answer} {s t : Story}
    (hundisturbed : action.isUndisturbed = true)
    (hchoices : ∀ i ∈ s.choices, (s.node i).isChoice = true)
    (hrun : perform w action s = some (answer, t)) : R s t := by
  cases action with
  | advance =>
    obtain ⟨r, u, hadvance, hend⟩ := Run.bind_eq_some.1 hrun
    cases hend
    exact h.of_advance hcomments hadvance
  | choose index =>
    obtain ⟨r, u, hchoose, hend⟩ := Run.bind_eq_some.1 hrun
    cases hend
    exact h.of_choose hchoices hchoose
  | setVariable name v =>
    obtain ⟨r, u, hassign, hend⟩ := Run.bind_eq_some.1 hrun
    cases hassign
    cases hend
    exact h.of_assign w.host s name v
  | pendingChoices =>
    obtain ⟨r, u, htexts, hend⟩ := Run.bind_eq_some.1 hrun
    cases hend
    exact h.tracking_pendingTexts s _ _ htexts
  | currentComment =>
    obtain ⟨r, u, hcomment, hend⟩ := Run.bind_eq_some.1 hrun
    cases hend
    exact h.tracking_get (fun s => h.tracking_commentFrom hcomments 0 s.comments) s _ _ hcomment
  | addInterrupt i => cases hundisturbed

/-- Whatever is done with a story without reading more leads to a related story. -/
theorem of_operate {o : Operation} {s t : Story} (hreads : o.reads = false)
    (hchoices : ∀ i ∈ s.choices, (s.node i).isChoice = true) (hrun : operate w o s = some t) :
    R s t := by
  cases o with
  | perform action =>
    obtain ⟨answer, hperform⟩ := perform_of_operate hrun
    have hundisturbed : action.isUndisturbed = true := by
      rw [← Bool.not_eq_false']
      exact hreads
    exact h.of_perform hcomments hundisturbed hchoices hperform
  | advanceAll =>
    obtain ⟨⟨r, u⟩, hadvance, rfl⟩ := Option.map_eq_some_iff.1 hrun
    exact related_of_advanceWithin h.refl h.trans (h.of_advance hcomments) hadvance
  | pendingText index =>
    obtain ⟨⟨r, u⟩, hshown, rfl⟩ := Option.map_eq_some_iff.1 hrun
    rw [pendingText?, Run.get_bind_apply] at hshown
    cases hchoice : s.choices[index]? with
    | none =>
      simp only [hchoice] at hshown
      cases hshown
      exact h.refl _
    | some i =>
      simp only [hchoice] at hshown
      obtain ⟨text, v, htext, hend⟩ := Run.bind_eq_some.1 hshown
      cases hend
      exact h.tracking_shownText i _ _ _ htext
  | evaluate source =>
    obtain ⟨⟨r, u⟩, hvalue, rfl⟩ := Option.map_eq_some_iff.1 hrun
    exact h.think (f := fun _ ctx => (ctx.evalText _).run) (fun _ _ _ _ hctx => hctx.evalText _)
      hvalue
  | reseed seed =>
    cases hrun
    exact h.remember (.of_marks rfl)
  | restore g => cases hreads

end Comments

end Tracks

end Story

end Narrative
