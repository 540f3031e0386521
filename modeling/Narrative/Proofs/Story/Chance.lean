import Narrative.Proofs.Story.Discipline
import Narrative.Proofs.Story.Reachable

/-!
# Chance

Only the dice tell a story how a random choice falls. As long as no number is drawn, whatever is
asked of a story takes the same course with any other dice, and leaves the dice as they were.
-/

namespace Narrative

/-- A state with dice, which can be exchanged. -/
class HasDice (σ : Type) where
  /-- The dice of a state. -/
  dice : σ → Dice
  /-- The state with other dice. -/
  withDice : Dice → σ → σ
  /-- A state with its own dice is that state. -/
  withDice_dice (s : σ) : withDice (dice s) s = s
  /-- The dice of a state whose dice were exchanged. -/
  dice_withDice (d : Dice) (s : σ) : dice (withDice d s) = d

open HasDice Discipline

instance : HasDice Memory where
  dice := Memory.dice
  withDice d m := { m with dice := d }
  withDice_dice _ := rfl
  dice_withDice _ _ := rfl

instance : HasDice Story where
  dice s := s.memory.dice
  withDice d s := { s with memory := { s.memory with dice := d } }
  withDice_dice _ := rfl
  dice_withDice _ _ := rfl

variable {σ α β ε : Type}

section Rules

variable [HasDice σ]

/-- The computations that draw only forward, and that take the same course with any dice when they
draw no number. -/
def blind (σ : Type) [HasDice σ] : Discipline σ where
  Allows x := ∀ s a t, x s = some (a, t) → (dice s).drawn ≤ (dice t).drawn ∧
    ((dice t).drawn = (dice s).drawn →
      dice t = dice s ∧ ∀ d, x (withDice d s) = some (a, withDice d t))
  pure := by
    intro α a s b t h
    cases h
    exact ⟨Nat.le_refl _, fun _ => ⟨rfl, fun _ => rfl⟩⟩
  bind := by
    intro α β x f hx hf s b t h
    obtain ⟨a, u, hfirst, hrest⟩ := Run.bind_eq_some.1 h
    obtain ⟨hle₁, hsame₁⟩ := hx s a u hfirst
    obtain ⟨hle₂, hsame₂⟩ := hf a u b t hrest
    refine ⟨Nat.le_trans hle₁ hle₂, fun hdrawn => ?_⟩
    obtain ⟨hdice₁, hrun₁⟩ := hsame₁ (by omega)
    obtain ⟨hdice₂, hrun₂⟩ := hsame₂ (by omega)
    exact ⟨hdice₂.trans hdice₁, fun d => Run.bind_eq_some.2 ⟨a, _, hrun₁ d, hrun₂ d⟩⟩

/-- Going on in a way that does not depend on the dice. -/
theorem blind_get {k : σ → Run σ α} (hk : ∀ s d, k (withDice d s) = k s)
    (h : ∀ s, (blind σ).Allows (k s)) : (blind σ).Allows (do k (← get)) := by
  intro s a t hrun
  obtain ⟨hle, hsame⟩ := h s s a t hrun
  refine ⟨hle, fun hdrawn => ?_⟩
  obtain ⟨hdice, hcourse⟩ := hsame hdrawn
  refine ⟨hdice, fun d => ?_⟩
  rw [Run.get_bind_apply, hk]
  exact hcourse d

/-- A change that does not touch the dice. -/
theorem blind_modify {f : σ → σ} (h : ∀ s d, f (withDice d s) = withDice d (f s)) :
    (blind σ).Allows (modify f) := by
  intro s a t hrun
  cases hrun
  have hdice : dice (f s) = dice s := by
    have hown := congrArg dice (h s (dice s))
    rwa [withDice_dice, dice_withDice] at hown
  refine ⟨Nat.le_of_eq (congrArg Dice.drawn hdice.symm), fun _ => ⟨hdice, fun d => ?_⟩⟩
  change some ((), f (withDice d s)) = _
  rw [h]

/-- What does not end draws nothing. -/
theorem blind_unfinished : (blind σ).Allows (Run.unfinished : Run σ α) := by
  intro s a t h
  cases h

/-- Going on in a way that does not depend on the dice, where it may fail. -/
theorem blind_attempt_get {k : σ → Attempt ε σ α} (hk : ∀ s d, k (withDice d s) = k s)
    (h : ∀ s, (blind σ).AllowsAttempt (k s)) : (blind σ).AllowsAttempt (do k (← get)) :=
  blind_get (k := k) hk h

/-- A change that does not touch the dice, among steps that may fail. -/
theorem blind_attempt_modify {f : σ → σ} (h : ∀ s d, f (withDice d s) = withDice d (f s)) :
    (blind σ).AllowsAttempt (modify f : Attempt ε σ Unit) :=
  attempt_lift (blind_modify h)

end Rules

/-- Storing a variable does not touch the dice. -/
theorem Stage.assign_withDice (s : Stage) (m : Memory) (name : String) (v : Value) (d : Dice) :
    s.assign (withDice d m) name v = withDice d (s.assign m name v) := by
  have hbinder : s.binder? (withDice d m) name = s.binder? m name := rfl
  unfold Stage.assign
  rw [hbinder]
  split <;> rfl

/-- Statements and functions look at the dice only to draw. -/
theorem blind_governs (c : Content) : (blind Memory).Governs c where
  names s _ := blind_get (fun _ _ => rfl) fun _ => (blind Memory).pure _
  value s name _ := blind_get (fun _ _ => rfl) fun _ => (blind Memory).pure _
  address s address _ := blind_get (fun _ _ => rfl) fun _ => (blind Memory).pure _
  count i := blind_get (fun _ _ => rfl) fun _ => (blind Memory).pure _
  children i := blind_get (fun _ _ => rfl) fun _ => (blind Memory).pure _
  draw source bound := by
    intro m a t h
    cases h
    refine ⟨Nat.le_succ _, fun hdrawn => ?_⟩
    exact absurd hdrawn (Nat.succ_ne_self _)
  assign s name v _ := blind_modify fun m d => s.assign_withDice m name v d
  visit i _ := blind_modify fun _ _ => rfl
  select i selection _ _ := blind_modify fun _ _ => rfl
  bind i args _ _ := blind_modify fun _ _ => rfl
  unfinished := blind_unfinished

namespace Story

/-! ## Play -/

/-- What is thought about the stage of a story does not depend on the dice of the story. -/
theorem blind_think {w : World} {f : Stage → Context Memory → Run Memory α}
    (h : ∀ stage ctx, ctx.Obeys (blind Memory) → (blind Memory).Allows (f stage ctx)) :
    (blind Story).Allows (think w f) := by
  intro s a t hrun
  obtain ⟨m, hf, rfl⟩ := think_eq_some hrun
  have hctx := (blind_governs s.content).context (s := s.stage w.host) rfl w.depth
  obtain ⟨hle, hsame⟩ := h _ _ hctx s.memory a m hf
  refine ⟨hle, fun hdrawn => ?_⟩
  obtain ⟨hdice, hcourse⟩ := hsame hdrawn
  refine ⟨hdice, fun d => ?_⟩
  change (f (s.stage w.host) ((s.stage w.host).context w.depth) (withDice d s.memory)).map _ = _
  rw [hcourse d]
  rfl

/-- What is done on the stage of a story does not depend on the dice of the story. -/
theorem blind_act {w : World} {f : Stage → Context Memory → Act α}
    (h : ∀ stage ctx, ctx.Obeys (blind Memory) → (blind Memory).AllowsAttempt (f stage ctx)) :
    (blind Story).AllowsAttempt (act w f) :=
  blind_think (f := fun stage ctx => (f stage ctx).run) h

/-- The text of a node is blind to the dice. -/
theorem blind_shownText (w : World) (i : NodeId) : (blind Story).Allows (shownText w i) :=
  blind_get (fun _ _ => rfl) fun _ =>
    returning (blind_think fun _ _ hctx => hctx.expand _ _) _

/-- Whether a choice is available is blind to the dice. -/
theorem blind_isAvailable (w : World) (i : NodeId) : (blind Story).Allows (isAvailable w i) := by
  refine blind_get (fun _ _ => rfl) fun s => ?_
  split
  · split
    · exact (blind Story).pure _
    · exact blind_think fun _ _ hctx => hctx.allHold _
  · exact (blind Story).pure _

/-- Entering a container is blind to the dice. -/
theorem blind_enter (w : World) (i : NodeId) : (blind Story).Allows (enter w i) := by
  refine (blind Story).bind (blind_think fun stage ctx hctx => ?_) fun _ =>
    blind_modify fun _ _ => rfl
  unfold Stage.selectOption
  split
  · refine blind_get (fun _ _ => rfl) fun m => ?_
    exact (blind Memory).bind (hctx.chooseOption _ _ _) fun _ => blind_modify fun _ _ => rfl
  · exact (blind Memory).pure _

/-- Where play lands among some children has nothing to do with the dice. -/
theorem landingAmong?_withDice (s : Story) (d : Dice) (parent : NodeId) (takesChoice : Bool)
    (position : Nat) (is : List NodeId) :
    (withDice d s).landingAmong? parent takesChoice position is =
      s.landingAmong? parent takesChoice position is := by
  induction is generalizing position with
  | nil => rfl
  | cons i rest ih =>
    rw [landingAmong?, landingAmong?, ih]
    rfl

/-- Where play lands further up has nothing to do with the dice. -/
theorem landingAbove?_withDice (s : Story) (d : Dice) (takesChoice : Bool) (line : List NodeId) :
    (withDice d s).landingAbove? takesChoice line = s.landingAbove? takesChoice line := by
  fun_induction landingAbove? s takesChoice line with
  | case1 takesChoice child parent above siblings start ih =>
    rw [landingAbove?, ih, landingAmong?_withDice]
    rfl
  | case2 takesChoice line hshort =>
    unfold landingAbove?
    split
    · next child parent above => exact absurd rfl (hshort child parent above)
    · rfl

/-- What follows a container has nothing to do with the dice. -/
theorem landing?_withDice (s : Story) (d : Dice) (i : NodeId) :
    (withDice d s).landing? i = s.landing? i :=
  landingAbove?_withDice s d _ _

/-- Leaving a block does not touch the dice. -/
theorem leaveBlock_withDice (s : Story) (d : Dice) (block : NodeId) :
    (withDice d s).leaveBlock block = withDice d (s.leaveBlock block) := by
  have hparent : ((withDice d s).node block).parent = (s.node block).parent := rfl
  unfold leaveBlock
  rw [hparent]
  split <;> rfl

/-- What is done at the end of a container is blind to the dice. -/
theorem blind_settleExhausted (w : World) (c : NodeId) :
    (blind Story).Allows (settleExhausted w c) := by
  refine blind_get (fun s d => by rw [landing?_withDice]; rfl) fun s => ?_
  dsimp only
  split
  · exact returning (blind_modify fun s d => leaveBlock_withDice s d c) _
  · split
    · exact (blind Story).pure _
    · split
      · exact returning (blind_enter w _) _
      · exact returning (blind_modify fun _ _ => rfl) _
      · exact returning (blind_modify fun _ _ => rfl) _

/-- Settling at a node is blind to the dice. -/
theorem blind_settleAt (w : World) (i : NodeId) : (blind Story).Allows (settleAt w i) := by
  refine blind_get (fun _ _ => rfl) fun s => ?_
  dsimp only
  split
  · refine (blind Story).bind (blind_isAvailable w i) fun available => ?_
    split
    · exact returning (blind_enter w i) _
    · exact returning (blind_modify fun _ _ => rfl) _
  · split
    · exact returning (blind_enter w i) _
    · split
      · split
        · exact returning (blind_enter w i) _
        · exact returning (blind_modify fun _ _ => rfl) _
      · exact (blind Story).pure _

/-- One move of settling is blind to the dice. -/
theorem blind_settleOnce (w : World) : (blind Story).Allows (settleOnce w) := by
  refine blind_get (fun _ _ => rfl) fun s => ?_
  split
  · exact (blind Story).pure _
  · exact blind_settleExhausted w _
  · exact blind_settleAt w _

/-- Several moves of settling are blind to the dice. -/
theorem blind_settleWithin (w : World) (moves : Nat) :
    (blind Story).Allows (settleWithin w moves) := by
  induction moves with
  | zero => exact blind_unfinished
  | succ moves ih =>
    refine (blind Story).bind (blind_settleOnce w) fun again => ?_
    split
    · exact ih
    · exact (blind Story).pure _

/-- Settling is blind to the dice. -/
theorem blind_settle (w : World) : (blind Story).Allows (settle w) :=
  blind_get (fun _ _ => rfl) fun _ => blind_settleWithin w _

/-- Whether an interrupt fires is blind to the dice. -/
theorem blind_fires (w : World) (i : Interrupt) (occasion : Bool) :
    (blind Story).Allows (fires w i occasion) := by
  unfold fires
  split
  · exact (blind Story).pure _
  · split
    · exact (blind Story).pure _
    · exact blind_think fun _ _ hctx => hctx.holds _

/-- Looking for an interrupt that redirects a divert is blind to the dice. -/
theorem blind_redirectBy (w : World) (target : List Char) (position : Nat) (is : List Interrupt) :
    (blind Story).Allows (redirectBy w target position is) := by
  induction is generalizing position with
  | nil => exact (blind Story).pure _
  | cons i rest ih =>
    unfold redirectBy
    split
    · refine (blind Story).bind (blind_fires w i _) fun fires => ?_
      split
      · exact returning (blind_modify fun _ _ => rfl) _
      · exact ih _
    · exact ih _

/-- Evaluating the arguments of a divert is blind to the dice. -/
theorem blind_evaluateArguments (w : World) (line : Nat) (args : List (List Char)) :
    (blind Story).AllowsAttempt (evaluateArguments w line args) := by
  induction args with
  | nil => exact attempt_pure _
  | cons arg rest ih =>
    refine attempt_bind (attempt_lift ?_) fun r => ?_
    · exact blind_think fun _ _ hctx => hctx.evalText _
    · cases r with
      | ok v => exact attempt_bind ih fun _ => attempt_pure _
      | error e => exact attempt_throw _

/-- Taking a divert is blind to the dice. -/
theorem blind_takeDivert (w : World) (n : Node) : (blind Story).AllowsAttempt (takeDivert w n) := by
  unfold takeDivert
  simp only
  split
  · exact attempt_pure _
  · refine blind_attempt_get (fun _ _ => rfl) fun s => ?_
    refine attempt_bind (attempt_lift (blind_redirectBy w _ 0 _)) fun name => ?_
    split
    · exact attempt_pure _
    · refine blind_attempt_get (fun _ _ => rfl) fun s => ?_
      split
      · exact attempt_throw _
      · exact attempt_bind (blind_evaluateArguments w _ _) fun _ =>
          attempt_pure _

/-- Entering a container with arguments is blind to the dice. -/
theorem blind_enterWith (w : World) (i : NodeId) (args : List Value) :
    (blind Story).AllowsAttempt (enterWith w i args) := by
  refine blind_attempt_get (fun _ _ => rfl) fun s => ?_
  dsimp only
  split
  · split
    · split
      · exact attempt_lift (blind_enter w i)
      · exact attempt_bind (blind_attempt_modify fun _ _ => rfl) fun _ =>
          attempt_lift (blind_enter w i)
    · exact attempt_throw _
  · exact attempt_lift (blind_enter w i)

/-- Offering a choice is blind to the dice. -/
theorem blind_addChoice (w : World) (i : NodeId) : (blind Story).Allows (addChoice w i) := by
  refine (blind Story).bind (blind_isAvailable w i) fun available => ?_
  split
  · refine blind_modify fun s d => ?_
    have hfallback : ((withDice d s).node i).isFallback = (s.node i).isFallback := rfl
    have hchoices : (withDice d s).choices = s.choices := rfl
    rw [hfallback, hchoices]
    split
    · split <;> rfl
    · rfl
  · exact (blind Story).pure _

/-- The effect of a node is blind to the dice. -/
theorem blind_resolve (w : World) (i : NodeId) : (blind Story).AllowsAttempt (resolve w i) := by
  refine blind_attempt_get (fun _ _ => rfl) fun s => ?_
  dsimp only
  split
  · split
    · exact attempt_pure _
    · refine attempt_bind (attempt_lift ?_) fun text => ?_
      · exact blind_think fun _ _ hctx => hctx.expand _ _
      · exact attempt_bind (blind_attempt_modify fun _ _ => rfl) fun _ => attempt_pure _
  · exact attempt_bind (attempt_lift (blind_addChoice w i)) fun _ => attempt_pure _
  · refine attempt_bind (blind_attempt_modify fun s d => ?_) fun _ => attempt_pure _
    have hcomments : (withDice d s).comments = s.comments := rfl
    unfold addComment
    rw [hcomments]
    split <;> rfl
  · refine attempt_bind (blind_act fun stage ctx hctx => ?_) fun _ => attempt_pure _
    exact (blind_governs stage.content).execute rfl hctx _ _
  · exact attempt_pure _

/-- Passing a node does not touch the dice. -/
theorem pass_withDice (s : Story) (d : Dice) (i : NodeId) :
    (withDice d s).pass i = withDice d (s.pass i) := by
  have hcontainer : (withDice d s).container = s.container := rfl
  unfold pass
  rw [hcontainer]
  split <;> rfl

/-- Playing past a node is blind to the dice. -/
theorem blind_step (w : World) (i : NodeId) : (blind Story).AllowsAttempt (step w i) := by
  refine blind_attempt_get (fun _ _ => rfl) fun s => ?_
  dsimp only
  split
  · refine attempt_bind (blind_takeDivert w _) fun target => ?_
    split
    · next i args =>
      refine attempt_bind (blind_enterWith w i args) fun _ => ?_
      exact attempt_bind (blind_attempt_modify fun _ _ => rfl) fun _ =>
        attempt_lift (blind_settle w)
    · exact blind_attempt_modify fun _ _ => rfl
  · exact attempt_bind (blind_attempt_modify fun s d => pass_withDice s d i) fun _ =>
      attempt_lift (blind_settle w)

/-- Playing a node for its text is blind to the dice. -/
theorem blind_playNode (w : World) (i : NodeId) : (blind Story).AllowsAttempt (playNode w i) :=
  attempt_bind (blind_resolve w i) fun _ => attempt_bind (blind_step w i) fun _ => attempt_pure _

/-- Playing a unit is blind to the dice. -/
theorem blind_playUnit (w : World) (steps : Nat) (backwards : List Char) :
    (blind Story).AllowsAttempt (playUnit w steps backwards) := by
  induction steps generalizing backwards with
  | zero => exact attempt_lift blind_unfinished
  | succ steps ih =>
    refine blind_attempt_get (fun _ _ => rfl) fun s => ?_
    split
    · exact attempt_pure _
    · next i _ =>
      refine attempt_bind (blind_playNode w i) fun text => ?_
      refine blind_attempt_get (fun _ _ => rfl) fun s => ?_
      split
      · exact ih _
      · exact attempt_pure _

/-- Offering the choice of an interrupt is blind to the dice. -/
theorem blind_addInterruptChoice (w : World) (i : Interrupt) :
    (blind Story).Allows (addInterruptChoice w i) := by
  refine (blind Story).bind (blind_fires w i _) fun fires => ?_
  split
  · refine blind_get (fun _ _ => rfl) fun s => ?_
    split
    · exact (blind Story).pure _
    · next choice _ =>
      split
      · exact (blind Story).pure _
      · refine (blind Story).bind (blind_isAvailable w choice) fun available => ?_
        split
        · exact blind_modify fun _ _ => rfl
        · exact (blind Story).pure _
  · exact (blind Story).pure _

/-- Offering those of all interrupts is blind to the dice. -/
theorem blind_addInterruptChoices (w : World) (interrupts : List Interrupt) :
    (blind Story).Allows (addInterruptChoices w interrupts) := by
  induction interrupts with
  | nil => exact (blind Story).pure _
  | cons i rest ih => exact (blind Story).bind (blind_addInterruptChoice w i) fun _ => ih

/-- Telling a text does not touch the dice. -/
theorem record_withDice (s : Story) (d : Dice) (text : String) :
    (withDice d s).record text = withDice d (s.record text) := by
  unfold record
  split <;> rfl

/-- An advance is blind to the dice. -/
theorem blind_advance (w : World) : (blind Story).AllowsAttempt (advance w) := by
  have hrecord (text : String) : (blind Story).AllowsAttempt (do
      modify (·.record text)
      return text : Play String) :=
    attempt_bind (blind_attempt_modify fun s d => record_withDice s d text) fun _ =>
      attempt_pure _
  refine blind_attempt_get (fun _ _ => rfl) fun s => ?_
  dsimp only
  split
  · refine attempt_bind (blind_playUnit w _ _) fun unit => ?_
    refine blind_attempt_get (fun _ _ => rfl) fun s => ?_
    split
    · exact hrecord _
    · exact attempt_bind (attempt_lift (blind_addInterruptChoices w _)) fun _ =>
        hrecord _
  · exact attempt_throw _

/-- Taking a choice is blind to the dice. -/
theorem blind_choose (w : World) (index : Nat) : (blind Story).AllowsAttempt (choose w index) := by
  refine blind_attempt_get (fun _ _ => rfl) fun s => ?_
  split
  · exact attempt_throw _
  · exact attempt_bind (blind_attempt_modify fun _ _ => rfl) fun _ =>
      attempt_lift (blind_settle w)

/-- The texts of choices are blind to the dice. -/
theorem blind_choiceTexts (w : World) (is : List NodeId) :
    (blind Story).Allows (choiceTexts w is) := by
  induction is with
  | nil => exact (blind Story).pure _
  | cons i rest ih =>
    exact (blind Story).bind (blind_shownText w i) fun _ => returning ih _

/-- The texts of the pending choices are blind to the dice. -/
theorem blind_pendingTexts (w : World) : (blind Story).Allows (pendingTexts w) :=
  blind_get (fun _ _ => rfl) fun _ => blind_choiceTexts w _

/-- Looking for a comment to show is blind to the dice. -/
theorem blind_commentFrom (w : World) (position : Nat) (is : List NodeId) :
    (blind Story).Allows (commentFrom w position is) := by
  induction is generalizing position with
  | nil => exact (blind Story).pure _
  | cons i rest ih =>
    refine blind_get (fun _ _ => rfl) fun s => ?_
    split
    · refine (blind Story).bind (blind_think fun _ _ hctx => hctx.allHold _) fun holds => ?_
      split
      · split
        · exact (blind Story).bind (blind_modify fun _ _ => rfl) fun _ =>
            returning (blind_shownText w i) _
        · exact returning (blind_shownText w i) _
      · exact ih _
    · exact ih _

/-- The comment to show is blind to the dice. -/
theorem blind_currentComment (w : World) : (blind Story).Allows (currentComment w) :=
  blind_get (fun _ _ => rfl) fun _ => blind_commentFrom w 0 _

/-- Storing a variable is blind to the dice. -/
theorem blind_assign (host : Host) (name : String) (value : Value) :
    (blind Story).Allows (modify fun s => s.assign host name value) :=
  blind_modify fun s d => congrArg (fun m => { s with memory := m })
    ((s.stage host).assign_withDice s.memory name value d)

/-- Whatever is asked of a story, its course depends on the dice only where numbers are drawn. -/
theorem blind_perform (w : World) {action : Action} (h : action.isUndisturbed = true) :
    (blind Story).Allows (perform w action) := by
  cases action with
  | advance => exact returning (blind_advance w) _
  | choose index => exact returning (blind_choose w index) _
  | setVariable name value => exact returning (blind_assign w.host name value) _
  | pendingChoices => exact returning (blind_pendingTexts w) _
  | currentComment => exact returning (blind_currentComment w) _
  | addInterrupt i => cases h

/-- A course of actions that leaves the dice alone is blind to them. -/
theorem blind_performAll (w : World) {actions : List Action}
    (h : ∀ a ∈ actions, a.isUndisturbed = true) : (blind Story).Allows (performAll w actions) := by
  induction actions with
  | nil => exact (blind Story).pure _
  | cons action rest ih =>
    refine (blind Story).bind (blind_perform w (h action List.mem_cons_self)) fun _ => ?_
    exact returning (ih fun a ha => h a (List.mem_cons_of_mem _ ha)) _

end Story

end Narrative
