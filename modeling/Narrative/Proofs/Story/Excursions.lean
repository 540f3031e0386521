import Narrative.Proofs.Expr.Accord
import Narrative.Story.Basic

/-!
# Calls that move the cursor

A call of a function can be played on the story itself: the cursor is moved into the function, the
body is played there, and the cursor is put back where it was. Evaluation at a place, which leaves
the cursor alone because it has no access to it, does the same: it has the same results and changes
the same memory, and the cursor is where it was whether the call succeeds or fails.
-/

namespace Narrative

/-- A computation on a story that may stop with an error of the story, while a function is called. -/
abbrev Excursion := ExceptT StoryError (Run Story)

namespace Story

/-! ## Expressions on the story itself -/

/-- Does something with the cursor moved into a node, and puts the cursor back. -/
def away {α : Type} (f : NodeId) (x : Run Story α) : Run Story α := do
  let s ← get
  modify ({ · with container := some f })
  let a ← x
  modify ({ · with container := s.container, index := s.index })
  return a

section Live

variable (w : World)

/-- Does something to the memory where the cursor is. -/
def remember (host : Host) (f : Stage → Memory → Memory) (s : Story) : Story :=
  { s with memory := f (s.stage host) s.memory }

/-- The context for expressions at the cursor, with a way to call functions. -/
def liveContextWith (call : String → List Value → Eval Story Value) : Context Story where
  names s :=
    { hasVariable := (s.stage w.host).hasVariable s.memory
      hasFunction := (s.stage w.host).hasFunction }
  value s name := (s.stage w.host).valueOf s.memory name
  call := call
  method := w.host.method
  roll bound s :=
    let (index, dice) := s.memory.dice.roll w.host.random bound
    (index, { s with memory := { s.memory with dice } })

/-- Chooses the option of a block for this visit; other nodes have none. -/
def liveSelectOption (ctx : Context Story) (i : NodeId) : Run Story Unit := do
  match ((← get).node i).kind with
  | .block mode options =>
    let selection ← ctx.chooseOption mode options ((← get).memory.mark i).count
    modify (remember w.host fun _ m => m.select i selection)
  | _ => return

/-- The value of an expression in a statement. -/
def liveEvaluate (ctx : Context Story) (source : String) (line : Nat) : Excursion Value := do
  match ← (ctx.evalText source.toList).run with
  | .ok v => return v
  | .error e => throw (.expr source line e)

/-- The reference that a declaration or assignment names. -/
def liveRefer (declaration address : String) (line : Nat) : Excursion Value := do
  let s ← get
  match (s.stage w.host).address? s.memory address with
  | some v => return v
  | none => throw (.invalidAddress declaration address line)

/-- The value that a declaration gives its variable. -/
def liveInitialValue (ctx : Context Story) (name : String) (line : Nat) :
    Initializer → Excursion Value
  | .bool b => return .bool b
  | .number n => return .number n
  | .str t => return .str t
  | .divert address => liveRefer w (name ++ " = -> " ++ address) address line
  | .expr source => liveEvaluate ctx source line

/-- The value of the right-hand side of an assignment. -/
def liveAssignedValue (ctx : Context Story) (name source : String) (line : Nat) :
    Excursion Value :=
  match Stage.reference? (String.ofList (Text.trim source.toList)) with
  | some address => liveRefer w (name ++ " = " ++ source) address line
  | none => liveEvaluate ctx source line

/-- Executes a statement. Outside of a function a return does nothing. -/
def liveExecute (ctx : Context Story) (line : Nat) : Statement → Excursion Unit
  | .declare name init => do
    let v ← liveInitialValue w ctx name line init
    modify (remember w.host fun stage m => stage.assign m name v)
  | .assign name source => do
    let s ← get
    unless (s.stage w.host).hasVariable s.memory name do throw (.undefinedVariable name line)
    let v ← liveAssignedValue w ctx name source line
    modify (remember w.host fun stage m => stage.assign m name v)
  | .eval source => discard <| liveEvaluate ctx source line
  | .result _ => return

/-- Plays a node of a function body, where `block` plays the chosen option of a block. A value
ends the body. -/
def livePlayLine (ctx : Context Story) (block : NodeId → Excursion (Option Value)) (i : NodeId) :
    Excursion (Option Value) := do
  let n := (← get).node i
  match n.kind with
  | .text =>
    let count := ((← get).memory.mark i).count
    modify (remember w.host fun _ m => m.visit i)
    let text ← Directive.expand ctx count n.text.toList
    return some (.str (String.ofList (Text.cleanUp text)))
  | .statement (.result none) => return some (.str "")
  | .statement (.result (some source)) => return some (← liveEvaluate ctx source n.line)
  | .statement t =>
    liveExecute w ctx n.line t
    return none
  | .block .. =>
    liveSelectOption w ctx i
    modify (remember w.host fun _ m => m.visit i)
    block i
  | _ => return none

/-- Plays nodes of a function body until one gives a value. -/
def livePlayLines (ctx : Context Story) (block : NodeId → Excursion (Option Value)) :
    List NodeId → Excursion (Option Value)
  | [] => return none
  | i :: rest => do
    match ← livePlayLine w ctx block i with
    | some v => return some v
    | none => livePlayLines ctx block rest

/-- Plays the body of a function or of a block in one, where blocks nest to a limited depth. -/
def livePlayBody (ctx : Context Story) : (nesting : Nat) → NodeId → Excursion (Option Value)
  | 0, _ => ExceptT.lift Run.unfinished
  | nesting + 1, i => do
    livePlayLines w ctx (livePlayBody ctx nesting) ((← get).children i)

/-- Calls a function of the story: binds its parameters, counts the visit, and plays the body with
the cursor in the function. The cursor is put back whatever the body comes to. -/
def liveCallFunction (ctx : Context Story) (f : NodeId) (args : List Value) :
    Eval Story Value := do
  let n := (← get).node f
  if n.params.length = args.length then
    modify (remember w.host fun _ m => (m.bind f n.params args).visit f)
    let size := (← get).content.size
    match ← (away f (livePlayBody w ctx (size + 1) f) : Run Story (Except StoryError _)) with
    | .ok v => return v.getD (.str "")
    | .error e => throw (.function n.id e.message)
  else throw (.arity n.id n.params.length args.length)

/-- Calls a function of the story or of the language, where calls nest to the given depth. -/
def liveCall : (depth : Nat) → String → List Value → Eval Story Value
  | 0, _, _ => ExceptT.lift Run.unfinished
  | depth + 1, name, args => do
    match ((← get).stage w.host).function? name with
    | some f => liveCallFunction w (liveContextWith w (liveCall depth)) f args
    | none =>
      ((liveContextWith w (liveCall depth)).callBuiltin? name args).getD
        (throw (.unknownIdentifier name))

/-- The context for expressions at the cursor, where calls nest as deeply as the world allows. -/
def liveContext : Context Story :=
  liveContextWith w (liveCall w w.depth)

end Live

/-! ## The cursor after a call -/

/-- Computations on the memory and on a story with that memory: both end or none does, and the
memory is all of the story that changes. -/
def remembering (base : Story) : Coupling Memory Story :=
  .exact fun m s => s = { base with memory := m }

section Remembering

open Coupling

variable {w : World} {base : Story} {ctx : Context Memory} {live : Context Story}

/-- The contexts answer alike about everything. -/
abbrev Answers (base : Story) (ctx : Context Memory) (live : Context Story) : Prop :=
  ctx.Accords base.remembering Eq (fun _ => True) (fun _ => True) live

variable {α : Type} {Q : α → α → Prop}

/-- An excursion begins in the function, and the cursor is put back at its end. -/
theorem away_apply (f : NodeId) (y : Run Story α) (s : Story) : away f y s =
    (y { s with container := some f }).map fun (a, t) =>
      (a, { t with container := s.container, index := s.index }) := by
  change (y { s with container := some f }).bind (fun r => some (r.1, _)) = _
  cases y { s with container := some f } <;> rfl

/-- What is done away from the cursor leaves the cursor alone. -/
theorem couples_away {f : NodeId} {x : Run Memory α} {y : Run Story α}
    (h : ({ base with container := some f } : Story).remembering.Couples Q x y) :
    base.remembering.Couples Q x (away f y) := by
  rintro m s rfl
  have hrel := h m { base with container := some f, memory := m } rfl
  rw [away_apply]
  generalize hx : x m = p, hy : y { base with container := some f, memory := m } = q at hrel
  cases hrel with
  | none => exact .none
  | @some p q hpq =>
    obtain ⟨hab, ht⟩ := hpq
    refine .some ⟨hab, ?_⟩
    change ({ q.2 with container := base.container, index := base.index } : Story) = _
    rw [ht]

/-- The memory is met by the story that has it in place of its own. -/
theorem meets_iff {m : Memory} {s : Story} :
    base.remembering.Meets m s ↔ s = { base with memory := m } :=
  .rfl

/-- The memory is changed alike. -/
theorem meets_remember {f : Stage → Memory → Memory} {g : Memory → Memory}
    (hfg : ∀ m, f (base.stage w.host) m = g m) (m : Memory) (s : Story)
    (h : base.remembering.Meets m s) : base.remembering.Meets (g m) (remember w.host f s) := by
  obtain rfl := meets_iff.1 h
  change ({ base with memory := f (base.stage w.host) m } : Story) = { base with memory := g m }
  rw [hfg]

variable (h : base.Answers ctx live)

include h

/-- The same option of a block is selected where the cursor moves. -/
theorem couples_selectOption (i : NodeId) :
    base.remembering.Couples Eq ((base.stage w.host).selectOption ctx i)
      (liveSelectOption w live i) := by
  refine consult_right fun m s hms => ?_
  obtain rfl := meets_iff.1 hms
  change base.remembering.Couples Eq (match (base.node i).kind with
    | .block mode options => _
    | _ => _) (match (base.node i).kind with
    | .block mode options => _
    | _ => _)
  split
  · next mode options _ =>
    refine base.remembering.consult fun m s hms => ?_
    obtain rfl := meets_iff.1 hms
    refine base.remembering.bind (h.chooseOption rfl fun o _ source _ _ _ => trivial) ?_
    rintro selection _ rfl
    exact base.remembering.change (meets_remember fun m => rfl)
  · exact base.remembering.pure rfl

/-- An expression has the same value there. -/
theorem couples_evaluate (source : String) (line : Nat) :
    base.remembering.CouplesAttempt Eq Eq (Stage.evaluate ctx source line)
      (liveEvaluate live source line) := by
  refine attempt_bind (Q := Outcomes Eq (Value.Same fun _ => True)) (attempt_lift
    (h.evalText fun _ _ => trivial)) fun _ _ hr => hr.elim ?_ ?_
  · rintro v _ ⟨-, rfl⟩
    exact attempt_pure rfl
  · rintro e _ rfl
    exact attempt_throw rfl

omit h in
/-- A reference is taken alike there. -/
theorem couples_refer (declaration address : String) (line : Nat) :
    base.remembering.CouplesAttempt Eq Eq ((base.stage w.host).refer declaration address line)
      (liveRefer w declaration address line) := by
  refine attempt_consult fun m s hms => ?_
  obtain rfl := meets_iff.1 hms
  change base.remembering.CouplesAttempt Eq Eq
    (match (base.stage w.host).address? m address with
      | some v => _
      | none => _)
    (match (base.stage w.host).address? m address with
      | some v => _
      | none => _)
  split
  · exact attempt_pure rfl
  · exact attempt_throw rfl

/-- A declaration gives the same value there. -/
theorem couples_initialValue (name : String) (line : Nat) (init : Initializer) :
    base.remembering.CouplesAttempt Eq Eq ((base.stage w.host).initialValue ctx name line init)
      (liveInitialValue w live name line init) := by
  unfold Stage.initialValue liveInitialValue
  cases init with
  | bool b => exact attempt_pure (a := Value.bool b) rfl
  | number n => exact attempt_pure (a := Value.number n) rfl
  | str t => exact attempt_pure (a := Value.str t) rfl
  | divert address => exact couples_refer (name ++ " = -> " ++ address) address line
  | expr source => exact couples_evaluate h source line

/-- An assignment gives the same value there. -/
theorem couples_assignedValue (name source : String) (line : Nat) :
    base.remembering.CouplesAttempt Eq Eq
      ((base.stage w.host).assignedValue ctx name source line)
      (liveAssignedValue w live name source line) := by
  unfold Stage.assignedValue liveAssignedValue
  generalize Stage.reference? (String.ofList (Text.trim source.toList)) = address?
  cases address? with
  | some address => exact couples_refer (name ++ " = " ++ source) address line
  | none => exact couples_evaluate h source line

/-- A statement does the same. -/
theorem couples_execute (line : Nat) (t : Statement) :
    base.remembering.CouplesAttempt Eq Eq ((base.stage w.host).execute ctx line t)
      (liveExecute w live line t) := by
  cases t with
  | declare name init =>
    refine attempt_bind (couples_initialValue h name line init) ?_
    rintro v _ rfl
    exact attempt_modify (meets_remember fun m => rfl)
  | assign name source =>
    refine attempt_consult fun m s hms => ?_
    obtain rfl := meets_iff.1 hms
    have hstage : ({ base with memory := m } : Story).stage w.host = base.stage w.host := rfl
    rw [hstage]
    by_cases hknown : (base.stage w.host).hasVariable m name = true
    · simp only [hknown, if_true]
      refine attempt_bind (couples_assignedValue h name source line) ?_
      rintro v _ rfl
      exact attempt_modify (meets_remember fun m => rfl)
    · simp only [hknown]
      exact attempt_throw rfl
  | eval source =>
    exact attempt_bind (couples_evaluate h source line) fun _ _ _ => attempt_pure rfl
  | result source? => exact attempt_pure rfl

variable {block : NodeId → Act (Option Value)} {live' : NodeId → Excursion (Option Value)}

/-- A node of a function body is played alike. -/
theorem couples_playLine
    (hblock : ∀ i, base.remembering.CouplesAttempt Eq Eq (block i) (live' i)) (i : NodeId) :
    base.remembering.CouplesAttempt Eq Eq ((base.stage w.host).playLine ctx block i)
      (livePlayLine w live live' i) := by
  refine consult_right fun m s hms => ?_
  obtain rfl := meets_iff.1 hms
  unfold Stage.playLine
  change base.remembering.CouplesAttempt Eq Eq (match (base.node i).kind with
    | .text => _
    | .statement (.result none) => _
    | .statement (.result (some source)) => _
    | .statement t => _
    | .block .. => _
    | _ => _) (match (base.node i).kind with
    | .text => _
    | .statement (.result none) => _
    | .statement (.result (some source)) => _
    | .statement t => _
    | .block .. => _
    | _ => _)
  split
  · refine attempt_consult fun m s hms => ?_
    obtain rfl := meets_iff.1 hms
    refine attempt_bind (attempt_modify (meets_remember fun m => rfl)) fun _ _ _ => ?_
    refine attempt_bind (attempt_lift (h.expand
      (Directive.asksBefore_of_all (fun source _ _ => trivial) _ _) _)) ?_
    rintro text _ rfl
    exact attempt_pure rfl
  · exact attempt_pure rfl
  · refine attempt_bind (couples_evaluate h _ _) ?_
    rintro v _ rfl
    exact attempt_pure rfl
  · exact attempt_bind (couples_execute h _ _) fun _ _ _ => attempt_pure rfl
  · refine attempt_bind (attempt_lift (couples_selectOption h i)) fun _ _ _ => ?_
    exact attempt_bind (attempt_modify (meets_remember fun m => rfl)) fun _ _ _ => hblock i
  · exact attempt_pure rfl

/-- The lines of a function are played alike there. -/
theorem couples_playLines
    (hblock : ∀ i, base.remembering.CouplesAttempt Eq Eq (block i) (live' i)) (is : List NodeId) :
    base.remembering.CouplesAttempt Eq Eq ((base.stage w.host).playLines ctx block is)
      (livePlayLines w live live' is) := by
  induction is with
  | nil => exact attempt_pure rfl
  | cons i rest ih =>
    refine attempt_bind (couples_playLine h hblock i) ?_
    rintro v _ rfl
    cases v with
    | some v => exact attempt_pure rfl
    | none => exact ih

/-- The body of a function is played alike. -/
theorem couples_playBody (nesting : Nat) (i : NodeId) :
    base.remembering.CouplesAttempt Eq Eq ((base.stage w.host).playBody ctx nesting i)
      (livePlayBody w live nesting i) := by
  induction nesting generalizing i with
  | zero => exact fun m s hms => .none
  | succ nesting ih =>
    refine attempt_consult fun m s hms => ?_
    obtain rfl := meets_iff.1 hms
    exact couples_playLines h ih _

end Remembering

section Calls

open Coupling

variable {w : World} {base : Story} {ctx : Context Memory} {live : Context Story}

/-- A call of a function of the story does the same with the cursor moved and put back. -/
theorem couples_callFunction {f : NodeId}
    (h : ({ base with container := some f } : Story).Answers ctx live) (args : List Value) :
    base.remembering.CouplesAttempt Eq Eq
      (({ base with container := some f } : Story).stage w.host |>.callFunction ctx f args)
      (liveCallFunction w live f args) := by
  refine consult_right fun m s hms => ?_
  obtain rfl := meets_iff.1 hms
  unfold Stage.callFunction
  change base.remembering.CouplesAttempt Eq Eq
    (if (base.node f).params.length = args.length then _ else _)
    (if (base.node f).params.length = args.length then _ else _)
  split
  · refine attempt_bind (attempt_modify (meets_remember fun m => rfl)) fun _ _ _ => ?_
    refine attempt_consult_right fun m s hms => ?_
    obtain rfl := meets_iff.1 hms
    refine attempt_bind (Q := Outcomes Eq Eq)
      (attempt_lift (couples_away (couples_playBody h _ f))) fun _ _ hr => hr.elim ?_ ?_
    · rintro v _ rfl
      exact attempt_pure rfl
    · rintro e _ rfl
      exact attempt_throw rfl
  · exact attempt_throw rfl

/-- Contexts answer alike when calls do the same. -/
theorem answers_contextWith {call : String → List Value → Eval Memory Value}
    {live : String → List Value → Eval Story Value}
    (hcall : ∀ name args, base.remembering.CouplesAttempt Eq Eq (call name args) (live name args)) :
    base.Answers ((base.stage w.host).contextWith call) (liveContextWith w live) where
  object _ _ := trivial
  plain _ := trivial
  error _ := rfl
  hasVariable h _ := by
    obtain rfl := meets_iff.1 h
    rfl
  hasFunction h _ := by
    obtain rfl := meets_iff.1 h
    rfl
  value h _ := by
    obtain rfl := meets_iff.1 h
    exact ⟨trivial, rfl⟩
  call _ _ := mono (hcall _ _) fun _ _ hr => hr.mono fun _ _ heq => ⟨trivial, heq.symm⟩
  method _ := ⟨rfl, fun _ _ => trivial⟩
  draw bound := by
    rintro m s rfl
    exact .some ⟨rfl, rfl⟩

/-- Calls do the same with the cursor moved and put back, wherever the cursor is. -/
theorem couples_call (depth : Nat) (name : String) (args : List Value) :
    base.remembering.CouplesAttempt Eq Eq (Stage.call depth (base.stage w.host) name args)
      (liveCall w depth name args) := by
  induction depth generalizing base name args with
  | zero => exact fun m s hms => .none
  | succ depth ih =>
    refine attempt_consult_right fun m s hms => ?_
    obtain rfl := meets_iff.1 hms
    unfold Stage.call
    change base.remembering.CouplesAttempt Eq Eq
      (match (base.stage w.host).function? name with | some f => _ | none => _)
      (match (base.stage w.host).function? name with | some f => _ | none => _)
    split
    · next f _ =>
      exact couples_callFunction (answers_contextWith ih) args
    · have hanswers : base.Answers ((base.stage w.host).contextWith
          (Stage.call depth (base.stage w.host))) (liveContextWith w (liveCall w depth)) :=
        answers_contextWith ih
      unfold Context.callBuiltin?
      cases Builtin.ofName? name with
      | none => exact attempt_throw rfl
      | some f =>
        refine mono (hanswers.callBuiltin fun _ m s hms => ?_) fun _ _ hr =>
          hr.mono fun _ _ heq => heq.2.symm
        obtain rfl := meets_iff.1 hms
        rfl

/-- The contexts at the cursor and on the story answer alike. -/
theorem answers_context (w : World) (base : Story) :
    base.Answers ((base.stage w.host).context w.depth) (liveContext w) :=
  answers_contextWith (couples_call w.depth)

/-- A computation on the memory does what the one on the story does that it corresponds to. -/
theorem think_eq_of_couples {α : Type} {f : Stage → Context Memory → Run Memory α}
    {x : Run Story α} (h : ∀ base : Story, base.remembering.Couples Eq
      (f (base.stage w.host) ((base.stage w.host).context w.depth)) x) : think w f = x := by
  funext s
  have hrel := h s s.memory s rfl
  change ((f (s.stage w.host) ((s.stage w.host).context w.depth)) s.memory).map
    (fun r => (r.1, ({ s with memory := r.2 } : Story))) = x s
  generalize f (s.stage w.host) ((s.stage w.host).context w.depth) s.memory = p, x s = q at hrel ⊢
  cases hrel with
  | none => rfl
  | some h =>
    obtain ⟨heq, hmemory⟩ := h
    exact congrArg some (Prod.ext heq hmemory.symm)

/-- An expression is evaluated with the cursor moved into each function that is called, and put back
after it. -/
theorem evaluate_eq_live (w : World) (source : String) :
    evaluate w source = ((liveContext w).evalText source.toList).run :=
  think_eq_of_couples fun base => mono ((answers_context w base).evalText fun _ _ => trivial)
    fun _ _ hr => (hr.mono fun _ _ hsame => hsame.2.symm).eq

/-- A condition holds just when it does where the cursor moves. -/
theorem holds_eq_live (w : World) (source : String) :
    holds w source = (liveContext w).holds source :=
  think_eq_of_couples fun base => (answers_context w base).holds fun _ _ => trivial

/-- Several conditions hold just when they do where the cursor moves. -/
theorem allHold_eq_live (w : World) (sources : List String) :
    think w (fun _ ctx => ctx.allHold sources) = (liveContext w).allHold sources :=
  think_eq_of_couples fun base => (answers_context w base).allHold fun _ _ _ _ => trivial

/-- The directives of a text are resolved with the cursor moved and put back. -/
theorem expand_eq_live (w : World) (count : Nat) (text : List Char) :
    think w (fun _ ctx => Directive.expand ctx count text) =
      Directive.expand (liveContext w) count text :=
  think_eq_of_couples fun base => (answers_context w base).expand
    (Directive.asksBefore_of_all (fun _ _ _ => trivial) _ _) count

/-- The option of a block is chosen with the cursor moved and put back. -/
theorem selectOption_eq_live (w : World) (i : NodeId) :
    think w (fun stage ctx => stage.selectOption ctx i) =
      liveSelectOption w (liveContext w) i :=
  think_eq_of_couples fun base => couples_selectOption (answers_context w base) i

/-- A statement is executed with the cursor moved and put back. -/
theorem execute_eq_live (w : World) (line : Nat) (t : Statement) :
    act w (fun stage ctx => stage.execute ctx line t) = liveExecute w (liveContext w) line t :=
  congrArg ExceptT.mk (think_eq_of_couples (f := fun stage ctx => (stage.execute ctx line t).run)
    fun base => mono (couples_execute (answers_context w base) line t) fun _ _ => Outcomes.eq)

/-- Whether a call succeeds or fails, the cursor is where it was behind it, and of the story nothing
but the memory has changed. -/
theorem cursor_of_liveCall {depth : Nat} {name : String} {args : List Value}
    {r : Except ExprError Value} {s t : Story} (h : liveCall w depth name args s = some (r, t)) :
    t = { s with memory := t.memory } := by
  have hcouples : s.remembering.CouplesAttempt Eq Eq (Stage.call depth (s.stage w.host) name args)
      (liveCall w depth name args) := couples_call depth name args
  have hrel := hcouples s.memory s rfl
  rw [h] at hrel
  generalize Stage.call depth (s.stage w.host) name args s.memory = p at hrel
  cases hrel with
  | @some p _ hcall =>
    have hmemory : t = { s with memory := p.2 } := hcall.2
    rw [hmemory]

end Calls

end Story

end Narrative
