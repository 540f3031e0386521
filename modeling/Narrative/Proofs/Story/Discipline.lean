import Narrative.Proofs.Content.Tree
import Narrative.Proofs.Expr.Discipline

/-!
# What statements and functions inherit from changes of the memory

Executing a statement and calling a function of the story read the memory and change it in few ways.
A property of computations that those ways have holds of every statement, of every call, however
deep, and so of every expression that is evaluated at a place of the story.
-/

namespace Narrative

/-- The ways in which statements and functions read and change the memory have the property. A block
is visited as soon as its option is chosen, and a function as soon as its parameters are bound. -/
structure Discipline.Governs (D : Discipline Memory) (c : Content) : Prop where
  /-- Looking up which names are known. -/
  names (s : Stage) : s.content = c →
    D.Allows (do return Names.mk (s.hasVariable (← get)) s.hasFunction)
  /-- Looking up the value of a name. -/
  value (s : Stage) (name : String) : s.content = c → D.Allows (do return s.valueOf (← get) name)
  /-- Looking up a reference. -/
  address (s : Stage) (address : String) : s.content = c →
    D.Allows (do return s.address? (← get) address)
  /-- Looking up the number of visits of a node. -/
  count (i : NodeId) : D.Allows (do return ((← get).mark i).count)
  /-- Looking up the nodes that play goes through inside a node. -/
  children (i : NodeId) : D.Allows (do return (← get).children c i)
  /-- Drawing a random number. -/
  draw (source : RandomSource) (bound : Nat) : D.Allows fun m =>
    some ((m.dice.roll source bound).1, { m with dice := (m.dice.roll source bound).2 })
  /-- Storing a variable. -/
  assign (s : Stage) (name : String) (v : Value) : s.content = c →
    D.Allows (modify fun m => s.assign m name v)
  /-- Counting a visit of a text. -/
  visit (i : NodeId) : (c.node i).kind = .text → D.Allows (modify (·.visit i))
  /-- Choosing the option of a block in the body of a function and visiting it. -/
  select (i : NodeId) (selection : Nat) : (c.node i).isBlock = true → c.Called i →
    D.Allows (modify fun m => (m.select i selection).visit i)
  /-- Binding the parameters of a function and visiting it. -/
  bind (i : NodeId) (args : List Value) : (c.node i).isFunction = true →
    (c.node i).params.length = args.length →
    D.Allows (modify fun m => (m.bind i (c.node i).params args).visit i)
  /-- Not finishing. -/
  unfinished {α : Type} : D.Allows (Run.unfinished : Run Memory α)

/-- The nodes that are played inside while the body of a function is: the function at the place, and
the blocks in its body. -/
inductive Stage.Reaches (s : Stage) : NodeId → Prop
  /-- The function. -/
  | function {f : NodeId} : s.here = some f → (s.content.node f).isFunction = true → Reaches s f
  /-- A block in what is played. -/
  | block {p i : NodeId} :
      Reaches s p → i ∈ (s.content.node p).listed → (s.content.node i).isBlock = true → Reaches s i

namespace Stage.Reaches

variable {s : Stage} {i : NodeId}

/-- What statements reach is called. -/
theorem called (h : s.Reaches i) : s.content.Called i := by
  induction h with
  | function _ hf => exact .function hf
  | block _ hlisted hblock ih => exact .block ih hlisted hblock

/-- What is reached hangs under the function at the place. -/
theorem mem_lineage (hs : s.content.Tree) (h : s.Reaches i) {f : NodeId} (hf : s.here = some f) :
    f ∈ s.content.lineage i := by
  induction h with
  | function hhere _ =>
    rw [hf] at hhere
    cases hhere
    exact s.content.mem_lineage_self f
  | block _ hlisted _ ih =>
    exact hs.descends.mem_lineage_trans (hs.descends.parent_mem (hs.parent_of_listed hlisted)) ih

end Stage.Reaches

/-- The ways in which statements at a place read and change the memory have the property. -/
structure Discipline.Executes (D : Discipline Memory) (s : Stage) : Prop where
  /-- Looking up which names are known. -/
  names : D.Allows (do return Names.mk (s.hasVariable (← get)) s.hasFunction)
  /-- Looking up the value of a name. -/
  value (name : String) : D.Allows (do return s.valueOf (← get) name)
  /-- Looking up a reference. -/
  address (address : String) : D.Allows (do return s.address? (← get) address)
  /-- Drawing a random number. -/
  draw (bound : Nat) : D.Allows fun m =>
    some ((m.dice.roll s.host.random bound).1,
      { m with dice := (m.dice.roll s.host.random bound).2 })
  /-- Storing a variable. -/
  assign (name : String) (v : Value) : D.Allows (modify fun m => s.assign m name v)

/-- The ways in which statements and texts at a place read and change the memory have the property.
Texts and blocks are visited only in what is played there. -/
structure Discipline.GovernsAt (D : Discipline Memory) (s : Stage) : Prop
    extends D.Executes s where
  /-- Looking up the number of visits of a node. -/
  count (i : NodeId) : D.Allows (do return ((← get).mark i).count)
  /-- Looking up the nodes that play goes through inside a node. -/
  children (i : NodeId) : D.Allows (do return (← get).children s.content i)
  /-- Counting a visit of a text. -/
  visit {p : NodeId} (i : NodeId) : (s.content.node i).kind = .text → s.Reaches p →
    i ∈ (s.content.node p).listed → D.Allows (modify (·.visit i))
  /-- Choosing the option of a block in the body of a function and visiting it. -/
  select (i : NodeId) (selection : Nat) : (s.content.node i).isBlock = true → s.Reaches i →
    D.Allows (modify fun m => (m.select i selection).visit i)
  /-- Not finishing. -/
  unfinished {α : Type} : D.Allows (Run.unfinished : Run Memory α)

/-- What playing a text of a function body does: it is visited, and its directives are resolved for
the number of visits before. -/
def Stage.utter (s : Stage) (ctx : Context Memory) (i : NodeId) : Run Memory (List Char) := do
  let count := ((← get).mark i).count
  modify (·.visit i)
  Directive.expand ctx count (s.content.node i).text.toList

/-- What statements, texts and blocks at a place do has the property, that of a text and of a block as
a whole. Texts and blocks are visited only in what is played there. -/
structure Discipline.Performs (D : Discipline Memory) (s : Stage) (ctx : Context Memory) : Prop where
  /-- What statements do. -/
  executes : D.Executes s
  /-- What expressions ask. -/
  obeys : ctx.Obeys D
  /-- Looking up the nodes that play goes through inside a node. -/
  children (i : NodeId) : D.Allows (do return (← get).children s.content i)
  /-- Playing a text. -/
  utter {p i : NodeId} : (s.content.node i).kind = .text → s.Reaches p →
    i ∈ (s.content.node p).listed → D.Allows (s.utter ctx i)
  /-- Choosing the option of a block and visiting it. -/
  select {i : NodeId} : (s.content.node i).isBlock = true → s.Reaches i →
    D.Allows (do s.selectOption ctx i; modify (·.visit i))
  /-- Not finishing. -/
  unfinished {α : Type} : D.Allows (Run.unfinished : Run Memory α)

namespace Discipline.Executes

open Discipline

variable {D : Discipline Memory} {s : Stage} (h : D.Executes s) {ctx : Context Memory}
  (hctx : ctx.Obeys D)

include h

/-- Contexts with which functions are called in a way that has the property. -/
theorem contextWith {call : String → List Value → Eval Memory Value}
    (hcall : ∀ name args, D.AllowsAttempt (call name args)) : (s.contextWith call).Obeys D where
  names := h.names
  value := h.value
  call := hcall
  draw := h.draw

omit h in
include hctx in
/-- Evaluating an expression is allowed for. -/
theorem evaluate (source : String) (line : Nat) :
    D.AllowsAttempt (Stage.evaluate ctx source line) := by
  refine D.bind (D.bind (hctx.evalText source.toList) fun _ => D.pure _) fun r => ?_
  obtain _ | ⟨_ | _⟩ := r <;> exact D.pure _

/-- Taking a reference is allowed for. -/
theorem refer (declaration address : String) (line : Nat) :
    D.AllowsAttempt (s.refer declaration address line) := by
  refine attempt_consult (h.address address) (fun m m' e => by simp only [e]) fun m => ?_
  split
  · exact attempt_pure _
  · exact attempt_throw _

include hctx

/-- Finding the value of a declaration is allowed for. -/
theorem initialValue (name : String) (line : Nat) (init : Initializer) :
    D.AllowsAttempt (s.initialValue ctx name line init) := by
  cases init with
  | bool | number | str => exact attempt_pure _
  | divert address => exact h.refer _ address line
  | expr source => exact evaluate hctx source line

/-- Finding the value of an assignment is allowed for. -/
theorem assignedValue (name source : String) (line : Nat) :
    D.AllowsAttempt (s.assignedValue ctx name source line) := by
  unfold Stage.assignedValue
  split
  · exact h.refer _ _ line
  · exact evaluate hctx source line

/-- Executing a statement is allowed for. -/
theorem execute (line : Nat) (t : Statement) : D.AllowsAttempt (s.execute ctx line t) := by
  cases t with
  | declare name init =>
    exact attempt_bind (h.initialValue hctx name line init) fun v => attempt_lift (h.assign name v)
  | assign name source =>
    have hknown := derive h.names (·.hasVariable name)
    have hstore := attempt_bind (h.assignedValue hctx name source line) fun v =>
      attempt_lift (h.assign name v)
    refine attempt_consult hknown (fun m m' e => ?_) fun m => ?_
    · simp only at e
      simp only [e]
    · simp only
      split
      · exact hstore
      · exact attempt_bind (attempt_throw _) fun _ => hstore
  | eval source => exact attempt_bind (evaluate hctx source line) fun _ => attempt_pure _
  | result source => exact attempt_pure _

end Discipline.Executes

namespace Discipline.Performs

open Discipline

variable {D : Discipline Memory} {s : Stage} {ctx : Context Memory} (h : D.Performs s ctx)

include h

/-- Playing a node of a function body has the property when playing the options of blocks has it. -/
theorem playLine {block : NodeId → Act (Option Value)}
    (hblock : ∀ i, s.Reaches i → D.AllowsAttempt (block i)) {p i : NodeId} (hp : s.Reaches p)
    (hi : i ∈ (s.content.node p).listed) : D.AllowsAttempt (s.playLine ctx block i) := by
  unfold Stage.playLine
  simp only
  split
  · next hkind =>
    have hwhole : D.AllowsAttempt (do
        let text ← (ExceptT.lift (s.utter ctx i) : Act (List Char))
        return some (Value.str (String.ofList (Text.cleanUp text)))) :=
      attempt_bind (attempt_lift (h.utter hkind hp hi)) fun _ => attempt_pure _
    exact hwhole
  · exact attempt_pure _
  · exact attempt_bind (Executes.evaluate h.obeys _ _) fun _ => attempt_pure _
  · exact attempt_bind (h.executes.execute h.obeys _ _) fun _ => attempt_pure _
  · next hkind =>
    have hisBlock : (s.content.node i).isBlock = true := by rw [Node.isBlock, hkind]
    have hreached : s.Reaches i := hp.block hi hisBlock
    have hwhole := attempt_bind (attempt_lift (h.select hisBlock hreached))
      fun _ => hblock i hreached
    rw [ExceptT.lift_bind, bind_assoc] at hwhole
    exact hwhole
  · exact attempt_pure _

/-- Playing the lines of a function is allowed for. -/
theorem playLines {block : NodeId → Act (Option Value)}
    (hblock : ∀ i, s.Reaches i → D.AllowsAttempt (block i)) {p : NodeId} (hp : s.Reaches p)
    {is : List NodeId} (his : ∀ i ∈ is, i ∈ (s.content.node p).listed) :
    D.AllowsAttempt (s.playLines ctx block is) := by
  induction is with
  | nil => exact attempt_pure _
  | cons i is ih =>
    refine attempt_bind (h.playLine hblock hp (his i List.mem_cons_self)) fun v => ?_
    cases v with
    | some v => exact attempt_pure _
    | none => exact ih fun j hj => his j (List.mem_cons_of_mem _ hj)

/-- What is played inside a node that is reached has the property: blocks in it are reached, too. -/
theorem playBody (nesting : Nat) {i : NodeId} (hi : s.Reaches i) :
    D.AllowsAttempt (s.playBody ctx nesting i) := by
  induction nesting generalizing i with
  | zero => exact attempt_lift h.unfinished
  | succ nesting ih =>
    refine attempt_consult (h.children i) (fun m m' e => by simp only [e]) fun m => ?_
    exact h.playLines (fun _ => ih) hi fun j => Node.mem_listed_of_mem_childrenAt

/-- Calling a function has the property when binding its parameters has it. -/
theorem callFunction {f : NodeId} (hhere : s.here = some f)
    (hf : (s.content.node f).isFunction = true) (args : List Value)
    (hbind : (s.content.node f).params.length = args.length →
      D.Allows (modify fun m => (m.bind f (s.content.node f).params args).visit f)) :
    D.AllowsAttempt (s.callFunction ctx f args) := by
  unfold Stage.callFunction
  simp only
  split
  · next hlength =>
    refine attempt_bind (attempt_lift (hbind hlength)) fun _ => ?_
    refine D.bind (D.bind (h.playBody _ (.function hhere hf)) fun _ => D.pure _) fun r => ?_
    obtain _ | ⟨_ | _⟩ := r <;> exact D.pure _
  · exact attempt_throw _

end Discipline.Performs

namespace Discipline.GovernsAt

open Discipline

variable {D : Discipline Memory} {s : Stage} (h : D.GovernsAt s) {ctx : Context Memory}
  (hctx : ctx.Obeys D)

include h hctx

/-- Choosing the option of a block and visiting it is one change of the memory after the option has
been found. -/
theorem selectOption_visit {i : NodeId} (hi : (s.content.node i).isBlock = true)
    (hreached : s.Reaches i) : D.Allows (do s.selectOption ctx i; modify (·.visit i)) := by
  unfold Node.isBlock at hi
  split at hi
  · next mode options hkind =>
    rw [Stage.selectOption, hkind]
    simp only [bind_assoc]
    refine consult (h.count i) (fun m m' e => by simp only [e]) fun m => ?_
    refine D.bind (hctx.chooseOption mode options _) fun selection => ?_
    exact h.select i selection (by rw [Node.isBlock, hkind]) hreached
  · cases hi

/-- Whatever reading and changing the memory has, playing texts and blocks has. -/
theorem performs : D.Performs s ctx where
  executes := h.toExecutes
  obeys := hctx
  children := h.children
  utter {p i} hkind hp hi := consult (h.count i) (fun m m' e => by simp only [e]) fun _ =>
    D.bind (h.visit i hkind hp hi) fun _ => hctx.expand _ _
  select := h.selectOption_visit hctx
  unfinished := h.unfinished

/-- Playing the body of a function is allowed for. -/
theorem playBody (nesting : Nat) {i : NodeId} (hi : s.Reaches i) :
    D.AllowsAttempt (s.playBody ctx nesting i) :=
  (h.performs hctx).playBody nesting hi

end Discipline.GovernsAt

namespace Discipline.Governs

open Discipline

variable {D : Discipline Memory} {c : Content} (h : D.Governs c) {s : Stage}

include h

/-- What holds at every place of a content holds at each of them. -/
theorem at_stage (hs : s.content = c) : D.GovernsAt s where
  names := h.names s hs
  value name := h.value s name hs
  address address := h.address s address hs
  count := h.count
  children := hs ▸ h.children
  draw := h.draw s.host.random
  assign name v := h.assign s name v hs
  visit i hi _ _ := h.visit i (hs ▸ hi)
  select i selection hi hreached := h.select i selection (hs ▸ hi) (hs ▸ hreached.called)
  unfinished := h.unfinished

/-- A statement is allowed for by what governs the content. -/
theorem execute (hs : s.content = c) {ctx : Context Memory} (hctx : ctx.Obeys D) (line : Nat)
    (t : Statement) : D.AllowsAttempt (s.execute ctx line t) :=
  (h.at_stage hs).execute hctx line t

/-- Calling a function has the property, however deep the calls nest. -/
theorem call (hs : s.content = c) (depth : Nat) (name : String) (args : List Value) :
    D.AllowsAttempt (Stage.call depth s name args) := by
  induction depth generalizing s name args with
  | zero => exact attempt_lift h.unfinished
  | succ depth ih =>
    rw [Stage.call]
    split
    · next f hf =>
      obtain ⟨_, hisFunction⟩ := Option.filter_eq_some_iff.1 hf
      rw [hs] at hisFunction
      have hinner : ({ s with here := some f } : Stage).content = c := hs
      have hat := h.at_stage hinner
      exact (hat.performs (hat.contextWith (ih hinner))).callFunction rfl (hs ▸ hisFunction) args
        fun hlength => hs ▸ h.bind f args hisFunction (hs ▸ hlength)
    · cases hbuiltin : (s.contextWith (Stage.call depth s)).callBuiltin? name args with
      | none => exact attempt_throw _
      | some x => exact ((h.at_stage hs).contextWith (ih hs)).callBuiltin hbuiltin

/-- Whatever is asked of the context at a place of the story has the property. -/
theorem context (hs : s.content = c) (depth : Nat) : (s.context depth).Obeys D :=
  (h.at_stage hs).contextWith (h.call hs depth)

end Discipline.Governs

end Narrative
