import Narrative.Proofs.Story.Changes
import Narrative.Story.Play

/-!
# What a story can do in one move

Playing a story changes it in few ways. They are listed here once, each with what the program has
made sure of before, and the cursor is shown to come to rest by a chain of such moves. What holds of
all moves then holds of play, whatever the player does.
-/

namespace Narrative

open Relation

namespace Story

/-! ## Thoughts and moves -/

/-- A change of a story that leaves the cursor and the pending choices as they are. -/
inductive Thought (s : Story) : Story → Prop
  /-- Expressions are evaluated, or a statement is executed. -/
  | think {m : Memory} : Memory.Changes s.content s.memory m → Thought s { s with memory := m }
  /-- A text is played. -/
  | utter {i : NodeId} :
      (s.node i).kind = .text → Thought s { s with memory := s.memory.visit i }
  /-- A comment is collected. -/
  | note {i : NodeId} {once : Bool} {conditions : List String} :
      (s.node i).kind = .comment once conditions → Thought s (s.addComment i)
  /-- A comment that is shown once is forgotten. -/
  | forget (position : Nat) : Thought s { s with comments := s.comments.eraseIdx position }
  /-- An interrupt fires. -/
  | fire (position : Nat) (i : Interrupt) : Thought s (s.fire position i)

/-- Whether a choice is repeatable or its counter is at zero. -/
def Fresh (s : Story) (i : NodeId) : Prop :=
  ∀ conditions, (s.node i).kind = .choice false conditions → (s.memory.mark i).count = 0

/-- Whether play cannot go on: it waits for a choice, or it was ended by a divert, or its content
has ended, or the container is exhausted and no block. -/
def Halted (s : Story) : Prop :=
  s.processing = false ∨ s.running = false ∨ s.container = none ∨
    ∃ c, s.container = some c ∧ (s.node c).isBlock = false ∧ s.cursor? = none

/-- Where play may be led: to a node, or to the end of the story. -/
abbrev Route := Content → Option NodeId → Prop

/-- A move of a story, where `leads` says where diverts and choices may lead. -/
inductive Move (leads : Route) (s : Story) : Story → Prop
  /-- The cursor stays. -/
  | thought {t : Story} : s.Thought t → Move leads s t
  /-- The node at the cursor is entered, which is a block where choices are pending. -/
  | enter {i : NodeId} {m m' : Memory} :
      s.cursor? = some i → (s.choices = [] ∨ (s.node i).isBlock = true) →
      Memory.Changes s.content s.memory m → Memory.Readies s.content i m m' →
      Move leads s ({ s with memory := m' }.moveInto i)
  /-- Play converges on a gather. -/
  | land {c i : NodeId} {m m' : Memory} :
      s.container = some c → s.choices = [] → s.landing? c = some (.gather i) →
      Memory.Changes s.content s.memory m → Memory.Readies s.content i m m' →
      Move leads s ({ s with memory := m' }.moveInto i)
  /-- Play converges on a choice. -/
  | converge {c parent : NodeId} {position : Nat} :
      s.container = some c → s.choices = [] → s.landing? c = some (.choice parent position) →
      Move leads s { s with container := some parent, index := position }
  /-- An exhausted block is left. -/
  | leave {c : NodeId} :
      s.container = some c → (s.node c).isBlock = true → s.cursor? = none →
      Move leads s (s.leaveBlock c)
  /-- The content ends. -/
  | runOut : s.choices = [] → Move leads s s.runOut
  /-- Play waits for a choice. -/
  | wait : s.choices ≠ [] → Move leads s { s with processing := false }
  /-- A node is passed. -/
  | pass : Move leads s { s with index := s.index + 1 }
  /-- The choice at the cursor is offered, and passed. -/
  | offer {i : NodeId} {m : Memory} :
      s.hasMore = true → s.cursor? = some i → (s.node i).isChoice = true →
      (s.node i).isFallback = false → s.Fresh i → Memory.Changes s.content s.memory m →
      Move leads s ({ s with memory := m, choices := s.choices ++ [i] }.pass i)
  /-- The fallback choice at the cursor is met where no other choice is pending. -/
  | fallBack {i : NodeId} {m : Memory} :
      s.cursor? = some i → (s.node i).isFallback = true → s.choices = [] →
      Memory.Changes s.content s.memory m →
      Move leads s { s with container := some i, index := 0, memory := m.visit i }
  /-- A divert ends the story. -/
  | finish : s.processing = true → leads s.content none → Move leads s s.finish
  /-- A divert leads to a node. -/
  | divert {i : Nat} {m m' : Memory} :
      s.processing = true → leads s.content (some i) → i < s.content.size →
      Memory.Changes s.content s.memory m → Memory.Readies s.content i m m' →
      Move leads s { ({ s with memory := m' }.moveInto i) with choices := [] }
  /-- The player takes a choice. -/
  | take {i : NodeId} : i ∈ s.choices → leads s.content (some i) → Move leads s (s.take i)
  /-- An interrupt offers its choice in front of the others, where play has halted. -/
  | interpose {k : Interrupt} {i : NodeId} {m : Memory} :
      s.Halted → k ∈ s.interrupts → k.kind = .choice → s.content.find? k.id = some i →
      (s.node i).isChoice = true → s.Fresh i → i ∉ s.choices →
      Memory.Changes s.content s.memory m →
      Move leads s { s with memory := m, choices := i :: s.choices }

/-- Diverts and choices may lead anywhere. -/
def anywhere : Route :=
  fun _ _ => True

/-- A chain of thoughts. -/
def Thinks : Story → Story → Prop :=
  ReflTransGen Thought

/-- A chain of moves. -/
def Moves (leads : Route) : Story → Story → Prop :=
  ReflTransGen (Move leads)

/-- Every chain of thoughts is a chain of moves. -/
theorem Thinks.moves {leads : Route} {s t : Story} (h : s.Thinks t) :
    s.Moves leads t :=
  ReflTransGen.mono (fun _ _ => Move.thought) s t h

/-- Wherever a computation ends, steps of the given kind lead there. -/
def Plays {α : Type} (step : Story → Story → Prop) (x : Run Story α) (s : Story) : Prop :=
  ∀ a t, x s = some (a, t) → ReflTransGen step s t

/-- The same for a computation that may fail, also where it does. -/
abbrev PlaysAttempt {ε α : Type} (step : Story → Story → Prop) (x : Attempt ε Story α)
    (s : Story) : Prop :=
  Plays (α := Except ε α) step x s

section Rules

variable {α β ε : Type} {step : Story → Story → Prop} {s : Story}

/-- A computation that changes nothing takes no step. -/
theorem plays_pure (a : α) : Plays step (pure a) s := by
  intro b t h
  cases h
  exact .refl

/-- A change that is a step is one step. -/
theorem plays_modify {f : Story → Story} (h : step s (f s)) : Plays step (modify f) s := by
  intro a t hrun
  cases hrun
  exact .single h

/-- The steps of two computations follow each other. -/
theorem Plays.bind {x : Run Story α} {f : α → Run Story β} (hx : Plays step x s)
    (hf : ∀ a t, x s = some (a, t) → Plays step (f a) t) : Plays step (x >>= f) s := by
  intro b u h
  obtain ⟨a, t, hfirst, hrest⟩ := Run.bind_eq_some.1 h
  exact (hx a t hfirst).trans (hf a t hfirst b u hrest)

/-- A computation that reads the story first takes the steps of what follows. -/
theorem plays_get {k : Story → Run Story α} (h : Plays step (k s) s) :
    Plays step (get >>= k) s := h

/-- A computation that changes nothing takes no step, where it may fail. -/
theorem plays_attempt_pure (a : α) : PlaysAttempt step (pure a : Attempt ε Story α) s :=
  plays_pure (Except.ok a : Except ε α)

/-- Failing takes no step. -/
theorem plays_throw (e : ε) : PlaysAttempt step (throw e : Attempt ε Story α) s :=
  plays_pure (Except.error e : Except ε α)

/-- The steps of two computations that may fail follow each other. -/
theorem plays_attempt_bind {x : Attempt ε Story α} {f : α → Attempt ε Story β}
    (hx : PlaysAttempt step x s)
    (hf : ∀ a t, x s = some (.ok a, t) → PlaysAttempt step (f a) t) :
    PlaysAttempt step (x >>= f) s := by
  refine Plays.bind hx fun r t hr => ?_
  cases r with
  | ok a => exact hf a t hr
  | error e => exact plays_pure _

/-- A computation that cannot fail takes the same steps among those that can. -/
theorem plays_lift {x : Run Story α} (hx : Plays step x s) :
    PlaysAttempt step (ExceptT.lift x : Attempt ε Story α) s :=
  hx.bind fun _ _ _ => plays_pure _

/-- A computation that may fail and reads the story first takes the steps of what follows. -/
theorem plays_attempt_get {k : Story → Attempt ε Story α} (h : PlaysAttempt step (k s) s) :
    PlaysAttempt step (get >>= k) s := h

/-- What does not end leads nowhere. -/
theorem plays_unfinished : Plays step (Run.unfinished : Run Story α) s := by
  intro a t h
  cases h

end Rules

/-! ## Thinking -/

/-- Thinking changes the memory only. -/
theorem think_eq_some {α : Type} {w : World} {f : Stage → Context Memory → Run Memory α} {a : α}
    {s t : Story} (h : think w f s = some (a, t)) :
    ∃ m, f (s.stage w.host) ((s.stage w.host).context w.depth) s.memory = some (a, m) ∧
      t = { s with memory := m } := by
  obtain ⟨⟨b, m⟩, hf, heq⟩ := Option.map_eq_some_iff.1 h
  cases heq
  exact ⟨m, hf, rfl⟩

/-- The context for expressions at the cursor changes the memory in the ways of statements and
functions. -/
theorem context_obeys (w : World) (s : Story) :
    ((s.stage w.host).context w.depth).Obeys (Memory.changing s.content) :=
  (Memory.changing_governs s.content).context rfl w.depth

/-- Thinking changes the memory in the ways of statements and functions. -/
theorem changes_of_think {α : Type} {w : World} {f : Stage → Context Memory → Run Memory α} {a : α}
    {s t : Story}
    (hf : ∀ ctx : Context Memory, ctx.Obeys (Memory.changing s.content) →
      (Memory.changing s.content).Allows (f (s.stage w.host) ctx))
    (h : think w f s = some (a, t)) :
    ∃ m, Memory.Changes s.content s.memory m ∧ t = { s with memory := m } := by
  obtain ⟨m, hrun, rfl⟩ := think_eq_some h
  exact ⟨m, hf _ (context_obeys w s) s.memory a m hrun, rfl⟩

/-- Thinking is a thought, where it changes the memory in the ways of statements and functions. -/
theorem plays_think {α : Type} {w : World} {f : Stage → Context Memory → Run Memory α} {s : Story}
    (hf : ∀ ctx : Context Memory, ctx.Obeys (Memory.changing s.content) →
      (Memory.changing s.content).Allows (f (s.stage w.host) ctx)) :
    Plays Thought (think w f) s := by
  intro a t hrun
  obtain ⟨m, hchanges, rfl⟩ := changes_of_think hf hrun
  exact .single (.think hchanges)

/-- Acting is a thought, too, whether it fails or not. -/
theorem plays_act {α : Type} {w : World} {f : Stage → Context Memory → Act α} {s : Story}
    (hf : ∀ ctx : Context Memory, ctx.Obeys (Memory.changing s.content) →
      (Memory.changing s.content).AllowsAttempt (f (s.stage w.host) ctx)) :
    PlaysAttempt Thought (act w f) s :=
  plays_think (f := fun stage ctx => (f stage ctx).run) hf

/-- Evaluating an expression is a thought. -/
theorem plays_evaluate (w : World) (source : String) (s : Story) :
    Plays Thought (evaluate w source) s :=
  plays_think fun _ hctx => hctx.evalText source.toList

/-- Finding the text of a node is a thought. -/
theorem plays_shownText (w : World) (i : NodeId) (s : Story) :
    Plays Thought (shownText w i) s :=
  plays_get <| (plays_think fun _ hctx => hctx.expand _ _).bind fun _ _ _ => plays_pure _

/-- What is found available is a choice that is repeatable or was never visited. Finding out changes
nothing but the memory, and that in the ways of statements and functions. -/
theorem changes_of_isAvailable {w : World} {i : NodeId} {available : Bool} {s t : Story}
    (h : isAvailable w i s = some (available, t)) :
    ∃ m, Memory.Changes s.content s.memory m ∧ t = { s with memory := m } ∧
      (available = true → (s.node i).isChoice = true ∧ s.Fresh i) := by
  rw [isAvailable, Run.get_bind_apply] at h
  cases hkind : (s.node i).kind with
  | choice repeatable conditions =>
    simp only [hkind] at h
    split at h
    · cases h
      exact ⟨s.memory, .refl, rfl, fun h => by cases h⟩
    · next hfresh =>
      obtain ⟨m, hchanges, rfl⟩ := changes_of_think (fun _ hctx => hctx.allHold _) h
      refine ⟨m, hchanges, rfl, fun _ => ⟨by rw [Node.isChoice, hkind], ?_⟩⟩
      intro conditions' hkind'
      rw [hkind'] at hkind
      cases hkind
      simpa using hfresh
  | _ =>
    simp only [hkind] at h
    cases h
    exact ⟨s.memory, .refl, rfl, fun h => by cases h⟩

/-- An interrupt fires only at an occasion for it. Finding out changes nothing but the memory. -/
theorem changes_of_fires {w : World} {i : Interrupt} {occasion fired : Bool} {s t : Story}
    (h : fires w i occasion s = some (fired, t)) :
    ∃ m, Memory.Changes s.content s.memory m ∧ t = { s with memory := m } ∧
      (fired = true → occasion = true) := by
  unfold fires at h
  split at h
  · cases h
    exact ⟨s.memory, .refl, rfl, fun h => by cases h⟩
  · next hlive =>
    have hoccasion : occasion = true := by
      cases occasion <;> simp_all
    split at h
    · cases h
      exact ⟨s.memory, .refl, rfl, fun _ => hoccasion⟩
    · obtain ⟨m, hchanges, rfl⟩ := changes_of_think (fun _ hctx => hctx.holds _) h
      exact ⟨m, hchanges, rfl, fun _ => hoccasion⟩

/-- Finding out whether an interrupt fires is a thought. -/
theorem plays_fires (w : World) (i : Interrupt) (occasion : Bool) (s : Story) :
    Plays Thought (fires w i occasion) s := by
  intro a t h
  obtain ⟨m, hchanges, rfl, -⟩ := changes_of_fires h
  exact .single (.think hchanges)

/-! ## What moves leave -/

/-- What the interrupts of a story are for: their ids and kinds. -/
def overlays (s : Story) : List (String × InterruptKind) :=
  s.interrupts.map fun k => (k.id, k.kind)

/-- An interrupt that fires stays the interrupt it was. -/
theorem overlays_fire (s : Story) (position : Nat) (i : Interrupt) :
    (s.fire position i).overlays = s.overlays := by
  refine List.ext_getElem? fun j => ?_
  simp only [overlays, fire, List.getElem?_map, List.getElem?_modify]
  split <;> cases s.interrupts[j]? <;> rfl

/-- Taking a choice leaves the interrupts as they were. -/
theorem overlays_take (s : Story) (choice : NodeId) :
    (s.take choice).overlays = s.overlays := by
  simp only [overlays, take, List.map_map]
  refine List.map_congr_left fun k _ => ?_
  simp only [Function.comp_apply]
  split <;> rfl

/-- What stays through all moves: what was read, what the interrupts are for and the texts that were
shown. A story that was diverted to its end stays diverted. -/
structure Steady (s t : Story) : Prop where
  /-- No source is read. -/
  sources : t.sources = s.sources
  /-- No interrupt is added. -/
  overlays : t.overlays = s.overlays
  /-- No text is shown. -/
  transcript : t.transcript = s.transcript
  /-- The story is not started again. -/
  running : t.running = true → s.running = true

/-- Content and interrupts that stay twice stay. -/
theorem Steady.trans {s t u : Story} (h : s.Steady t) (h' : t.Steady u) : s.Steady u :=
  ⟨h'.sources.trans h.sources, h'.overlays.trans h.overlays, h'.transcript.trans h.transcript,
    fun hu => h.running (h'.running hu)⟩

/-- A move leaves content and interrupts as they are. -/
theorem Move.steady {leads : Route} {s t : Story} (h : s.Move leads t) :
    s.Steady t := by
  cases h with
  | thought h =>
    cases h with
    | note _ =>
      unfold addComment
      split <;> exact ⟨rfl, rfl, rfl, id⟩
    | fire position i => exact ⟨rfl, overlays_fire s position i, rfl, id⟩
    | _ => exact ⟨rfl, rfl, rfl, id⟩
  | leave _ _ _ =>
    unfold leaveBlock
    split <;> exact ⟨rfl, rfl, rfl, id⟩
  | offer _ _ _ _ _ _ =>
    unfold Story.pass
    split <;> exact ⟨rfl, rfl, rfl, id⟩
  | finish _ _ => exact ⟨rfl, rfl, rfl, fun hover => by cases hover⟩
  | take _ _ => exact ⟨rfl, overlays_take s _, rfl, id⟩
  | _ => exact ⟨rfl, rfl, rfl, id⟩

/-- Moves leave content and interrupts as they are. -/
theorem Moves.steady {leads : Route} {s t : Story} (h : s.Moves leads t) :
    s.Steady t := by
  induction h with
  | refl => exact ⟨rfl, rfl, rfl, id⟩
  | tail _ hmove ih => exact ih.trans hmove.steady

/-- Moves leave the content as it is. -/
theorem Moves.content_eq {leads : Route} {s t : Story} (h : s.Moves leads t) :
    t.content = s.content :=
  congrArg Sources.content h.steady.sources

/-- Thoughts change the memory, the comments and the interrupts only. -/
theorem Thinks.eq {s t : Story} (h : s.Thinks t) :
    t = { s with memory := t.memory, comments := t.comments, interrupts := t.interrupts } := by
  induction h with
  | refl => rfl
  | tail _ hthought ih =>
    cases hthought with
    | note _ =>
      unfold addComment
      split
      · exact ih
      · rw [ih]
    | fire position i =>
      rw [ih]
      rfl
    | _ => rw [ih]

/-- Thoughts leave the content as it is. -/
theorem Thinks.content_eq {s t : Story} (h : s.Thinks t) : t.content = s.content := by
  rw [h.eq]
  rfl

/-- Outside of called nodes play goes through the same nodes as before. -/
theorem Thought.children_eq {s t : Story} (h : s.Thought t) {i : NodeId}
    (hi : ¬ s.content.Called i) : t.children i = s.children i := by
  cases h with
  | think hchanges => exact hchanges.children_eq hi
  | utter _ => exact Memory.children_visit ..
  | note _ =>
    unfold addComment
    split <;> rfl
  | forget _ => rfl
  | fire _ _ => rfl

/-- Thinking, playing a text and collecting a comment visit no choice. -/
theorem Thought.visits_eq {s t : Story} (h : s.Thought t) {i : NodeId}
    (hi : (s.node i).isChoice = true) : (t.memory.mark i).visits = (s.memory.mark i).visits := by
  cases h with
  | think hchanges => exact hchanges.visits_eq hi
  | @utter j hkind =>
    have hne : j ≠ i := by
      rintro rfl
      rw [Node.isChoice, hkind] at hi
      cases hi
    exact congrArg Mark.visits ((Memory.mark_visit ..).trans (if_neg hne))
  | note _ =>
    unfold addComment
    split <;> rfl
  | forget _ => rfl
  | fire _ _ => rfl

/-- Thoughts leave what is played inside a node that no call plays. -/
theorem Thinks.children_eq {s t : Story} (h : s.Thinks t) {i : NodeId}
    (hi : ¬ s.content.Called i) : t.children i = s.children i := by
  induction h with
  | refl => rfl
  | tail hthinks hthought ih =>
    rw [← ih]
    exact hthought.children_eq (Thinks.content_eq hthinks ▸ hi)

/-- Inside a node that is no block play always goes through its children. -/
theorem children_of_not_block {s : Story} {c : NodeId} (h : (s.node c).isBlock = false) :
    s.children c = (s.node c).children := by
  change (s.node c).childrenAt _ = _
  unfold Node.childrenAt
  split
  · next hkind =>
    rw [Node.isBlock, hkind] at h
    cases h
  · rfl

/-- The node at the cursor stays where the container goes through the same nodes. -/
theorem cursor?_congr {s t : Story} (hcontainer : t.container = s.container)
    (hindex : t.index = s.index)
    (hchildren : ∀ c, s.container = some c → t.children c = s.children c) :
    t.cursor? = s.cursor? := by
  unfold cursor?
  rw [hcontainer, hindex]
  cases hc : s.container with
  | none => rfl
  | some c => rw [Option.bind_some, Option.bind_some, hchildren c hc]

/-- Thoughts leave the cursor where the container keeps its children. -/
theorem Thinks.cursor?_eq {s t : Story} (h : s.Thinks t)
    (hchildren : ∀ c, s.container = some c → t.children c = s.children c) :
    t.cursor? = s.cursor? :=
  cursor?_congr (by rw [h.eq]) (by rw [h.eq]) hchildren

/-- Where play has halted, thoughts do not set it going. -/
theorem Thinks.halted {s t : Story} (h : s.Thinks t) (hs : s.Halted) : t.Halted := by
  obtain hwaiting | hover | hended | ⟨c, hc, hblock, hnone⟩ := hs
  · refine .inl ?_
    rw [h.eq]
    exact hwaiting
  · refine .inr (.inl ?_)
    rw [h.eq]
    exact hover
  · refine .inr (.inr (.inl ?_))
    rw [h.eq]
    exact hended
  · have hnode (i : NodeId) : t.node i = s.node i := by rw [node, h.content_eq, ← node]
    have hblock' : (t.node c).isBlock = false := by rw [hnode, hblock]
    refine .inr (.inr (.inr ⟨c, ?_, hblock', ?_⟩))
    · rw [h.eq]
      exact hc
    · rw [h.cursor?_eq fun c' hc' => ?_, hnone]
      rw [hc] at hc'
      cases hc'
      rw [children_of_not_block hblock, children_of_not_block hblock', hnode]

/-- Where play has halted, nothing more can be played. -/
theorem Halted.hasMore_eq {s : Story} (h : s.Halted) : s.hasMore = false := by
  unfold hasMore
  obtain hwaiting | hover | hended | ⟨c, hc, hblock, hnone⟩ := h
  · rw [hwaiting, Bool.false_and, Bool.false_and]
  · rw [hover, Bool.and_false, Bool.false_and]
  · rw [cursor?, hended]
    exact Bool.and_false _
  · rw [hnone]
    exact Bool.and_false _

/-! ## Entering and settling -/

/-- Choosing an option changes the memory in the ways of statements and functions first, and readies
the node then. -/
theorem selectOption_readies {stage : Stage} {ctx : Context Memory}
    (hctx : ctx.Obeys (Memory.changing stage.content)) {i : NodeId} {m m' : Memory}
    (h : stage.selectOption ctx i m = some ((), m')) :
    ∃ u, Memory.Changes stage.content m u ∧ Memory.Readies stage.content i u m' := by
  unfold Stage.selectOption at h
  cases hkind : (stage.content.node i).kind with
  | block mode options =>
    simp only [hkind] at h
    rw [Run.get_bind_apply] at h
    obtain ⟨selection, u, hchoose, hselect⟩ := Run.bind_eq_some.1 h
    cases hselect
    exact ⟨u, hctx.chooseOption mode options _ m selection u hchoose,
      .option selection (by rw [Node.isBlock, hkind])⟩
  | _ =>
    simp only [hkind] at h
    cases h
    exact ⟨m, .refl, .plain (by rw [Node.isBlock, hkind])⟩

/-- Entering a node is thinking about its option and moving into it. -/
theorem enter_eq_some {w : World} {i : NodeId} {s t : Story} {a : Unit}
    (h : enter w i s = some (a, t)) :
    ∃ m m', Memory.Changes s.content s.memory m ∧ Memory.Readies s.content i m m' ∧
      t = { s with memory := m' }.moveInto i := by
  obtain ⟨_, u, hselect, hmove⟩ := Run.bind_eq_some.1 h
  cases hmove
  obtain ⟨m', hf, rfl⟩ := think_eq_some hselect
  obtain ⟨m, hchanges, hreadies⟩ := selectOption_readies (context_obeys w s) hf
  exact ⟨m, m', hchanges, hreadies, rfl⟩

section Settling

variable {leads : Route} {w : World} {s : Story}

/-- Play goes on from the end of a container by moves. -/
theorem plays_settleExhausted {c : NodeId} (hc : s.container = some c)
    (hexhausted : s.cursor? = none) : Plays (Move leads) (settleExhausted w c) s := by
  refine plays_get ?_
  simp only
  split
  · next hblock =>
    exact (plays_modify (.leave hc hblock hexhausted)).bind fun _ _ _ => plays_pure _
  · split
    · exact plays_pure _
    · next hnone =>
      have hchoices : s.choices = [] := by simpa using hnone
      split
      · next i hlanding =>
        refine Plays.bind (fun _ t henter => ?_) fun _ _ _ => plays_pure _
        obtain ⟨m, m', hchanges, hreadies, rfl⟩ := enter_eq_some henter
        split at hlanding
        · exact .single (.land hc hchoices hlanding hchanges hreadies)
        · cases hlanding
      · next parent position hlanding =>
        split at hlanding
        · exact (plays_modify (.converge hc hchoices hlanding)).bind fun _ _ _ => plays_pure _
        · cases hlanding
      · exact (plays_modify (.runOut hchoices)).bind fun _ _ _ => plays_pure _

/-- The node at the cursor is entered by a move. -/
theorem plays_enter {i : NodeId} (hi : s.cursor? = some i)
    (hchoices : s.choices = [] ∨ (s.node i).isBlock = true) :
    Plays (Move leads) (enter w i) s := by
  intro _ t henter
  obtain ⟨m, m', hchanges, hreadies, rfl⟩ := enter_eq_some henter
  exact .single (.enter hi hchoices hchanges hreadies)

/-- Play settles at a node by moves. -/
theorem plays_settleAt {i : NodeId} (hi : s.cursor? = some i) :
    Plays (Move leads) (settleAt w i) s := by
  refine plays_get ?_
  simp only
  split
  · next hfallback =>
    have hchoices : s.choices = [] := List.isEmpty_iff.1 (Bool.and_eq_true_iff.1 hfallback).2
    intro b t hrun
    obtain ⟨available, u, havailable, hrest⟩ := Run.bind_eq_some.1 hrun
    obtain ⟨m, hchanges, rfl, -⟩ := changes_of_isAvailable havailable
    cases available with
    | true =>
      -- evaluating the conditions and entering are one move
      obtain ⟨_, v, henter, hend⟩ := Run.bind_eq_some.1 hrest
      cases hend
      obtain ⟨m₁, m₂, hchanges', hreadies, rfl⟩ := enter_eq_some henter
      exact .single (.enter hi (.inl hchoices) (hchanges.trans hchanges') hreadies)
    | false =>
      cases hrest
      exact (ReflTransGen.single (.thought (.think hchanges))).tail .pass
  · split
    · next hblock =>
      exact (plays_enter hi (.inr hblock)).bind fun _ _ _ => plays_pure _
    · split
      · split
        · next hchoices =>
          exact (plays_enter hi (.inl (List.isEmpty_iff.1 hchoices))).bind fun _ _ _ =>
            plays_pure _
        · next hchoices =>
          have hpending : s.choices ≠ [] := by simpa using hchoices
          exact (plays_modify (.wait hpending)).bind fun _ _ _ => plays_pure _
      · exact plays_pure _

/-- One round of settling consists of moves. -/
theorem plays_settleOnce (w : World) (s : Story) : Plays (Move leads) (settleOnce w) s := by
  refine plays_get ?_
  split
  · exact plays_pure _
  · next c hc hexhausted => exact plays_settleExhausted hc hexhausted
  · next c i hc hi => exact plays_settleAt hi

/-- Settling consists of moves. -/
theorem plays_settleWithin (w : World) (moves : Nat) (s : Story) :
    Plays (Move leads) (settleWithin w moves) s := by
  induction moves generalizing s with
  | zero => exact plays_unfinished
  | succ moves ih =>
    refine (plays_settleOnce w s).bind fun again t _ => ?_
    cases again with
    | true => exact ih t
    | false => exact plays_pure _

/-- The cursor comes to rest by moves. -/
theorem plays_settle (w : World) (s : Story) : Plays (Move leads) (settle w) s :=
  plays_get (plays_settleWithin w _ s)

end Settling

/-! ## Rest -/

/-- Whether the cursor is at rest: the story has ended, or there is a node at the cursor, or choices
are pending where the container is exhausted and no block. -/
def AtRest (s : Story) : Prop :=
  s.container = none ∨ s.cursor?.isSome = true ∨
    s.choices ≠ [] ∧ s.cursor? = none ∧
      ∃ c, s.container = some c ∧ (s.node c).isBlock = false

/-- Where settling stops at the end of a container, play is at rest. -/
theorem atRest_of_settleExhausted {w : World} {c : NodeId} {s t : Story}
    (hc : s.container = some c) (hexhausted : s.cursor? = none)
    (h : settleExhausted w c s = some (false, t)) : t.AtRest := by
  rw [settleExhausted, Run.get_bind_apply] at h
  split at h
  · obtain ⟨_, u, hleave, hend⟩ := Run.bind_eq_some.1 h
    cases hleave
    simp only [Run.pure_apply, Option.some.injEq, Prod.mk.injEq, Option.isSome_eq_false_iff,
      Option.isNone_iff_eq_none] at hend
    obtain ⟨horphan, rfl⟩ := hend
    left
    rw [leaveBlock, horphan]
  · next hplain =>
    split at h
    · next hpending =>
      cases h
      have hchoices : s.choices ≠ [] := by simpa using hpending
      exact .inr (.inr ⟨hchoices, hexhausted, c, hc, Bool.eq_false_iff.2 hplain⟩)
    · generalize (if (s.node c).isChoice || (s.node c).isGather then s.landing? c else none) =
        landing at h
      cases landing with
      | none =>
        obtain ⟨_, u, hrunOut, hend⟩ := Run.bind_eq_some.1 h
        cases hend
        cases hrunOut
        exact .inl rfl
      | some landing =>
        -- where there is a landing the cursor has to move on
        cases landing <;> obtain ⟨_, u, -, hend⟩ := Run.bind_eq_some.1 h <;> cases hend

/-- Where settling stops at a node, play is at rest. -/
theorem atRest_of_settleAt {w : World} {i : NodeId} {s t : Story} (hi : s.cursor? = some i)
    (h : settleAt w i s = some (false, t)) : t.AtRest := by
  have hsome : s.cursor?.isSome = true := by rw [hi]; rfl
  rw [settleAt, Run.get_bind_apply] at h
  split at h
  · obtain ⟨available, u, -, hrest⟩ := Run.bind_eq_some.1 h
    cases available <;> obtain ⟨_, v, -, hend⟩ := Run.bind_eq_some.1 hrest <;> cases hend
  · split at h
    · obtain ⟨_, u, -, hend⟩ := Run.bind_eq_some.1 h
      cases hend
    · split at h
      · split at h
        · obtain ⟨_, u, -, hend⟩ := Run.bind_eq_some.1 h
          cases hend
        · obtain ⟨_, u, hwait, hend⟩ := Run.bind_eq_some.1 h
          cases hend
          cases hwait
          exact .inr (.inl hsome)
      · cases h
        exact .inr (.inl hsome)

/-- Play is at rest after settling. -/
theorem atRest_of_settleWithin {w : World} {moves : Nat} {s t : Story} {a : Unit}
    (h : settleWithin w moves s = some (a, t)) : t.AtRest := by
  induction moves generalizing s with
  | zero => cases h
  | succ moves ih =>
    obtain ⟨again, u, hfirst, hrest⟩ := Run.bind_eq_some.1 h
    cases again with
    | true => exact ih hrest
    | false =>
      cases hrest
      rw [settleOnce, Run.get_bind_apply] at hfirst
      cases hc : s.container with
      | none =>
        simp only [hc] at hfirst
        cases hfirst
        exact .inl hc
      | some c =>
        cases hi : s.cursor? with
        | none =>
          simp only [hc, hi] at hfirst
          exact atRest_of_settleExhausted hc hi hfirst
        | some i =>
          simp only [hc, hi] at hfirst
          exact atRest_of_settleAt hi hfirst

/-- Where the cursor was brought to rest, it is at rest. -/
theorem atRest_of_settle {w : World} {s t : Story} {a : Unit} (h : settle w s = some (a, t)) :
    t.AtRest :=
  atRest_of_settleWithin h

/-- Where the cursor is at rest and nothing can be played, play has halted. -/
theorem AtRest.halted {s : Story} (h : s.AtRest) (hmore : s.hasMore = false) : s.Halted := by
  rcases h with hended | hsome | ⟨-, hnone, c, hc, hblock⟩
  · exact .inr (.inr (.inl hended))
  · rw [hasMore, hsome, Bool.and_true, Bool.and_eq_false_iff] at hmore
    rcases hmore with hwaiting | hover
    · exact .inl hwaiting
    · exact .inr (.inl hover)
  · exact .inr (.inr (.inr ⟨c, hc, hblock, hnone⟩))

end Story

end Narrative
