import Narrative.Proofs.Directive.Sequence
import Narrative.Proofs.Story.Tracking

/-!
# What lines and blocks show

Each time a line of text is visited its directives are resolved, and each time a block is visited one
of its options is chosen: where play comes to it as well as in the body of a function that an
expression calls. The visits of one line or block are listed here in their order. Nothing else counts
as a visit, so each of them is given the number of those before it.
-/

namespace Narrative

/-- What happens on a visit of a line or a block. -/
inductive Showing where
  /-- A line is shown, as it was written and with its directives resolved. -/
  | shown (written text : List Char)
  /-- One of a number of options is chosen. -/
  | chosen (mode : BlockMode) (options selection : Nat)
  /-- A divert leads into a line, which shows nothing. -/
  | entered
deriving DecidableEq

/-- Whether a node is a line of text or a block. -/
def Node.isSequential (n : Node) : Bool :=
  match n.kind with
  | .text | .block .. => true
  | _ => false

namespace Showing

/-- Whether a showing is that of a visit with `k` earlier ones, in a line with a sequence and in a
block with the mode of one. -/
def InTurn (k : Nat) : Showing → Prop
  | shown written text => ∀ q : Sequence, written = q.written → text = q.shown k
  | chosen mode options selection => ∀ r : Recurrence, mode = r.blockMode → 0 < options →
      selection = (r.turn options k).getD options
  | entered => True

/-- Whether each of some showings is that of its visit as the counter tells it, where there were `k`
visits before the first. -/
def AllInTurn : (k : Nat) → List Showing → Prop
  | _, [] => True
  | k, e :: rest => e.InTurn (k % Mark.counterRange) ∧ AllInTurn (k + 1) rest

/-- Whether an option is chosen. -/
def isChosen : Showing → Bool
  | chosen .. => true
  | _ => false

variable {k : Nat} {log more : List Showing}

/-- Two logs are in turn when the second one goes on where the first one ends. -/
theorem allInTurn_append :
    AllInTurn k (log ++ more) ↔ AllInTurn k log ∧ AllInTurn (k + log.length) more := by
  induction log generalizing k with
  | nil => simp [AllInTurn]
  | cons e log ih =>
    rw [List.cons_append, AllInTurn, AllInTurn, ih, List.length_cons, and_assoc]
    have hadd : k + 1 + log.length = k + (log.length + 1) := by omega
    rw [hadd]

/-- One more showing is in turn. -/
theorem AllInTurn.concat {e : Showing} (h : AllInTurn k log)
    (he : e.InTurn ((k + log.length) % Mark.counterRange)) :
    AllInTurn k (log ++ [e]) :=
  allInTurn_append.2 ⟨h, he, trivial⟩

/-- Only the counter tells the visits before the first. -/
theorem allInTurn_congr {l : Nat} (h : k % Mark.counterRange = l % Mark.counterRange) :
    AllInTurn k log ↔ AllInTurn l log := by
  induction log generalizing k l with
  | nil => rfl
  | cons e log ih =>
    have hnext : (k + 1) % Mark.counterRange = (l + 1) % Mark.counterRange := by
      rw [Nat.add_mod, h, ← Nat.add_mod]
    rw [AllInTurn, AllInTurn, h, ih hnext]

/-- Every showing of a log in turn is. -/
theorem AllInTurn.getElem? (h : AllInTurn k log) {j : Nat} {e : Showing} (he : log[j]? = some e) :
    e.InTurn ((k + j) % Mark.counterRange) := by
  induction log generalizing k j with
  | nil => cases he
  | cons first log ih =>
    cases j with
    | zero =>
      cases he
      exact h.1
    | succ j =>
      have hadd : k + (j + 1) = k + 1 + j := by omega
      rw [hadd]
      exact ih h.2 he

end Showing

open Showing

namespace Memory

/-- Whether two memories say the same about the visits of a node and its chosen option. -/
def Keeps (i : NodeId) (m m' : Memory) : Prop :=
  (m'.mark i).visits = (m.mark i).visits ∧ (m'.mark i).selection = (m.mark i).selection

instance (i : NodeId) (m m' : Memory) : Decidable (Keeps i m m') :=
  inferInstanceAs (Decidable (_ ∧ _))

/-- What a line or block shows while one memory becomes another. -/
inductive Shows (c : Content) (i : NodeId) : Memory → List Showing → Memory → Prop
  /-- It is not visited. -/
  | quiet {m m' : Memory} : Keeps i m m' → Shows c i m [] m'
  /-- One thing happens after another. -/
  | seq {m m' m'' : Memory} {log more : List Showing} :
      Shows c i m log m' → Shows c i m' more m'' → Shows c i m (log ++ more) m''
  /-- The line is played in the body of a function: it is visited, and then its directives are
  resolved for the number of visits before. -/
  | utter {m m' : Memory} {inner : List Showing} {ctx : Context Memory} {text : List Char} :
      (c.node i).kind = .text →
      Directive.expand ctx (m.mark i).count (c.node i).text.toList (m.visit i) = some (text, m') →
      Shows c i (m.visit i) inner m' →
      Shows c i m (.shown (c.node i).text.toList text :: inner) m'
  /-- The line is played in the story: its directives are resolved for the number of visits so far,
  and then it is visited. -/
  | play {m m' : Memory} {inner : List Showing} {ctx : Context Memory} {text : List Char} :
      (c.node i).kind = .text →
      Directive.expand ctx (m.mark i).count (c.node i).text.toList m = some (text, m') →
      Shows c i m inner m' →
      Shows c i m (inner ++ [.shown (c.node i).text.toList text]) (m'.visit i)
  /-- An option of the block is chosen for the number of visits so far, and then it is visited. -/
  | choose {m m' : Memory} {inner : List Showing} {ctx : Context Memory} {mode : BlockMode}
      {options : List BlockOption} {selection : Nat} : (c.node i).kind = .block mode options →
      ctx.chooseOption mode options (m.mark i).count m = some (selection, m') →
      Shows c i m inner m' →
      Shows c i m (inner ++ [.chosen mode options.length selection])
        ((m'.select i selection).visit i)
  /-- A divert to a variable that holds a reference to the line leads into it, after the arguments
  of the divert were evaluated. -/
  | enter {m m' : Memory} {inner : List Showing} {s : Stage} {name : String} :
      s.content = c → (c.node i).kind = .text → s.referred? m name = some i →
      Shows c i m inner m' → Shows c i m (inner ++ [.entered]) (m'.visit i)

variable {c : Content} {i : NodeId} {m m' : Memory} {log : List Showing}

/-- Memories with the same marks say the same. -/
theorem keeps_of_marks (h : m'.marks = m.marks) : Keeps i m m' := by
  rw [Keeps, mark, h]
  exact ⟨rfl, rfl⟩

/-- The visit of another node says nothing about this one. -/
theorem keeps_visit {j : NodeId} (hj : j ≠ i) : Keeps i m (m.visit j) := by
  rw [Keeps, mark_visit, if_neg hj]
  exact ⟨rfl, rfl⟩

/-- The option chosen in another node says nothing about this one. -/
theorem keeps_select {j : NodeId} (hj : j ≠ i) (selection : Nat) :
    Keeps i m (m.select j selection) := by
  rw [Keeps, select, mark_modifyMark, if_neg hj]
  exact ⟨rfl, rfl⟩

/-- What spares the lines and blocks keeps each of them. -/
theorem Spares.keeps (h : m.Spares c m') (hi : (c.node i).isSequential = true) : Keeps i m m' := by
  refine h i ?_
  unfold Node.isSequential at hi
  split at hi
  · next hkind => exact .inl (by rw [Node.isContainer, hkind])
  · next hkind => exact .inr (by rw [Node.isBlock, hkind])
  · cases hi

/-- A call of a function visits no line and no block. -/
theorem keeps_of_call {f : NodeId} (hf : (c.node f).isFunction = true)
    (hi : (c.node i).isSequential = true) (params : List String) (args : List Value) :
    Keeps i m ((m.bind f params args).visit f) := by
  have hcontainer : (c.node f).isContainer = true ∧ (c.node f).isBlock = false := by
    unfold Node.isFunction at hf
    split at hf
    · next hkind =>
      rw [Node.isContainer, Node.isBlock, hkind]
      exact ⟨rfl, rfl⟩
    · cases hf
  have hbind := (Spares.bind (c := c) (m := m) f params args).keeps hi
  have hvisit := (Spares.visit (m := m.bind f params args) hcontainer.1 hcontainer.2).keeps hi
  exact ⟨hvisit.1.trans hbind.1, hvisit.2.trans hbind.2⟩

/-- A visit counts as one more. -/
theorem visits_visit_self (m : Memory) (i : NodeId) :
    ((m.visit i).mark i).visits = (m.mark i).visits + 1 := by
  rw [mark_visit, if_pos rfl]

namespace Shows

/-- Every showing is a visit. -/
theorem visits_eq (h : Shows c i m log m') :
    (m'.mark i).visits = (m.mark i).visits + log.length := by
  induction h with
  | quiet hkeeps => exact hkeeps.1
  | seq _ _ ih ih' => rw [ih', ih, List.length_append, Nat.add_assoc]
  | utter _ _ _ ih =>
    rw [ih, visits_visit_self, List.length_cons]
    omega
  | play _ _ _ ih | enter _ _ _ _ ih =>
    rw [visits_visit_self, ih, List.length_append]
    rfl
  | choose _ _ _ ih =>
    rw [visits_visit_self, select, mark_modifyMark, if_pos rfl, ih, List.length_append]
    rfl

/-- Blocks choose options, and lines of text do not. -/
theorem isChosen_eq (h : Shows c i m log m') {e : Showing} (he : e ∈ log) :
    e.isChosen = (c.node i).isBlock := by
  induction h with
  | quiet _ => cases he
  | seq _ _ ih ih' => exact (List.mem_append.1 he).elim ih ih'
  | utter hkind _ _ ih =>
    obtain rfl | he := List.mem_cons.1 he
    · rw [Node.isBlock, hkind]
      rfl
    · exact ih he
  | play hkind _ _ ih | enter _ hkind _ _ ih | choose hkind _ _ ih =>
    obtain he | he := List.mem_append.1 he
    · exact ih he
    · rw [List.mem_singleton.1 he, Node.isBlock, hkind]
      rfl

/-- Where the memory is the same at the end there was no visit. -/
theorem eq_nil (h : Shows c i m log m) : log = [] :=
  List.length_eq_zero_iff.1 (by have := h.visits_eq; omega)

/-- Every showing is in turn, counted from the number of visits before. -/
theorem allInTurn (h : Shows c i m log m') : AllInTurn (m.mark i).visits log := by
  induction h with
  | quiet _ => trivial
  | seq hfirst _ ih ih' =>
    refine allInTurn_append.2 ⟨ih, ?_⟩
    rw [← hfirst.visits_eq]
    exact ih'
  | @utter m m' inner ctx text _ hexpand _ ih =>
    rw [visits_visit_self] at ih
    refine ⟨fun q hq => ?_, ih⟩
    rw [hq, q.expand_written] at hexpand
    cases hexpand
    rfl
  | @play m m' inner ctx text _ hexpand hinner ih =>
    refine ih.concat fun q hq => ?_
    rw [hq, q.expand_written] at hexpand
    cases hexpand
    rw [hinner.eq_nil]
    rfl
  | @choose m m' inner ctx mode options selection _ hchoose hinner ih =>
    refine ih.concat fun r hr hoptions => ?_
    rw [hr, r.chooseOption_blockMode ctx hoptions] at hchoose
    cases hchoose
    rw [hinner.eq_nil]
    rfl
  | enter _ _ _ _ ih => exact ih.concat trivial

end Shows

/-! ## Evaluating is a matter of showings -/

section Showing

variable (c i)

/-- The computations during which a line or block shows something. -/
def showing : Discipline Memory :=
  .along (fun m m' => ∃ log, Shows c i m log m') (fun _ => ⟨[], .quiet ⟨rfl, rfl⟩⟩)
    fun _ _ _ ⟨log, h⟩ ⟨more, h'⟩ => ⟨log ++ more, h.seq h'⟩

variable {c i}

/-- A change that keeps the marks of the node shows nothing. -/
theorem showing_modify {f : Memory → Memory} (hf : ∀ m, Keeps i m (f m)) :
    (showing c i).Allows (modify f) :=
  Discipline.along_modify fun m => ⟨[], .quiet (hf m)⟩

/-- Drawing a number shows nothing. -/
theorem showing_draw (source : RandomSource) (bound : Nat) :
    (showing c i).Allows fun m : Memory =>
      some ((m.dice.roll source bound).1, { m with dice := (m.dice.roll source bound).2 }) := by
  intro m a m' h
  cases h
  exact ⟨[], .quiet (keeps_of_marks rfl)⟩

/-- Statements show nothing of their own. -/
theorem showing_executes (s : Stage) : (showing c i).Executes s where
  names := Discipline.along_reads _
  value _ := Discipline.along_reads _
  address _ := Discipline.along_reads _
  draw := showing_draw _
  assign name v := showing_modify fun m => Memory.mark_assign s m name v i

variable (hi : (c.node i).isSequential = true)

/-- Choosing an option of a block, or none of another node, and visiting it. Where the node itself is
visited, it is a block. -/
theorem shows_of_selectOption {s : Stage} (hs : s.content = c) {ctx : Context Memory}
    (hctx : ctx.Obeys (showing c i)) {j : NodeId} (hj : j = i → (c.node i).isBlock = true)
    {a : Unit} (h : s.selectOption ctx j m = some (a, m')) :
    ∃ log, Shows c i m log (m'.visit j) := by
  subst hs
  rw [Stage.selectOption] at h
  by_cases hji : j = i
  · subst hji
    have hblock := hj rfl
    unfold Node.isBlock at hblock
    split at hblock
    · next mode options hkind =>
      simp only [hkind] at h
      rw [Run.get_bind_apply] at h
      obtain ⟨selection, u, hchoose, hend⟩ := Run.bind_eq_some.1 h
      cases hend
      obtain ⟨inner, hinner⟩ := hctx.chooseOption mode options _ m selection u hchoose
      exact ⟨_, .choose hkind hchoose hinner⟩
    · cases hblock
  · cases hkind : (s.content.node j).kind with
    | block mode options =>
      simp only [hkind] at h
      rw [Run.get_bind_apply] at h
      obtain ⟨selection, u, hchoose, hend⟩ := Run.bind_eq_some.1 h
      cases hend
      obtain ⟨inner, hinner⟩ := hctx.chooseOption mode options _ m selection u hchoose
      have hselect : Shows s.content i u [] (u.select j selection) := .quiet (keeps_select hji _)
      exact ⟨_, (hinner.seq hselect).seq (.quiet (keeps_visit hji))⟩
    | _ =>
      simp only [hkind] at h
      cases h
      exact ⟨[], .quiet (keeps_visit hji)⟩

/-- What the body of a function does. -/
theorem showing_performs {s : Stage} (hs : s.content = c) {ctx : Context Memory}
    (hctx : ctx.Obeys (showing c i)) : (showing c i).Performs s ctx where
  executes := showing_executes s
  obeys := hctx
  children _ := Discipline.along_reads _
  utter {p j} hkind _ _ := by
    intro m text m' h
    subst hs
    have hexpand : Directive.expand ctx (m.mark j).count (s.content.node j).text.toList
        (m.visit j) = some (text, m') := h
    obtain ⟨inner, hinner⟩ := hctx.expand _ _ _ _ _ hexpand
    by_cases hji : j = i
    · subst hji
      exact ⟨_, .utter hkind hexpand hinner⟩
    · exact ⟨_, (Shows.quiet (keeps_visit hji)).seq hinner⟩
  select {j} hblock _ := by
    intro m a m' h
    obtain ⟨_, u, hselect, hvisit⟩ := Run.bind_eq_some.1 h
    cases hvisit
    exact shows_of_selectOption hs hctx (fun hji => by rw [← hji, ← hs]; exact hblock) hselect
  unfinished := Discipline.along_unfinished

include hi

/-- Whatever is called, the line or block shows something meanwhile, however deep the calls nest. -/
theorem showing_call {s : Stage} (hs : s.content = c) (depth : Nat) (name : String)
    (args : List Value) : (showing c i).AllowsAttempt (Stage.call depth s name args) := by
  induction depth generalizing s name args with
  | zero => exact Discipline.attempt_lift Discipline.along_unfinished
  | succ depth ih =>
    rw [Stage.call]
    split
    · next f hf =>
      obtain ⟨-, hisFunction⟩ := Option.filter_eq_some_iff.1 hf
      have hinner : ({ s with here := some f } : Stage).content = c := hs
      have hctx := (showing_executes (c := c) (i := i) { s with here := some f }).contextWith
        (ih hinner)
      refine (showing_performs hinner hctx).callFunction rfl hisFunction args fun _ => ?_
      exact showing_modify fun _ => keeps_of_call (hs ▸ hisFunction) hi _ _
    · cases hbuiltin : (s.contextWith (Stage.call depth s)).callBuiltin? name args with
      | none => exact Discipline.attempt_throw _
      | some x => exact ((showing_executes s).contextWith (ih hs)).callBuiltin hbuiltin

/-- Whatever is asked of the context at a place of the story, the line or block shows something
meanwhile. -/
theorem showing_context {s : Stage} (hs : s.content = c) (depth : Nat) :
    (s.context depth).Obeys (showing c i) :=
  (showing_executes s).contextWith (showing_call hi hs depth)

end Showing

end Memory

end Narrative
