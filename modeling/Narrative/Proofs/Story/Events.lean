import Narrative.Proofs.Story.Changes

/-!
# What happens while expressions are evaluated

Evaluating an expression calls functions, and their bodies store variables, visit texts, choose
options of blocks and call functions in turn. Here these events are listed in the order in which they
happen. The list says exactly what becomes of the mark of every node, and everything in it happens in
the body of a function that was called.
-/

namespace Narrative

/-! ## Computations that relate states -/

namespace Discipline

variable {σ α : Type} {R : σ → σ → Prop} {hrefl : ∀ s, R s s}
  {htrans : ∀ s t u, R s t → R t u → R s u}

/-- The computations that lead from a state to related ones only. -/
def along (R : σ → σ → Prop) (hrefl : ∀ s, R s s) (htrans : ∀ s t u, R s t → R t u → R s u) :
    Discipline σ where
  Allows x := ∀ s a t, x s = some (a, t) → R s t
  pure := by
    intro α a s b t h
    cases h
    exact hrefl s
  bind := by
    intro α β x f hx hf s b t h
    obtain ⟨a, u, hfirst, hrest⟩ := Run.bind_eq_some.1 h
    exact htrans s u t (hx s a u hfirst) (hf a u b t hrest)

/-- Reading the state leads nowhere else. -/
theorem along_reads (f : σ → α) : (along R hrefl htrans).Allows (do return f (← get)) := by
  intro s a t h
  cases h
  exact hrefl s

/-- A change along the relation is allowed for. -/
theorem along_modify {f : σ → σ} (h : ∀ s, R s (f s)) :
    (along R hrefl htrans).Allows (modify f) := by
  intro s a t hrun
  cases hrun
  exact h s

/-- What does not end leads nowhere. -/
theorem along_unfinished : (along R hrefl htrans).Allows (Run.unfinished : Run σ α) := by
  intro s a t h
  cases h

end Discipline

/-! ## Events -/

/-- What happens to a node while expressions are evaluated. -/
inductive Event where
  /-- A function is called with some arguments. -/
  | call (f : NodeId) (args : List Value)
  /-- A variable is stored in the body of a function. -/
  | assign (f : NodeId) (name : String) (v : Value)
  /-- A text is visited. -/
  | utter (i : NodeId)
  /-- The option of a block is chosen, and the block is visited. -/
  | select (i : NodeId) (selection : Nat)
deriving DecidableEq

namespace Event

/-- The node to which it happens. -/
def node : Event → NodeId
  | call f _ | assign f _ _ | utter f | select f _ => f

/-- Whether a node is visited. -/
def visits (i : NodeId) : Event → Bool
  | call f _ | utter f | select f _ => f == i
  | assign .. => false

/-- The mark of a node after an event. -/
def remark (c : Content) (i : NodeId) (k : Mark) : Event → Mark
  | call f args =>
    if f = i then { k with scope := .ofList ((c.node f).params.zip args), visits := k.visits + 1 }
    else k
  | assign f name v =>
    if f = i ∧ k.scope.contains name then { k with scope := k.scope.insert name v } else k
  | utter j => if j = i then { k with visits := k.visits + 1 } else k
  | select j selection => if j = i then { k with selection, visits := k.visits + 1 } else k

variable {c : Content} {i : NodeId}

/-- Events at other nodes leave the mark. -/
theorem remark_of_ne {e : Event} (h : e.node ≠ i) (k : Mark) : e.remark c i k = k := by
  cases e with
  | call f args => exact if_neg h
  | assign f name v => exact if_neg fun hf => h hf.1
  | utter j => exact if_neg h
  | select j selection => exact if_neg h

/-- The number of visits grows with each visit. -/
theorem visits_remark (e : Event) (k : Mark) :
    (e.remark c i k).visits = k.visits + if e.visits i then 1 else 0 := by
  cases e with
  | call f args => by_cases h : f = i <;> simp [remark, visits, h]
  | assign f name v =>
    simp only [remark, visits]
    split <;> rfl
  | utter j => by_cases h : j = i <;> simp [remark, visits, h]
  | select j selection => by_cases h : j = i <;> simp [remark, visits, h]

/-- A mark that no event touches stays. -/
theorem foldl_remark_of_ne {log : List Event} (h : ∀ e ∈ log, e.node ≠ i) (k : Mark) :
    log.foldl (remark c i) k = k := by
  induction log with
  | nil => rfl
  | cons e log ih =>
    rw [List.foldl_cons, remark_of_ne (h e List.mem_cons_self)]
    exact ih fun e he => h e (List.mem_cons_of_mem _ he)

/-- A mark that differs after some events was touched by one of them. -/
theorem exists_of_foldl_remark_ne {log : List Event} {k : Mark}
    (h : log.foldl (remark c i) k ≠ k) : ∃ e ∈ log, e.node = i := by
  by_contra hnone
  exact h (foldl_remark_of_ne (fun e he hnode => hnone ⟨e, he, hnode⟩) k)

/-- Whether an event is of a kind that its node allows: functions are called, with as many arguments as
they have parameters, and store variables, texts are visited, and options are chosen for blocks in the
bodies of functions. -/
def Fits (c : Content) : Event → Prop
  | call f args => (c.node f).isFunction = true ∧ (c.node f).params.length = args.length
  | assign f _ _ => (c.node f).isFunction = true
  | utter i => (c.node i).kind = .text
  | select i _ => (c.node i).isBlock = true ∧ c.Called i

/-- Whether something happens in the given body, or in that of a function that is called among the
events. -/
def Inside (c : Content) (body : Option NodeId) (log : List Event) (e : Event) : Prop :=
  (∃ f, body = some f ∧ f ∈ c.lineage e.node) ∨
    ∃ g args, .call g args ∈ log ∧ g ∈ c.lineage e.node

/-- What happens inside a body happens there among more events. -/
theorem Inside.mono {body : Option NodeId} {log more : List Event} {e : Event}
    (h : e.Inside c body log) (hlog : ∀ e ∈ log, e ∈ more) : e.Inside c body more :=
  h.imp_right fun ⟨g, args, hg, hmem⟩ => ⟨g, args, hlog _ hg, hmem⟩

/-- What no event changes in a mark is the same after all of them. -/
theorem foldl_remark_congr {β : Type} {g : Mark → β} {log : List Event}
    (h : ∀ e ∈ log, ∀ k, g (e.remark c i k) = g k) (k : Mark) :
    g (log.foldl (remark c i) k) = g k := by
  induction log generalizing k with
  | nil => rfl
  | cons e log ih =>
    rw [List.foldl_cons, ih fun e he => h e (List.mem_cons_of_mem _ he),
      h e List.mem_cons_self]

/-- A visit leaves the parameters. -/
theorem scope_remark_utter (j : NodeId) (k : Mark) :
    ((utter j).remark c i k).scope = k.scope := by
  rw [remark]
  split <;> rfl

/-- Choosing an option leaves the parameters. -/
theorem scope_remark_select (j : NodeId) (selection : Nat) (k : Mark) :
    ((select j selection).remark c i k).scope = k.scope := by
  rw [remark]
  split <;> rfl

/-- Only functions take parameters. -/
theorem scope_remark {e : Event} (he : e.Fits c) (hi : (c.node i).isFunction = false) (k : Mark) :
    (e.remark c i k).scope = k.scope := by
  have hne {f : NodeId} (hf : (c.node f).isFunction = true) : f ≠ i := by
    rintro rfl
    rw [hi] at hf
    cases hf
  cases e with
  | call f args => exact congrArg Mark.scope (if_neg (hne he.1))
  | assign f name v => exact congrArg Mark.scope (if_neg fun h => hne he h.1)
  | utter j => exact scope_remark_utter j k
  | select j selection => exact scope_remark_select j selection k

/-- Options are chosen for blocks only. -/
theorem selection_remark {e : Event} (he : e.Fits c) (hi : (c.node i).isBlock = false) (k : Mark) :
    (e.remark c i k).selection = k.selection := by
  cases e with
  | select j selection =>
    refine congrArg Mark.selection (if_neg ?_)
    rintro rfl
    rw [he.1] at hi
    cases hi
  | call | assign | utter =>
    rw [remark]
    split <;> rfl

/-- Containers are visited only where calls of functions play inside them. -/
theorem called_of_visits {e : Event} (he : e.Fits c) (hi : (c.node i).isContainer = true)
    (hvisits : e.visits i = true) : c.Called i := by
  cases e with
  | call f args =>
    cases eq_of_beq hvisits
    exact .function he.1
  | assign => cases hvisits
  | utter j =>
    cases eq_of_beq hvisits
    rw [Fits] at he
    rw [Node.isContainer, he] at hi
    cases hi
  | select j selection =>
    cases eq_of_beq hvisits
    exact he.2

end Event

/-! ## What events make of the memory -/

/-- The place inside a function of a story. -/
def Host.inside (host : Host) (c : Content) (f : NodeId) : Stage :=
  { host, content := c, here := some f }

/-- What events make of the memory: in the body of a function, or, where none is given, in an
expression itself, in which nothing but calls happens. -/
inductive Unfolds (host : Host) (c : Content) :
    (body : Option NodeId) → Memory → List Event → Memory → Prop
  /-- Nothing has happened. -/
  | start {body : Option NodeId} {m : Memory} : Unfolds host c body m [] m
  /-- A random number was drawn. -/
  | draw {body : Option NodeId} {m m' : Memory} {log : List Event} (source : RandomSource)
      (bound : Nat) : Unfolds host c body m log m' →
      Unfolds host c body m log { m' with dice := (m'.dice.roll source bound).2 }
  /-- A function was called, and its body was executed to its end or to an error. -/
  | call {body : Option NodeId} {m m' m'' : Memory} {log inner : List Event} {f : NodeId}
      {args : List Value} : Unfolds host c body m log m' → (c.node f).isFunction = true →
      (c.node f).params.length = args.length →
      Unfolds host c (some f) ((m'.bind f (c.node f).params args).visit f) inner m'' →
      Unfolds host c body m (log ++ .call f args :: inner) m''
  /-- A variable was stored in the body. -/
  | assign {f : NodeId} {m m' : Memory} {log : List Event} (name : String) (v : Value) :
      Unfolds host c (some f) m log m' → (c.node f).isFunction = true →
      Unfolds host c (some f) m (log ++ [.assign f name v])
        ((host.inside c f).assign m' name v)
  /-- A text of the body was visited. -/
  | utter {f p i : NodeId} {m m' : Memory} {log : List Event} :
      Unfolds host c (some f) m log m' → (c.node i).kind = .text →
      (host.inside c f).Reaches p → i ∈ (c.node p).listed →
      Unfolds host c (some f) m (log ++ [.utter i]) (m'.visit i)
  /-- The option of a block of the body was chosen, and the block was visited. -/
  | select {f i : NodeId} {m m' : Memory} {log : List Event} (selection : Nat) :
      Unfolds host c (some f) m log m' → (c.node i).isBlock = true →
      (host.inside c f).Reaches i →
      Unfolds host c (some f) m (log ++ [.select i selection])
        ((m'.select i selection).visit i)

namespace Unfolds

variable {host : Host} {c : Content} {body : Option NodeId} {m m' m'' : Memory}
  {log more : List Event}

/-- Events follow each other. -/
theorem trans (h : Unfolds host c body m log m') (h' : Unfolds host c body m' more m'') :
    Unfolds host c body m (log ++ more) m'' := by
  induction h' with
  | start => rwa [List.append_nil]
  | draw source bound _ ih => exact .draw source bound (ih h)
  | call _ hf hlength hinner ih => exact List.append_assoc .. ▸ .call (ih h) hf hlength hinner
  | assign name v _ hf ih => exact List.append_assoc .. ▸ .assign name v (ih h) hf
  | utter _ hkind hp hi ih => exact List.append_assoc .. ▸ .utter (ih h) hkind hp hi
  | select selection _ hblock hi ih =>
    exact List.append_assoc .. ▸ .select selection (ih h) hblock hi

end Unfolds

/-! ## What becomes of the marks -/

section Marks

variable {host : Host} {c : Content} (hc : c.Tree) {body : Option NodeId} {f : NodeId}
  {m m' : Memory} {log : List Event}

include hc

/-- Inside a function the only section is the function. -/
theorem sections_inside (hf : (c.node f).isFunction = true) : (host.inside c f).sections = [f] := by
  have htop : (c.node f).isTop = true := by rw [Node.isTop, hf, Bool.or_true]
  have hsection : (c.node f).isSection = true := by
    unfold Node.isFunction at hf
    unfold Node.isSection
    split at hf
    · next hkind => rw [hkind]
    · cases hf
  change (c.lineage f).filter _ = _
  rw [Content.lineage_of_root (hc.top htop)]
  exact List.filter_cons_of_pos hsection

/-- Names inside a function are looked up among its parameters. -/
theorem binder?_inside (hf : (c.node f).isFunction = true) (m : Memory) (name : String) :
    (host.inside c f).binder? m name =
      if (m.mark f).scope.contains name then some f else none := by
  rw [Stage.binder?, sections_inside hc hf, List.find?_singleton]

/-- Inside a function its own scope has the parameters. -/
theorem parameter?_inside (hf : (c.node f).isFunction = true) (m : Memory) (name : String) :
    (host.inside c f).parameter? m name = (m.mark f).scope.get? name := by
  rw [Stage.parameter?, binder?_inside hc hf]
  split
  · rfl
  · next hnone =>
    rw [NameMap.contains, Bool.not_eq_true, Option.isSome_eq_false_iff, Option.isNone_iff_eq_none]
      at hnone
    rw [hnone, Option.bind_none]

/-- A variable that is stored in the body of a function is a parameter of it or global. -/
theorem mark_assign_inside (hf : (c.node f).isFunction = true) (m : Memory) (name : String)
    (v : Value) (i : NodeId) :
    ((host.inside c f).assign m name v).mark i =
      (Event.assign f name v).remark c i (m.mark i) := by
  rw [Stage.assign, binder?_inside hc hf, Event.remark]
  by_cases hcontains : (m.mark f).scope.contains name = true
  · rw [if_pos hcontains]
    refine (Memory.mark_modifyMark ..).trans ?_
    by_cases hfi : f = i
    · subst hfi
      rw [if_pos rfl, if_pos ⟨rfl, hcontains⟩]
    · rw [if_neg hfi, if_neg fun h => hfi h.1]
  · rw [if_neg hcontains, if_neg]
    · rfl
    · rintro ⟨rfl, h⟩
      exact hcontains h

omit hc in
/-- A visit marks the nodes like a line that is uttered. -/
theorem mark_visit_eq (m : Memory) (c : Content) (j i : NodeId) :
    (m.visit j).mark i = (Event.utter j).remark c i (m.mark i) := by
  rw [Memory.mark_visit, Event.remark]
  split
  · next hji => rw [hji]
  · rfl

omit hc in
/-- Arguments and a visit mark the nodes like a call. -/
theorem mark_bind_visit (m : Memory) (c : Content) (f : NodeId) (args : List Value) (i : NodeId) :
    ((m.bind f (c.node f).params args).visit f).mark i =
      (Event.call f args).remark c i (m.mark i) := by
  rw [Memory.mark_visit, Event.remark, Memory.bind]
  by_cases hfi : f = i
  · subst hfi
    rw [if_pos rfl, if_pos rfl, Memory.mark_modifyMark, if_pos rfl]
  · rw [if_neg hfi, if_neg hfi, Memory.mark_modifyMark, if_neg hfi]

omit hc in
/-- An option and a visit mark the nodes like a block that is entered. -/
theorem mark_select_visit (m : Memory) (c : Content) (j : NodeId) (selection : Nat) (i : NodeId) :
    ((m.select j selection).visit j).mark i =
      (Event.select j selection).remark c i (m.mark i) := by
  rw [Memory.mark_visit, Event.remark, Memory.select]
  by_cases hji : j = i
  · subst hji
    rw [if_pos rfl, if_pos rfl, Memory.mark_modifyMark, if_pos rfl]
  · rw [if_neg hji, if_neg hji, Memory.mark_modifyMark, if_neg hji]

namespace Unfolds

/-- Every mark becomes what the events make of it. -/
theorem mark_eq (h : Unfolds host c body m log m') (i : NodeId) :
    m'.mark i = log.foldl (Event.remark c i) (m.mark i) := by
  induction h with
  | start => rfl
  | draw _ _ _ ih => exact (Memory.mark_withDice ..).trans ih
  | call _ hf hlength _ ih ihinner =>
    rw [ihinner, List.foldl_append, List.foldl_cons, mark_bind_visit, ih]
  | assign name v _ hf ih =>
    rw [mark_assign_inside hc hf, ih, List.foldl_append]
    rfl
  | utter _ hkind hp hi ih =>
    rw [List.foldl_append, ← ih]
    exact mark_visit_eq _ c ..
  | select selection _ hblock hi ih =>
    rw [List.foldl_append, ← ih]
    exact mark_select_visit _ c ..

omit hc in
/-- The visits of a node are counted one by one. -/
theorem visits_eq (h : Unfolds host c body m log m') (i : NodeId) :
    (m'.mark i).visits = (m.mark i).visits + log.countP (·.visits i) := by
  have hsnoc {m m' : Memory} {log : List Event} {e : Event}
      (hm : (m'.mark i).visits = (m.mark i).visits + log.countP (·.visits i)) :
      (e.remark c i (m'.mark i)).visits =
        (m.mark i).visits + (log ++ [e]).countP (·.visits i) := by
    rw [Event.visits_remark, hm, List.countP_append, List.countP_singleton, Nat.add_assoc]
  induction h with
  | start => rfl
  | draw _ _ _ ih => exact (congrArg Mark.visits (Memory.mark_withDice ..)).trans ih
  | call _ _ _ _ ih ihinner =>
    rw [ihinner, mark_bind_visit, hsnoc ih, Nat.add_assoc, ← List.countP_append,
      ← List.append_cons]
  | assign name v _ _ ih =>
    rw [(Memory.mark_assign ..).1, ih, List.countP_append, List.countP_singleton]
    rfl
  | utter _ _ _ _ ih => rw [mark_visit_eq _ c, hsnoc ih]
  | select selection _ _ _ ih => rw [mark_select_visit _ c, hsnoc ih]

omit hc in
/-- Everything that happens is of a kind that its node allows. -/
theorem fits (h : Unfolds host c body m log m') {e : Event} (he : e ∈ log) : e.Fits c := by
  induction h with
  | start => cases he
  | draw _ _ _ ih => exact ih he
  | call _ hf hlength _ ih ihinner =>
    rcases List.mem_append.1 he with he | he
    · exact ih he
    · rcases List.mem_cons.1 he with rfl | he
      · exact ⟨hf, hlength⟩
      · exact ihinner he
  | assign name v _ hf ih =>
    rcases List.mem_append.1 he with he | he
    · exact ih he
    · cases List.mem_singleton.1 he
      exact hf
  | utter _ hkind _ _ ih =>
    rcases List.mem_append.1 he with he | he
    · exact ih he
    · cases List.mem_singleton.1 he
      exact hkind
  | select selection _ hblock hi ih =>
    rcases List.mem_append.1 he with he | he
    · exact ih he
    · cases List.mem_singleton.1 he
      exact ⟨hblock, hi.called⟩

/-- Everything happens in the given body or in that of a function that was called. -/
theorem inside (h : Unfolds host c body m log m') {e : Event} (he : e ∈ log) :
    e.Inside c body log := by
  induction h with
  | start => cases he
  | draw _ _ _ ih => exact ih he
  | @call _ _ _ _ log inner g args _ hf hlength _ ih ihinner =>
    have hcall : .call g args ∈ log ++ .call g args :: inner :=
      List.mem_append_right _ List.mem_cons_self
    rcases List.mem_append.1 he with he | he
    · exact (ih he).mono fun _ => List.mem_append_left _
    · rcases List.mem_cons.1 he with rfl | he
      · exact .inr ⟨g, args, hcall, c.mem_lineage_self g⟩
      · obtain ⟨f, hbody, hmem⟩ | ⟨k, args', hk, hmem⟩ := ihinner he
        · cases hbody
          exact .inr ⟨g, args, hcall, hmem⟩
        · exact .inr ⟨k, args', List.mem_append_right _ (List.mem_cons_of_mem _ hk), hmem⟩
  | @assign f _ _ _ name v _ hf ih =>
    rcases List.mem_append.1 he with he | he
    · exact (ih he).mono fun _ => List.mem_append_left _
    · cases List.mem_singleton.1 he
      exact .inl ⟨f, rfl, c.mem_lineage_self f⟩
  | @utter f p i _ _ _ _ hkind hp hi ih =>
    rcases List.mem_append.1 he with he | he
    · exact (ih he).mono fun _ => List.mem_append_left _
    · cases List.mem_singleton.1 he
      refine .inl ⟨f, rfl, hc.descends.mem_lineage_trans ?_ (hp.mem_lineage hc rfl)⟩
      exact hc.descends.parent_mem (hc.parent_of_listed hi)
  | @select f i _ _ _ _ _ hblock hi ih =>
    rcases List.mem_append.1 he with he | he
    · exact (ih he).mono fun _ => List.mem_append_left _
    · cases List.mem_singleton.1 he
      exact .inl ⟨f, rfl, hi.mem_lineage hc rfl⟩

end Unfolds

end Marks

/-- Whether events can be those of evaluating expressions: each is of a kind that its node allows, and
happens in the body of a function that is called among them. -/
structure Event.Genuine (c : Content) (log : List Event) : Prop where
  /-- The nodes allow what happens to them. -/
  fits {e : Event} : e ∈ log → e.Fits c
  /-- Everything happens in bodies of functions. -/
  inside {e : Event} : c.Tree → e ∈ log → e.Inside c none log

namespace Event.Genuine

variable {c : Content} {log more : List Event}

/-- No event is needed. -/
theorem nil (c : Content) : Genuine c [] where
  fits he := nomatch he
  inside _ he := nomatch he

/-- Genuine events may follow each other. -/
theorem append (h : Genuine c log) (h' : Genuine c more) : Genuine c (log ++ more) where
  fits he := (List.mem_append.1 he).elim h.fits h'.fits
  inside htree he := (List.mem_append.1 he).elim
    (fun he => (h.inside htree he).mono fun _ => List.mem_append_left _)
    fun he => (h'.inside htree he).mono fun _ => List.mem_append_right _

/-- A container in which no call plays is not visited. -/
theorem countP_eq_zero (h : Genuine c log) {i : NodeId} (hi : (c.node i).isContainer = true)
    (hcalled : ¬ c.Called i) : log.countP (·.visits i) = 0 :=
  List.countP_eq_zero.2 fun _ he hvisits =>
    hcalled (Event.called_of_visits (h.fits he) hi hvisits)

end Event.Genuine

/-- What unfolds outside of all functions is genuine. -/
theorem Unfolds.genuine {host : Host} {c : Content} {m m' : Memory} {log : List Event}
    (h : Unfolds host c none m log m') : Event.Genuine c log where
  fits := h.fits
  inside htree := h.inside htree

/-! ## Evaluating is a matter of events -/

section Unfolding

variable (host : Host) (c : Content) (body : Option NodeId)

/-- The computations that do to the memory what some events do. -/
def unfolding : Discipline Memory :=
  .along (fun m m' => ∃ log, Unfolds host c body m log m') (fun _ => ⟨[], .start⟩)
    fun _ _ _ ⟨log, h⟩ ⟨more, h'⟩ => ⟨log ++ more, h.trans h'⟩

variable {host c body}

/-- A number that is drawn is no event. -/
theorem unfolding_draw (source : RandomSource) (bound : Nat) :
    (unfolding host c body).Allows fun m : Memory =>
      some ((m.dice.roll source bound).1, { m with dice := (m.dice.roll source bound).2 }) := by
  intro m a m' h
  cases h
  exact ⟨[], .draw source bound .start⟩

/-- Expressions do nothing else than draw random numbers and call functions. -/
theorem unfolding_contextWith (s : Stage) {call : String → List Value → Eval Memory Value}
    (hcall : ∀ name args, (unfolding host c body).AllowsAttempt (call name args)) :
    (s.contextWith call).Obeys (unfolding host c body) where
  names := Discipline.along_reads _
  value _ := Discipline.along_reads _
  call := hcall
  draw := unfolding_draw _

/-- What the body of a function does. -/
theorem unfolding_governsAt {f : NodeId} (hf : (c.node f).isFunction = true) :
    (unfolding host c (some f)).GovernsAt (host.inside c f) where
  names := Discipline.along_reads _
  value _ := Discipline.along_reads _
  address _ := Discipline.along_reads _
  count _ := Discipline.along_reads _
  children _ := Discipline.along_reads _
  draw := unfolding_draw _
  assign name v := Discipline.along_modify fun m =>
    ⟨_, .assign name v (.start : Unfolds host c (some f) m [] m) hf⟩
  visit _ hkind hp hi := Discipline.along_modify fun m =>
    ⟨_, .utter (.start : Unfolds host c (some f) m [] m) hkind hp hi⟩
  select _ selection hblock hi := Discipline.along_modify fun m =>
    ⟨_, .select selection (.start : Unfolds host c (some f) m [] m) hblock hi⟩
  unfinished := Discipline.along_unfinished

/-- A call with a wrong number of arguments fails. -/
theorem callFunction_of_ne {s : Stage} {ctx : Context Memory} {f : NodeId} {args : List Value}
    (hlength : (s.content.node f).params.length ≠ args.length) :
    s.callFunction ctx f args = throw (.arity (s.content.node f).id
      (s.content.node f).params.length args.length) :=
  if_neg hlength

/-- What a call with the right number of arguments does after its parameters have been bound is to
play its body. -/
theorem playBody_of_callFunction {s : Stage} {ctx : Context Memory} {f : NodeId} {args : List Value}
    {m m' : Memory} {r : Except ExprError Value}
    (hlength : (s.content.node f).params.length = args.length)
    (h : s.callFunction ctx f args m = some (r, m')) :
    ∃ r', s.playBody ctx (s.content.size + 1) f
      ((m.bind f (s.content.node f).params args).visit f) = some (r', m') := by
  simp only [Stage.callFunction, if_pos hlength] at h
  rw [Attempt.modify_bind_apply, Attempt.bind_apply] at h
  obtain ⟨⟨x, m₁⟩, hlift, hend⟩ := Option.bind_eq_some_iff.1 h
  obtain ⟨⟨r', m₂⟩, hplay, heq⟩ :=
    Option.map_eq_some_iff.1 ((Attempt.lift_apply ..).symm.trans hlift)
  cases heq
  cases r' <;> cases hend <;> exact ⟨_, hplay⟩

/-- A call of a function is the event of the call and what happens in the body after it; with a wrong
number of arguments nothing happens. -/
theorem unfolding_callFunction {ctx : Context Memory} {f : NodeId}
    (hf : (c.node f).isFunction = true) (hctx : ctx.Obeys (unfolding host c (some f)))
    (args : List Value) :
    (unfolding host c body).AllowsAttempt ((host.inside c f).callFunction ctx f args) := by
  intro m r m' h
  by_cases hlength : (c.node f).params.length = args.length
  · obtain ⟨r', hplay⟩ := playBody_of_callFunction hlength h
    obtain ⟨inner, hinner⟩ :=
      (unfolding_governsAt hf).playBody hctx _ (.function rfl hf) _ _ _ hplay
    exact ⟨_, .call .start hf hlength hinner⟩
  · rw [callFunction_of_ne hlength] at h
    cases h
    exact ⟨[], .start⟩

/-- Whatever is called, it does to the memory what some events do, however deep the calls nest. -/
theorem unfolding_call (depth : Nat) (s : Stage) (body : Option NodeId) (name : String)
    (args : List Value) :
    (unfolding s.host s.content body).AllowsAttempt (Stage.call depth s name args) := by
  induction depth generalizing s body name args with
  | zero => exact Discipline.attempt_lift Discipline.along_unfinished
  | succ depth ih =>
    rw [Stage.call]
    split
    · next f hf =>
      obtain ⟨-, hisFunction⟩ := Option.filter_eq_some_iff.1 hf
      exact unfolding_callFunction hisFunction
        (unfolding_contextWith _ (ih (s.host.inside s.content f) (some f))) args
    · cases hbuiltin : (s.contextWith (Stage.call depth s)).callBuiltin? name args with
      | none => exact Discipline.attempt_throw _
      | some x => exact (unfolding_contextWith s (ih s body)).callBuiltin hbuiltin

/-- Whatever is asked of the context at a place of the story does to the memory what some events do.
-/
theorem unfolding_context (s : Stage) (depth : Nat) (body : Option NodeId) :
    (s.context depth).Obeys (unfolding s.host s.content body) :=
  unfolding_contextWith s (unfolding_call depth s body)

end Unfolding

end Narrative
