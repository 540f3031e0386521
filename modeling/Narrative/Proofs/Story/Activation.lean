import Narrative.Proofs.NameMap
import Narrative.Proofs.Story.Events
import Narrative.Proofs.Story.Reachable

/-!
# Parameters of an activation

A function has one record of its parameters, which every call of it fills anew and none restores.
So a parameter has the value that the latest call passed for it, or the last one that was stored
since. As long as the function is not called again, that is the value of the activation itself; after
a recursive call it is what the inner activation left.
-/

namespace Narrative

/-! ## Values that are stored -/

/-- The value that a call of a function passes for a parameter; of two parameters with one name the
last counts. -/
def passed? (c : Content) (f : NodeId) (args : List Value) (name : String) : Option Value :=
  (NameMap.ofList ((c.node f).params.zip args)).get? name

/-- A call with the right number of arguments passes a value for every parameter. -/
theorem exists_passed {c : Content} {f : NodeId} {args : List Value} {name : String}
    (hlength : (c.node f).params.length = args.length) (hname : name ∈ (c.node f).params) :
    ∃ v, passed? c f args name = some v := by
  refine Option.isSome_iff_exists.1 (NameMap.isSome_get?_foldl_insert (.inr ?_))
  rwa [List.map_fst_zip (Nat.le_of_eq hlength)]

namespace Event

/-- The value that is stored under a name in the body of a function. -/
def stored? (f : NodeId) (name : String) : Event → Option Value
  | assign g x v => if g = f ∧ x = name then some v else none
  | _ => none

/-- The values that are stored under a name in the body of a function. -/
def stores (f : NodeId) (name : String) (log : List Event) : List Value :=
  log.filterMap (stored? f name)

variable {c : Content} {f : NodeId} {name : String} {log : List Event}

/-- Unless the function is called, a parameter keeps its value or takes the one that is stored. -/
theorem get?_remark {e : Event} {k : Mark} {v : Value} (hcalls : ∀ args, e ≠ .call f args)
    (hv : k.scope.get? name = some v) :
    (e.remark c f k).scope.get? name = some ((e.stored? f name).getD v) := by
  cases e with
  | call g args =>
    have hg : g ≠ f := fun hg => hcalls args (hg ▸ rfl)
    rw [remark_of_ne (e := call g args) hg, hv]
    rfl
  | assign g x w =>
    by_cases hg : g = f
    · subst hg
      by_cases hx : x = name
      · subst hx
        have hcontains : k.scope.contains x = true := by rw [NameMap.contains, hv]; rfl
        rw [remark, if_pos ⟨rfl, hcontains⟩, NameMap.get?_insert, if_pos rfl, stored?,
          if_pos ⟨rfl, rfl⟩]
        rfl
      · rw [stored?, if_neg fun h => hx h.2, remark]
        split
        · rw [NameMap.get?_insert, if_neg hx, hv]
          rfl
        · exact hv
    · rw [remark_of_ne (e := assign g x w) hg, hv, stored?, if_neg fun h => hg h.1]
      rfl
  | utter j =>
    rw [scope_remark_utter, hv]
    rfl
  | select j selection =>
    rw [scope_remark_select, hv]
    rfl

/-- Unless the function is called, a parameter has the last value that was stored or the one it had.
-/
theorem get?_foldl_remark {k : Mark} {v : Value} (hcalls : ∀ args, .call f args ∉ log)
    (hv : k.scope.get? name = some v) :
    (log.foldl (remark c f) k).scope.get? name =
      some ((stores f name log).getLast?.getD v) := by
  induction log generalizing k v with
  | nil => exact hv
  | cons e log ih =>
    have he : ∀ args, e ≠ .call f args := by
      rintro args rfl
      exact hcalls args List.mem_cons_self
    rw [List.foldl_cons, stores,
      ih (fun args h => hcalls args (List.mem_cons_of_mem _ h)) (get?_remark he hv), stores]
    cases hstored : e.stored? f name with
    | none => rw [List.filterMap_cons_none hstored, Option.getD_none]
    | some w => rw [List.filterMap_cons_some hstored, List.getLast?_cons, Option.getD_some,
        Option.getD_some]

end Event

/-! ## Activations -/

/-- The memory when an activation of a function begins: its parameters are bound, and the function is
visited. -/
def Memory.activated (m : Memory) (c : Content) (f : NodeId) (args : List Value) : Memory :=
  (m.bind f (c.node f).params args).visit f

section Activation

variable {host : Host} {c : Content} (hc : c.Tree) {f : NodeId}
  (hf : (c.node f).isFunction = true)

include hc hf

/-- A name inside a function is read from its parameters first. -/
theorem valueOf_inside {m : Memory} {name : String} {v : Value} (hthis : name ≠ "this")
    (hv : (m.mark f).scope.get? name = some v) : (host.inside c f).valueOf m name = v := by
  rw [Stage.valueOf, if_neg hthis, parameter?_inside hc hf, hv]

omit hc hf in
/-- An activation marks its function like the event of a call. -/
theorem mark_activated (m : Memory) (c : Content) (f : NodeId) (args : List Value) :
    (m.activated c f args).mark f = (Event.call f args).remark c f (m.mark f) :=
  mark_bind_visit ..

omit hc hf in
/-- A call fills the record of the parameters anew. -/
theorem get?_remark_call (f : NodeId) (args : List Value) (k : Mark) (name : String) :
    ((Event.call f args).remark c f k).scope.get? name = passed? c f args name := by
  rw [Event.remark, if_pos rfl, passed?]

variable {m m' : Memory} {args : List Value} {log : List Event} {name : String}

/-- As long as the function is not called again, a parameter has the value that was passed or the
last one that the activation stored. -/
theorem Unfolds.valueOf_of_not_called
    (h : Unfolds host c (some f) (m.activated c f args) log m')
    (hcalls : ∀ args', .call f args' ∉ log) (hthis : name ≠ "this") {v : Value}
    (hv : passed? c f args name = some v) :
    (host.inside c f).valueOf m' name = (Event.stores f name log).getLast?.getD v := by
  refine valueOf_inside hc hf hthis ?_
  rw [h.mark_eq hc]
  exact Event.get?_foldl_remark hcalls (by rw [mark_activated, get?_remark_call, hv])

/-- After further calls of the function a parameter has the value that the latest one passed, or the
last one that was stored since, by whichever activation. -/
theorem Unfolds.valueOf_of_called {before since : List Event} {args' : List Value}
    (h : Unfolds host c (some f) (m.activated c f args) (before ++ .call f args' :: since) m')
    (hcalls : ∀ a, .call f a ∉ since) (hthis : name ≠ "this") {v : Value}
    (hv : passed? c f args' name = some v) :
    (host.inside c f).valueOf m' name = (Event.stores f name since).getLast?.getD v := by
  refine valueOf_inside hc hf hthis ?_
  rw [h.mark_eq hc, List.foldl_append, List.foldl_cons]
  exact Event.get?_foldl_remark hcalls (by rw [get?_remark_call, hv])

end Activation

namespace Story

/-- At every point of every activation of a function of a reachable story a parameter reads as the
value that the latest call of the function passed for it, or the last one that was stored since. So as
long as the function is not entered again, it reads as the value that the activation was called with,
or the last one that the activation stored. A call that is executed to its end, or to an error, does
to the memory what the events of its activation do. -/
theorem Reachable.parameter_of_activation {host : Host} {main : String}
    {permitted : Action → Prop} {s : Story} (hs : Reachable host main permitted s) {f : NodeId}
    (hf : (s.node f).isFunction = true) {args : List Value}
    (hlength : (s.node f).params.length = args.length) {name : String}
    (hname : name ∈ (s.node f).params) (hthis : name ≠ "this") (m : Memory) :
    (∀ depth r m', (host.inside s.content f).callFunction
        ((host.inside s.content f).context depth) f args m = some (r, m') →
      ∃ log, Unfolds host s.content (some f) (m.activated s.content f args) log m') ∧
    ∀ log m', Unfolds host s.content (some f) (m.activated s.content f args) log m' →
      ((∀ args', .call f args' ∉ log) → ∃ v, passed? s.content f args name = some v ∧
        (host.inside s.content f).valueOf m' name = (Event.stores f name log).getLast?.getD v) ∧
      ∀ before args' since, log = before ++ .call f args' :: since →
        (∀ a, .call f a ∉ since) → ∃ v, passed? s.content f args' name = some v ∧
          (host.inside s.content f).valueOf m' name =
            (Event.stores f name since).getLast?.getD v := by
  have htree := hs.sound.content.tree
  refine ⟨fun depth r m' hcall => ?_, fun log m' h => ⟨fun hcalls => ?_, ?_⟩⟩
  · obtain ⟨r', hplay⟩ :=
      playBody_of_callFunction (s := host.inside s.content f) hlength hcall
    exact (unfolding_governsAt hf).playBody
      (unfolding_context (host.inside s.content f) depth (some f)) _ (.function rfl hf) _ _ _ hplay
  · obtain ⟨v, hv⟩ := exists_passed hlength hname
    exact ⟨v, hv, h.valueOf_of_not_called htree hf hcalls hthis hv⟩
  · rintro before args' since rfl hcalls
    have hlength' := (h.fits (List.mem_append_right _ List.mem_cons_self)).2
    obtain ⟨v, hv⟩ := exists_passed hlength' hname
    exact ⟨v, hv, h.valueOf_of_called htree hf hcalls hthis hv⟩

/-- A world with a source in which two functions add up the numbers to a bound, one with the bound
before the recursive call and one with it after the call. -/
def sumWorld : World :=
  ⟨.ofSources (.ofList [("sum", "== start\nHi.\n" ++
    "== function late(n)\n\x7b n < 1:\n~ return 0\n\x7d\n~ return n + late(n - 1)\n" ++
    "== function early(n)\n\x7b n < 1:\n~ return 0\n\x7d\n~ return early(n - 1) + n\n")])
    fun _ => "", 8, 40⟩

/-- In this story a call that adds up to two ends, whose activation begins with the value two. -/
theorem parameter_of_activation_late : ∃ (s : Story) (f : NodeId) (r : Except ExprError Value)
    (m' : Memory) (log : List Event),
    Reachable sumWorld.host "sum" (fun _ => True) s ∧ s.content.find? "late" = some f ∧
    (sumWorld.host.inside s.content f).callFunction
      ((sumWorld.host.inside s.content f).context 8) f [.int 2] s.memory = some (r, m') ∧
    Unfolds sumWorld.host s.content (some f) (s.memory.activated s.content f [.int 2]) log m' ∧
    ∀ log m', Unfolds sumWorld.host s.content (some f)
        (s.memory.activated s.content f [.int 2]) log m' → (∀ args', .call f args' ∉ log) →
      (sumWorld.host.inside s.content f).valueOf m' "n" =
        (Event.stores f "n" log).getLast?.getD (.int 2) := by
  have hplayed : (played? sumWorld "sum" 0 []).any (fun s =>
      (s.content.find? "late").any fun f =>
        (s.node f).isFunction ∧ (s.node f).params = ["n"] ∧
        passed? s.content f [.int 2] "n" = some (.int 2) ∧
        ((sumWorld.host.inside s.content f).callFunction
          ((sumWorld.host.inside s.content f).context 8) f [.int 2] s.memory).isSome) = true := by
    decide +kernel
  obtain ⟨s, hs, hplayed⟩ := (Option.any_eq_true _ _).1 hplayed
  obtain ⟨f, hfind, hplayed⟩ := (Option.any_eq_true _ _).1 hplayed
  obtain ⟨hf, hparams, hpassed, hcall⟩ := of_decide_eq_true hplayed
  obtain ⟨⟨r, m'⟩, hcall⟩ := Option.isSome_iff_exists.1 hcall
  have hreachable : Reachable sumWorld.host "sum" (fun _ => True) s :=
    reachable_of_played? (fun _ _ => trivial) hs
  have hlength : (s.node f).params.length = [Value.int 2].length := by rw [hparams]; rfl
  have hname : "n" ∈ (s.node f).params := by rw [hparams]; exact List.mem_cons_self
  obtain ⟨hruns, hreads⟩ := Reachable.parameter_of_activation hreachable hf hlength hname
    (by decide) s.memory
  obtain ⟨log, hlog⟩ := hruns 8 r m' hcall
  refine ⟨s, f, r, m', log, hreachable, hfind, hcall, hlog, fun log m' h hcalls => ?_⟩
  obtain ⟨v, hv, hvalue⟩ := (hreads log m' h).1 hcalls
  rw [hpassed] at hv
  cases hv
  exact hvalue

/-- A parameter does not survive a recursive call: in the activation that was called with two it reads
as zero after the call in it, and so the sum depends on the order of the operands. -/
theorem parameter_overwritten : ∃ (s : Story) (f : NodeId) (m' : Memory),
    Reachable sumWorld.host "sum" (fun _ => True) s ∧ s.content.find? "early" = some f ∧
    (s.node f).isFunction = true ∧ (s.node f).params = ["n"] ∧
    ((sumWorld.host.inside s.content f).context 8).evalText "early(n - 1)".toList
      (s.memory.activated s.content f [.int 2]) = some (.ok (.int 0), m') ∧
    (sumWorld.host.inside s.content f).valueOf m' "n" = .int 0 ∧
    (∃ t, evaluate sumWorld "early(2)" s = some (.ok (.int 0), t)) ∧
    ∃ t, evaluate sumWorld "late(2)" s = some (.ok (.int 3), t) := by
  have hplayed : (played? sumWorld "sum" 0 []).any (fun s =>
      (s.content.find? "early").any fun f =>
        (s.node f).isFunction ∧ (s.node f).params = ["n"] ∧
        (((sumWorld.host.inside s.content f).context 8).evalText "early(n - 1)".toList
          (s.memory.activated s.content f [.int 2])).any (fun r =>
            r.1.toOption = some (.int 0) ∧
              (sumWorld.host.inside s.content f).valueOf r.2 "n" = .int 0) ∧
        (evaluate sumWorld "early(2)" s).any (fun r => r.1.toOption = some (.int 0)) ∧
        (evaluate sumWorld "late(2)" s).any fun r => r.1.toOption = some (.int 3)) = true := by
    decide +kernel
  obtain ⟨s, hs, hplayed⟩ := (Option.any_eq_true _ _).1 hplayed
  obtain ⟨f, hfind, hplayed⟩ := (Option.any_eq_true _ _).1 hplayed
  obtain ⟨hf, hparams, hinner, hearly, hlate⟩ := of_decide_eq_true hplayed
  obtain ⟨⟨_ | v, m'⟩, hinner, hread⟩ := (Option.any_eq_true _ _).1 hinner
  · cases (of_decide_eq_true hread).1
  obtain ⟨hvalue, hread⟩ := of_decide_eq_true hread
  cases hvalue
  obtain ⟨⟨_ | v, t⟩, hearly, hvalue⟩ := (Option.any_eq_true _ _).1 hearly
  · cases of_decide_eq_true hvalue
  cases of_decide_eq_true hvalue
  obtain ⟨⟨_ | v, u⟩, hlate, hvalue⟩ := (Option.any_eq_true _ _).1 hlate
  · cases of_decide_eq_true hvalue
  cases of_decide_eq_true hvalue
  exact ⟨s, f, m', reachable_of_played? (fun _ _ => trivial) hs, hfind, hf, hparams, hinner, hread,
    ⟨t, hearly⟩, u, hlate⟩

end Story

end Narrative
