import Mathlib.Tactic.Common
import Narrative.Expr.Context

/-!
# Running computations

A computation over a state either does not finish or ends with a result and a state. The lemmas here
take the run of a sequence of computations apart into the runs of its members.
-/

namespace Narrative

variable {σ ε α β : Type}

namespace Run

/-- A computation that changes nothing ends where it began. -/
@[simp] theorem pure_apply (a : α) (s : σ) : (pure a : Run σ α) s = some (a, s) := rfl

/-- The second computation begins where the first one ended. -/
theorem bind_apply (x : Run σ α) (f : α → Run σ β) (s : σ) :
    (x >>= f) s = (x s).bind fun r => f r.1 r.2 := rfl

/-- What follows is given the state. -/
theorem get_bind_apply (f : σ → Run σ α) (s : σ) : (get >>= f) s = f s s := rfl

/-- A sequence finishes when its first member does and the rest finishes from there. -/
theorem bind_eq_some {x : Run σ α} {f : α → Run σ β} {s t : σ} {b : β} :
    (x >>= f) s = some (b, t) ↔ ∃ a u, x s = some (a, u) ∧ f a u = some (b, t) := by
  simp [bind_apply, Option.bind_eq_some_iff]

/-- A sequence does not finish when its first member does not, or the rest from there. -/
theorem bind_eq_none {x : Run σ α} {f : α → Run σ β} {s : σ} :
    (x >>= f) s = none ↔ x s = none ∨ ∃ a u, x s = some (a, u) ∧ f a u = none := by
  rw [bind_apply]
  cases x s with
  | none => simp
  | some r =>
    obtain ⟨a, u⟩ := r
    simp

end Run

/-- A computation that may fail, as one whose result says whether it failed. -/
abbrev Attempt (ε σ : Type) := ExceptT ε (Run σ)

namespace Attempt

/-- A computation that changes nothing succeeds where it began. -/
@[simp] theorem pure_apply (a : α) (s : σ) : (pure a : Attempt ε σ α) s = some (.ok a, s) := rfl

/-- A failure leaves the state as it was. -/
@[simp] theorem throw_apply (e : ε) (s : σ) :
    (throw e : Attempt ε σ α) s = some (.error e, s) := rfl

/-- The second computation begins where the first one succeeded. -/
theorem bind_apply (x : Attempt ε σ α) (f : α → Attempt ε σ β) (s : σ) :
    (x >>= f) s = (x s).bind fun r =>
      match r.1 with
      | .ok a => f a r.2
      | .error e => some (.error e, r.2) := by
  change ((x s).bind fun r => ExceptT.bindCont f r.1 r.2) = _
  refine congrArg (x s).bind (funext fun r => ?_)
  obtain ⟨a | e, t⟩ := r <;> rfl

/-- What follows is given the state, where it may fail. -/
theorem get_bind_apply (f : σ → Attempt ε σ α) (s : σ) : (get >>= f) s = f s s := rfl

/-- What follows begins with the changed state. -/
theorem modify_bind_apply (g : σ → σ) (f : Unit → Attempt ε σ α) (s : σ) :
    (modify g >>= f) s = f () (g s) := rfl

/-- A computation that cannot fail succeeds. -/
theorem lift_apply (x : Run σ α) (s : σ) :
    (ExceptT.lift x : Attempt ε σ α) s = (x s).map fun (a, t) => (.ok a, t) := by
  rw [ExceptT.lift, ExceptT.mk, ← bind_pure_comp, Run.bind_apply]
  cases x s <;> rfl

/-- A sequence succeeds when its first member does and the rest succeeds from there. -/
theorem bind_eq_ok {x : Attempt ε σ α} {f : α → Attempt ε σ β} {s t : σ} {b : β} :
    (x >>= f) s = some (.ok b, t) ↔ ∃ a u, x s = some (.ok a, u) ∧ f a u = some (.ok b, t) := by
  rw [bind_apply, Option.bind_eq_some_iff]
  constructor
  · rintro ⟨⟨_ | a, u⟩, hx, hf⟩
    · simp at hf
    · exact ⟨a, u, hx, hf⟩
  · rintro ⟨a, u, hx, hf⟩
    exact ⟨(.ok a, u), hx, hf⟩

/-- A sequence fails in its first member, or in the rest after the first member has succeeded. -/
theorem bind_eq_error {x : Attempt ε σ α} {f : α → Attempt ε σ β} {s t : σ} {e : ε} :
    (x >>= f) s = some (.error e, t) ↔
      x s = some (.error e, t) ∨ ∃ a u, x s = some (.ok a, u) ∧ f a u = some (.error e, t) := by
  rw [bind_apply, Option.bind_eq_some_iff]
  constructor
  · rintro ⟨⟨_ | a, u⟩, hx, hf⟩
    · simp only [Option.some.injEq, Prod.mk.injEq, Except.error.injEq] at hf
      obtain ⟨rfl, rfl⟩ := hf
      exact .inl hx
    · exact .inr ⟨a, u, hx, hf⟩
  · rintro (hx | ⟨a, u, hx, hf⟩)
    · exact ⟨(.error e, t), hx, rfl⟩
    · exact ⟨(.ok a, u), hx, hf⟩

end Attempt

/-- A computation that always ends, perhaps with a failure. -/
abbrev Trial (ε σ : Type) := ExceptT ε (StateM σ)

namespace Trial

/-- The second trial begins where the first one succeeded. -/
theorem bind_apply (x : Trial ε σ α) (f : α → Trial ε σ β) (s : σ) :
    (x >>= f) s = match x s with
      | (.ok a, t) => f a t
      | (.error e, t) => (.error e, t) := by
  change (ExceptT.bind x f) s = _
  simp only [ExceptT.bind, ExceptT.mk, ExceptT.bindCont, Bind.bind, StateT.bind]
  obtain ⟨_ | a, t⟩ := x s <;> rfl

/-- The next trial is given the state. -/
theorem get_bind_apply (f : σ → Trial ε σ α) (s : σ) : (get >>= f) s = f s s := rfl

/-- The next trial begins with the state that was set. -/
theorem set_bind_apply (t : σ) (f : PUnit → Trial ε σ α) (s : σ) : (set t >>= f) s = f ⟨⟩ t := rfl

/-- The next trial begins with the changed state. -/
theorem modify_bind_apply (g : σ → σ) (f : Unit → Trial ε σ α) (s : σ) :
    (modify g >>= f) s = f () (g s) := rfl

/-- A sequence goes on where its first member has succeeded. -/
theorem bind_of_ok {x : Trial ε σ α} {f : α → Trial ε σ β} {s t : σ} {a : α}
    (h : x s = (.ok a, t)) : (x >>= f) s = f a t := by
  rw [bind_apply, h]

/-- A sequence succeeds when its first member does and the rest succeeds from there. -/
theorem bind_eq_ok {x : Trial ε σ α} {f : α → Trial ε σ β} {s t : σ} {b : β} :
    (x >>= f) s = (.ok b, t) ↔ ∃ a u, x s = (.ok a, u) ∧ f a u = (.ok b, t) := by
  constructor
  · intro h
    cases hx : x s with
    | mk r u =>
      cases r with
      | error e =>
        rw [bind_apply, hx] at h
        cases h
      | ok a => exact ⟨a, u, rfl, (bind_of_ok hx).symm.trans h⟩
  · rintro ⟨a, u, hx, h⟩
    exact (bind_of_ok hx).trans h

/-- A sequence fails in its first member, or in the rest after the first member has succeeded. -/
theorem bind_eq_error {x : Trial ε σ α} {f : α → Trial ε σ β} {s t : σ} {e : ε} :
    (x >>= f) s = (.error e, t) ↔
      x s = (.error e, t) ∨ ∃ a u, x s = (.ok a, u) ∧ f a u = (.error e, t) := by
  constructor
  · intro h
    cases hx : x s with
    | mk r u =>
      cases r with
      | error e' =>
        rw [bind_apply, hx] at h
        cases h
        exact .inl rfl
      | ok a => exact .inr ⟨a, u, rfl, (bind_of_ok hx).symm.trans h⟩
  · rintro (hx | ⟨a, u, hx, h⟩)
    · rw [bind_apply, hx]
    · exact (bind_of_ok hx).trans h

end Trial

/-- A property of computations that a sequence inherits from its members. -/
structure Discipline (σ : Type) where
  /-- The computations with the property. -/
  Allows : {α : Type} → Run σ α → Prop
  /-- Doing nothing has the property. -/
  pure {α : Type} (a : α) : Allows (pure a)
  /-- A sequence has the property when its members do. -/
  bind {α β : Type} {x : Run σ α} {f : α → Run σ β} :
    Allows x → (∀ a, Allows (f a)) → Allows (x >>= f)

namespace Discipline

variable (D : Discipline σ) {α β ε : Type}

/-- A computation that may fail has the property when the one without the failure does. -/
abbrev AllowsAttempt (x : Attempt ε σ α) : Prop :=
  D.Allows (α := Except ε α) x

variable {D}

/-- A discipline allows for success without a change. -/
theorem attempt_pure (a : α) : D.AllowsAttempt (Pure.pure a : Attempt ε σ α) :=
  D.pure (Except.ok a : Except ε α)

/-- A discipline allows for failure. -/
theorem attempt_throw (e : ε) : D.AllowsAttempt (throw e : Attempt ε σ α) :=
  D.pure (Except.error e : Except ε α)

/-- A result that is known is as good as none. -/
theorem attempt_result (r : Except ε α) : D.AllowsAttempt (ExceptT.mk (Pure.pure r)) :=
  D.pure r

/-- A discipline allows for computations that may fail one after the other. -/
theorem attempt_bind {x : Attempt ε σ α} {f : α → Attempt ε σ β} (hx : D.AllowsAttempt x)
    (hf : ∀ a, D.AllowsAttempt (f a)) : D.AllowsAttempt (x >>= f) := by
  refine D.bind hx fun r => ?_
  cases r with
  | ok a => exact hf a
  | error e => exact D.pure _

/-- Looking up something that is a function of a part has the property, too. -/
theorem derive {γ : Type} {g : σ → β} (hg : D.Allows (do return g (← get))) (f : β → γ) :
    D.Allows (do return f (g (← get))) := by
  have h := D.bind hg fun b => D.pure (f b)
  rwa [bind_assoc] at h

/-- Going on in a way that depends on a part of the state only has the property when looking that
part up has it. -/
theorem consult [Nonempty σ] {g : σ → β} {k : σ → Run σ α} (hg : D.Allows (do return g (← get)))
    (hpart : ∀ s t, g s = g t → k s = k t) (hk : ∀ s, D.Allows (k s)) :
    D.Allows (do k (← get)) := by
  classical
  let origin (b : β) : σ := if h : ∃ s, g s = b then h.choose else Classical.arbitrary σ
  have horigin (s : σ) : g (origin (g s)) = g s := by
    have h : ∃ t, g t = g s := ⟨s, rfl⟩
    simp only [origin, dif_pos h]
    exact h.choose_spec
  have hwhole := D.bind hg fun b => hk (origin b)
  rw [bind_assoc] at hwhole
  have heq : (fun s => (Pure.pure (g s) : Run σ β) >>= fun b => k (origin b)) = k := by
    funext s
    rw [pure_bind]
    exact hpart _ _ (horigin s)
  rwa [heq] at hwhole

/-- What is asked of the state may decide how to go on, where that may fail. -/
theorem attempt_consult [Nonempty σ] {g : σ → β} {k : σ → Attempt ε σ α}
    (hg : D.Allows (do return g (← get))) (hpart : ∀ s t, g s = g t → k s = k t)
    (hk : ∀ s, D.AllowsAttempt (k s)) : D.AllowsAttempt (do k (← get)) :=
  consult hg hpart hk

/-- Doing something and then giving a result that depends on it. -/
theorem returning {x : Run σ α} (hx : D.Allows x) (g : α → β) : D.Allows (do return g (← x)) :=
  D.bind hx fun _ => D.pure _

/-- A computation that cannot fail, as one that may. -/
theorem attempt_lift {x : Run σ α} (hx : D.Allows x) :
    D.AllowsAttempt (ExceptT.lift x : Attempt ε σ α) :=
  D.bind hx fun _ => D.pure _

end Discipline

end Narrative
