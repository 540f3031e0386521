import Narrative.Proofs.Computation

/-!
# Computations in step

Two computations over different states can go hand in hand: from states that correspond they come to
results that correspond and to states that correspond again. What is proved of the members of two
sequences then holds of the sequences.
-/

namespace Narrative

variable {σ τ ε ε' α β γ δ : Type}

/-- The results of two computations that may fail correspond: both fail or none does. -/
def Outcomes (E : ε → ε' → Prop) (Q : α → β → Prop) : Except ε α → Except ε' β → Prop
  | .ok a, .ok b => Q a b
  | .error e, .error e' => E e e'
  | _, _ => False

/-- What holds of values that correspond and of errors that correspond holds of results that do. -/
@[elab_as_elim]
theorem Outcomes.elim {E : ε → ε' → Prop} {Q : α → β → Prop}
    {motive : Except ε α → Except ε' β → Prop} {r : Except ε α} {r' : Except ε' β}
    (h : Outcomes E Q r r') (hok : ∀ a b, Q a b → motive (.ok a) (.ok b))
    (herror : ∀ e e', E e e' → motive (.error e) (.error e')) : motive r r' := by
  cases r with
  | ok a =>
    cases r' with
    | ok b => exact hok a b h
    | error e' => exact False.elim h
  | error e =>
    cases r' with
    | ok b => exact False.elim h
    | error e' => exact herror e e' h

/-- Results correspond when their values do in a weaker way. -/
theorem Outcomes.mono {E : ε → ε' → Prop} {Q Q' : α → β → Prop} {r : Except ε α} {r' : Except ε' β}
    (h : Outcomes E Q r r') (hQ : ∀ a b, Q a b → Q' a b) : Outcomes E Q' r r' :=
  h.elim hQ fun _ _ he => he

/-- Results are equal when their values and their errors are. -/
theorem Outcomes.eq {r r' : Except ε α} (h : Outcomes Eq Eq r r') : r = r' :=
  h.elim (fun _ _ => congrArg Except.ok) fun _ _ => congrArg Except.error

/-- A correspondence between computations over two kinds of states that sequences inherit from their
members. -/
structure Coupling (σ τ : Type) where
  /-- The states that correspond. -/
  Meets : σ → τ → Prop
  /-- The computations that correspond when their results are to be related by `Q`. -/
  Couples {α β : Type} (Q : α → β → Prop) : Run σ α → Run τ β → Prop
  /-- Doing nothing corresponds to doing nothing. -/
  pure {α β : Type} {Q : α → β → Prop} {a : α} {b : β} :
    Q a b → Couples Q (Pure.pure a) (Pure.pure b)
  /-- Sequences correspond when their members do. -/
  bind {α β γ δ : Type} {Q : α → β → Prop} {S : γ → δ → Prop} {x : Run σ α} {y : Run τ β}
    {f : α → Run σ γ} {g : β → Run τ δ} :
    Couples Q x y → (∀ a b, Q a b → Couples S (f a) (g b)) → Couples S (x >>= f) (y >>= g)
  /-- What is done may depend on the states. -/
  consult {α β : Type} {Q : α → β → Prop} {k : σ → Run σ α} {l : τ → Run τ β} :
    (∀ s t, Meets s t → Couples Q (k s) (l t)) → Couples Q (get >>= k) (get >>= l)
  /-- The states may be changed alike. -/
  change {f : σ → σ} {g : τ → τ} :
    (∀ s t, Meets s t → Meets (f s) (g t)) → Couples Eq (modify f) (modify g)

namespace Coupling

/-- Either both computations end or none does. -/
def exact (R : σ → τ → Prop) : Coupling σ τ where
  Meets := R
  Couples Q x y := ∀ s t, R s t → Option.Rel (fun p q => Q p.1 q.1 ∧ R p.2 q.2) (x s) (y t)
  pure h s t hst := .some ⟨h, hst⟩
  bind {α β γ δ Q S x y f g} hx hf s t hst := by
    rw [Run.bind_apply, Run.bind_apply]
    generalize hx' : x s = p, hy' : y t = q
    have hxy := hx s t hst
    rw [hx', hy'] at hxy
    cases hxy with
    | none => exact .none
    | some h => exact hf _ _ h.1 _ _ h.2
  consult h := by
    intro s t hst
    exact h s t hst s t hst
  change h s t hst := .some ⟨rfl, h s t hst⟩

/-- Where the first computation ends, the second one does. -/
def leading (R : σ → τ → Prop) : Coupling σ τ where
  Meets := R
  Couples Q x y := ∀ s t, R s t → ∀ a s', x s = some (a, s') →
    ∃ b t', y t = some (b, t') ∧ Q a b ∧ R s' t'
  pure h s t hst a s' hrun := by
    cases hrun
    exact ⟨_, t, rfl, h, hst⟩
  bind hx hf s t hst c u hrun := by
    obtain ⟨a, s', hx', hf'⟩ := Run.bind_eq_some.1 hrun
    obtain ⟨b, t', hy, hab, hst'⟩ := hx s t hst a s' hx'
    obtain ⟨d, v, hg, hcd, huv⟩ := hf a b hab s' t' hst' c u hf'
    exact ⟨d, v, Run.bind_eq_some.2 ⟨b, t', hy, hg⟩, hcd, huv⟩
  consult h s t hst := h s t hst s t hst
  change h s t hst a s' hrun := by
    cases hrun
    exact ⟨_, _, rfl, rfl, h s t hst⟩

variable (K : Coupling σ τ)

/-- Computations that may fail correspond when those without the failure do. -/
abbrev CouplesAttempt (E : ε → ε' → Prop) (Q : α → β → Prop) (x : Attempt ε σ α)
    (y : Attempt ε' τ β) : Prop :=
  K.Couples (α := Except ε α) (β := Except ε' β) (Outcomes E Q) x y

variable {K} {E : ε → ε' → Prop} {Q : α → β → Prop} {S : γ → δ → Prop}

/-- A coupling of results is one of any wider relation. -/
theorem mono {Q' : α → β → Prop} {x : Run σ α} {y : Run τ β} (h : K.Couples Q x y)
    (hQ : ∀ a b, Q a b → Q' a b) : K.Couples Q' x y := by
  have hboth := K.bind h fun a b hab => K.pure (hQ a b hab)
  rwa [bind_pure, bind_pure] at hboth

/-- Successes are coupled. -/
theorem attempt_pure {a : α} {b : β} (h : Q a b) :
    K.CouplesAttempt E Q (Pure.pure a) (Pure.pure b) :=
  K.pure (Q := Outcomes E Q) (a := .ok a) (b := .ok b) h

/-- Failures are coupled. -/
theorem attempt_throw {e : ε} {e' : ε'} (h : E e e') :
    K.CouplesAttempt E Q (throw e) (throw e') :=
  K.pure (Q := Outcomes E Q) (a := .error e) (b := .error e') h

/-- Results that are known correspond when they are related. -/
theorem attempt_result {r : Except ε α} {r' : Except ε' β} (h : Outcomes E Q r r') :
    K.CouplesAttempt E Q (ExceptT.mk (Pure.pure r)) (ExceptT.mk (Pure.pure r')) :=
  K.pure h

/-- Coupled computations that may fail are coupled one after the other. -/
theorem attempt_bind {x : Attempt ε σ α} {y : Attempt ε' τ β} {f : α → Attempt ε σ γ}
    {g : β → Attempt ε' τ δ} (hx : K.CouplesAttempt E Q x y)
    (hf : ∀ a b, Q a b → K.CouplesAttempt E S (f a) (g b)) :
    K.CouplesAttempt E S (x >>= f) (y >>= g) :=
  K.bind hx fun _ _ hr => hr.elim hf fun _ _ he => K.pure (Q := Outcomes E S) he

/-- Both go on from what they find, where they may fail. -/
theorem attempt_consult {k : σ → Attempt ε σ α} {l : τ → Attempt ε' τ β}
    (h : ∀ s t, K.Meets s t → K.CouplesAttempt E Q (k s) (l t)) :
    K.CouplesAttempt E Q (get >>= k) (get >>= l) :=
  K.consult h

/-- Both change what they find, among steps that may fail. -/
theorem attempt_modify {f : σ → σ} {g : τ → τ} (h : ∀ s t, K.Meets s t → K.Meets (f s) (g t)) :
    K.CouplesAttempt E Eq (modify f : Attempt ε σ Unit) (modify g : Attempt ε' τ Unit) :=
  K.bind (K.change h) fun a b hunit => K.pure (Q := Outcomes E Eq) (a := .ok a) (b := .ok b) hunit

/-- What is done on one side may depend on the state there. -/
theorem consult_right {x : Run σ α} {l : τ → Run τ β}
    (h : ∀ s t, K.Meets s t → K.Couples Q x (l t)) : K.Couples Q x (get >>= l) :=
  K.consult (k := fun _ => x) h

/-- The second goes on from what it finds. -/
theorem attempt_consult_right {x : Attempt ε σ α} {l : τ → Attempt ε' τ β}
    (h : ∀ s t, K.Meets s t → K.CouplesAttempt E Q x (l t)) :
    K.CouplesAttempt E Q x (get >>= l) :=
  consult_right h

/-- Computations that cannot fail, as ones that may. -/
theorem attempt_lift {x : Run σ α} {y : Run τ β} (h : K.Couples Q x y) :
    K.CouplesAttempt E Q (ExceptT.lift x) (ExceptT.lift y) :=
  K.bind h fun a b hab => K.pure (Q := Outcomes E Q) (a := .ok a) (b := .ok b) hab

end Coupling

end Narrative
