import Narrative.Proofs.Story.Playing

/-!
# Redirection

Whether an interrupt redirects a divert is found out first; then the place is looked for, the
arguments are evaluated, and the place is entered. Each of these may fail, and what happened before
stays.
-/

namespace Narrative.Story

variable {w : World} {s t u : Story}

/-- The name that the divert of a node has as its target. -/
def divertName (s : Story) (i : NodeId) : List Char :=
  (splitCall ((s.node i).divertTarget?.getD [])).1

/-- Where a name leads without interrupts: the inner none is the end of the story, the outer one a
place that does not exist. -/
def leadsTo (s : Story) (host : Host) (name : List Char) : Option (Option NodeId) :=
  if name = endName then some none
  else ((s.stage host).target? s.memory (String.ofList name)).map fun i => some (s.descend i)

/-- The divert of a node is redirected to `destination` by the interrupt at a position, which leaves
the story `u`. -/
structure Detour (w : World) (i : NodeId) (s : Story) (position : Nat) (k : Interrupt)
    (destination : List Char) (u : Story) : Prop where
  /-- The node is a divert. -/
  divert : (s.node i).isDivert = true
  /-- It does not lead to the end. -/
  name_ne : s.divertName i ≠ endName
  /-- The interrupt is one of the story. -/
  found : s.interrupts[position]? = some k
  /-- It could still fire. -/
  live : k.isLive = true
  /-- It redirects diverts to that name. -/
  redirect : k.redirect? = some (s.divertName i, destination)
  /-- It is the one that the divert meets. -/
  redirects : redirectBy w (s.divertName i) 0 s.interrupts s = some (destination, u)
  /-- Conditions were evaluated before it has fired. -/
  fired : ∃ m, Memory.Changes s.content s.memory m ∧
    u = ({ s with memory := m } : Story).fire position k

/-! ## Taking a divert -/

/-- An interrupt that fires is live. -/
theorem isLive_of_fires {k : Interrupt} {occasion : Bool}
    (h : fires w k occasion s = some (true, t)) : k.isLive = true := by
  unfold fires at h
  split at h
  · cases h
  · next hready =>
    rw [Bool.or_eq_true, not_or, Bool.not_eq_true', Bool.not_eq_false] at hready
    exact hready.1

/-- The name of a divert is kept, or a live interrupt redirects it and fires. -/
theorem redirectBy_eq_some {name led : List Char} {position : Nat} {interrupts : List Interrupt}
    (h : redirectBy w name position interrupts s = some (led, u)) :
    ∃ m, Memory.Changes s.content s.memory m ∧
      (led = name ∧ u = { s with memory := m } ∨ ∃ n k, interrupts[n]? = some k ∧
        k.isLive = true ∧ k.redirect? = some (name, led) ∧
        u = ({ s with memory := m } : Story).fire (position + n) k) := by
  induction interrupts generalizing position s with
  | nil =>
    cases h
    exact ⟨u.memory, .refl, .inl ⟨rfl, rfl⟩⟩
  | cons k rest ih =>
    have hlater {s : Story} (h : redirectBy w name (position + 1) rest s = some (led, u)) :
        ∃ m, Memory.Changes s.content s.memory m ∧
          (led = name ∧ u = { s with memory := m } ∨ ∃ n k', (k :: rest)[n]? = some k' ∧
            k'.isLive = true ∧ k'.redirect? = some (name, led) ∧
            u = ({ s with memory := m } : Story).fire (position + n) k') := by
      obtain ⟨m, hchanges, hkept | ⟨n, k', hk', hlive, hredirect, hu⟩⟩ := ih h
      · exact ⟨m, hchanges, .inl hkept⟩
      · rw [Nat.add_assoc, Nat.add_comm 1 n] at hu
        exact ⟨m, hchanges, .inr ⟨n + 1, k', hk', hlive, hredirect, hu⟩⟩
    rw [redirectBy] at h
    cases hredirect : k.redirect? with
    | none =>
      simp only [hredirect] at h
      exact hlater h
    | some places =>
      obtain ⟨origin, destination⟩ := places
      simp only [hredirect] at h
      obtain ⟨fired, v, hfires, hrest⟩ := Run.bind_eq_some.1 h
      obtain ⟨m, hchanges, rfl, hoccasion⟩ := changes_of_fires hfires
      cases fired with
      | true =>
        cases hrest
        obtain rfl : origin = name := eq_of_beq (hoccasion rfl)
        exact ⟨m, hchanges, .inr ⟨0, k, rfl, isLive_of_fires hfires, hredirect, rfl⟩⟩
      | false =>
        obtain ⟨m', hchanges', hends⟩ := hlater hrest
        exact ⟨m', hchanges.trans hchanges', hends⟩

/-- The name of a divert is kept, or the divert is redirected. -/
theorem kept_or_detour {i : NodeId} {led : List Char} (hi : (s.node i).isDivert = true)
    (hname : s.divertName i ≠ endName)
    (h : redirectBy w (s.divertName i) 0 s.interrupts s = some (led, u)) :
    (led = s.divertName i ∧ ∃ m, u = { s with memory := m }) ∨
      ∃ position k, Detour w i s position k led u := by
  obtain ⟨m, hchanges, ⟨hled, hu⟩ | ⟨n, k, hk, hlive, hplaces, hu⟩⟩ := redirectBy_eq_some h
  · exact .inl ⟨hled, m, hu⟩
  · rw [Nat.zero_add] at hu
    exact .inr ⟨n, k, hi, hname, hk, hlive, hplaces, h, m, hchanges, hu⟩

/-- Evaluating the arguments of a divert changes the memory only. -/
theorem evaluateArguments_eq_some {line : Nat} {args : List (List Char)}
    {r : Except StoryError (List Value)} (h : evaluateArguments w line args s = some (r, t)) :
    ∃ m, Memory.Changes s.content s.memory m ∧ t = { s with memory := m } := by
  induction args generalizing s t r with
  | nil =>
    cases h
    exact ⟨_, .refl, rfl⟩
  | cons arg rest ih =>
    rw [evaluateArguments, Attempt.bind_apply] at h
    change ((ExceptT.lift (evaluate w (String.ofList arg)) : Play _) s).bind _ = _ at h
    rw [Attempt.lift_apply, Option.bind_map, Option.bind_eq_some_iff] at h
    obtain ⟨⟨result, u⟩, hevaluate, h⟩ := h
    obtain ⟨m, hchanges, rfl⟩ :=
      changes_of_think (fun _ hctx => hctx.evalText (String.ofList arg).toList) hevaluate
    cases result with
    | error e =>
      cases h
      exact ⟨m, hchanges, rfl⟩
    | ok v =>
      simp only [Function.comp_apply] at h
      rw [Attempt.bind_apply, Option.bind_eq_some_iff] at h
      obtain ⟨⟨result, u'⟩, hrest, h⟩ := h
      obtain ⟨m', hchanges', rfl⟩ := ih hrest
      refine ⟨m', hchanges.trans hchanges', ?_⟩
      cases result <;> cases h <;> rfl

/-- A divert leads to the end, or where the name leads that interrupts make of its own. What fails
is found out after interrupts have been asked. -/
theorem takeDivert_eq_some {n : Node} {r : Except StoryError (Option (NodeId × List Value))}
    (h : takeDivert w n s = some (r, t)) :
    ((splitCall (n.divertTarget?.getD [])).1 = endName ∧ r = .ok none ∧ t = s) ∨
      (splitCall (n.divertTarget?.getD [])).1 ≠ endName ∧ ∃ led u m,
        redirectBy w (splitCall (n.divertTarget?.getD [])).1 0 s.interrupts s = some (led, u) ∧
        Memory.Changes u.content u.memory m ∧ t = { u with memory := m } ∧
        ∀ target, r = .ok target → u.leadsTo w.host led = some (target.map (·.1)) := by
  unfold takeDivert at h
  simp only at h
  split at h
  · next hend =>
    cases h
    exact .inl ⟨hend, rfl, rfl⟩
  · next hname =>
    refine .inr ⟨hname, ?_⟩
    rw [Attempt.get_bind_apply, Attempt.bind_apply] at h
    change ((ExceptT.lift (redirectBy w _ 0 s.interrupts) : Play _) s).bind _ = _ at h
    rw [Attempt.lift_apply, Option.bind_map, Option.bind_eq_some_iff] at h
    obtain ⟨⟨led, u⟩, hredirect, h⟩ := h
    simp only [Function.comp_apply] at h
    split at h
    · next hend =>
      cases h
      refine ⟨led, t, t.memory, hredirect, .refl, rfl, fun target htarget => ?_⟩
      cases htarget
      rw [leadsTo, if_pos hend]
      rfl
    · next hled =>
      rw [Attempt.get_bind_apply] at h
      cases htarget : (u.stage w.host).target? u.memory (String.ofList led) with
      | none =>
        simp only [htarget] at h
        cases h
        exact ⟨led, t, t.memory, hredirect, .refl, rfl, nofun⟩
      | some i =>
        simp only [htarget] at h
        rw [Attempt.bind_apply, Option.bind_eq_some_iff] at h
        obtain ⟨⟨values, v⟩, hvalues, h⟩ := h
        obtain ⟨m, hchanges, rfl⟩ := evaluateArguments_eq_some hvalues
        refine ⟨led, u, m, hredirect, hchanges, ?_, fun target hok => ?_⟩
        · cases values <;> cases h <;> rfl
        · cases values with
          | error e =>
            cases h
            cases hok
          | ok values =>
            cases h
            cases hok
            rw [leadsTo, if_neg hled, htarget]
            rfl

/-- Play is led from the story `u` to a node or to the end of the story. -/
inductive Arrives (w : World) (u : Story) : Option NodeId → Story → Prop
  /-- The story ends. -/
  | finish {m : Memory} : Memory.Changes u.content u.memory m →
      Arrives w u none ({ u with memory := m } : Story).finish
  /-- The node is entered, and the cursor comes to rest. -/
  | enter {i : NodeId} {m m' : Memory} {t : Story} :
      Memory.Changes u.content u.memory m → Memory.Readies u.content i m m' →
      settle w { (({ u with memory := m' } : Story).moveInto i) with choices := [] } =
        some ((), t) →
      Arrives w u (some i) t

/-- A divert that is played leads to the end, or it fails or leads on after interrupts have been
asked. -/
theorem playNode_divert {i : NodeId} {r : Except StoryError (List Char)}
    (hi : (s.node i).isDivert = true) (h : playNode w i s = some (r, t)) :
    (s.divertName i = endName ∧ r = .ok glue ∧ t = s.finish) ∨
      s.divertName i ≠ endName ∧ ∃ led u,
        redirectBy w (s.divertName i) 0 s.interrupts s = some (led, u) ∧
        ((∃ e m, r = .error e ∧ Memory.Changes u.content u.memory m ∧ t = { u with memory := m }) ∨
          ∃ target, r = .ok glue ∧ u.leadsTo w.host led = some target ∧ u.Arrives w target t) := by
  rw [playNode, Attempt.bind_apply, resolve_of_isDivert hi, Option.bind_some] at h
  simp only at h
  rw [Attempt.bind_apply, Option.bind_eq_some_iff] at h
  obtain ⟨⟨stepped, v⟩, hstep, h⟩ := h
  rw [step, Attempt.get_bind_apply] at hstep
  simp only [hi, if_true] at hstep
  rw [Attempt.bind_apply, Option.bind_eq_some_iff] at hstep
  obtain ⟨⟨taken, x⟩, htake, hstep⟩ := hstep
  obtain ⟨hend, rfl, rfl⟩ | ⟨hname, led, u, m, hredirect, hchanges, rfl, hleads⟩ :=
    takeDivert_eq_some htake
  · cases hstep
    cases h
    exact .inl ⟨hend, rfl, rfl⟩
  · refine .inr ⟨hname, led, u, hredirect, ?_⟩
    cases taken with
    | error e =>
      cases hstep
      cases h
      exact .inl ⟨e, m, rfl, hchanges, rfl⟩
    | ok target =>
      have hleads' := hleads target rfl
      cases target with
      | none =>
        cases hstep
        cases h
        exact .inr ⟨none, rfl, hleads', .finish hchanges⟩
      | some found =>
        obtain ⟨target, args⟩ := found
        simp only at hstep
        rw [Attempt.bind_apply, Option.bind_eq_some_iff] at hstep
        obtain ⟨⟨entered, y⟩, henter, hstep⟩ := hstep
        obtain ⟨e, rfl, rfl⟩ | ⟨rfl, m', m'', hchanges', hreadies, rfl⟩ := enterWith_eq_some henter
        · cases hstep
          cases h
          exact .inl ⟨e, m, rfl, hchanges, rfl⟩
        · simp only at hstep
          rw [Attempt.modify_bind_apply] at hstep
          change (ExceptT.lift (settle w) : Play Unit) _ = _ at hstep
          rw [Attempt.lift_apply] at hstep
          obtain ⟨⟨_, z⟩, hsettle, heq⟩ := Option.map_eq_some_iff.1 hstep
          cases heq
          cases h
          exact .inr ⟨some target, rfl, hleads', .enter (hchanges.trans hchanges') hreadies hsettle⟩

end Narrative.Story
