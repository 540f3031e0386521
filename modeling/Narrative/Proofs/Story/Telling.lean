import Narrative.Proofs.Story.Playing

/-!
# Telling a story

Where a story is played up to the next choice, units of text are begun, go on node by node and are
closed. What it comes to does not depend on how many nodes may be played in a row, if they are
enough.
-/

namespace Narrative

/-- The world in which so many nodes may be played in a row. -/
def World.within (w : World) (steps : Nat) : World :=
  { w with steps }

namespace Story

/-! ## What the number of steps has no part in -/

section Within

variable (w : World) (n : Nat)

/-- Settling does not depend on how many nodes may be played in a row. -/
@[simp] theorem settleWithin_within (moves : Nat) :
    settleWithin (w.within n) moves = settleWithin w moves := by
  induction moves with
  | zero => rfl
  | succ moves ih =>
    rw [settleWithin, settleWithin, ih]
    rfl

/-- Coming to rest does not depend on how many nodes may be played in a row. -/
@[simp] theorem settle_within : settle (w.within n) = settle w := by
  simp only [settle, settleWithin_within]

/-- The effect of a node does not depend on that number. -/
@[simp] theorem resolve_within : resolve (w.within n) = resolve w := rfl

/-- Looking for an interrupt does not depend on it. -/
@[simp] theorem redirectBy_within (target : List Char) (position : Nat)
    (interrupts : List Interrupt) :
    redirectBy (w.within n) target position interrupts =
      redirectBy w target position interrupts := by
  induction interrupts generalizing position with
  | nil => rfl
  | cons i rest ih =>
    rw [redirectBy, redirectBy, ih]
    rfl

/-- Evaluating arguments does not depend on it. -/
@[simp] theorem evaluateArguments_within (line : Nat) (args : List (List Char)) :
    evaluateArguments (w.within n) line args = evaluateArguments w line args := by
  induction args with
  | nil => rfl
  | cons arg rest ih =>
    rw [evaluateArguments, evaluateArguments, ih]
    rfl

/-- Taking a divert does not depend on it. -/
@[simp] theorem takeDivert_within : takeDivert (w.within n) = takeDivert w := by
  funext node
  simp only [takeDivert, redirectBy_within, evaluateArguments_within]
  rfl

/-- Entering a container does not depend on it. -/
@[simp] theorem enterWith_within : enterWith (w.within n) = enterWith w := rfl

/-- Playing past a node does not depend on it. -/
@[simp] theorem step_within : step (w.within n) = step w := by
  funext i
  simp only [step, takeDivert_within, enterWith_within, settle_within]

/-- Playing a node for its text does not depend on it. -/
@[simp] theorem playNode_within : playNode (w.within n) = playNode w := by
  funext i
  simp only [playNode, resolve_within, step_within]

/-- Offering the choices of interrupts does not depend on it. -/
@[simp] theorem addInterruptChoices_within (interrupts : List Interrupt) :
    addInterruptChoices (w.within n) interrupts = addInterruptChoices w interrupts := by
  induction interrupts with
  | nil => rfl
  | cons i rest ih =>
    rw [addInterruptChoices, addInterruptChoices, ih]
    rfl

/-- Taking a choice does not depend on it. -/
@[simp] theorem choose_within : choose (w.within n) = choose w := by
  funext index
  simp only [choose, settle_within]

/-- The texts of choices do not depend on it. -/
@[simp] theorem choiceTexts_within (is : List NodeId) :
    choiceTexts (w.within n) is = choiceTexts w is := by
  induction is with
  | nil => rfl
  | cons i rest ih =>
    rw [choiceTexts, choiceTexts, ih]
    rfl

/-- The texts of the pending choices do not depend on it. -/
@[simp] theorem pendingTexts_within : pendingTexts (w.within n) = pendingTexts w := by
  simp only [pendingTexts, choiceTexts_within]

end Within

/-! ## Units of text -/

/-- The text of a unit as it is shown. -/
def shownUnit (backwards : List Char) : String :=
  String.ofList (Text.cleanUp backwards.reverse)

/-- What is done where a unit of text is closed: interrupts offer their choices if nothing more can
be played. -/
def Closes (w : World) (s t : Story) : Prop :=
  s.hasMore = true ∧ t = s ∨ s.hasMore = false ∧ addInterruptChoices w s.interrupts s = some ((), t)

/-- How far a story has been told. -/
inductive Telling where
  /-- Between units of text. -/
  | between
  /-- In a unit, before a node of it is played. -/
  | before (backwards : List Char)
  /-- In a unit, after a node of it was played. -/
  | after (backwards : List Char)

/-- Whether a story that has been told so far is played with this result and ends like this. -/
inductive Tells (w : World) : Telling → Story → Except StoryError Unit → Story → Prop
  /-- Nothing more can be played. -/
  | rest {s : Story} : s.hasMore = false → Tells w .between s (.ok ()) s
  /-- A unit of text is begun. -/
  | begin {s t : Story} {r : Except StoryError Unit} :
      s.hasMore = true → Tells w (.before []) s r t → Tells w .between s r t
  /-- A node is played. -/
  | play {s t u : Story} {r : Except StoryError Unit} {i : NodeId} {fragment b : List Char} :
      s.cursor? = some i → s.hasMore = true → playNode w i s = some (.ok fragment, u) →
      Tells w (.after (fragment.reverse ++ b)) u r t → Tells w (.before b) s r t
  /-- A node cannot be played. -/
  | fail {s t : Story} {i : NodeId} {b : List Char} {e : StoryError} :
      s.cursor? = some i → s.hasMore = true → playNode w i s = some (.error e, t) →
      Tells w (.before b) s (.error e) t
  /-- The unit goes on. -/
  | goOn {s t : Story} {r : Except StoryError Unit} {b : List Char} :
      s.goesOn w.host b = true → Tells w (.before b) s r t → Tells w (.after b) s r t
  /-- The unit is closed and recorded. -/
  | close {s t u : Story} {r : Except StoryError Unit} {b : List Char} :
      s.goesOn w.host b = false → s.Closes w u → Tells w .between (u.record (shownUnit b)) r t →
      Tells w (.after b) s r t

variable {w : World} {s t u : Story} {r : Except StoryError Unit}

/-- A unit that was played up to its end is told, and then what follows it. -/
theorem tells_of_playUnit {steps : Nat} {b : List Char} {played : Except StoryError (List Char)}
    (hmore : s.hasMore = true) (h : playUnit w steps b s = some (played, u))
    (hrest : ∀ unit, played = .ok unit →
      ∃ v, u.Closes w v ∧ Tells w .between (v.record (String.ofList (Text.cleanUp unit))) r t)
    (hfail : ∀ e, played = .error e → r = .error e ∧ t = u) : Tells w (.before b) s r t := by
  induction steps generalizing b s with
  | zero => cases h
  | succ steps ih =>
    obtain ⟨i, hi, hcurrent⟩ := current?_of_hasMore hmore
    obtain ⟨e, rfl, hfails⟩ | ⟨fragment, v, hplayed, ⟨hon, hunit⟩ | ⟨hoff, rfl, rfl⟩⟩ :=
      playUnit_succ hcurrent h
    · obtain ⟨rfl, rfl⟩ := hfail e rfl
      exact .fail hi hmore hfails
    · exact .play hi hmore hplayed (.goOn hon (ih (hasMore_of_goesOn hon) hunit))
    · obtain ⟨v, hcloses, htells⟩ := hrest _ rfl
      exact .play hi hmore hplayed (.close hoff hcloses htells)

/-- What is played within a number of steps is told. -/
theorem tells_of_advanceWithin {steps : Nat} {texts : Except StoryError (List String)}
    (h : advanceWithin w steps s = some (texts, t)) :
    Tells w .between s (texts.map fun _ => ()) t := by
  induction steps generalizing s texts with
  | zero => cases h
  | succ steps ih =>
    rw [advanceWithin, Attempt.get_bind_apply] at h
    split at h
    · next hmore =>
      rw [Attempt.bind_apply, Option.bind_eq_some_iff] at h
      obtain ⟨⟨first, u⟩, hadvance, h⟩ := h
      obtain ⟨hnone, -, -⟩ | ⟨-, ⟨e, rfl, hunit⟩ | ⟨unit, v, v', hunit, hcloses, rfl, rfl⟩⟩ :=
        advance_eq_some hadvance
      · rw [hmore] at hnone
        cases hnone
      · cases h
        exact .begin hmore (tells_of_playUnit hmore hunit nofun fun _ he => by
          cases he
          exact ⟨rfl, rfl⟩)
      · simp only at h
        rw [Attempt.bind_apply, Option.bind_eq_some_iff] at h
        obtain ⟨⟨rest, x⟩, hrest, h⟩ := h
        have hend : x = t ∧ (rest.map fun _ => ()) = texts.map fun _ => () := by
          cases rest <;> cases h <;> exact ⟨rfl, rfl⟩
        obtain ⟨rfl, hsame⟩ := hend
        rw [← hsame]
        refine .begin hmore (tells_of_playUnit hmore hunit (fun _ hok => ?_) nofun)
        cases hok
        exact ⟨v', hcloses, ih hrest⟩
    · next hnone =>
      cases h
      exact .rest (Bool.eq_false_iff.2 hnone)

/-! ## Enough steps -/

/-- Whether what is left of a unit can be played with so many nodes, and what follows it with so
many units. -/
def UnitWithin (w : World) (steps units : Nat) (b : List Char) (s : Story)
    (r : Except StoryError Unit) (t : Story) : Prop :=
  (∃ e, playUnit w steps b s = some (.error e, t) ∧ r = .error e) ∨
    ∃ unit u v texts, playUnit w steps b s = some (.ok unit, u) ∧ u.Closes w v ∧
      advanceWithin w units (v.record (String.ofList (Text.cleanUp unit))) = some (texts, t) ∧
      r = texts.map fun _ => ()

/-- Whether what is left of a telling can be played with so many nodes to the unit and so many
units. -/
def Telling.Within (w : World) (steps units : Nat) (s : Story) (r : Except StoryError Unit)
    (t : Story) : Telling → Prop
  | .between => ∃ texts, advanceWithin w units s = some (texts, t) ∧ r = texts.map fun _ => ()
  | .before b => s.UnitWithin w steps units b r t
  | .after b =>
    s.goesOn w.host b = true ∧ s.UnitWithin w steps units b r t ∨
      s.goesOn w.host b = false ∧ ∃ v texts, s.Closes w v ∧
        advanceWithin w units (v.record (shownUnit b)) = some (texts, t) ∧
        r = texts.map fun _ => ()

/-- A unit goes on behind the text of a node, or ends there. -/
theorem playUnit_of_playNode {steps : Nat} {b fragment : List Char} {i : NodeId}
    (hi : s.current? = some i) (h : playNode w i s = some (.ok fragment, u)) :
    playUnit w (steps + 1) b s =
      if u.goesOn w.host (fragment.reverse ++ b) then playUnit w steps (fragment.reverse ++ b) u
      else some (.ok (fragment.reverse ++ b).reverse, u) := by
  rw [playUnit, Attempt.get_bind_apply]
  simp only [hi]
  rw [Attempt.bind_apply, h, Option.bind_some]
  simp only
  rw [Attempt.get_bind_apply]
  split <;> rfl

/-- A unit fails where a node fails. -/
theorem playUnit_of_error {steps : Nat} {b : List Char} {i : NodeId} {e : StoryError}
    (hi : s.current? = some i) (h : playNode w i s = some (.error e, t)) :
    playUnit w (steps + 1) b s = some (.error e, t) := by
  rw [playUnit, Attempt.get_bind_apply]
  simp only [hi]
  rw [Attempt.bind_apply, h]
  rfl

/-- An advance fails where its unit fails. -/
theorem advance_of_error {e : StoryError} (hmore : s.hasMore = true)
    (h : playUnit w w.steps [] s = some (.error e, t)) : advance w s = some (.error e, t) := by
  rw [advance, Attempt.get_bind_apply]
  simp only [hmore]
  change (playUnit w w.steps [] >>= _) s = _
  rw [Attempt.bind_apply, h]
  rfl

/-- An advance shows its unit, cleaned up, and closes it. -/
theorem advance_of_playUnit {unit : List Char} {v : Story} (hmore : s.hasMore = true)
    (h : playUnit w w.steps [] s = some (.ok unit, u)) (hcloses : u.Closes w v) :
    advance w s = some (.ok (String.ofList (Text.cleanUp unit)),
      v.record (String.ofList (Text.cleanUp unit))) := by
  rw [advance, Attempt.get_bind_apply]
  simp only [hmore]
  change (playUnit w w.steps [] >>= _) s = _
  rw [Attempt.bind_apply, h, Option.bind_some]
  simp only
  rw [Attempt.get_bind_apply]
  obtain ⟨hmore', rfl⟩ | ⟨hnone, hadd⟩ := hcloses
  · simp only [hmore']
    rfl
  · simp only [hnone]
    change ((ExceptT.lift (addInterruptChoices w u.interrupts) : Play Unit) >>= _) u = _
    rw [Attempt.bind_apply, Attempt.lift_apply, hadd]
    rfl

/-- A unit that can be played is played when one is asked for. -/
theorem UnitWithin.advanceWithin_succ {units : Nat} (hmore : s.hasMore = true)
    (h : s.UnitWithin w w.steps units [] r t) :
    ∃ texts, advanceWithin w (units + 1) s = some (texts, t) ∧ r = texts.map fun _ => () := by
  rw [advanceWithin, Attempt.get_bind_apply, if_pos hmore]
  obtain ⟨e, hunit, rfl⟩ | ⟨unit, u, v, texts, hunit, hcloses, hrest, rfl⟩ := h
  · exact ⟨.error e, by rw [Attempt.bind_apply, advance_of_error hmore hunit]; rfl, rfl⟩
  · rw [Attempt.bind_apply, advance_of_playUnit hmore hunit hcloses, Option.bind_some]
    simp only
    rw [Attempt.bind_apply, hrest]
    cases texts with
    | error e => exact ⟨.error e, rfl, rfl⟩
    | ok rest => exact ⟨_, rfl, rfl⟩

/-- A node is played before what is left of its unit. -/
theorem unitWithin_succ {steps units : Nat} {i : NodeId} {fragment b : List Char}
    (hi : s.current? = some i) (hplay : playNode w i s = some (.ok fragment, u))
    (h : (Telling.after (fragment.reverse ++ b)).Within w steps units u r t) :
    s.UnitWithin w (steps + 1) units b r t := by
  obtain ⟨hon, hunit⟩ | ⟨hoff, v, texts, hcloses, hrest, rfl⟩ := h
  · rw [UnitWithin, playUnit_of_playNode hi hplay, if_pos hon]
    exact hunit
  · refine .inr ⟨_, u, v, texts, ?_, hcloses, hrest, rfl⟩
    rw [playUnit_of_playNode hi hplay, hoff]
    rfl

/-- What is told is played within any number of steps that is large enough. -/
theorem Tells.within {m : Telling} (h : Tells w m s r t) :
    ∃ n, ∀ steps ≥ n, ∀ left ≥ n, ∀ units ≥ n, m.Within (w.within steps) left units s r t := by
  induction h with
  | rest hnone =>
    refine ⟨1, fun steps _ left _ units hunits => ?_⟩
    obtain ⟨units, rfl⟩ : ∃ n, units = n + 1 := ⟨units - 1, by omega⟩
    refine ⟨.ok [], ?_, rfl⟩
    rw [advanceWithin, Attempt.get_bind_apply, hnone]
    rfl
  | begin hmore _ ih =>
    obtain ⟨n, hn⟩ := ih
    refine ⟨n + 1, fun steps hsteps left _ units hunits => ?_⟩
    obtain ⟨units, rfl⟩ : ∃ m, units = m + 1 := ⟨units - 1, by omega⟩
    exact UnitWithin.advanceWithin_succ hmore
      (hn steps (by omega) steps (by omega) units (by omega))
  | play hi hmore hplay _ ih =>
    obtain ⟨n, hn⟩ := ih
    refine ⟨n + 1, fun steps hsteps left hleft units hunits => ?_⟩
    obtain ⟨left, rfl⟩ : ∃ m, left = m + 1 := ⟨left - 1, by omega⟩
    obtain ⟨j, hj, hcurrent⟩ := current?_of_hasMore hmore
    cases hi.symm.trans hj
    exact unitWithin_succ hcurrent (by rw [playNode_within]; exact hplay)
      (hn steps (by omega) left (by omega) units (by omega))
  | fail hi hmore hplay =>
    refine ⟨1, fun steps _ left hleft units _ => ?_⟩
    obtain ⟨left, rfl⟩ : ∃ m, left = m + 1 := ⟨left - 1, by omega⟩
    obtain ⟨j, hj, hcurrent⟩ := current?_of_hasMore hmore
    cases hi.symm.trans hj
    exact .inl ⟨_, playUnit_of_error hcurrent (by rw [playNode_within]; exact hplay), rfl⟩
  | goOn hon _ ih =>
    obtain ⟨n, hn⟩ := ih
    exact ⟨n, fun steps hsteps left hleft units hunits =>
      .inl ⟨hon, hn steps hsteps left hleft units hunits⟩⟩
  | close hoff hcloses _ ih =>
    obtain ⟨n, hn⟩ := ih
    refine ⟨n, fun steps hsteps left hleft units hunits => .inr ⟨hoff, ?_⟩⟩
    obtain ⟨texts, hrest, hsame⟩ := hn steps hsteps left hleft units hunits
    exact ⟨_, texts, by rw [Closes, addInterruptChoices_within]; exact hcloses, hrest, hsame⟩

end Story

end Narrative
