import Narrative.Proofs.Story.Naming

/-!
# References to containers

A variable can hold a reference to a container, and a divert to the name of the variable leads there.
An expression reads the variable through the parameters of the sections around the place and the
global variables; a divert looks into the global variables only. So a reference leads wherever a
global variable holds it that no parameter hides.
-/

namespace Narrative

/-- Whether no container has a name as its id or as its label. -/
def Content.Unnamed (c : Content) (name : String) : Prop :=
  ∀ i < c.size, (c.node i).isContainer = true →
    (c.node i).id ≠ name ∧ ¬ ('.' :: name.toList) <:+ (c.node i).id.toList

instance (c : Content) (name : String) : Decidable (c.Unnamed name) :=
  inferInstanceAs (Decidable (∀ i < c.size, (c.node i).isContainer = true →
    (c.node i).id ≠ name ∧ ¬ ('.' :: name.toList) <:+ (c.node i).id.toList))

namespace Stage

variable {s : Stage} {m : Memory} {name id : String}

section Unnamed

variable (h : s.content.Unnamed name)

include h

/-- No container is labelled with the name. -/
theorem labelled_eq_nil : s.content.labelled name = [] := by
  refine List.filter_eq_nil_iff.2 fun i hi => ?_
  rw [Bool.and_eq_true, List.isSuffixOf_iff_suffix]
  rintro ⟨hcontainer, hsuffix⟩
  exact (h i (List.mem_range.1 hi) hcontainer).2 hsuffix

/-- The name is no id. -/
theorem bare?_eq_none : s.bare? name = none := by
  refine Option.filter_eq_none_iff.2 fun i hi htarget => ?_
  obtain ⟨hlt, hid⟩ := Content.find?_eq_some hi
  exact (h i hlt htarget).1 hid

/-- No container has such a name relative to another node. -/
theorem firstUnder?_eq_none (nodes : List NodeId) :
    s.firstUnder? name s.isTarget nodes = none := by
  refine List.findSome?_eq_none_iff.2 fun i _ => Option.filter_eq_none_iff.2 fun j hj htarget => ?_
  have hmem := mem_labelled_of_under? hj htarget
  rw [labelled_eq_nil h] at hmem
  cases hmem

/-- A divert to such a name leads where the global variable of that name refers to. -/
theorem target?_eq_referred? : s.target? m name = s.referred? m name := by
  have hlabel : s.content.findByLabel? name = none := by
    rw [Content.findByLabel?, labelled_eq_nil h]
  rw [target?_eq, bare?_eq_none h, firstUnder?_eq_none h, hlabel, Option.none_or, Option.none_or,
    Option.none_or]

/-- Such a name stands for no visits. -/
theorem counted?_eq_none : s.counted? name = none := by
  have houtward := firstUnder?_eq_none h s.outward
  have hinner : s.inner? name = none := by
    rw [← firstUnder?_here]
    exact firstUnder?_counted_eq_none (firstUnder?_eq_none h _)
  rw [counted?_eq (bare?_eq_none h), hinner, firstUnder?_around_eq_none houtward, Option.none_or]

/-- Such a name has the value of a parameter or of the global variable. -/
theorem globals_of_valueOf (hbinder : s.binder? m name = none) (hreference : reference? name = none)
    (hvalue : s.valueOf m name = .container id) :
    m.globals.get? name = some (.container id) := by
  unfold valueOf at hvalue
  split at hvalue
  · cases hhere : s.here <;> rw [hhere] at hvalue <;> cases hvalue
  · rw [parameter?, hbinder, hreference, countOf?, counted?_eq_none h] at hvalue
    cases hglobal : m.globals.get? name with
    | none =>
      rw [hglobal] at hvalue
      cases hvalue
    | some v =>
      rw [hglobal] at hvalue
      exact congrArg some hvalue

/-- A reference that such a name stands for leads to its container unless a parameter has the name
and the global variable of that name does not lead there as well. -/
theorem target?_eq_some_iff {i : NodeId} (hreference : reference? name = none)
    (hvalue : s.valueOf m name = .container id) (hi : s.content.find? id = some i) :
    s.target? m name = some i ↔ s.binder? m name = none ∨ s.referred? m name = some i := by
  rw [target?_eq_referred? h]
  constructor
  · intro htarget
    exact .inr htarget
  · rintro (hbinder | hreferred)
    · rw [referred?, globals_of_valueOf h hbinder hreference hvalue]
      exact hi
    · exact hreferred

end Unnamed

end Stage

namespace Story

variable {w : World} {s : Story} {name : List Char}

/-- Whether no interrupt that can still fire redirects diverts to a name. -/
def Undetoured (s : Story) (name : List Char) : Prop :=
  ∀ k ∈ s.interrupts, k.isLive = true → ∀ destination, k.redirect? ≠ some (name, destination)

/-- Where no interrupt redirects it, a divert leads to its own name. -/
theorem redirectBy_of_undetoured (position : Nat) {interrupts : List Interrupt}
    (h : ∀ k ∈ interrupts, k.isLive = true → ∀ destination,
      k.redirect? ≠ some (name, destination)) :
    redirectBy w name position interrupts s = some (name, s) := by
  induction interrupts generalizing position with
  | nil => rfl
  | cons k rest ih =>
    have hrest := ih (position + 1) fun k hk => h k (List.mem_cons_of_mem _ hk)
    cases hredirect : k.redirect? with
    | none =>
      unfold redirectBy
      rw [hredirect]
      exact hrest
    | some places =>
      obtain ⟨origin, destination⟩ := places
      have hidle : (!k.isLive || !(origin == name)) = true := by
        rw [Bool.or_eq_true, Bool.not_eq_true', Bool.not_eq_true', beq_eq_false_iff_ne]
        by_cases hlive : k.isLive = true
        · right
          rintro rfl
          exact h k List.mem_cons_self hlive destination hredirect
        · left
          rwa [Bool.not_eq_true] at hlive
      have hfires : fires w k (origin == name) s = some (false, s) := by
        rw [fires, if_pos hidle]
        rfl
      unfold redirectBy
      simp only [hredirect, Run.bind_apply, hfires]
      exact hrest

/-- Where a divert leads that no interrupt redirects. -/
theorem takeDivert_of_undetoured {n : Node} {args : List (List Char)}
    (hcall : splitCall (n.divertTarget?.getD []) = (name, args)) (hend : name ≠ endName)
    (h : s.Undetoured name) :
    takeDivert w n s =
      match (s.stage w.host).target? s.memory (String.ofList name) with
      | none => some (.error (.unknownDivert (String.ofList name)
          ((s.stage w.host).qualified (String.ofList name)) n.line), s)
      | some i => (do return some (s.descend i, ← evaluateArguments w n.line args) :
          Play (Option (NodeId × List Value))) s := by
  have hredirect : redirectBy w name 0 s.interrupts s = some (name, s) :=
    redirectBy_of_undetoured 0 h
  unfold takeDivert
  simp only [hcall, if_neg hend]
  rw [Attempt.get_bind_apply, Attempt.bind_apply]
  simp only [liftM, monadLift, MonadLift.monadLift, Attempt.lift_apply, hredirect, Option.map_some,
    Option.bind_some, if_neg hend]
  rw [Attempt.get_bind_apply]
  cases (s.stage w.host).target? s.memory (String.ofList name) <;> rfl

/-- A variable whose name is that of no container holds a reference. A divert to the name leads to the
container when no parameter has the name, or when the global variable of that name leads there, too.
Where a parameter has the name, the divert leads where the global variable does, and fails when that
holds no reference. -/
theorem takeDivert_reference {n : Node} {args : List (List Char)} {id : String} {i : NodeId}
    (hunnamed : s.content.Unnamed (String.ofList name))
    (hreference : Stage.reference? (String.ofList name) = none)
    (hvalue : (s.stage w.host).valueOf s.memory (String.ofList name) = .container id)
    (hi : s.content.find? id = some i)
    (hcall : splitCall (n.divertTarget?.getD []) = (name, args)) (hend : name ≠ endName)
    (hundetoured : s.Undetoured name) :
    ((s.stage w.host).target? s.memory (String.ofList name) = some i ↔
      (s.stage w.host).binder? s.memory (String.ofList name) = none ∨
        (s.stage w.host).referred? s.memory (String.ofList name) = some i) ∧
      ((s.stage w.host).binder? s.memory (String.ofList name) = none →
        takeDivert w n s = (do return some (s.descend i, ← evaluateArguments w n.line args) :
          Play (Option (NodeId × List Value))) s) ∧
      ((s.stage w.host).binder? s.memory (String.ofList name) ≠ none →
        takeDivert w n s =
          match (s.stage w.host).referred? s.memory (String.ofList name) with
          | none => some (.error (.unknownDivert (String.ofList name)
              ((s.stage w.host).qualified (String.ofList name)) n.line), s)
          | some j => (do return some (s.descend j, ← evaluateArguments w n.line args) :
              Play (Option (NodeId × List Value))) s) := by
  have hiff := Stage.target?_eq_some_iff (s := s.stage w.host) (m := s.memory) hunnamed hreference
    hvalue hi
  refine ⟨hiff, fun hbinder => ?_, fun _ => ?_⟩
  · rw [takeDivert_of_undetoured hcall hend hundetoured, hiff.2 (.inl hbinder)]
  · rw [takeDivert_of_undetoured hcall hend hundetoured,
      Stage.target?_eq_referred? (s := s.stage w.host) hunnamed]

/-- A world in which a variable holds where a divert leads. -/
def errandWorld : World :=
  ⟨.ofSources (.ofList [("main",
    "== start\nVAR there = -> hall\nOff we go.\n-> there\n== hall\nIn the hall.\n")])
    fun _ => "", 4, 40⟩

/-- The divert to the variable leads into the hall. -/
theorem takeDivert_reference_errand : ∃ (s : Story) (n : Node) (i : NodeId),
    Reachable errandWorld.host "main" (fun _ => True) s ∧
    s.current?.map s.node = some n ∧ n.divertTarget? = some "there".toList ∧
    s.content.Unnamed "there" ∧
    (s.stage errandWorld.host).valueOf s.memory "there" = .container "hall" ∧
    s.content.find? "hall" = some i ∧
    (s.stage errandWorld.host).binder? s.memory "there" = none ∧
    takeDivert errandWorld n s = some (.ok (some (s.descend i, [])), s) := by
  have hplayed : (played? errandWorld "main" 0 [.advance]).any (fun s =>
      s.interrupts = [] ∧ s.content.Unnamed "there" ∧
      (s.stage errandWorld.host).valueOf s.memory "there" = .container "hall" ∧
      (s.stage errandWorld.host).binder? s.memory "there" = none ∧
      (s.content.find? "hall").isSome = true ∧
      (s.current?.map s.node).any (fun n => n.divertTarget? = some "there".toList) = true) =
      true := by
    decide +kernel
  obtain ⟨s, hs, hplays⟩ := (Option.any_eq_true _ _).1 hplayed
  obtain ⟨hnone, hunnamed, hvalue, hbinder, hhall, hdivert⟩ := of_decide_eq_true hplays
  obtain ⟨i, hi⟩ := Option.isSome_iff_exists.1 hhall
  obtain ⟨n, hn, htarget⟩ := (Option.any_eq_true _ _).1 hdivert
  replace htarget : n.divertTarget? = some "there".toList := of_decide_eq_true htarget
  have hreached : Reachable errandWorld.host "main" (fun _ => True) s :=
    reachable_of_played? (fun _ _ => trivial) hs
  have hcall : splitCall (n.divertTarget?.getD []) = ("there".toList, []) := by
    rw [htarget]
    decide +kernel
  have hundetoured : s.Undetoured "there".toList := by
    intro k hk
    rw [hnone] at hk
    cases hk
  have hname : String.ofList "there".toList = "there" := String.ofList_toList
  obtain ⟨-, hleads, -⟩ := takeDivert_reference (w := errandWorld)
    (by rw [hname]; exact hunnamed) (by decide +kernel) (by rw [hname]; exact hvalue) hi hcall
    (by decide) hundetoured
  rw [hname] at hleads
  exact ⟨s, n, i, hreached, hn, htarget, hunnamed, hvalue, hi, hbinder, hleads hbinder⟩

/-- A world in which a parameter holds where a divert leads. -/
def visitWorld : World :=
  ⟨.ofSources (.ofList [("main",
    "== start\nVAR there = -> hall\nOff we go.\n-> visit(there)\n== visit(place)\nYou set out.\n" ++
    "-> place\n== hall\nIn the hall.\n")]) fun _ => "", 4, 40⟩

/-- The parameter refers to the hall, and the divert to it fails. -/
theorem reference_not_followed : ∃ (s t : Story) (i : NodeId),
    Reachable visitWorld.host "main" (fun _ => True) s ∧ s.content.Unnamed "place" ∧
    (s.stage visitWorld.host).valueOf s.memory "place" = .container "hall" ∧
    s.content.find? "hall" = some i ∧
    (s.stage visitWorld.host).target? s.memory "place" = none ∧
    s.current?.map (fun j => (s.node j).divertTarget?) = some (some "place".toList) ∧
    advance visitWorld s = some (.error (.unknownDivert "place" "place" 7), t) := by
  have hplayed : (played? visitWorld "main" 0 [.advance, .advance]).any (fun s =>
      s.content.Unnamed "place" ∧
      (s.stage visitWorld.host).valueOf s.memory "place" = .container "hall" ∧
      (s.content.find? "hall").isSome = true ∧
      (s.stage visitWorld.host).target? s.memory "place" = none ∧
      s.current?.map (fun j => (s.node j).divertTarget?) = some (some "place".toList) ∧
      (advance visitWorld s).any (fun r =>
        r.1 = .error (.unknownDivert "place" "place" 7)) = true) = true := by
    decide +kernel
  obtain ⟨s, hs, hplays⟩ := (Option.any_eq_true _ _).1 hplayed
  obtain ⟨hunnamed, hvalue, hhall, htarget, hdivert, hfails⟩ := of_decide_eq_true hplays
  obtain ⟨i, hi⟩ := Option.isSome_iff_exists.1 hhall
  obtain ⟨⟨r, t⟩, hadvance, herror⟩ := (Option.any_eq_true _ _).1 hfails
  obtain rfl : r = .error (.unknownDivert "place" "place" 7) := of_decide_eq_true herror
  exact ⟨s, t, i, reachable_of_played? (fun _ _ => trivial) hs, hunnamed, hvalue, hi, htarget,
    hdivert, hadvance⟩

end Story

end Narrative
