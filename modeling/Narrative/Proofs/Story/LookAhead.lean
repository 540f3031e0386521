import Narrative.Proofs.Story.Detours
import Narrative.Proofs.Story.References

/-!
# Looking ahead at a divert

Whether a unit of text goes on with a divert is decided before the divert is taken. Looking ahead
evaluates nothing, so it asks no interrupt: it finds the place to which the name of the divert
leads. When the divert is taken, it leads there as well, unless an interrupt redirects it, or the
conditions of interrupts that do not fire give another value to the variable of that name.
-/

namespace Narrative

/-- Where a divert to a name leads depends on one global variable only. -/
theorem Stage.target?_congr {s : Stage} {m m' : Memory} {name : String}
    (h : m'.globals.get? name = m.globals.get? name) : s.target? m' name = s.target? m name := by
  rw [target?_eq, target?_eq, referred?, referred?, h]

namespace Story

variable {w : World} {s t u : Story} {host : Host} {i : NodeId}

/-- A knot has one list, so what it begins with does not depend on the memory. -/
theorem descend_memory (s : Story) (m : Memory) (i : NodeId) :
    ({ s with memory := m } : Story).descend i = s.descend i := by
  have hnode : ({ s with memory := m } : Story).node = s.node := rfl
  have hchildren (hknot : (s.node i).isKnot = true) :
      ({ s with memory := m } : Story).children i = s.children i := by
    have hlist (selection : Nat) :
        (s.content.node i).childrenAt selection = (s.content.node i).children := by
      unfold Node.isKnot node at hknot
      unfold Node.childrenAt
      split
      · next hkind =>
        rw [hkind] at hknot
        cases hknot
      · rfl
    exact (hlist _).trans (hlist _).symm
  unfold descend
  rw [hnode]
  split
  · next hknot => rw [hchildren hknot]
  · rfl

/-- Where a name leads depends on the variable of that name only. -/
theorem leadsTo_memory {m : Memory} {name : List Char}
    (h : m.globals.get? (String.ofList name) = s.memory.globals.get? (String.ofList name)) :
    ({ s with memory := m } : Story).leadsTo host name = s.leadsTo host name := by
  have hstage : ({ s with memory := m } : Story).stage host = s.stage host := rfl
  have hdescend : ({ s with memory := m } : Story).descend = s.descend :=
    funext (descend_memory s m)
  rw [leadsTo, leadsTo, hstage, hdescend, Stage.target?_congr h]

/-- Looking ahead finds where the name of a divert leads. -/
theorem peekDivert_of_isDivert (hi : (s.node i).isDivert = true) :
    s.peekDivert host (s.node i) = s.leadsTo host (s.divertName i) := by
  obtain ⟨target, htarget⟩ := Option.isSome_iff_exists.1 hi
  rw [peekDivert, divertName, htarget]
  rfl

/-- A divert does not begin with glue. -/
theorem startsWithGlue_of_isDivert {n : Node} (h : n.isDivert = true) :
    startsWithGlue n.text = false := by
  rw [Node.isDivert, Node.divertTarget?, kind_of_isDivert h, Option.isSome_map] at h
  unfold startsWithGlue
  cases hchars : n.text.toList with
  | nil => rfl
  | cons c cs =>
    rw [hchars, Text.after?] at h
    split at h
    · next hc =>
      subst hc
      rfl
    · cases h

/-- A unit goes on with a divert where it is blank or ends in glue, and where looking ahead finds
the end of the story or a place that begins with glue. -/
theorem continuesInto_iff_of_isDivert (hi : (s.node i).isDivert = true) {backwards : List Char} :
    s.continuesInto host i backwards = true ↔
      (glue.reverse <+: backwards ∨ backwards.all Text.isBlank = true) ∨
        s.peekDivert host (s.node i) = some none ∨
          ∃ target first, s.peekDivert host (s.node i) = some (some target) ∧
            (s.children target).head? = some first ∧
            startsWithGlue (s.node first).text = true := by
  have hkind := kind_of_isDivert hi
  have hsilent :
      ((s.node i).isChoice && !(s.node i).isFallback || (s.node i).isStitch) = false := by
    rw [Node.isChoice, Node.isStitch, hkind]
    rfl
  unfold continuesInto
  simp only [startsWithGlue_of_isDivert hi, hsilent, Bool.false_or]
  split
  · next hborder =>
    rw [Bool.or_eq_true, List.isPrefixOf_iff_prefix] at hborder
    exact ⟨fun _ => .inl hborder, fun _ => rfl⟩
  · next hborder =>
    rw [Bool.or_eq_true, List.isPrefixOf_iff_prefix] at hborder
    rw [if_neg Bool.false_ne_true, or_iff_right hborder]
    cases s.peekDivert host (s.node i) with
    | none => simp
    | some target =>
      cases target with
      | none => simp
      | some target => simp [Option.any_eq_true]

/-- What looking ahead at a divert finds, and where the divert leads that is taken after all. It
leads there where no interrupt is for its name. Else an interrupt redirects it, and leads it to its
own destination, or none does, and it leads there unless their conditions have changed the variable
of that name. -/
theorem peekDivert_agrees {target : Option (NodeId × List Value)}
    (hi : (s.node i).isDivert = true) (h : takeDivert w (s.node i) s = some (.ok target, t)) :
    (s.divertName i = endName ∨ s.Undetoured (s.divertName i) →
      s.peekDivert w.host (s.node i) = some (target.map (·.1))) ∧
    (∀ led u, s.divertName i ≠ endName →
      redirectBy w (s.divertName i) 0 s.interrupts s = some (led, u) →
      ((∃ position k, Detour w i s position k led u) ∧
          u.leadsTo w.host led = some (target.map (·.1)) ∧
          (s.peekDivert w.host (s.node i) = some (target.map (·.1)) ↔
            s.leadsTo w.host (s.divertName i) = u.leadsTo w.host led)) ∨
        led = s.divertName i ∧ u.interrupts = s.interrupts ∧
          (u.memory.globals.get? (String.ofList (s.divertName i)) =
              s.memory.globals.get? (String.ofList (s.divertName i)) →
            s.peekDivert w.host (s.node i) = some (target.map (·.1)))) ∧
    ∀ backwards, s.continuesInto w.host i backwards = true ↔
      (glue.reverse <+: backwards ∨ backwards.all Text.isBlank = true) ∨
        s.peekDivert w.host (s.node i) = some none ∨
          ∃ j first, s.peekDivert w.host (s.node i) = some (some j) ∧
            (s.children j).head? = some first ∧ startsWithGlue (s.node first).text = true := by
  rw [peekDivert_of_isDivert hi]
  refine ⟨fun hkept => ?_, fun led u hname hredirect => ?_, fun backwards => ?_⟩
  · obtain ⟨hend, hnone, -⟩ | ⟨hname, led, u, m, hredirect, -, -, hleads⟩ := takeDivert_eq_some h
    · cases hnone
      exact if_pos hend
    · obtain hend | hundetoured := hkept
      · exact absurd hend hname
      · have hown : redirectBy w (s.divertName i) 0 s.interrupts s = some (s.divertName i, s) :=
          redirectBy_of_undetoured 0 hundetoured
        obtain ⟨rfl, rfl⟩ := Prod.mk.inj (Option.some.inj (hown.symm.trans hredirect))
        exact hleads target rfl
  · obtain ⟨hend, -⟩ | ⟨-, led', u', m, hredirect', -, -, hleads⟩ := takeDivert_eq_some h
    · exact absurd hend hname
    · obtain ⟨rfl, rfl⟩ := Prod.mk.inj (Option.some.inj (hredirect.symm.trans hredirect'))
      have htaken := hleads target rfl
      obtain ⟨rfl, m', rfl⟩ | hdetour := kept_or_detour hi hname hredirect
      · refine .inr ⟨rfl, rfl, fun hglobal => ?_⟩
        rwa [leadsTo_memory hglobal] at htaken
      · refine .inl ⟨hdetour, htaken, ?_⟩
        rw [htaken]
  · rw [← peekDivert_of_isDivert hi]
    exact continuesInto_iff_of_isDivert hi

/-- A squall that never comes. -/
def calm : Interrupt :=
  { squall "wreck" with condition := "1 > 2" }

/-- The ship sails to the harbour, as looking ahead says, and there a unit of its own begins. -/
theorem agrees_passage : ∃ (s t : Story) (i harbour : NodeId),
    Reachable passageWorld.host "main" (fun _ => True) s ∧ s.cursor? = some i ∧
    s.interrupts = [calm] ∧ (s.node i).isDivert = true ∧
    takeDivert passageWorld (s.node i) s = some (.ok (some (harbour, [])), t) ∧
    (s.node harbour).id = "harbour" ∧
    s.peekDivert passageWorld.host (s.node i) = some (some harbour) ∧
    s.continuesInto passageWorld.host i ".lias eW".toList = false := by
  have hplayed : (played? passageWorld "main" 0 [.addInterrupt calm, .advance]).any (fun s =>
      s.interrupts = [calm] ∧ s.cursor?.any (fun i =>
        (s.node i).isDivert = true ∧ s.divertName i ≠ endName ∧
        (redirectBy passageWorld (s.divertName i) 0 s.interrupts s).any (fun u =>
          u.1 = s.divertName i ∧ u.2 = s) = true ∧
        (takeDivert passageWorld (s.node i) s).any (fun a =>
          a.1.toOption.any (fun target => target.any fun found =>
            found.2 = [] ∧ (s.node found.1).id = "harbour" ∧
            (s.children found.1).head?.any (fun first => startsWithGlue (s.node first).text) =
              false) = true) = true) = true) = true := by
    decide +kernel
  obtain ⟨s, hs, hplays⟩ := (Option.any_eq_true _ _).1 hplayed
  obtain ⟨hinterrupts, hcursor⟩ := of_decide_eq_true hplays
  obtain ⟨i, hi, hdiverts⟩ := (Option.any_eq_true _ _).1 hcursor
  obtain ⟨hdivert, hname, hredirects, htakes⟩ := of_decide_eq_true hdiverts
  obtain ⟨⟨led, u⟩, hredirect, hsame⟩ := (Option.any_eq_true _ _).1 hredirects
  obtain ⟨rfl, rfl⟩ : led = s.divertName i ∧ u = s := of_decide_eq_true hsame
  obtain ⟨⟨r, t⟩, htake, htaken⟩ := (Option.any_eq_true _ _).1 htakes
  obtain ⟨target, htarget, hfound⟩ := (Option.any_eq_true _ _).1 (of_decide_eq_true htaken)
  obtain ⟨⟨harbour, args⟩, rfl, hplace⟩ := (Option.any_eq_true _ _).1 hfound
  obtain ⟨rfl, hid, hglueless⟩ := of_decide_eq_true hplace
  cases r with
  | error e => cases htarget
  | ok found =>
    cases htarget
    obtain ⟨-, hasked, hunits⟩ := peekDivert_agrees hdivert htake
    have hpeek : u.peekDivert passageWorld.host (u.node i) = some (some harbour) := by
      obtain ⟨-, -, hiff⟩ | ⟨-, -, hkept⟩ := hasked _ _ hname hredirect
      · exact hiff.2 rfl
      · exact hkept rfl
    refine ⟨u, t, i, harbour, reachable_of_played? (fun _ _ => trivial) hs, hi, hinterrupts,
      hdivert, htake, hid, hpeek, Bool.eq_false_iff.2 fun hon => ?_⟩
    obtain hborder | hend | ⟨j, first, hj, hfirst, hglue⟩ := (hunits _).1 hon
    · exact absurd hborder (by decide)
    · rw [hpeek] at hend
      cases hend
    · rw [hpeek] at hj
      cases hj
      rw [hfirst, Option.any_some, hglue] at hglueless
      cases hglueless

/-- A squall leads the divert elsewhere, and looking ahead does not say so. -/
theorem unforeseen_passage : ¬ ∀ (w : World) (main : String) (s t : Story) (i : NodeId)
    (target : Option (NodeId × List Value)), Reachable w.host main (fun _ => True) s →
      s.cursor? = some i → (s.node i).isDivert = true →
      takeDivert w (s.node i) s = some (.ok target, t) →
      s.peekDivert w.host (s.node i) = some (target.map (·.1)) := by
  intro hforeseen
  have hplayed : (played? passageWorld "main" 0 [.addInterrupt (squall "wreck"), .advance]).any
      (fun s => s.cursor?.any (fun i => (s.node i).isDivert = true ∧
        (takeDivert passageWorld (s.node i) s).any (fun a => a.1.toOption.any (fun target =>
          s.peekDivert passageWorld.host (s.node i) ≠ some (target.map (·.1))) = true) = true) =
        true) = true := by
    decide +kernel
  obtain ⟨s, hs, hplays⟩ := (Option.any_eq_true _ _).1 hplayed
  obtain ⟨i, hi, hdiverts⟩ := (Option.any_eq_true _ _).1 (of_decide_eq_true hplays)
  obtain ⟨hdivert, htakes⟩ := of_decide_eq_true hdiverts
  obtain ⟨⟨r, t⟩, htake, htaken⟩ := (Option.any_eq_true _ _).1 htakes
  obtain ⟨target, htarget, hother⟩ := (Option.any_eq_true _ _).1 (of_decide_eq_true htaken)
  have hreached : Reachable passageWorld.host "main" (fun _ => True) s :=
    reachable_of_played? (fun _ _ => trivial) hs
  cases r with
  | error e => cases htarget
  | ok found =>
    cases htarget
    exact of_decide_eq_true hother
      (hforeseen passageWorld "main" s t i target hreached hi hdivert htake)

end Story

end Narrative
