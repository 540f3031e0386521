import Narrative.Proofs.Story.Forward
import Narrative.Proofs.Story.Mentions
import Narrative.Proofs.Story.Pending
import Narrative.Proofs.Story.Tours

/-!
# Fallback choices that are pending

A fallback choice has no text. Where play meets one it is entered at once when it is available and no
choice is pending, and else it is passed. An interrupt does not ask whether its choice has a text: the
fallback choices among the pending ones are those that interrupts have put there.
-/

namespace Narrative.Story

variable {leads : Route} {w : World} {s t u : Story} {i : NodeId}

/-! ## What interrupts offer -/

/-- Whether an interrupt fires and its choice, a given node, is available. -/
def Offers (w : World) (k : Interrupt) (i : NodeId) (s : Story) : Prop :=
  s.content.find? k.id = some i ∧ ∃ u v, fires w k (k.kind == .choice) s = some (true, u) ∧
    isAvailable w i u = some (true, v)

/-- What is pending after an interrupt was asked was pending before, or the interrupt offers it. -/
theorem mem_choices_addInterruptChoice {k : Interrupt} {a : Unit}
    (h : addInterruptChoice w k s = some (a, t)) :
    t.content = s.content ∧ (i ∈ t.choices ↔ i ∈ s.choices ∨ s.Offers w k i) := by
  obtain ⟨fired, u, hfires, h⟩ := Run.bind_eq_some.1 h
  obtain ⟨m, -, rfl, -⟩ := changes_of_fires hfires
  cases fired with
  | false =>
    cases h
    refine ⟨rfl, (or_iff_left ?_).symm⟩
    rintro ⟨-, _, _, hfired, -⟩
    rw [hfires] at hfired
    cases hfired
  | true =>
    have hoffers : s.Offers w k i ↔ s.content.find? k.id = some i ∧
        ∃ v, isAvailable w i { s with memory := m } = some (true, v) := by
      simp [Offers, hfires]
    rw [if_pos rfl, Run.get_bind_apply] at h
    simp only [content] at h
    rw [hoffers]
    cases hfind : s.content.find? k.id with
    | none =>
      simp only [content] at hfind
      simp only [hfind] at h
      cases h
      exact ⟨rfl, by simp⟩
    | some choice =>
      simp only [content] at hfind
      simp only [hfind] at h
      rw [Option.some.injEq]
      split at h
      · next hold =>
        -- it is pending already
        cases h
        rw [List.contains_iff_mem] at hold
        exact ⟨rfl, .inl, fun hi => hi.elim id fun hoffered => hoffered.1 ▸ hold⟩
      · obtain ⟨available, v, havailable, h⟩ := Run.bind_eq_some.1 h
        obtain ⟨m', -, rfl, -⟩ := changes_of_isAvailable havailable
        have hoffered : (choice = i ∧ ∃ v, isAvailable w i { s with memory := m } = some (true, v)) ↔
            choice = i ∧ available = true := by
          refine and_congr_right fun heq => ?_
          subst heq
          simp [havailable]
        rw [hoffered]
        cases available with
        | false =>
          cases h
          exact ⟨rfl, by simp⟩
        | true =>
          cases h
          refine ⟨rfl, ?_⟩
          rw [List.mem_cons, or_comm, eq_comm, and_iff_left rfl]

/-- What is pending after interrupts were asked was pending before, or one of them offers it after
those before it were asked. -/
theorem mem_choices_addInterruptChoices {interrupts : List Interrupt} {a : Unit}
    (h : addInterruptChoices w interrupts s = some (a, t)) :
    i ∈ t.choices ↔ i ∈ s.choices ∨ ∃ before k after u, interrupts = before ++ k :: after ∧
      addInterruptChoices w before s = some ((), u) ∧ u.Offers w k i := by
  induction interrupts generalizing s with
  | nil =>
    cases h
    simp
  | cons k rest ih =>
    obtain ⟨_, u, hfirst, hrest⟩ := Run.bind_eq_some.1 h
    rw [ih hrest, (mem_choices_addInterruptChoice hfirst).2, or_assoc]
    refine or_congr_right ⟨?_, ?_⟩
    · rintro (hoffers | ⟨before, k', after, v, rfl, hbefore, hoffers⟩)
      · exact ⟨[], k, rest, s, rfl, rfl, hoffers⟩
      · exact ⟨k :: before, k', after, v, rfl, Run.bind_eq_some.2 ⟨_, u, hfirst, hbefore⟩,
          hoffers⟩
    · rintro ⟨before, k', after, v, hlist, hbefore, hoffers⟩
      cases before with
      | nil =>
        cases hlist
        cases hbefore
        exact .inl hoffers
      | cons _ before =>
        cases hlist
        obtain ⟨_, u', hfirst', hbefore⟩ := Run.bind_eq_some.1 hbefore
        rw [hfirst] at hfirst'
        cases hfirst'
        exact .inr ⟨before, k', after, v, rfl, hbefore, hoffers⟩

/-! ## What play collects -/

/-- The choices that a move leaves pending. -/
inductive Offering (s : Story) : List NodeId → Prop
  /-- There are none. -/
  | none : Offering s []
  /-- They are the same. -/
  | same : Offering s s.choices
  /-- Play has collected one that has a text. -/
  | collected {i : NodeId} :
      s.hasMore = true → (s.node i).isFallback = false → Offering s (s.choices ++ [i])
  /-- An interrupt has put one in front. -/
  | interposed {k : Interrupt} {i : NodeId} : s.Halted → k ∈ s.interrupts → k.kind = .choice →
      s.content.find? k.id = some i → Offering s (i :: s.choices)

/-- The choices that a move leaves are in one of these cases. -/
theorem Move.offering (h : s.Move leads t) : s.Offering t.choices := by
  cases h with
  | thought hthought =>
    rw [Thinks.eq (.single hthought)]
    exact .same
  | leave _ _ _ =>
    unfold leaveBlock
    split <;> exact .same
  | offer hmore _ _ htext _ _ =>
    unfold Story.pass
    split <;> exact .collected hmore htext
  | fallBack _ _ _ _ => exact .same
  | finish _ _ => exact .none
  | divert _ _ _ _ _ => exact .none
  | take _ _ => exact .none
  | interpose hhalted hk hkind hfind _ _ _ _ => exact .interposed hhalted hk hkind hfind
  | _ => exact .same

/-- The fallback choices that are pending were put there by interrupts, where play had halted. -/
structure Backed (s : Story) : Prop where
  /-- The story is sound. -/
  sound : s.Sound
  /-- Play has halted. -/
  halted {i : NodeId} : i ∈ s.choices → (s.node i).isFallback = true → s.Halted
  /-- An interrupt has the id of the choice. -/
  overlay {i : NodeId} : i ∈ s.choices → (s.node i).isFallback = true →
    ∃ id, (id, .choice) ∈ s.overlays ∧ s.content.find? id = some i

/-- A move leaves the story so. -/
theorem Backed.move (h : s.Backed) (hmove : s.Move leads t) : t.Backed := by
  have hsteady := hmove.steady
  have hcontent : t.content = s.content := congrArg Sources.content hsteady.sources
  have hpending {i : NodeId} (hi : i ∈ t.choices) (hfallback : (s.node i).isFallback = true) :
      s.Halted ∧ ∃ id, (id, .choice) ∈ s.overlays ∧ s.content.find? id = some i := by
    have hold (hi : i ∈ s.choices) := And.intro (h.halted hi hfallback) (h.overlay hi hfallback)
    generalize hlist : t.choices = list at hi
    cases hlist ▸ hmove.offering with
    | none => cases hi
    | same => exact hold hi
    | collected _ htext =>
      obtain hi | rfl := (List.mem_append.1 hi).imp_right List.mem_singleton.1
      · exact hold hi
      · rw [hfallback] at htext
        cases htext
    | interposed hhalted hk hkind hfind =>
      obtain rfl | hi := List.mem_cons.1 hi
      · refine ⟨hhalted, _, List.mem_map.2 ⟨_, hk, ?_⟩, hfind⟩
        rw [hkind]
      · exact hold hi
  refine ⟨h.sound.move hmove, fun {i} hi hfallback => ?_, fun {i} hi hfallback => ?_⟩
  all_goals
    rw [node, hcontent] at hfallback
    obtain ⟨hhalted, id, hid, hfind⟩ := hpending hi hfallback
  · obtain hhalted | hnone := hmove.halted hhalted
    · exact hhalted
    · rw [hnone] at hi
      cases hi
  · refine ⟨id, ?_, ?_⟩
    · rwa [hsteady.overlays]
    · rwa [hcontent]

/-- Backing is kept by every action. -/
theorem kept_backed (leads : Route) : Kept leads Backed where
  sound h := h.sound
  move h hmove := h.move hmove
  record text h := by
    have hs := h.sound.record text
    rw [record_eq] at hs ⊢
    exact ⟨hs, h.halted, h.overlay⟩
  widen {s t} h hwidens := by
    have hextends := hwidens.extends_content
    have hchoices : t.choices = s.choices := by rw [hwidens.eq]
    have hnode {i : NodeId} (hi : i ∈ s.choices) : t.node i = s.node i :=
      hextends.node_eq (Content.lt_size (p := Node.isChoice) rfl (h.sound.choices hi))
    refine ⟨h.sound.widen hwidens, fun {i} hi hfallback => ?_, fun {i} hi hfallback => ?_⟩
    all_goals
      rw [hchoices] at hi
      rw [hnode hi] at hfallback
    · exact hwidens.halted h.sound (h.halted hi hfallback)
    · obtain ⟨id, hid, hfind⟩ := h.overlay hi hfallback
      obtain ⟨added, hadded⟩ := hwidens.interrupts
      refine ⟨id, ?_, hextends.find?_eq_some hfind⟩
      rw [overlays, hadded, List.map_append]
      exact List.mem_append_left _ hid

/-- In every story that can be reached, pending fallbacks were put there by interrupts. -/
theorem Reachable.backed {host : Host} {main : String} {permitted : Action → Prop}
    (h : Reachable host main permitted s) : s.Backed := by
  refine h.keeps (kept_backed anywhere) fun start sources seed hmain => ?_
  obtain ⟨hgrown, hstart, -⟩ := Sources.grown_ofMain hmain
  exact ⟨sound_atStart hgrown hstart seed, nofun, nofun⟩

/-! ## What play does with them -/

/-- A round leaves the choices. -/
theorem Round.choices_eq {again : Bool} (h : s.Round w again t) : t.choices = s.choices := by
  have henter {i : NodeId} {m : Memory} {r : Except StoryError Unit}
      (henter : enterWith w i [] { s with memory := m } = some (r, t)) :
      t.choices = s.choices := by
    obtain ⟨_, -, rfl⟩ | ⟨-, _, _, -, -, rfl⟩ := enterWith_eq_some henter <;> rfl
  cases h with
  | leave _ _ _ =>
    unfold leaveBlock
    split <;> rfl
  | land _ _ _ _ hland => exact henter (m := s.memory) hland
  | enter _ _ _ hinto => exact henter hinto
  | _ => rfl

/-- Bringing the cursor to rest leaves the pending choices. -/
theorem choices_of_settle (h : settle w s = some ((), t)) : t.choices = s.choices := by
  obtain ⟨u, hrounds, hlast⟩ := rounds_of_settle h
  rw [(round_of_settleOnce hlast).choices_eq]
  clear hlast
  induction hrounds with
  | refl => rfl
  | tail _ hround ih => rw [(round_of_settleOnce hround).choices_eq, ih]

section Fallback

variable (hi : (s.node i).isFallback = true)

include hi

/-- A fallback choice that is played is entered if it is available and no choice is pending. It is
not offered. -/
theorem resolve_of_isFallback {r : Except StoryError (List Char)}
    (h : resolve w i s = some (r, t)) :
    r = .ok [] ∧ t.choices = s.choices ∧
      if s.isOffered w i && s.choices.isEmpty then t.container = some i ∧ t.index = 0
      else t.container = s.container ∧ t.index = s.index := by
  have hchoice : (s.node i).isChoice = true := (Bool.and_eq_true_iff.1 hi).1
  rw [resolve_of_isChoice hchoice] at h
  obtain ⟨⟨_, v⟩, hadd, heq⟩ := Option.map_eq_some_iff.1 h
  cases heq
  obtain ⟨available, u, havailable, hrest⟩ := Run.bind_eq_some.1 hadd
  obtain ⟨m, -, rfl, -⟩ := changes_of_isAvailable havailable
  have hi' : (node { s with memory := m } i).isFallback = true := hi
  rw [isOffered_eq havailable]
  refine ⟨rfl, ?_⟩
  cases available with
  | false =>
    cases hrest
    exact ⟨rfl, rfl, rfl⟩
  | true =>
    cases hrest
    simp only [hi', if_true, Bool.true_and]
    split <;> exact ⟨rfl, rfl, rfl⟩

/-- Where no choice is pending, a fallback choice at the cursor is entered if it is available, and
passed if not. -/
theorem settleAt_of_isFallback {again : Bool} (hchoices : s.choices = [])
    (h : settleAt w i s = some (again, t)) :
    again = true ∧ t.choices = [] ∧
      if s.isOffered w i then t.container = some i ∧ t.index = 0
      else t.container = s.container ∧ t.index = s.index + 1 := by
  rw [settleAt, Run.get_bind_apply, if_pos (by rw [hi, hchoices]; rfl)] at h
  obtain ⟨available, u, havailable, hrest⟩ := Run.bind_eq_some.1 h
  obtain ⟨m, -, rfl, -⟩ := changes_of_isAvailable havailable
  rw [isOffered_eq havailable]
  cases available with
  | false =>
    cases hrest
    exact ⟨rfl, hchoices, rfl, rfl⟩
  | true =>
    obtain ⟨_, v, henter, hend⟩ := Run.bind_eq_some.1 hrest
    obtain ⟨_, _, -, -, rfl⟩ := enter_eq_some henter
    cases hend
    exact ⟨rfl, hchoices, rfl, rfl⟩

end Fallback

/-- Playing a node offers a choice that has a text, or none. -/
theorem choices_of_resolve {r : Except StoryError (List Char)} (h : resolve w i s = some (r, t)) :
    t.choices = s.choices ∨ (s.node i).isFallback = false ∧ t.choices = s.choices ++ [i] := by
  by_cases hfallback : (s.node i).isFallback = true
  · exact .inl (resolve_of_isFallback hfallback h).2.1
  by_cases hchoice : (s.node i).isChoice = true
  · rw [resolve_of_isChoice hchoice] at h
    obtain ⟨⟨_, v⟩, hadd, heq⟩ := Option.map_eq_some_iff.1 h
    cases heq
    obtain ⟨available, u, havailable, hrest⟩ := Run.bind_eq_some.1 hadd
    obtain ⟨m, -, rfl, -⟩ := changes_of_isAvailable havailable
    have hfallback' : ¬ (node { s with memory := m } i).isFallback = true := hfallback
    cases available with
    | false =>
      cases hrest
      exact .inl rfl
    | true =>
      cases hrest
      refine .inr ⟨Bool.eq_false_iff.2 hfallback, ?_⟩
      simp only [hfallback']
      rfl
  · have hthinks : s.Thinks t := plays_resolve (Bool.eq_false_iff.2 hchoice) _ _ h
    rw [hthinks.eq]
    exact .inl rfl

/-- Playing past a node leaves the choices, or drops them. -/
theorem choices_of_step {r : Except StoryError Unit} (h : step w i s = some (r, t)) :
    t.choices = s.choices ∨ t.choices = [] := by
  by_cases hdivert : (s.node i).isDivert = true
  · obtain ⟨_, -, hthinks⟩ | ⟨u, -, -, rfl⟩ | ⟨u, _, _, m, m', -, -, -, -, hsettle⟩ :=
      step_of_isDivert hdivert h
    · rw [hthinks.eq]
      exact .inl rfl
    · exact .inr rfl
    · exact .inr (choices_of_settle hsettle)
  · rw [step_of_not_isDivert (Bool.eq_false_iff.2 hdivert)] at h
    obtain ⟨⟨_, u⟩, hsettle, heq⟩ := Option.map_eq_some_iff.1 h
    cases heq
    refine .inl ((choices_of_settle hsettle).trans ?_)
    unfold Story.pass
    split <;> rfl

/-- A fallback choice that is pending after a node was played was pending before. -/
theorem mem_choices_of_playNode {r : Except StoryError (List Char)}
    (h : playNode w i s = some (r, t)) {j : NodeId} (hj : (s.node j).isFallback = true)
    (hpending : j ∈ t.choices) : j ∈ s.choices := by
  rw [playNode, Attempt.bind_apply, Option.bind_eq_some_iff] at h
  obtain ⟨⟨resolved, u⟩, hresolve, hrest⟩ := h
  have hu (hpending : j ∈ u.choices) : j ∈ s.choices := by
    obtain hsame | ⟨htext, hcollected⟩ := choices_of_resolve hresolve
    · rwa [← hsame]
    · rw [hcollected, List.mem_append, List.mem_singleton] at hpending
      obtain hpending | rfl := hpending
      · exact hpending
      · rw [hj] at htext
        cases htext
  cases resolved with
  | error e =>
    cases hrest
    exact hu hpending
  | ok text =>
    simp only at hrest
    rw [Attempt.bind_apply, Option.bind_eq_some_iff] at hrest
    obtain ⟨⟨stepped, v⟩, hstep, hend⟩ := hrest
    have hv : t = v := by cases stepped <;> cases hend <;> rfl
    obtain hsame | hnone := choices_of_step hstep
    · rw [hv, hsame] at hpending
      exact hu hpending
    · rw [hv, hnone] at hpending
      cases hpending

/-- A fallback choice that is pending after a unit was played was pending before. -/
theorem mem_choices_of_playUnit {steps : Nat} {backwards : List Char}
    {r : Except StoryError (List Char)} (h : playUnit w steps backwards s = some (r, t))
    {j : NodeId} (hj : (s.node j).isFallback = true) (hpending : j ∈ t.choices) :
    j ∈ s.choices := by
  induction steps generalizing s backwards with
  | zero => cases h
  | succ steps ih =>
    cases hcurrent : s.current? with
    | none =>
      rw [playUnit, Attempt.get_bind_apply] at h
      simp only [hcurrent] at h
      cases h
      exact hpending
    | some i =>
      obtain ⟨e, -, hfails⟩ | ⟨fragment, u, hplayed, hrest⟩ := playUnit_succ hcurrent h
      · exact mem_choices_of_playNode hfails hj hpending
      · refine mem_choices_of_playNode hplayed hj ?_
        obtain ⟨-, hrest⟩ | ⟨-, -, rfl⟩ := hrest
        · refine ih hrest ?_
          rw [node, (comments_of_playNode hplayed).1]
          exact hj
        · exact hpending

/-! ## Pending fallback choices -/

/-- A choice without a text can be pending all the same, but only where nothing more can be played
and an interrupt has its id. When a story is advanced such a choice becomes pending exactly where an
interrupt offers it after the unit, whatever else is pending. Play itself does not offer it: played
or met by the cursor it is entered if it is available and no choice is pending, and else passed. -/
theorem pending_fallbacks {main : String} (hs : Reachable w.host main (fun _ => True) s) :
    (∀ i ∈ s.choices, (s.node i).isFallback = true → s.hasMore = false ∧
      ∃ k ∈ s.interrupts, k.kind = .choice ∧ s.content.find? k.id = some i) ∧
    (∀ text t, advance w s = some (.ok text, t) → ∃ unit u,
      playUnit w w.steps [] s = some (.ok unit, u) ∧ ∀ i, (t.node i).isFallback = true →
        (i ∈ t.choices ↔ u.hasMore = false ∧ ∃ before k after v,
          u.interrupts = before ++ k :: after ∧
          addInterruptChoices w before u = some ((), v) ∧ v.Offers w k i)) ∧
    (∀ (u t : Story) i r, (u.node i).isFallback = true → resolve w i u = some (r, t) →
      r = .ok [] ∧ t.choices = u.choices ∧
        if u.isOffered w i && u.choices.isEmpty then t.container = some i ∧ t.index = 0
        else t.container = u.container ∧ t.index = u.index) ∧
    ∀ (u t : Story) i again, (u.node i).isFallback = true → u.choices = [] →
      settleAt w i u = some (again, t) → again = true ∧ t.choices = [] ∧
        if u.isOffered w i then t.container = some i ∧ t.index = 0
        else t.container = u.container ∧ t.index = u.index + 1 := by
  have hbacked := hs.backed
  refine ⟨?_, ?_, fun u t i r hi h => resolve_of_isFallback hi h,
    fun u t i again hi hnone h => settleAt_of_isFallback hi hnone h⟩
  · intro i hi hfallback
    obtain ⟨id, hid, hfind⟩ := hbacked.overlay hi hfallback
    obtain ⟨k, hk, heq⟩ := List.mem_map.1 hid
    obtain ⟨rfl, hkind⟩ := Prod.mk.inj heq
    exact ⟨(hbacked.halted hi hfallback).hasMore_eq, k, hk, hkind, hfind⟩
  · intro text t hadvance
    obtain ⟨-, herror, -⟩ | ⟨hmore, ⟨e, herror, -⟩ | ⟨unit, u, v, hunit, hend, -, rfl⟩⟩ :=
      advance_eq_some hadvance
    · cases herror
    · cases herror
    refine ⟨unit, u, hunit, fun i hfallback => ?_⟩
    have hmoves : s.Moves anywhere u := plays_playUnit hmore (fun _ _ _ _ => trivial) _ _ hunit
    have hmoves' : u.Moves anywhere v := moves_of_overlay hmore hunit hend
    have hfallback' : (s.node i).isFallback = true := by
      rw [record_eq] at hfallback
      change (v.node i).isFallback = true at hfallback
      rw [node, hmoves'.content_eq, hmoves.content_eq] at hfallback
      exact hfallback
    -- none was pending while there was more to be played
    have hnone : i ∉ u.choices := fun hi => by
      have hhalted := hbacked.halted (mem_choices_of_playUnit hunit hfallback' hi) hfallback'
      rw [hhalted.hasMore_eq] at hmore
      cases hmore
    rw [record_eq]
    change i ∈ v.choices ↔ _
    obtain ⟨hmore', rfl⟩ | ⟨hdone, hadd⟩ := hend
    · refine ⟨fun hi => absurd hi hnone, ?_⟩
      rintro ⟨hdone, -⟩
      rw [hmore'] at hdone
      cases hdone
    · rw [mem_choices_addInterruptChoices hadd]
      exact ⟨fun hi => ⟨hdone, hi.resolve_left hnone⟩, fun hi => .inr hi.2⟩

/-- A world with a choice without a text that play never comes to. -/
def hutWorld : World :=
  ⟨.ofSources (.ofList [("hut",
    "== start\nHi.\n+ [Stay] Bye.\n== hut\nIn the hut.\n")]) fun _ => "", 4, 40⟩

/-- What a host does that adds an interrupt with a choice without a text. -/
def hutActions : List Action :=
  [.addInterrupt { id := "extra", kind := .choice, text := "* -> hut" }, .advance]

/-- In the hut a fallback is pending. -/
theorem played_hut : ∃ (s : Story) (i : NodeId),
    played? hutWorld "hut" 0 hutActions = some s ∧ i ∈ s.choices ∧
      (s.node i).isFallback = true ∧ s.choices.length = 2 := by
  have hplayed : (played? hutWorld "hut" 0 hutActions).any (fun s => s.choices.length = 2 ∧
      s.choices.any (fun i => (s.node i).isFallback) = true) = true := by
    decide +kernel
  obtain ⟨s, hs, hplays⟩ := (Option.any_eq_true _ _).1 hplayed
  obtain ⟨hlength, hany⟩ := of_decide_eq_true hplays
  obtain ⟨i, hi, hfallback⟩ := List.any_eq_true.1 hany
  exact ⟨s, i, hs, hi, hfallback, hlength⟩

/-- It is pending beside the choice of the story, at the end of the content that can be played. -/
theorem pending_fallbacks_hut : ∃ (s : Story) (i : NodeId),
    Reachable hutWorld.host "hut" (fun _ => True) s ∧ s.choices.length = 2 ∧ i ∈ s.choices ∧
      (s.node i).isFallback = true ∧ s.hasMore = false ∧
      ∃ k ∈ s.interrupts, k.kind = .choice ∧ s.content.find? k.id = some i := by
  obtain ⟨s, i, hs, hi, hfallback, htwo⟩ := played_hut
  have hreached : Reachable hutWorld.host "hut" (fun _ => True) s :=
    reachable_of_played? (fun _ _ => trivial) hs
  exact ⟨s, i, hreached, htwo, hi, hfallback, (pending_fallbacks hreached).1 i hi hfallback⟩

/-- So not every pending choice has a text. -/
theorem fallback_offered_hut : ¬ ∀ (w : World) (main : String) (s : Story) (i : NodeId),
    Reachable w.host main (fun _ => True) s → i ∈ s.choices → (s.node i).isFallback = false := by
  intro hnever
  obtain ⟨s, i, hs, hi, hfallback, -⟩ := played_hut
  have hreached : Reachable hutWorld.host "hut" (fun _ => True) s :=
    reachable_of_played? (fun _ _ => trivial) hs
  rw [hnever hutWorld "hut" s i hreached hi] at hfallback
  cases hfallback

end Narrative.Story
