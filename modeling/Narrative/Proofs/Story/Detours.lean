import Narrative.Proofs.Story.Advancing
import Narrative.Proofs.Story.Events
import Narrative.Proofs.Story.Overlays
import Narrative.Proofs.Story.Redirection

/-!
# Interrupts that redirect diverts

Play uses an interrupt up just where it redirects a divert, and this is done before it is known that
the divert can be taken. So an interrupt is used up by a divert that leads to its destination, and
also by one that fails afterwards, since there is no such place, or an argument cannot be evaluated,
or there are too few or too many. After such a failure the cursor stays at the divert, and the next
time the interrupt does not redirect it.
-/

namespace Narrative.Story

open Interrupt (Spent)

variable {w : World} {s t u : Story}

/-! ## What does not use interrupts up -/

/-- A round leaves the interrupts. -/
theorem Round.interrupts_eq {again : Bool} (h : s.Round w again t) :
    t.interrupts = s.interrupts := by
  cases h with
  | leave _ _ _ =>
    unfold leaveBlock
    split <;> rfl
  | land _ _ _ _ henter =>
    obtain ⟨m, m', -, -, rfl⟩ := moveInto_of_enterWith .refl henter
    rfl
  | enter _ _ hchanges henter =>
    obtain ⟨m, m', -, -, rfl⟩ := moveInto_of_enterWith hchanges henter
    rfl
  | _ => rfl

/-- Rounds leave the interrupts. -/
theorem Rounds.interrupts_eq (h : s.Rounds w t) : t.interrupts = s.interrupts := by
  induction h with
  | refl => rfl
  | tail _ hround ih => exact (round_of_settleOnce hround).interrupts_eq.trans ih

/-- Coming to rest leaves the interrupts. -/
theorem interrupts_of_settle (h : settle w s = some ((), t)) : t.interrupts = s.interrupts := by
  obtain ⟨u, hrounds, hlast⟩ := rounds_of_settle h
  exact (round_of_settleOnce hlast).interrupts_eq.trans (Rounds.interrupts_eq hrounds)

/-- Arriving somewhere leaves the interrupts. -/
theorem Arrives.interrupts_eq {target : Option NodeId} (h : u.Arrives w target t) :
    t.interrupts = u.interrupts := by
  cases h with
  | finish _ => rfl
  | enter _ _ hsettle => exact (interrupts_of_settle hsettle).trans rfl

/-- The computations that leave the sources and the interrupts. -/
def sparing : Discipline Story :=
  .along (fun s t => t.sources = s.sources ∧ t.interrupts = s.interrupts) (fun _ => ⟨rfl, rfl⟩)
    fun _ _ _ h h' => ⟨h'.1.trans h.1, h'.2.trans h.2⟩

/-- Thinking spares the sources and interrupts. -/
theorem sparing_think {α : Type} {f : Stage → Context Memory → Run Memory α} :
    sparing.Allows (think w f) := by
  intro s a t h
  obtain ⟨m, -, rfl⟩ := think_eq_some h
  exact ⟨rfl, rfl⟩

/-- Acting on the stage spares the sources and interrupts. -/
theorem sparing_act {α : Type} {f : Stage → Context Memory → Act α} :
    sparing.AllowsAttempt (act w f) :=
  sparing_think (f := fun stage ctx => (f stage ctx).run)

/-- Offering a choice spares the sources and interrupts. -/
theorem sparing_addChoice (w : World) (i : NodeId) : sparing.Allows (addChoice w i) := by
  intro s a t h
  obtain ⟨available, u, havailable, hrest⟩ := Run.bind_eq_some.1 h
  obtain ⟨m, -, rfl, -⟩ := changes_of_isAvailable havailable
  cases available with
  | false =>
    cases hrest
    exact ⟨rfl, rfl⟩
  | true =>
    cases hrest
    dsimp only
    split
    · split <;> exact ⟨rfl, rfl⟩
    · exact ⟨rfl, rfl⟩

/-- A change that leaves the sources and interrupts spares them. -/
theorem sparing_modify {f : Story → Story}
    (h : ∀ s, (f s).sources = s.sources ∧ (f s).interrupts = s.interrupts) :
    sparing.AllowsAttempt (modify f : Play Unit) := by
  intro s a t hrun
  cases hrun
  exact h s

/-- Collecting a comment spares them. -/
theorem addComment_spares (s : Story) (i : NodeId) :
    (s.addComment i).sources = s.sources ∧ (s.addComment i).interrupts = s.interrupts := by
  unfold addComment
  split <;> exact ⟨rfl, rfl⟩

/-- What a node does spares them. -/
theorem sparing_resolve (w : World) (i : NodeId) : sparing.AllowsAttempt (resolve w i) := by
  refine Discipline.attempt_consult (g := id) (Discipline.along_reads id)
    (fun s t h => by rw [show s = t from h]) fun s => ?_
  simp only
  split
  · split
    · exact Discipline.attempt_pure _
    · exact Discipline.attempt_bind (Discipline.attempt_lift sparing_think) fun _ =>
        Discipline.attempt_bind (sparing_modify fun _ => ⟨rfl, rfl⟩) fun _ =>
          Discipline.attempt_pure _
  · exact Discipline.attempt_bind (Discipline.attempt_lift (sparing_addChoice w i)) fun _ =>
      Discipline.attempt_pure _
  · exact Discipline.attempt_bind (sparing_modify fun s => addComment_spares s i) fun _ =>
      Discipline.attempt_pure _
  · exact Discipline.attempt_bind sparing_act fun _ => Discipline.attempt_pure _
  · exact Discipline.attempt_pure _

/-- Playing what is no divert leaves the interrupts, also where it fails. -/
theorem interrupts_of_plain {i : NodeId} {r : Except StoryError (List Char)}
    (hi : (s.node i).isDivert = false) (h : playNode w i s = some (r, t)) :
    t.interrupts = s.interrupts := by
  cases hresolve : resolve w i s with
  | none =>
    rw [playNode, Attempt.bind_apply, hresolve] at h
    cases h
  | some result =>
    obtain ⟨resolved, u⟩ := result
    obtain ⟨hsources, hinterrupts⟩ := sparing_resolve w i s _ _ hresolve
    cases resolved with
    | error e =>
      rw [playNode, Attempt.bind_apply, hresolve] at h
      cases h
      exact hinterrupts
    | ok text =>
      obtain ⟨-, hsettle⟩ :=
        settle_of_playNode hi hresolve (congrArg Sources.content hsources) h
      rw [interrupts_of_settle hsettle, ← hinterrupts, pass]
      split <;> rfl

/-! ## Playing a node -/

/-- An interrupt that has fired is live no more. -/
theorem isLive_finish (k : Interrupt) : k.finish.isLive = false :=
  rfl

/-- What could fire differs from what has fired. -/
theorem finish_ne {k : Interrupt} (h : k.isLive = true) : k.finish ≠ k := by
  intro hsame
  rw [← hsame, isLive_finish] at h
  cases h

/-- At its position each interrupt is found as it was or used up. -/
theorem getElem?_of_spent {is js : List Interrupt} (h : Spent is js) {position : Nat}
    {k : Interrupt} (hk : is[position]? = some k) :
    js[position]? = some k ∨ js[position]? = some k.finish := by
  induction h generalizing position with
  | nil => cases hk
  | cons hfirst _ ih =>
    cases position with
    | zero =>
      cases hk
      obtain rfl | rfl := hfirst
      · exact .inl rfl
      · exact .inr rfl
    | succ position => exact ih hk

/-- A divert that is redirected leads to the destination or fails, and the variable `event` names
the interrupt before. -/
theorem Detour.played {i : NodeId} {position : Nat} {k : Interrupt} {destination : List Char}
    {r : Except StoryError (List Char)} (hd : Detour w i s position k destination u)
    (h : playNode w i s = some (r, t)) :
    (∃ e m, r = .error e ∧ Memory.Changes u.content u.memory m ∧ t = { u with memory := m }) ∨
      ∃ target, r = .ok glue ∧ u.leadsTo w.host destination = some target ∧
        u.Arrives w target t := by
  obtain ⟨hend, -⟩ | ⟨-, led, v, hredirect, hplayed⟩ := playNode_divert hd.divert h
  · exact absurd hend hd.name_ne
  · rw [hd.redirects] at hredirect
    cases hredirect
    exact hplayed

/-- It uses the interrupt up either way. -/
theorem Detour.interrupts_eq {i : NodeId} {position : Nat} {k : Interrupt}
    {destination : List Char} {r : Except StoryError (List Char)}
    (hd : Detour w i s position k destination u) (h : playNode w i s = some (r, t)) :
    t.interrupts = s.interrupts.modify position Interrupt.finish := by
  have hfired : u.interrupts = s.interrupts.modify position Interrupt.finish := by
    obtain ⟨m, -, hu⟩ := hd.fired
    rw [hu]
    rfl
  rw [← hfired]
  obtain ⟨e, m, -, -, rfl⟩ | ⟨target, -, -, harrives⟩ := hd.played h
  · rfl
  · exact harrives.interrupts_eq

/-- A node that is played leaves the interrupts, or one of them redirects it. -/
theorem interrupts_of_playNode {i : NodeId} {r : Except StoryError (List Char)}
    (h : playNode w i s = some (r, t)) :
    t.interrupts = s.interrupts ∨
      ∃ position k destination u, Detour w i s position k destination u := by
  by_cases hi : (s.node i).isDivert = true
  · obtain ⟨-, -, rfl⟩ | ⟨hname, led, u, hredirect, hplayed⟩ := playNode_divert hi h
    · exact .inl rfl
    · obtain ⟨-, m, rfl⟩ | ⟨position, k, hd⟩ := kept_or_detour hi hname hredirect
      · left
        obtain ⟨e, m', -, -, rfl⟩ | ⟨target, -, -, harrives⟩ := hplayed
        · rfl
        · exact harrives.interrupts_eq
      · exact .inr ⟨position, k, led, u, hd⟩
  · exact .inl (interrupts_of_plain (Bool.eq_false_iff.2 hi) h)

section Turn

variable {i : NodeId} {position : Nat} {k : Interrupt} {r : Except StoryError (List Char)}
  (h : playNode w i s = some (r, t)) (hk : s.interrupts[position]? = some k)

include h hk

/-- The interrupt of a detour has fired. -/
theorem finished_of_detour {destination : List Char}
    (hd : Detour w i s position k destination u) :
    t.interrupts[position]? = some k.finish := by
  rw [hd.interrupts_eq h, List.getElem?_modify_eq, hk]
  rfl

/-- An interrupt that does not redirect the node stays as it is. -/
theorem kept_of_no_detour
    (hno : ∀ k destination u, ¬ Detour w i s position k destination u) :
    t.interrupts[position]? = some k := by
  obtain heq | ⟨position', k', destination, u, hd⟩ := interrupts_of_playNode h
  · rw [heq, hk]
  · have hne : position' ≠ position := by
      rintro rfl
      exact hno k' destination u hd
    rw [hd.interrupts_eq h, List.getElem?_modify_ne _ _ hne, hk]

end Turn

/-! ## Playing a unit -/

section Unit

variable {steps : Nat} {backwards : List Char} {position : Nat} {k : Interrupt}
  {r : Except StoryError (List Char)}

/-- The nodes of a unit are reached by moves. -/
theorem moves_of_mem_turnsWithin (hmore : s.hasMore = true) {v : NodeId × Story}
    (hv : v ∈ turnsWithin w steps backwards s) : s.Moves anywhere v.2 := by
  induction steps generalizing s backwards with
  | zero => cases hv
  | succ steps ih =>
    obtain ⟨i, hi, hcurrent⟩ := current?_of_hasMore hmore
    rw [turnsWithin] at hv
    simp only [hcurrent] at hv
    rcases List.mem_cons.1 hv with rfl | hv
    · exact .refl
    · split at hv
      · next fragment t hplay =>
        have hplayed : s.Moves anywhere t :=
          plays_playNode hmore hi (fun _ _ => trivial) _ _ hplay
        split at hv
        · next hon => exact hplayed.trans (ih (hasMore_of_goesOn hon) hv)
        · cases hv
      · cases hv

/-- Each node of a unit but the last is played, and where the last one fails the unit does. -/
theorem played_of_mem_turnsWithin (hmore : s.hasMore = true)
    (h : playUnit w steps backwards s = some (r, t)) {v : NodeId × Story}
    (hv : v ∈ turnsWithin w steps backwards s) :
    (∃ fragment x, playNode w v.1 v.2 = some (.ok fragment, x)) ∨
      ∃ e, r = .error e ∧ playNode w v.1 v.2 = some (.error e, t) := by
  induction steps generalizing s backwards with
  | zero => cases h
  | succ steps ih =>
    obtain ⟨i, -, ⟨hturns, played, hplayed, hends⟩ | ⟨fragment, u, hplayed, hon, hturns, hrest⟩⟩ :=
      turns_of_playUnit hmore h
    · rw [hturns, List.mem_singleton] at hv
      subst hv
      cases played with
      | error e => exact .inr ⟨e, (hends e).1 rfl, hplayed⟩
      | ok fragment => exact .inl ⟨fragment, t, hplayed⟩
    · rw [hturns, List.mem_cons] at hv
      obtain rfl | hv := hv
      · exact .inl ⟨fragment, u, hplayed⟩
      · exact ih hon hrest hv

/-- An interrupt that redirects no node of a unit stays as it is. -/
theorem kept_of_playUnit (hmore : s.hasMore = true)
    (h : playUnit w steps backwards s = some (r, t)) (hk : s.interrupts[position]? = some k)
    (hno : ∀ v ∈ turnsWithin w steps backwards s, ∀ k destination u,
      ¬ Detour w v.1 v.2 position k destination u) :
    t.interrupts[position]? = some k := by
  induction steps generalizing s backwards with
  | zero => cases h
  | succ steps ih =>
    obtain ⟨i, -, ⟨hturns, played, hplayed, -⟩ | ⟨fragment, u, hplayed, hon, hturns, hrest⟩⟩ :=
      turns_of_playUnit hmore h
    · rw [hturns] at hno
      exact kept_of_no_detour hplayed hk (hno (i, s) List.mem_cons_self)
    · rw [hturns] at hno
      have hu := kept_of_no_detour hplayed hk (hno (i, s) List.mem_cons_self)
      exact ih hon hrest hu fun v hv => hno v (List.mem_cons_of_mem _ hv)

/-- An interrupt that redirects a node of a unit is as it was before the unit. -/
theorem Detour.eq_of_mem {v : NodeId × Story} {k' : Interrupt} {destination : List Char}
    (hd : Detour w v.1 v.2 position k' destination u) (hmore : s.hasMore = true)
    (hv : v ∈ turnsWithin w steps backwards s) (hk : s.interrupts[position]? = some k) :
    k' = k := by
  obtain hsame | hfinished := getElem?_of_spent (moves_of_mem_turnsWithin hmore hv).spent hk
  · rw [hd.found] at hsame
    exact Option.some.inj hsame
  · rw [hd.found] at hfinished
    cases hfinished
    cases hd.live

/-- An interrupt that cannot fire redirects no node of a unit. -/
theorem no_detour_of_idle (hmore : s.hasMore = true) (hk : s.interrupts[position]? = some k)
    (hidle : k.isLive = false) {v : NodeId × Story} (hv : v ∈ turnsWithin w steps backwards s)
    {k' : Interrupt} {destination : List Char} : ¬ Detour w v.1 v.2 position k' destination u := by
  intro hd
  have hlive := hd.live
  rw [hd.eq_of_mem hmore hv hk, hidle] at hlive
  cases hlive

/-- An interrupt that redirects a node of a unit is used up in the end. -/
theorem finished_of_playUnit (hmore : s.hasMore = true)
    (h : playUnit w steps backwards s = some (r, t)) {v : NodeId × Story}
    (hv : v ∈ turnsWithin w steps backwards s) {destination : List Char}
    (hd : Detour w v.1 v.2 position k destination u) :
    t.interrupts[position]? = some k.finish := by
  induction steps generalizing s backwards with
  | zero => cases hv
  | succ steps ih =>
    obtain ⟨i, -, ⟨hturns, played, hplayed, -⟩ | ⟨fragment, x, hplayed, hon, hturns, hrest⟩⟩ :=
      turns_of_playUnit hmore h
    · rw [hturns, List.mem_singleton] at hv
      subst hv
      exact finished_of_detour hplayed hd.found hd
    · rw [hturns, List.mem_cons] at hv
      obtain rfl | hv := hv
      · -- nothing later can touch an interrupt that is used up
        have hx := finished_of_detour hplayed hd.found hd
        exact kept_of_playUnit hon hrest hx fun _ hv _ _ _ =>
          no_detour_of_idle hon hx (isLive_finish k) hv
      · exact ih hon hrest hv

end Unit

/-! ## Advancing -/

/-- What follows a unit leaves the interrupts. -/
theorem interrupts_of_advance {r : Except StoryError String} (hmore : s.hasMore = true)
    (h : advance w s = some (r, t)) :
    ∃ unit x, playUnit w w.steps [] s = some (unit, x) ∧ t.interrupts = x.interrupts ∧
      ∀ e, unit = .error e → r = .error e ∧ t = x := by
  obtain ⟨hnone, -⟩ | ⟨-, ⟨e, rfl, hunit⟩ | ⟨unit, x, y, hunit, hend, -, rfl⟩⟩ := advance_eq_some h
  · rw [hmore] at hnone
    cases hnone
  · refine ⟨.error e, t, hunit, rfl, fun e' he => ?_⟩
    cases he
    exact ⟨rfl, rfl⟩
  · refine ⟨.ok unit, x, hunit, ?_, nofun⟩
    rw [record_eq]
    obtain ⟨-, rfl⟩ | ⟨-, hadd⟩ := hend
    · rfl
    · obtain ⟨m, added, -, rfl, -⟩ := addInterruptChoices_eq_some hadd
      rfl

/-- An interrupt that is live no more stays so where interrupts are spent. -/
theorem idle_of_spent {is js : List Interrupt} (h : Spent is js) {position : Nat} {k : Interrupt}
    (hk : is[position]? = some k) (hidle : k.isLive = false) :
    ∃ k', js[position]? = some k' ∧ k'.isLive = false := by
  obtain hsame | hfinished := getElem?_of_spent h hk
  · exact ⟨k, hsame, hidle⟩
  · exact ⟨k.finish, hfinished, isLive_finish k⟩

/-- An interrupt that is live no more stays so whatever a host asks for. -/
theorem idle_of_perform {action : Action} {answer : Answer} {position : Nat} {k : Interrupt}
    (hs : s.content.Grown) (h : perform w action s = some (answer, t))
    (hk : s.interrupts[position]? = some k) (hidle : k.isLive = false) :
    ∃ k', t.interrupts[position]? = some k' ∧ k'.isLive = false := by
  obtain ⟨u, hmoves, rfl | ⟨text, rfl⟩⟩ | ⟨-, hwidens⟩ :=
    moves_of_perform hs (led_anywhere w action s) h
  · exact idle_of_spent hmoves.spent hk hidle
  · rw [record_eq]
    exact idle_of_spent hmoves.spent hk hidle
  · obtain ⟨added, heq⟩ := hwidens.interrupts
    exact ⟨k, by rw [heq, List.getElem?_append_left (List.getElem?_eq_some_iff.1 hk).1, hk], hidle⟩

/-- Whatever a story is asked for, an interrupt that cannot fire does not come to life. -/
theorem idle_of_performAll {host : Host} {main : String} {actions : List Action}
    {answers : List Answer} {position : Nat} {k : Interrupt} (hhost : w.host = host)
    (hs : Reachable host main (fun _ => True) s)
    (h : performAll w actions s = some (answers, t)) (hk : s.interrupts[position]? = some k)
    (hidle : k.isLive = false) : ∃ k', t.interrupts[position]? = some k' ∧ k'.isLive = false := by
  induction actions generalizing s k answers with
  | nil =>
    cases h
    exact ⟨k, hk, hidle⟩
  | cons action rest ih =>
    obtain ⟨answer, u, hfirst, hrest⟩ := Run.bind_eq_some.1 h
    obtain ⟨answers', v, hrest', hend⟩ := Run.bind_eq_some.1 hrest
    cases hend
    obtain ⟨k', hk', hidle'⟩ := idle_of_perform hs.sound.content hfirst hk hidle
    exact ih (hs.perform hhost trivial hfirst) hrest' hk' hidle'

/-- What cannot fire when a story has been reached redirects no divert ever after. -/
theorem no_detour_of_performAll {main : String} {actions : List Action} {answers : List Answer}
    {position : Nat} {k k' : Interrupt} {destination : List Char}
    (hs : Reachable w.host main (fun _ => True) s) (h : performAll w actions s = some (answers, t))
    (hk : s.interrupts[position]? = some k) (hidle : k.isLive = false) {v : NodeId × Story}
    (hv : v ∈ turns w t) : ¬ Detour w v.1 v.2 position k' destination u := by
  obtain ⟨k'', hk'', hidle'⟩ := idle_of_performAll rfl hs h hk hidle
  unfold turns at hv
  split at hv
  · next hmore => exact no_detour_of_idle hmore hk'' hidle' hv
  · cases hv

/-- What becomes of an interrupt that could fire when a story is advanced. -/
theorem finished_iff_of_advance {r : Except StoryError String} (h : advance w s = some (r, t))
    {position : Nat} {k : Interrupt} (hk : s.interrupts[position]? = some k)
    (hlive : k.isLive = true) :
    (t.interrupts[position]? = some k.finish ↔
      ∃ v ∈ turns w s, ∃ destination u, Detour w v.1 v.2 position k destination u) ∧
    (t.interrupts[position]? = some k ∨ t.interrupts[position]? = some k.finish) := by
  have hne : some k ≠ some k.finish := fun hsame => finish_ne hlive (Option.some.inj hsame).symm
  unfold turns
  cases hmore : s.hasMore with
  | false =>
    obtain ⟨-, -, rfl⟩ | ⟨hmore', -⟩ := advance_eq_some h
    · rw [hk, if_neg Bool.false_ne_true]
      refine ⟨⟨fun hsame => absurd hsame hne, ?_⟩, .inl rfl⟩
      rintro ⟨v, hv, -⟩
      cases hv
    · rw [hmore] at hmore'
      cases hmore'
  | true =>
    obtain ⟨unit, x, hunit, hinterrupts, -⟩ := interrupts_of_advance hmore h
    rw [hinterrupts, if_pos rfl]
    by_cases hdetour : ∃ v ∈ turnsWithin w w.steps [] s, ∃ destination u,
        Detour w v.1 v.2 position k destination u
    · obtain ⟨v, hv, destination, u, hd⟩ := hdetour
      have hfinished := finished_of_playUnit hmore hunit hv hd
      exact ⟨⟨fun _ => ⟨v, hv, destination, u, hd⟩, fun _ => hfinished⟩, .inr hfinished⟩
    · have hkept : x.interrupts[position]? = some k := by
        refine kept_of_playUnit hmore hunit hk fun v hv k' destination u hd => hdetour ?_
        rw [← hd.eq_of_mem hmore hv hk]
        exact ⟨v, hv, destination, u, hd⟩
      rw [hkept]
      exact ⟨⟨fun hsame => absurd hsame hne, fun hd => absurd hd hdetour⟩, .inl rfl⟩

/-- What becomes of a divert that is redirected when a story is advanced. -/
theorem Detour.advanced {r : Except StoryError String} (h : advance w s = some (r, t))
    {v : NodeId × Story} (hv : v ∈ turns w s) {position : Nat} {k : Interrupt}
    {destination : List Char} (hd : Detour w v.1 v.2 position k destination u) :
    u.global? "event" = some (.str k.id) ∧
      ((∃ target x, playNode w v.1 v.2 = some (.ok glue, x) ∧
          u.leadsTo w.host destination = some target ∧ u.Arrives w target x) ∨
        ∃ e, r = .error e ∧ playNode w v.1 v.2 = some (.error e, t) ∧
          t.container = v.2.container ∧ t.index = v.2.index) := by
  obtain ⟨m, -, hu⟩ := hd.fired
  constructor
  · rw [hu, global?, fire, Memory.setGlobal, NameMap.get?_insert, if_pos rfl]
  · unfold turns at hv
    split at hv
    · next hmore =>
      obtain ⟨unit, x, hunit, -, herror⟩ := interrupts_of_advance hmore h
      obtain ⟨fragment, y, hplay⟩ | ⟨e, rfl, hplay⟩ := played_of_mem_turnsWithin hmore hunit hv
      · obtain ⟨e, m', hfails, -⟩ | ⟨target, hok, hleads, harrives⟩ := hd.played hplay
        · cases hfails
        · cases hok
          exact .inl ⟨target, y, hplay, hleads, harrives⟩
      · obtain ⟨rfl, rfl⟩ := herror e rfl
        obtain ⟨_, m', -, -, rfl⟩ | ⟨target, hok, -⟩ := hd.played hplay
        · refine .inr ⟨e, rfl, hplay, ?_⟩
          rw [hu]
          exact ⟨rfl, rfl⟩
        · cases hok
    · cases hv

/-- When a story is advanced, an interrupt that could fire is used up just if it redirects one of
the diverts that are played, and else it stays as it is. The variable `event` names it then. Play
goes on at its destination, or the divert fails, and the cursor stays. What was used up redirects no
divert ever after. -/
theorem used_up_iff_redirects {main : String} {r : Except StoryError String}
    (hs : Reachable w.host main (fun _ => True) s) (h : advance w s = some (r, t)) :
    (∀ position k, s.interrupts[position]? = some k → k.isLive = true →
      (t.interrupts[position]? = some k.finish ↔
        ∃ v ∈ turns w s, ∃ destination u, Detour w v.1 v.2 position k destination u) ∧
      (t.interrupts[position]? = some k ∨ t.interrupts[position]? = some k.finish)) ∧
    (∀ v ∈ turns w s, ∀ position k destination u, Detour w v.1 v.2 position k destination u →
      u.global? "event" = some (.str k.id) ∧
      ((∃ target x, playNode w v.1 v.2 = some (.ok glue, x) ∧
          u.leadsTo w.host destination = some target ∧ u.Arrives w target x) ∨
        ∃ e, r = .error e ∧ playNode w v.1 v.2 = some (.error e, t) ∧
          t.container = v.2.container ∧ t.index = v.2.index)) ∧
    ∀ actions answers x, performAll w actions t = some (answers, x) →
      ∀ position k, t.interrupts[position]? = some k → k.done = true →
        ∀ v ∈ turns w x, ∀ k' destination u, ¬ Detour w v.1 v.2 position k' destination u := by
  refine ⟨fun position k => finished_iff_of_advance h,
    fun v hv position k destination u hd => hd.advanced h hv,
    fun actions answers x hrun position k hk hdone v hv k' destination u => ?_⟩
  have hidle : k.isLive = false := by rw [Interrupt.isLive, hdone, Bool.not_true, Bool.and_false]
  have hadvance : perform w .advance s = some (.text r, t) := Run.bind_eq_some.2 ⟨r, t, h, rfl⟩
  exact no_detour_of_performAll (hs.perform rfl trivial hadvance) hrun hk hidle hv

/-- A world in which a ship sails to a harbour. -/
def passageWorld : World :=
  ⟨.ofSources (.ofList [("main",
    "== start\nWe sail.\n-> harbour\n== harbour\nWe dock.\n== wreck\nWe sink.\n")])
    fun _ => "", 4, 40⟩

/-- A squall that leads diverts to the harbour elsewhere. -/
def squall (destination : String) : Interrupt :=
  { id := "squall", kind := .divert, text := Interrupt.redirection "harbour" destination }

/-- The squall leads the ship to the wreck, where play goes on, and is over. -/
theorem redirects_passage : ∃ s t : Story, Reachable passageWorld.host "main" (fun _ => True) s ∧
    advance passageWorld s = some (.ok "We sink.", t) ∧
    s.interrupts[0]? = some (squall "wreck") ∧ (squall "wreck").isLive = true ∧
    t.interrupts[0]? = some (squall "wreck").finish ∧
    ∃ v ∈ turns passageWorld s, ∃ u target x,
      Detour passageWorld v.1 v.2 0 (squall "wreck") "wreck".toList u ∧
      u.global? "event" = some (.str "squall") ∧
      u.leadsTo passageWorld.host "wreck".toList = some target ∧
      u.Arrives passageWorld target x := by
  have hplayed : (played? passageWorld "main" 0 [.addInterrupt (squall "wreck"), .advance]).any
      (fun s => s.interrupts[0]? = some (squall "wreck") ∧ (advance passageWorld s).any (fun a =>
        a.1.toOption = some "We sink." ∧
        a.2.interrupts[0]? = some (squall "wreck").finish) = true) = true := by
    decide +kernel
  obtain ⟨s, hs, hplays⟩ := (Option.any_eq_true _ _).1 hplayed
  obtain ⟨hfound, hadvances⟩ := of_decide_eq_true hplays
  obtain ⟨⟨r, t⟩, hadvance, hresult⟩ := (Option.any_eq_true _ _).1 hadvances
  obtain ⟨htext, hfinished⟩ := of_decide_eq_true hresult
  have hreached : Reachable passageWorld.host "main" (fun _ => True) s :=
    reachable_of_played? (fun _ _ => trivial) hs
  cases r with
  | error e => cases htext
  | ok text =>
    cases htext
    obtain ⟨hused, hdetours, -⟩ := used_up_iff_redirects hreached hadvance
    obtain ⟨v, hv, destination, u, hd⟩ := (hused 0 _ hfound rfl).1.1 hfinished
    obtain ⟨hevent, ⟨target, x, -, hleads, harrives⟩ | ⟨e, herror, -⟩⟩ :=
      hdetours v hv 0 _ destination u hd
    · have hplaces : (squall "wreck").redirect? = some ("harbour".toList, "wreck".toList) := by
        decide +kernel
      obtain rfl : "wreck".toList = destination :=
        (Prod.mk.inj (Option.some.inj (hplaces.symm.trans hd.redirect))).2
      exact ⟨s, t, hreached, hadvance, hfound, rfl, hfinished, v, hv, u, target, x, hd, hevent,
        hleads, harrives⟩
    · cases herror

/-- A squall that leads to a place which does not exist is over after the divert has failed. -/
theorem lost_passage : ¬ ∀ (w : World) (main : String) (s t : Story) (i : NodeId) (e : StoryError),
    Reachable w.host main (fun _ => True) s → turns w s = [(i, s)] →
      (s.node i).isDivert = true → advance w s = some (.error e, t) →
      t.interrupts = s.interrupts ∧ t.global? "event" = s.global? "event" := by
  intro hkept
  have hplayed : (played? passageWorld "main" 0 [.addInterrupt (squall "nowhere"), .advance]).any
      (fun s => (turns passageWorld s).head?.any (fun v =>
        turns passageWorld s = [(v.1, s)] ∧ (s.node v.1).isDivert = true) ∧
        (advance passageWorld s).any (fun a => a.1.toOption = none ∧
          a.2.interrupts ≠ s.interrupts) = true) = true := by
    decide +kernel
  obtain ⟨s, hs, hplays⟩ := (Option.any_eq_true _ _).1 hplayed
  obtain ⟨hturns, hadvances⟩ := of_decide_eq_true hplays
  obtain ⟨⟨i, _⟩, -, hturn⟩ := (Option.any_eq_true _ _).1 hturns
  obtain ⟨honly, hdivert⟩ := of_decide_eq_true hturn
  obtain ⟨⟨r, t⟩, hadvance, hresult⟩ := (Option.any_eq_true _ _).1 hadvances
  obtain ⟨hfails, hchanged⟩ := of_decide_eq_true hresult
  have hreached : Reachable passageWorld.host "main" (fun _ => True) s :=
    reachable_of_played? (fun _ _ => trivial) hs
  cases r with
  | ok text => cases hfails
  | error e =>
    exact hchanged (hkept passageWorld "main" s t i e hreached honly hdivert hadvance).1

end Narrative.Story
