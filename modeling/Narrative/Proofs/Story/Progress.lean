import Narrative.Proofs.Story.Reachable

/-!
# Play never gets stuck

While play is led neither to the end nor into the body of a function, a story can be played on, or
it waits for a choice, or its content has ended. Only in the body of a function can the nodes that
play goes through change under the cursor.
-/

namespace Narrative.Story

variable {leads : Route} {w : World} {s t : Story}

/-! ## Staying outside of functions -/

/-- The route that leads neither to the end of a story nor into the body of a function. -/
def outside : Route :=
  fun c target => ∃ i, target = some i ∧ ¬ c.InFunction i

/-- A story that has been led neither to its end nor into the body of a function. -/
structure Outside (s : Story) : Prop where
  /-- The story is sound. -/
  sound : s.Sound
  /-- The container is outside of functions. -/
  container {c : NodeId} : s.container = some c → ¬ s.content.InFunction c
  /-- No divert has led to the end. -/
  running : s.running = true
  /-- Play waits only for choices. -/
  waiting : s.processing = false → s.choices ≠ []

/-- A story is not over unless play may be led to the end. -/
theorem Move.running (h : s.Move leads t) (hend : ¬ leads s.content none)
    (hs : s.running = true) : t.running = true := by
  cases h with
  | thought hthought =>
    rw [Thinks.eq (.single hthought)]
    exact hs
  | leave _ _ _ =>
    unfold leaveBlock
    split <;> exact hs
  | offer _ _ _ _ _ _ =>
    unfold Story.pass
    split <;> exact hs
  | finish _ hleads => exact absurd hleads hend
  | _ => exact hs

/-- Play waits only for choices. -/
theorem Move.waiting (h : s.Move leads t) (hs : s.processing = false → s.choices ≠ []) :
    t.processing = false → t.choices ≠ [] := by
  cases h with
  | thought hthought =>
    rw [Thinks.eq (.single hthought)]
    exact hs
  | leave _ _ _ =>
    unfold leaveBlock
    split <;> exact hs
  | wait hpending => exact fun _ => hpending
  | offer _ _ _ _ _ _ =>
    unfold Story.pass
    split <;> exact fun _ => by simp
  | finish hprocessing _ => exact fun hwaiting => absurd (hprocessing.symm.trans hwaiting) nofun
  | divert hprocessing _ _ _ _ =>
    exact fun hwaiting => absurd (hprocessing.symm.trans hwaiting) nofun
  | take _ _ => exact nofun
  | interpose _ _ _ _ _ _ _ _ => exact fun _ => by simp
  | _ => exact hs

/-- Every move on this route keeps a story there. -/
theorem Outside.move (h : s.Outside) (hmove : s.Move outside t) : t.Outside where
  sound := h.sound.move hmove
  container := by
    intro c' hc'
    have htree := h.sound.content.tree
    have hcontent : t.content = s.content := congrArg Sources.content hmove.steady.sources
    rw [hcontent]
    obtain ⟨c, p, hc, hp, hplace⟩ | ⟨i, hi, hout⟩ := hmove.nearby htree hc'
    · have hp' := htree.descends.not_inFunction_of_mem hp (h.container hc)
      obtain rfl | hparent := hplace
      · exact hp'
      · exact htree.not_inFunction_of_parent hparent hp'
    · cases hi
      exact hout
  running := hmove.running (fun ⟨_, hend, _⟩ => nomatch hend) h.running
  waiting := hmove.waiting h.waiting

/-- Telling a text leads into no function. -/
theorem Outside.record (h : s.Outside) (text : String) : (s.record text).Outside := by
  have hsound := h.sound.record text
  rw [record_eq] at hsound ⊢
  exact ⟨hsound, h.container, h.running, h.waiting⟩

/-- Widening a story leads into no function. -/
theorem Outside.widen (h : s.Outside) (hwidens : s.Widens t) : t.Outside := by
  have heq := hwidens.eq
  refine ⟨h.sound.widen hwidens, fun {c} hc => ?_, ?_, fun hwaiting => ?_⟩
  · rw [heq] at hc
    rw [hwidens.extends_content.inFunction_iff hwidens.grown.tree.descends
      h.sound.content.tree.descends (h.sound.container hc)]
    exact h.container hc
  · rw [heq]
    exact h.running
  · rw [heq] at hwaiting ⊢
    exact h.waiting hwaiting

/-- Staying outside is kept by every action that leads outside. -/
theorem kept_outside : Kept outside Outside where
  sound h := h.sound
  move h hmove := h.move hmove
  record text h := h.record text
  widen h hwidens := h.widen hwidens

/-- A story starts outside of functions: a knot hangs nowhere, and a stitch in it under the knot. -/
theorem outside_atStart {sources : Sources} {start : Nat} (h : sources.content.Grown)
    (hstart : start < sources.content.size) (hknot : (sources.content.node start).isKnot = true)
    (seed : Nat) : (atStart sources start seed).Outside := by
  refine ⟨sound_atStart h hstart seed, ?_, rfl, nofun⟩
  rintro _ ⟨⟩
  have hout : ¬ sources.content.InFunction start := by
    rintro ⟨f, hf, hfunction⟩
    rw [Content.lineage_of_root (h.tree.top (by rw [Node.isTop, hknot, Bool.true_or])),
      List.mem_singleton] at hf
    subst hf
    unfold Node.isKnot at hknot
    unfold Node.isFunction at hfunction
    split at hknot <;> simp_all
  let s : Story := { sources, container := some start }
  change ¬ sources.content.InFunction (s.descend start)
  unfold descend
  split
  · split
    · next first hfirst =>
      split
      · exact h.tree.not_inFunction_of_parent
          (parent_of_mem_children (s := s) h.tree (List.mem_of_head? hfirst)) hout
      · exact hout
    · exact hout
  · exact hout

/-! ## Being ready -/

/-- Whether there is something to go on with: the content has ended, or there is a node at the
cursor, or choices are pending. -/
def Ready (s : Story) : Prop :=
  s.container = none ∨ s.cursor?.isSome = true ∨ s.choices ≠ []

/-- A story at rest is ready. -/
theorem AtRest.ready (h : s.AtRest) : s.Ready :=
  h.imp id (.imp id (·.1))

/-- Outside of functions thinking leaves a story ready. -/
theorem Ready.thinks (h : s.Ready) (hs : s.Outside) (hthinks : s.Thinks t) : t.Ready := by
  have hcursor : t.cursor? = s.cursor? := hthinks.cursor?_eq fun c hc =>
    hthinks.children_eq (mt hs.sound.content.tree.inFunction_of_called (hs.container hc))
  refine h.imp (fun hended => ?_) (.imp (fun hsome => ?_) fun hpending => ?_)
  · rw [hthinks.eq]
    exact hended
  · rw [hcursor]
    exact hsome
  · rw [hthinks.eq]
    exact hpending

/-- Telling a text leaves it so. -/
theorem Ready.record (h : s.Ready) (text : String) : (s.record text).Ready := by
  rw [record_eq]
  exact h

/-- Widening a story leaves it ready. -/
theorem Ready.widen (h : s.Ready) (hs : s.Outside) (hwidens : s.Widens t) : t.Ready := by
  have hcursor := hwidens.cursor?_eq hs.sound
  refine h.imp (fun hended => ?_) (.imp (fun hsome => ?_) fun hpending => ?_)
  · rw [hwidens.eq]
    exact hended
  · rw [hcursor]
    exact hsome
  · rw [hwidens.eq]
    exact hpending

/-- Interrupts leave a story ready when they offer their choices. -/
theorem Ready.overlay (h : s.Ready) (hs : s.Outside) {interrupts : List Interrupt} {a : Unit}
    (hadd : addInterruptChoices w interrupts s = some (a, t)) : t.Ready := by
  obtain ⟨m, added, hchanges, rfl, -⟩ := addInterruptChoices_eq_some hadd
  obtain hended | hsome | hpending := h.thinks hs (.single (.think hchanges))
  · exact .inl hended
  · exact .inr (.inl hsome)
  · exact .inr (.inr fun hnil => hpending (List.append_eq_nil_iff.1 hnil).2)

/-- A unit of text leaves a story outside and ready, also where it fails. -/
theorem ready_of_playUnit {steps : Nat} {backwards : List Char}
    {r : Except StoryError (List Char)} (hs : s.Outside) (hready : s.Ready)
    (hmore : s.hasMore = true)
    (hleads : ∀ v ∈ visitsWithin w steps backwards s, ∀ target,
      v.destination = some target → outside s.content target)
    (h : playUnit w steps backwards s = some (r, t)) : t.Outside ∧ t.Ready := by
  have hkept := playUnit_keeps
    (P := fun u => u.Outside ∧ u.Ready ∧ u.content = s.content)
    (D := fun v => ∀ target, v.destination = some target → outside s.content target)
    (fun {u v i fragment} hu hmore hi hvisit hplay => ?_)
    (fun {u v i e} hu hmore hi hplay => ?_) ⟨hs, hready, rfl⟩ hmore hleads h
  · exact ⟨hkept.1, hkept.2.1⟩
  · obtain ⟨hu, -, hcontent⟩ := hu
    obtain ⟨e, herror, -⟩ | ⟨x, -, hend, -, -⟩ | ⟨text, x, -, -, hmoves, hsettle⟩ :=
      playNode_eq_some hmore hi (fun target htarget => hcontent ▸ hvisit target htarget) hplay
    · cases herror
    · obtain ⟨i, hother, -⟩ := hvisit none hend
      cases hother
    · have hsettled : x.Moves outside v := plays_settle w x _ _ hsettle
      have hmoved : u.Moves outside v := hmoves.trans hsettled
      exact ⟨kept_outside.moves hu hmoved, (atRest_of_settle hsettle).ready,
        hmoved.content_eq.trans hcontent⟩
  · obtain ⟨hu, hready, hcontent⟩ := hu
    obtain ⟨_, -, hthinks⟩ | ⟨_, hother, -⟩ | ⟨_, _, hother, -⟩ :=
      playNode_anywhere hmore hi hplay
    · exact ⟨kept_outside.moves hu hthinks.moves, hready.thinks hu hthinks,
        hthinks.content_eq.trans hcontent⟩
    · cases hother
    · cases hother

/-- Whatever a story is asked for, it stays ready while it is led neither to its end nor into a
function. -/
theorem ready_of_perform {action : Action} {answer : Answer} (hs : s.Outside) (hready : s.Ready)
    (hled : s.Led outside w action) (h : perform w action s = some (answer, t)) : t.Ready := by
  obtain ⟨r, rfl, -, hadvance⟩ | ⟨index, r, rfl, -, hchoose⟩ | ⟨i, r, rfl, -, hadd⟩ |
    ⟨hthinks, -⟩ := perform_eq_some h
  · obtain ⟨-, -, rfl⟩ | ⟨hmore, hplayed⟩ := advance_eq_some hadvance
    · exact hready
    · rw [Led, visits, if_pos hmore] at hled
      obtain ⟨e, -, hunit⟩ | ⟨unit, u, v, hunit, hend, -, rfl⟩ := hplayed
      · exact (ready_of_playUnit hs hready hmore hled hunit).2
      · obtain ⟨hu, hready'⟩ := ready_of_playUnit hs hready hmore hled hunit
        obtain ⟨-, rfl⟩ | ⟨-, hadd⟩ := hend
        · exact hready'.record _
        · exact (hready'.overlay hu hadd).record _
  · obtain ⟨-, -, rfl⟩ | ⟨choice, -, -, hsettle⟩ := choose_eq_some hchoose
    · exact hready
    · exact (atRest_of_settle hsettle).ready
  · exact hready.widen hs (widens_addInterrupt hs.sound.content hadd)
  · exact hready.thinks hs hthinks

/-! ## Runs -/

/-- A story that was loaded from a file of a host and then asked for actions, each of which may have
failed and none of which has led play to the end or into the body of a function. -/
inductive Course (host : Host) (main : String) : Story → Prop
  /-- It has just been loaded. -/
  | load {w : World} {seed : Nat} {s : Story} :
      w.host = host → load w main seed = some (.ok s) → Course host main s
  /-- It was asked for an action. -/
  | perform {w : World} {action : Action} {answer : Answer} {s t : Story} :
      Course host main s → w.host = host → s.Led outside w action →
      perform w action s = some (answer, t) → Course host main t

instance (c : Content) (i : NodeId) : Decidable (c.InFunction i) :=
  inferInstanceAs (Decidable (∃ f ∈ c.lineage i, (c.node f).isFunction = true))

instance (c : Content) : (target : Option NodeId) → Decidable (outside c target)
  | none => isFalse fun ⟨_, hnone, _⟩ => nomatch hnone
  | some i => decidable_of_iff (¬ c.InFunction i)
      ⟨fun hout => ⟨i, rfl, hout⟩, fun ⟨_, hi, hout⟩ => Option.some.inj hi ▸ hout⟩

instance (w : World) (s : Story) : (action : Action) → Decidable (s.Led outside w action)
  | .advance => inferInstanceAs (Decidable
      (∀ v ∈ visits w s, ∀ target ∈ v.destination, outside s.content target))
  | .choose index => inferInstanceAs (Decidable
      (∀ i ∈ s.choices[index]?, outside s.content (some i)))
  | .setVariable _ _ | .pendingChoices | .currentComment | .addInterrupt _ =>
      inferInstanceAs (Decidable True)

/-- The story that was asked for some actions, unless one of them leads play to the end or into the
body of a function. -/
def performOutside? (w : World) : List Action → Story → Option Story
  | [], s => some s
  | action :: rest, s =>
    if s.Led outside w action then
      (perform w action s).bind fun (_, t) => performOutside? w rest t
    else none

/-- A course goes on with actions that lead outside of functions. -/
theorem Course.performOutside? {host : Host} {main : String} {w : World} {actions : List Action}
    (h : Course host main s) (hhost : w.host = host)
    (hrun : performOutside? w actions s = some t) : Course host main t := by
  induction actions generalizing s with
  | nil =>
    cases hrun
    exact h
  | cons action rest ih =>
    rw [Story.performOutside?] at hrun
    split at hrun
    · next hled =>
      obtain ⟨⟨answer, u⟩, hperform, hrest⟩ := Option.bind_eq_some_iff.1 hrun
      exact ih (h.perform hhost hled hperform) hrest
    · cases hrun

/-- On a course a story is outside and ready. -/
theorem Course.ready {host : Host} {main : String} (h : Course host main s) :
    s.Outside ∧ s.Ready := by
  induction h with
  | load hhost hload =>
    obtain ⟨start, sources, hmain, hsettle⟩ := settle_of_load hload
    obtain ⟨hgrown, hstart, hknot⟩ := Sources.grown_ofMain hmain
    exact ⟨kept_outside.moves (outside_atStart hgrown hstart hknot _)
      (plays_settle _ _ _ _ hsettle), (atRest_of_settle hsettle).ready⟩
  | perform _ _ hled hperform ih =>
    exact ⟨kept_outside.perform ih.1 hled hperform, ready_of_perform ih.1 ih.2 hled hperform⟩

/-- A story never gets stuck while it is led neither to its end nor into the body of a function, by
diverts or by choices: there is more to be played, or choices are pending, or its content has ended.
It waits only while choices are pending. -/
theorem Course.never_stuck {host : Host} {main : String} (h : Course host main s) :
    (s.hasMore = true ∨ s.choices ≠ [] ∨ s.isEnded = true) ∧
      (s.processing = false → s.choices ≠ []) := by
  obtain ⟨hs, hready⟩ := h.ready
  refine ⟨?_, hs.waiting⟩
  obtain hended | hsome | hpending := hready
  · exact .inr (.inr (by rw [isEnded, hended]; rfl))
  · cases hprocessing : s.processing with
    | true =>
      refine .inl ?_
      rw [hasMore, hprocessing, hs.running, hsome]
      rfl
    | false => exact .inr (.inl (hs.waiting hprocessing))
  · exact .inr (.inl hpending)

/-- A host with a source whose divert an interrupt leads elsewhere. -/
def walkHost : Host :=
  .ofSources (.ofList [("walk", "== start\nHello.\n* [Go]\n  Onward.\n  -> hall\n== hall\n" ++
    "In the hall.\n== yard\nIn the yard.\n* [Stay]\n")]) fun _ => ""

/-- A world with that host. -/
def walkWorld : World := ⟨walkHost, 4, 40⟩

/-- A choice is taken, and the divert after it leads to the choices of another place. -/
theorem never_stuck_walk : ∃ s : Story, Course walkHost "walk" s ∧
    s.container.map (fun c => (s.node c).id) = some "yard" ∧
    (s.hasMore = true ∨ s.choices ≠ [] ∨ s.isEnded = true) ∧
    (s.processing = false → s.choices ≠ []) := by
  have hplayed : (load walkWorld "walk" 0).any (fun r => r.toOption.any fun s₀ =>
      (performOutside? walkWorld
        [.addInterrupt { id := "detour", kind := .divert, text := "hall -> yard" },
          .addInterrupt { id := "extra", kind := .choice, text := "* [Wait] More." },
          .advance, .choose 1, .advance, .advance] s₀).any fun s =>
        s.container.map (fun c => (s.node c).id) = some "yard") = true := by
    decide +kernel
  obtain ⟨r, hload, hr⟩ := (Option.any_eq_true _ _).1 hplayed
  obtain ⟨s₀, hs₀, hruns⟩ := (Option.any_eq_true _ _).1 hr
  obtain ⟨s, hs, hplace⟩ := (Option.any_eq_true _ _).1 hruns
  cases r with
  | error e => cases hs₀
  | ok =>
    cases hs₀
    have hcourse : Course walkHost "walk" s := (Course.load rfl hload).performOutside? rfl hs
    obtain ⟨hgoes, hwaits⟩ := hcourse.never_stuck
    exact ⟨s, hcourse, of_decide_eq_true hplace, hgoes, hwaits⟩

/-- A host with a source without diverts, whose comment calls the function that has the choices. -/
def noteHost : Host :=
  .ofSources (.ofList [("note", "== start\n// @+ \x7bf()\x7d Note.\n* [Stay]\n" ++
    "== function f()\n\x7b\n- v == 0:\n* [X]\n- (g)\n* [C]\n- else:\n\x7d\n")]) fun _ => ""

/-- A world with that host. -/
def noteWorld : World := ⟨noteHost, 4, 40⟩

/-- An interrupt that is named like a choice of the function offers it, and it is taken. Showing the
comment then calls the function. -/
def noteActions : List Action :=
  [.setVariable "v" (.number .zero),
    .addInterrupt { id := "f.0.0.0", kind := .choice, text := "" },
    .advance, .choose 0, .setVariable "v" (.number .one), .currentComment]

/-- Without any divert play can get stuck in the body of a function, where a choice that is taken
has led it. -/
theorem stuck_after_choice : ∃ s : Story, Reachable noteHost "note" (fun _ => True) s ∧
    (∀ i < s.content.size, (s.node i).isDivert = false) ∧
    (∀ k ∈ s.interrupts, k.kind = .choice) ∧
    ¬ (s.hasMore = true ∨ s.choices ≠ [] ∨ s.isEnded = true) := by
  have hplayed : (played? noteWorld "note" 0 noteActions).any (fun s =>
      (∀ i < s.content.size, (s.node i).isDivert = false) ∧
      (∀ k ∈ s.interrupts, k.kind = .choice) ∧
      ¬ (s.hasMore = true ∨ s.choices ≠ [] ∨ s.isEnded = true)) = true := by
    decide +kernel
  obtain ⟨s, hs, hstuck⟩ := (Option.any_eq_true _ _).1 hplayed
  exact ⟨s, reachable_of_played? (fun _ _ => trivial) hs, of_decide_eq_true hstuck⟩

end Narrative.Story
