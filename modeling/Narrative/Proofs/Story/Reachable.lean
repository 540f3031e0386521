import Narrative.Proofs.Source.Loading
import Narrative.Proofs.Story.Soundness

/-!
# Reachable stories

What a host asks of a story in play, and the stories that are reached from a loaded one by asking.
What loading establishes and every move keeps holds of all of them.
-/

namespace Narrative

/-- What a host asks of a story in play. -/
inductive Action where
  /-- To play the next unit of text. -/
  | advance
  /-- To take a pending choice. -/
  | choose (index : Nat)
  /-- To store a value in a variable. -/
  | setVariable (name : String) (value : Value)
  /-- To show the pending choices. -/
  | pendingChoices
  /-- To show the comment at the cursor. -/
  | currentComment
  /-- To add an interrupt. -/
  | addInterrupt (i : Interrupt)

/-- Whether an action adds no interrupt. -/
def Action.isUndisturbed : Action → Bool
  | addInterrupt _ => false
  | _ => true

/-- What a story answers when it is asked. -/
inductive Answer where
  /-- A unit of text, or an error. -/
  | text (r : Except StoryError String)
  /-- That it was done, or an error. -/
  | done (r : Except StoryError Unit)
  /-- The texts of the pending choices. -/
  | choices (texts : List String)
  /-- The text of a comment, if there is one. -/
  | comment (text : Option String)

namespace Story

/-- Does what a story is asked for. -/
def perform (w : World) : Action → Run Story Answer
  | .advance => do return .text (← (advance w).run)
  | .choose index => do return .done (← (choose w index).run)
  | .setVariable name value => do
    modify fun s => s.assign w.host name value
    return .done (.ok ())
  | .pendingChoices => do return .choices (← pendingTexts w)
  | .currentComment => do return .comment (← currentComment w)
  | .addInterrupt i => do
    let (r, s) := addInterrupt w.host i (← get)
    set s
    return .done r

/-- Does what a story is asked for one after another, and gathers the answers. -/
def performAll (w : World) : List Action → Run Story (List Answer)
  | [] => return []
  | action :: rest => do return (← perform w action) :: (← performAll w rest)

/-- A story that was loaded from a file of a host and then asked for permitted actions, each of
which may have failed. -/
inductive Reachable (host : Host) (main : String) (permitted : Action → Prop) : Story → Prop
  /-- It has just been loaded. -/
  | load {w : World} {seed : Nat} {s : Story} :
      w.host = host → load w main seed = some (.ok s) → Reachable host main permitted s
  /-- It was asked for an action. -/
  | perform {w : World} {action : Action} {answer : Answer} {s t : Story} :
      Reachable host main permitted s → w.host = host → permitted action →
      perform w action s = some (answer, t) → Reachable host main permitted t

/-- A story that is reached is asked for more. -/
theorem Reachable.performAll {host : Host} {main : String} {permitted : Action → Prop} {w : World}
    {actions : List Action} {answers : List Answer} {s t : Story}
    (h : Reachable host main permitted s) (hhost : w.host = host)
    (hpermitted : ∀ a ∈ actions, permitted a)
    (hrun : performAll w actions s = some (answers, t)) : Reachable host main permitted t := by
  induction actions generalizing s answers with
  | nil =>
    cases hrun
    exact h
  | cons action rest ih =>
    obtain ⟨answer, u, hfirst, hrest⟩ := Run.bind_eq_some.1 hrun
    obtain ⟨answers', v, hrest', hend⟩ := Run.bind_eq_some.1 hrest
    cases hend
    exact ih (h.perform hhost (hpermitted action List.mem_cons_self) hfirst)
      (fun a ha => hpermitted a (List.mem_cons_of_mem _ ha)) hrest'

/-- The story that is loaded from a file and a seed and asked for some actions. -/
def played? (w : World) (main : String) (seed : Nat) (actions : List Action) : Option Story := do
  let s ← (← load w main seed).toOption
  return (← performAll w actions s).2

/-- A story that is played was loaded first. -/
theorem load_of_played? {w : World} {main : String} {seed : Nat} {actions : List Action}
    {s : Story} (h : played? w main seed actions = some s) :
    ∃ s₀ answers, load w main seed = some (.ok s₀) ∧
      performAll w actions s₀ = some (answers, s) := by
  obtain ⟨r, hload, hrest⟩ := Option.bind_eq_some_iff.1 h
  obtain ⟨s₀, hok, hrest⟩ := Option.bind_eq_some_iff.1 hrest
  obtain ⟨⟨answers, t⟩, hrun, hend⟩ := Option.bind_eq_some_iff.1 hrest
  cases hend
  cases r with
  | error e => cases hok
  | ok s₁ =>
    cases hok
    exact ⟨s₀, answers, hload, hrun⟩

/-- A story that is played is reachable when all its actions are permitted. -/
theorem reachable_of_played? {w : World} {main : String} {seed : Nat} {actions : List Action}
    {permitted : Action → Prop} {s : Story} (hactions : ∀ a ∈ actions, permitted a)
    (h : played? w main seed actions = some s) : Reachable w.host main permitted s := by
  obtain ⟨s₀, answers, hload, hrun⟩ := load_of_played? h
  exact (Reachable.load rfl hload).performAll rfl hactions hrun

/-! ## What actions do -/

/-- A story that has read more and may have one more interrupt. -/
structure Widens (s t : Story) : Prop where
  /-- The content is sound and a tree. -/
  grown : t.content.Grown
  /-- The nodes that were there stay. -/
  extends_content : t.content.Extends s.content
  /-- Only the sources and the interrupts differ. -/
  eq : t = { s with sources := t.sources, interrupts := t.interrupts }
  /-- The interrupts that were there stay. -/
  interrupts : ∃ added, t.interrupts = s.interrupts ++ added

/-- An interrupt changes the sources and interrupts only. -/
theorem overlay_eq {i : Interrupt} {s t : Story} {r : Except StoryError Unit}
    (h : overlay i s = (r, t)) :
    t = { s with sources := t.sources, interrupts := t.interrupts } := by
  unfold overlay at h
  split at h
  · split at h <;> cases h <;> rfl
  · cases h
    rfl

/-- Adding an interrupt changes the sources and the interrupts only. -/
theorem addInterrupt_eq {host : Host} {i : Interrupt} {s t : Story} {r : Except StoryError Unit}
    (h : addInterrupt host i s = (r, t)) :
    t = { s with sources := t.sources, interrupts := t.interrupts } := by
  unfold addInterrupt at h
  split at h
  · exact overlay_eq h
  · split at h
    · cases h
      rfl
    · rw [overlay_eq h]

/-- An interrupt widens the story. -/
theorem widens_overlay {i : Interrupt} {s t : Story} {r : Except StoryError Unit}
    (hs : s.content.Grown) (h : overlay i s = (r, t)) : s.Widens t := by
  unfold overlay at h
  split at h
  · split at h
    · next e content hread =>
      obtain ⟨hgrown, hextends⟩ := hs.readDetached hread
      cases h
      exact ⟨hgrown, hextends, rfl, [], (List.append_nil _).symm⟩
    · next choice content hread =>
      obtain ⟨hgrown, hextends⟩ := hs.readDetached hread
      cases h
      exact ⟨hgrown, hextends, rfl, [i], rfl⟩
  · cases h
    exact ⟨hs, .refl _, rfl, [i], rfl⟩

/-- Adding an interrupt reads its source and its choice, also where that fails. -/
theorem widens_addInterrupt {host : Host} {i : Interrupt} {s t : Story}
    {r : Except StoryError Unit} (hs : s.content.Grown) (h : addInterrupt host i s = (r, t)) :
    s.Widens t := by
  unfold addInterrupt at h
  split at h
  · exact widens_overlay hs h
  · split at h
    · next e sources hrequire =>
      obtain ⟨hgrown, hextends⟩ := Sources.grown_require hs hrequire
      cases h
      exact ⟨hgrown, hextends, rfl, [], (List.append_nil _).symm⟩
    · next sources hrequire =>
      obtain ⟨hgrown, hextends⟩ := Sources.grown_require hs hrequire
      have hwidens := widens_overlay (s := { s with sources }) hgrown h
      refine ⟨hwidens.grown, hwidens.extends_content.trans hextends, ?_, hwidens.interrupts⟩
      rw [overlay_eq h]

/-- A host that asks for an interrupt is told how adding it ended. -/
theorem addInterrupt_of_perform {w : World} {i : Interrupt} {answer : Answer} {s t : Story}
    (h : perform w (.addInterrupt i) s = some (answer, t)) :
    ∃ r, answer = .done r ∧ addInterrupt w.host i s = (r, t) := by
  cases hadd : addInterrupt w.host i s with
  | mk r u =>
    rw [perform, Run.get_bind_apply] at h
    simp only [hadd] at h
    cases h
    exact ⟨r, rfl, rfl⟩

/-- A story that is asked for something is advanced, or a choice is taken, or an interrupt is added,
or it thinks. -/
theorem perform_eq_some {w : World} {action : Action} {answer : Answer} {s t : Story}
    (h : perform w action s = some (answer, t)) :
    (∃ r, action = .advance ∧ answer = .text r ∧ advance w s = some (r, t)) ∨
      (∃ index r, action = .choose index ∧ answer = .done r ∧ choose w index s = some (r, t)) ∨
      (∃ i r, action = .addInterrupt i ∧ answer = .done r ∧ addInterrupt w.host i s = (r, t)) ∨
      s.Thinks t ∧ (∀ index, action ≠ .choose index) ∧ ∀ r, answer ≠ .text r := by
  cases action with
  | advance =>
    obtain ⟨r, u, hadvance, hend⟩ := Run.bind_eq_some.1 h
    cases hend
    exact .inl ⟨r, rfl, rfl, hadvance⟩
  | choose index =>
    obtain ⟨r, u, hchoose, hend⟩ := Run.bind_eq_some.1 h
    cases hend
    exact .inr (.inl ⟨index, r, rfl, rfl, hchoose⟩)
  | setVariable name value =>
    obtain ⟨r, u, hassign, hend⟩ := Run.bind_eq_some.1 h
    cases hend
    exact .inr (.inr (.inr ⟨plays_assign w.host name value s _ _ hassign, nofun, nofun⟩))
  | pendingChoices =>
    obtain ⟨r, u, htexts, hend⟩ := Run.bind_eq_some.1 h
    cases hend
    exact .inr (.inr (.inr ⟨plays_pendingTexts w s _ _ htexts, nofun, nofun⟩))
  | currentComment =>
    obtain ⟨r, u, hcomment, hend⟩ := Run.bind_eq_some.1 h
    cases hend
    exact .inr (.inr (.inr ⟨plays_currentComment w s _ _ hcomment, nofun, nofun⟩))
  | addInterrupt i =>
    obtain ⟨r, rfl, hadd⟩ := addInterrupt_of_perform h
    exact .inr (.inr (.inl ⟨i, r, rfl, rfl, hadd⟩))

/-- Whether a story that is asked for an action is led only where it may be, by diverts and by
choices that are taken. -/
def Led (leads : Route) (w : World) (action : Action) (s : Story) : Prop :=
  match action with
  | .advance => ∀ v ∈ visits w s, ∀ target, v.destination = some target → leads s.content target
  | .choose index => ∀ i, s.choices[index]? = some i → leads s.content (some i)
  | _ => True

/-- Every action leads somewhere. -/
theorem led_anywhere (w : World) (action : Action) (s : Story) : s.Led anywhere w action := by
  cases action with
  | advance => exact fun _ _ _ _ => trivial
  | choose index => exact fun _ _ => trivial
  | _ => trivial

/-- Whatever a story is asked for, it moves and may record a text, or it reads more. -/
theorem moves_of_perform {leads : Route} {w : World} {action : Action}
    {answer : Answer} {s t : Story} (hs : s.content.Grown) (hled : s.Led leads w action)
    (h : perform w action s = some (answer, t)) :
    (∃ u, s.Moves leads u ∧ (t = u ∨ ∃ text, t = u.record text)) ∨
      action.isUndisturbed = false ∧ s.Widens t := by
  obtain ⟨r, rfl, -, hadvance⟩ | ⟨index, r, rfl, -, hchoose⟩ | ⟨i, r, rfl, -, hadd⟩ |
    ⟨hthinks, -⟩ := perform_eq_some h
  · exact .inl (moves_of_advance hled hadvance)
  · exact .inl ⟨t, plays_choose hled _ _ hchoose, .inl rfl⟩
  · exact .inr ⟨rfl, widens_addInterrupt hs hadd⟩
  · exact .inl ⟨t, hthinks.moves, .inl rfl⟩

/-- A property that moves, records and interrupts keep is kept by every action. -/
structure Kept (leads : Route) (P : Story → Prop) : Prop where
  /-- It holds of sound stories. -/
  sound {s : Story} : P s → s.Sound
  /-- Moves keep it. -/
  move {s t : Story} : P s → s.Move leads t → P t
  /-- Recording a text keeps it. -/
  record {s : Story} (text : String) : P s → P (s.record text)
  /-- Adding an interrupt keeps it. -/
  widen {s t : Story} : P s → s.Widens t → P t

/-- What every move keeps is kept by several. -/
theorem Kept.moves {leads : Route} {P : Story → Prop} (h : Kept leads P)
    {s t : Story} (hs : P s) (hmoves : s.Moves leads t) : P t := by
  induction hmoves with
  | refl => exact hs
  | tail _ hmove ih => exact h.move ih hmove

/-- What is kept is kept by every action. -/
theorem Kept.perform {leads : Route} {P : Story → Prop} (h : Kept leads P)
    {w : World} {action : Action} {answer : Answer} {s t : Story} (hs : P s)
    (hled : s.Led leads w action)
    (hperform : Story.perform w action s = some (answer, t)) : P t := by
  obtain ⟨u, hmoves, rfl | ⟨text, rfl⟩⟩ | ⟨-, hwidens⟩ :=
    moves_of_perform (h.sound hs).content hled hperform
  · exact h.moves hs hmoves
  · exact h.record text (h.moves hs hmoves)
  · exact h.widen hs hwidens

/-! ## Sound stories are reached -/

/-- A story stays sound with further interrupts. -/
theorem Sound.widen {s t : Story} (h : s.Sound) (hwidens : s.Widens t) : t.Sound := by
  have hextends := hwidens.extends_content
  have hlt {i : Nat} (hi : i < s.content.size) : i < t.content.size :=
    Nat.lt_of_lt_of_le hi hextends.size_le
  have heq := hwidens.eq
  refine ⟨hwidens.grown, fun {c} hc => ?_, fun {i} hi => ?_, fun {i} hi => ?_, ?_⟩
  · rw [heq] at hc
    exact hlt (h.container hc)
  · rw [heq] at hi
    have hchoice := h.choices hi
    rw [node, hextends.node_eq (Content.lt_size (p := Node.isChoice) rfl hchoice)]
    exact hchoice
  · rw [heq] at hi
    exact hlt (h.comments hi)
  · have hmemory : t.memory = s.memory := by rw [heq]
    rw [hmemory]
    exact h.memory.extends hextends

/-- Inside the nodes that were there play goes through the same nodes as before. -/
theorem Widens.children_eq {s t : Story} (h : s.Widens t) {i : Nat} (hi : i < s.content.size) :
    t.children i = s.children i := by
  have hmemory : t.memory = s.memory := by rw [h.eq]
  rw [children, children, Memory.children, Memory.children, h.extends_content.node_eq hi, hmemory]

/-- A story that is widened has the same cursor. -/
theorem Widens.cursor?_eq {s t : Story} (h : s.Widens t) (hs : s.Sound) : t.cursor? = s.cursor? :=
  cursor?_congr (by rw [h.eq]) (by rw [h.eq]) fun _ hc => h.children_eq (hs.container hc)

/-- Where play has halted it stays halted with further interrupts. -/
theorem Widens.halted {s t : Story} (h : s.Widens t) (hs : s.Sound) (hhalted : s.Halted) :
    t.Halted := by
  obtain hwaiting | hover | hended | ⟨c, hc, hblock, hnone⟩ := hhalted
  · exact .inl (by rw [h.eq]; exact hwaiting)
  · exact .inr (.inl (by rw [h.eq]; exact hover))
  · exact .inr (.inr (.inl (by rw [h.eq]; exact hended)))
  · refine .inr (.inr (.inr ⟨c, by rw [h.eq]; exact hc, ?_, (h.cursor?_eq hs).trans hnone⟩))
    rw [node, h.extends_content.node_eq (hs.container hc)]
    exact hblock

/-- Soundness is kept by every action. -/
theorem kept_sound (leads : Route) : Kept leads Sound where
  sound h := h
  move h hmove := h.move hmove
  record text h := h.record text
  widen h hwidens := h.widen hwidens

/-- A story at its start is sound. -/
theorem sound_atStart {sources : Sources} {start : Nat} (h : sources.content.Grown)
    (hstart : start < sources.content.size) (seed : Nat) : (atStart sources start seed).Sound where
  content := h
  container := by
    rintro c ⟨⟩
    exact lt_size_of_descend (s := { sources, container := some start }) hstart
  choices := by
    rintro i ⟨⟩
  comments := by
    rintro i ⟨⟩
  memory := by
    have hmark (i : NodeId) : (atStart sources start seed).memory.mark i = {} := by
      simp [atStart, Memory.mark, Marks.get]
    exact ⟨fun _ => hmark _, fun _ => hmark _, fun _ => by rw [hmark], fun _ => by rw [hmark]⟩

/-- A story that has just been loaded was brought to rest from the start of its sources. -/
theorem settle_of_load {w : World} {main : String} {seed : Nat} {s : Story}
    (h : load w main seed = some (.ok s)) :
    ∃ start sources, Sources.ofMain w.host main = .ok (start, sources) ∧
      settle w (atStart sources start seed) = some ((), s) := by
  unfold load at h
  cases hmain : Sources.ofMain w.host main with
  | error e => simp [hmain] at h
  | ok r =>
    obtain ⟨start, sources⟩ := r
    simp only [hmain] at h
    obtain ⟨⟨a, t⟩, hsettle, heq⟩ := Option.map_eq_some_iff.1 h
    cases heq
    exact ⟨start, sources, rfl, hsettle⟩

/-- A property that holds at the start of every story and is kept by moves, records and interrupts
holds of every story that is reached. -/
theorem Reachable.keeps {P : Story → Prop} (hkept : Kept anywhere P)
    {host : Host} {main : String} {permitted : Action → Prop} {s : Story}
    (h : Reachable host main permitted s)
    (hstart : ∀ start sources seed, Sources.ofMain host main = .ok (start, sources) →
      P (atStart sources start seed)) : P s := by
  induction h with
  | load hhost hload =>
    subst hhost
    obtain ⟨start, sources, hmain, hsettle⟩ := settle_of_load hload
    exact hkept.moves (hstart start sources _ hmain) (plays_settle _ _ _ _ hsettle)
  | perform _ _ _ hperform ih =>
    exact hkept.perform ih (led_anywhere _ _ _) hperform

/-- A story that is reached is sound. -/
theorem Reachable.sound {host : Host} {main : String} {permitted : Action → Prop} {s : Story}
    (h : Reachable host main permitted s) : s.Sound := by
  refine h.keeps (kept_sound anywhere) fun start sources seed hmain => ?_
  obtain ⟨hgrown, hstart, -⟩ := Sources.grown_ofMain hmain
  exact sound_atStart hgrown hstart seed

section Undisturbed

variable {host : Host} {main : String} {permitted : Action → Prop} {s : Story}
  (h : Reachable host main permitted s) (hpermitted : ∀ a, permitted a → a.isUndisturbed = true)

include h hpermitted

/-- A story that is reached without interrupts has the sources that were loaded, and no
interrupts. -/
theorem Reachable.undisturbed :
    (∃ start, Sources.ofMain host main = .ok (start, s.sources)) ∧ s.interrupts = [] := by
  induction h with
  | load hhost hload =>
    subst hhost
    obtain ⟨start, sources, hmain, hsettle⟩ := settle_of_load hload
    have hmoves : Moves anywhere _ _ := plays_settle _ _ _ _ hsettle
    rw [hmoves.steady.sources]
    exact ⟨⟨start, hmain⟩, List.map_eq_nil_iff.1 hmoves.steady.overlays⟩
  | perform hreached _ haction hperform ih =>
    obtain ⟨u, hmoves, hend⟩ | ⟨hdisturbed, -⟩ := moves_of_perform
      hreached.sound.content (led_anywhere _ _ _) hperform
    · obtain ⟨hloaded, hnone⟩ := ih
      have hoverlays := hmoves.steady.overlays
      have hu : (∃ start, Sources.ofMain host main = .ok (start, u.sources)) ∧
          u.interrupts = [] := by
        rw [overlays, overlays, hnone] at hoverlays
        rw [hmoves.steady.sources]
        exact ⟨hloaded, List.map_eq_nil_iff.1 hoverlays⟩
      obtain rfl | ⟨text, rfl⟩ := hend
      · exact hu
      · rw [record_eq]
        exact hu
    · rw [hpermitted _ haction] at hdisturbed
      cases hdisturbed

/-- It has the sources that were loaded. -/
theorem Reachable.sources_eq : ∃ start, Sources.ofMain host main = .ok (start, s.sources) :=
  (h.undisturbed hpermitted).1

/-- It has no interrupts. -/
theorem Reachable.interrupts_eq_nil : s.interrupts = [] :=
  (h.undisturbed hpermitted).2

end Undisturbed

end Story

end Narrative
