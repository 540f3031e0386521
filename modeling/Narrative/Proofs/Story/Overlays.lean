import Mathlib.Data.List.Forall2
import Narrative.Proofs.Story.Pending

/-!
# The interrupts of a story

Play adds no interrupt and takes none away, it only uses them up. What an interrupt reads when it is
added, and whether it is added, depends on the sources only. So interrupts that were added to one
story can be added to another one of the same origin, and both have the same sources and the same
interrupts then, except for those that the first has used up.
-/

namespace Narrative

namespace Interrupt

/-- The interrupts in the second list are those in the first, each as it was or used up. -/
def Spent (before after : List Interrupt) : Prop :=
  List.Forall₂ (fun i k => k = i ∨ k = i.finish) before after

variable {is js ks : List Interrupt}

/-- No interrupt need be spent. -/
theorem Spent.refl (is : List Interrupt) : Spent is is :=
  List.forall₂_same.2 fun _ _ => .inl rfl

/-- Interrupts may be spent one after the other. -/
theorem Spent.trans (h : Spent is js) (h' : Spent js ks) : Spent is ks := by
  induction h generalizing ks with
  | nil => exact h'
  | cons hfirst _ ih =>
    cases h' with
    | cons hnext hrest =>
      refine .cons ?_ (ih hrest)
      obtain rfl | rfl := hfirst
      · exact hnext
      · -- an interrupt that is used up twice is used up
        exact .inr (or_self_iff.1 hnext)

/-- Interrupts that are added to both are spent in neither. -/
theorem Spent.append (h : Spent is js) (added : List Interrupt) :
    Spent (is ++ added) (js ++ added) := by
  induction h with
  | nil => exact .refl added
  | cons hfirst _ ih => exact .cons hfirst ih

/-- Interrupts that are used up are for what they were for. -/
theorem Spent.overlays_eq (h : Spent is js) :
    js.map (fun k => (k.id, k.kind)) = is.map fun k => (k.id, k.kind) := by
  induction h with
  | nil => rfl
  | cons hfirst _ ih =>
    rw [List.map_cons, List.map_cons, ih]
    obtain rfl | rfl := hfirst <;> rfl

/-- One interrupt is spent. -/
theorem spent_modify (is : List Interrupt) (position : Nat) :
    Spent is (is.modify position finish) := by
  induction is generalizing position with
  | nil =>
    rw [List.modify_nil]
    exact .refl []
  | cons i rest ih =>
    cases position with
    | zero => exact .cons (.inr rfl) (Spent.refl rest)
    | succ position => exact .cons (.inl rfl) (ih position)

/-- The interrupts of one id are spent. -/
theorem spent_map (is : List Interrupt) (id : String) :
    Spent is (is.map fun i => if i.id = id then i.finish else i) := by
  induction is with
  | nil => exact .nil
  | cons i rest ih =>
    refine .cons ?_ ih
    dsimp only
    split
    · exact .inr rfl
    · exact .inl rfl

end Interrupt

open Interrupt

/-- The interrupts that an action asks to add. -/
def Action.interrupts : Action → List Interrupt
  | addInterrupt i => [i]
  | _ => []

namespace Story

variable {host : Host} {main : String} {is : List Interrupt} {s t : Story}

/-! ## Play uses interrupts up -/

/-- A move spends interrupts at most. -/
theorem Move.spent {leads : Route} (h : s.Move leads t) : Spent s.interrupts t.interrupts := by
  cases h with
  | thought h =>
    cases h with
    | note _ =>
      unfold addComment
      split <;> exact .refl _
    | fire position _ => exact spent_modify _ position
    | _ => exact .refl _
  | leave _ _ _ =>
    unfold leaveBlock
    split <;> exact .refl _
  | offer _ _ _ _ _ _ =>
    unfold Story.pass
    split <;> exact .refl _
  | @take i _ _ => exact spent_map _ (s.node i).id
  | _ => exact .refl _

/-- Moves spend interrupts at most. -/
theorem Moves.spent {leads : Route} (h : s.Moves leads t) : Spent s.interrupts t.interrupts := by
  induction h with
  | refl => exact .refl _
  | tail _ hmove ih => exact ih.trans hmove.spent

/-- Where no interrupt is added nothing is read, and interrupts are used up at most. -/
theorem spent_of_perform {w : World} {action : Action} {answer : Answer} (hs : s.Sound)
    (hundisturbed : action.isUndisturbed = true) (h : perform w action s = some (answer, t)) :
    t.sources = s.sources ∧ Spent s.interrupts t.interrupts := by
  obtain ⟨u, hmoves, rfl | ⟨text, rfl⟩⟩ | ⟨hdisturbed, -⟩ :=
    moves_of_perform hs.content (led_anywhere w action s) h
  · exact ⟨hmoves.steady.sources, hmoves.spent⟩
  · rw [record_eq]
    exact ⟨hmoves.steady.sources, hmoves.spent⟩
  · rw [hundisturbed] at hdisturbed
    cases hdisturbed

/-! ## Adding interrupts again -/

/-- What an interrupt does to a story is determined by the sources. -/
theorem overlay_determined (i : Interrupt) (x : Sources) : ∃ r sources added, ∀ s : Story,
    s.sources = x → overlay i s = (r, { s with sources, interrupts := s.interrupts ++ added }) := by
  by_cases hchoice : i.kind = .choice ∧ (x.content.find? i.id).isNone
  · cases hread : x.content.readDetached i.text.toList i.id (i.file.getD "interrupt") with
    | mk r content =>
      cases r with
      | error e =>
        refine ⟨.error (.parse e), { x with content }, [], ?_⟩
        rintro s rfl
        simp only [overlay, Story.content, if_pos hchoice, hread, List.append_nil]
      | ok _ =>
        refine ⟨.ok (), { x with content }, [i], ?_⟩
        rintro s rfl
        simp only [overlay, Story.content, if_pos hchoice, hread]
  · refine ⟨.ok (), x, [i], ?_⟩
    rintro s rfl
    exact if_neg hchoice

/-- What a story answers, reads and adds when it is asked to add an interrupt depends on its sources
only. -/
theorem addInterrupt_determined (host : Host) (i : Interrupt) (x : Sources) :
    ∃ r sources added, ∀ s : Story, s.sources = x →
      addInterrupt host i s = (r, { s with sources, interrupts := s.interrupts ++ added }) := by
  unfold addInterrupt
  cases i.file with
  | none => exact overlay_determined i x
  | some file =>
    cases hrequire : x.require host file with
    | mk r sources =>
      cases r with
      | error e =>
        refine ⟨.error e, sources, [], ?_⟩
        rintro s rfl
        simp only [hrequire, List.append_nil]
      | ok _ =>
        obtain ⟨r, sources', added, hoverlay⟩ := overlay_determined i sources
        refine ⟨r, sources', added, ?_⟩
        rintro s rfl
        simp only [hrequire]
        exact hoverlay { s with sources } rfl

/-- A story that was asked to add some interrupts one after another, whether it accepts them or not.
-/
def addInterrupts (host : Host) (is : List Interrupt) (s : Story) : Story :=
  is.foldl (fun s i => (addInterrupt host i s).2) s

/-- Interrupts are added one after the other. -/
theorem addInterrupts_concat (host : Host) (is : List Interrupt) (i : Interrupt) (s : Story) :
    addInterrupts host (is ++ [i]) s = (addInterrupt host i (addInterrupts host is s)).2 :=
  List.foldl_append ..

/-- A story that was loaded from a file of a host and then asked for actions. The interrupts that it
was asked to add are listed in their order, also those that it has refused. -/
inductive Overlaid (host : Host) (main : String) : List Interrupt → Story → Prop
  /-- It has just been loaded. -/
  | load {w : World} {seed : Nat} {s : Story} :
      w.host = host → load w main seed = some (.ok s) → Overlaid host main [] s
  /-- It was asked for an action. -/
  | perform {w : World} {is : List Interrupt} {action : Action} {answer : Answer} {s t : Story} :
      Overlaid host main is s → w.host = host → perform w action s = some (answer, t) →
      Overlaid host main (is ++ action.interrupts) t

/-- A story with interrupts is reachable. -/
theorem Overlaid.reachable (h : Overlaid host main is s) :
    Reachable host main (fun _ => True) s := by
  induction h with
  | load hhost hload => exact .load hhost hload
  | perform _ hhost hperform ih => exact ih.perform hhost trivial hperform

/-- A course of actions adds the interrupts that are asked for. -/
theorem Overlaid.performAll {w : World} {actions : List Action} {answers : List Answer}
    (h : Overlaid host main is s) (hhost : w.host = host)
    (hrun : performAll w actions s = some (answers, t)) :
    Overlaid host main (is ++ actions.flatMap Action.interrupts) t := by
  induction actions generalizing is s answers with
  | nil =>
    cases hrun
    rw [List.flatMap_nil, List.append_nil]
    exact h
  | cons action rest ih =>
    obtain ⟨answer, u, hfirst, hrest⟩ := Run.bind_eq_some.1 hrun
    obtain ⟨answers', v, hrest', hend⟩ := Run.bind_eq_some.1 hrest
    cases hend
    rw [List.flatMap_cons, ← List.append_assoc]
    exact ih (h.perform hhost hfirst) hrest'

/-- A story that is played has the interrupts that were asked for. -/
theorem overlaid_of_played? {w : World} {seed : Nat} {actions : List Action}
    (h : played? w main seed actions = some s) :
    Overlaid w.host main (actions.flatMap Action.interrupts) s := by
  obtain ⟨s₀, answers, hload, hrun⟩ := load_of_played? h
  exact (Overlaid.load rfl hload).performAll rfl hrun

/-- Another story of the same origin that is asked to add the same interrupts has the same sources,
and the interrupts as they were added. -/
theorem Overlaid.readded (h : Overlaid host main is s)
    (ht : Reachable host main (·.isUndisturbed = true) t) :
    (addInterrupts host is t).sources = s.sources ∧
      Spent (addInterrupts host is t).interrupts s.interrupts := by
  induction h with
  | load hhost hload =>
    have hs : Reachable host main (·.isUndisturbed = true) _ := .load hhost hload
    obtain ⟨⟨start, hstart⟩, hnone⟩ := hs.undisturbed fun _ h => h
    obtain ⟨⟨start', hstart'⟩, hnone'⟩ := ht.undisturbed fun _ h => h
    rw [hstart, Except.ok.injEq, Prod.mk.injEq] at hstart'
    refine ⟨hstart'.2.symm, ?_⟩
    change Spent t.interrupts _
    rw [hnone, hnone']
    exact .refl []
  | @perform w is action answer s u hs hhost hperform ih =>
    obtain ⟨hsources, hspent⟩ := ih
    have hplay (hundisturbed : action.isUndisturbed = true) (hnone : action.interrupts = []) :
        (addInterrupts host (is ++ action.interrupts) t).sources = u.sources ∧
          Spent (addInterrupts host (is ++ action.interrupts) t).interrupts u.interrupts := by
      obtain ⟨hsame, hused⟩ := spent_of_perform hs.reachable.sound hundisturbed hperform
      rw [hnone, List.append_nil]
      exact ⟨hsources.trans hsame.symm, hspent.trans hused⟩
    cases action with
    | addInterrupt i =>
      obtain ⟨r, sources, added, hadd⟩ := addInterrupt_determined host i s.sources
      have hu : u = (addInterrupt w.host i s).2 := by
        cases hperform
        rfl
      rw [hu, hhost, hadd s rfl, Action.interrupts, addInterrupts_concat, hadd _ hsources]
      exact ⟨rfl, hspent.append added⟩
    | _ => exact hplay rfl rfl

/-! ## Choices that are offered once -/

/-- Whatever is asked of a story whose pending choices are a queue, they stay one. -/
theorem queue_of_performAll {w : World} {actions : List Action} {answers : List Answer}
    (h : ∃ interposed offered, s.Queue interposed offered)
    (hrun : performAll w actions s = some (answers, t)) :
    (∃ interposed offered, t.Queue interposed offered) ∧ s.Later t := by
  induction actions generalizing s answers with
  | nil =>
    cases hrun
    exact ⟨h, .refl _, fun _ => Nat.le_refl _⟩
  | cons action rest ih =>
    obtain ⟨answer, u, hfirst, hrest⟩ := Run.bind_eq_some.1 hrun
    obtain ⟨answers', v, hrest', hend⟩ := Run.bind_eq_some.1 hrest
    cases hend
    have hlater := later_of_perform ((kept_queue anywhere).sound h) hfirst
    obtain ⟨hqueue, hlater'⟩ :=
      ih ((kept_queue anywhere).perform h (led_anywhere w action s) hfirst) hrest'
    exact ⟨hqueue, hlater.trans hlater'⟩

/-- A choice that is offered once and was visited is not pending again until its counter starts
again. -/
theorem not_pending_of_visited {w : World} {actions : List Action} {answers : List Answer}
    {i : NodeId} {conditions : List String} (h : ∃ interposed offered, s.Queue interposed offered)
    (hkind : (s.node i).kind = .choice false conditions) (hvisited : 0 < (s.memory.mark i).visits)
    (hrun : performAll w actions s = some (answers, t))
    (hrange : (t.memory.mark i).visits < Mark.counterRange) : i ∉ t.choices := by
  intro hpending
  obtain ⟨⟨_, _, hqueue⟩, hlater⟩ := queue_of_performAll h hrun
  have hkind' : (t.node i).kind = .choice false conditions := by
    rw [node, hlater.extends_content.node_eq (Content.lt_size_of_kind hkind (by simp))]
    exact hkind
  have hnever := hqueue.fresh hpending conditions hkind'
  rw [Mark.count_eq_visits hrange] at hnever
  exact absurd (hlater.visits_le i) (by rw [hnever]; exact Nat.not_le.2 hvisited)

/-- The pending choices are a queue also with interrupts that are not used up, and with other dice. -/
theorem Queue.renewed {interposed offered : List NodeId} (h : s.Queue interposed offered)
    (hspent : Spent is s.interrupts) (d : Dice) :
    Queue { s with interrupts := is, memory := { s.memory with dice := d } } interposed offered where
  sound := ⟨h.sound.content, h.sound.container, h.sound.choices, h.sound.comments,
    h.sound.memory.of_marks rfl⟩
  choices_eq := h.choices_eq
  halted := h.halted
  interposed := fun hi => by
    obtain ⟨id, hid, hfind⟩ := h.interposed hi
    refine ⟨id, ?_, hfind⟩
    rw [overlays, hspent.overlays_eq] at hid
    exact hid
  nodup := h.nodup
  fresh := h.fresh
  distinct := h.distinct
  ordered := h.ordered
  before := h.before

end Story

end Narrative
