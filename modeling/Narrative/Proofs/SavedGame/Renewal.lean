import Narrative.Proofs.SavedGame.Lossless
import Narrative.Proofs.SavedGame.Misfits
import Narrative.Proofs.Story.Overlays

/-!
# Saving with interrupts

A saved game knows the choices of interrupts, but not the interrupts. A story to which the host has
added them again takes the saved game and is at the same point of play, but there all interrupts are
as they were added: those that were used up before can fire again. A story to which they were not
added takes the saved game only if it knows the container and the pending choices.
-/

namespace Narrative.Story

open HasDice Interrupt

variable {host : Host} {main : String} {is : List Interrupt} {s t : Story}

/-- Whether the container and the pending choices of a story are known under their ids. -/
structure Recognized (s : Story) (c : Content) : Prop where
  /-- The container is known. -/
  container {i : NodeId} : s.container = some i → (c.find? (s.node i).id).isSome = true
  /-- The pending choices are known, and choices. -/
  choices {i : NodeId} :
    i ∈ s.choices → ∃ j, c.find? (s.node i).id = some j ∧ (c.node j).isChoice = true

/-- What is saved of a story whose values can be restored fits where its container and its pending
choices are known. -/
theorem fits_save_iff (hvalues : s.Restorable host) (c : Content) :
    Fits host c s.save ↔ s.Recognized c := by
  refine ⟨fun h => ⟨fun {i} hi => ?_, fun {i} hi => ?_⟩,
    fun h => ⟨fun {id saved e} hmem _ => ?_, fun {id} hid => ?_, fun {id} hid => ?_, fun {e} => ?_⟩⟩
  · exact h.container (congrArg (Option.map _) hi)
  · exact h.choices (List.mem_map_of_mem hi)
  · obtain ⟨i, hi, heq⟩ := savedNode_of_mem hmem
    cases heq
    exact not_lacking_of_restoredValues (restoredValues_params hvalues hi)
  · obtain ⟨i, hi, rfl⟩ := Option.map_eq_some_iff.1 hid
    exact h.container hi
  · obtain ⟨i, hi, rfl⟩ := List.mem_map.1 hid
    exact h.choices hi
  · exact not_lacking_of_restoredValues (restoredValues_globals hvalues)

/-- A story that was saved, and restored into another one of the same origin that was asked to add
the same interrupts, is there at the same point of play. Its interrupts are as they were added, also
those that the saved story had used up, and it goes on as the saved story would with these. Still a
choice that is offered once is not pending again after it was visited, until its counter starts
again. Any other story takes the saved game if and only if it can read the files and recognizes the
container and the pending choices then. -/
theorem restore_save_overlaid (hs : Overlaid host main is s)
    (ht : Reachable host main (·.isUndisturbed = true) t) (hvalues : s.Restorable host) :
    (∃ u, restore host s.save (addInterrupts host is t) = (.ok (), u) ∧
      u.sources = s.sources ∧ u.SamePlay s ∧
      u.interrupts = (addInterrupts host is t).interrupts ∧ Spent u.interrupts s.interrupts ∧
      (∀ (w : World) (actions : List Action), (∀ a ∈ actions, a.isUndisturbed = true) →
        FollowedBy w actions { s with interrupts := u.interrupts } u ∧
          FollowedBy w actions u { s with interrupts := u.interrupts }) ∧
      ∀ w actions answers v i conditions, performAll w actions u = some (answers, v) →
        (s.node i).kind = .choice false conditions → 0 < (s.memory.mark i).visits →
        (v.memory.mark i).visits < Mark.counterRange → i ∉ v.choices) ∧
    ∀ other, (∃ u, restore host s.save other = (.ok (), u)) ↔
      ∃ x, requireFiles host s.sources.files other = (.ok (), x) ∧ s.Recognized x.content := by
  have hsound := hs.reachable.sound
  obtain ⟨hsources, hspent⟩ := hs.readded ht
  generalize addInterrupts host is t = fresh at hsources hspent ⊢
  refine ⟨?_, fun other => restores_iff.trans ?_⟩
  · have hextends : fresh.content.Extends s.content := by
      rw [content, hsources]
      exact .refl _
    have hrestore := restore_save_extended hsound hextends
      (by rw [hsources]; exact List.Subset.refl _) hvalues
    refine ⟨_, hrestore, hsources, ?_, rfl, hspent, fun w actions hactions => ?_, ?_⟩
    · exact ⟨rfl, rfl, rfl, rfl, rfl, rfl, rfl, rfl, rfl, fun _ => rfl, fun _ => rfl, fun _ => rfl⟩
    · rw [hsources]
      -- the two stories differ in their dice only
      exact ⟨followedBy_withDice w hactions fresh.memory.dice _,
        followedBy_withDice w hactions s.memory.dice _⟩
    · intro w actions answers v i conditions hrun hkind hvisited hrange
      rw [hsources] at hrun
      obtain ⟨_, _, hqueue⟩ := hs.reachable.queue
      have hqueue' := hqueue.renewed hspent fresh.memory.dice
      exact not_pending_of_visited ⟨_, _, hqueue'⟩ hkind hvisited hrun hrange
  · exact exists_congr fun x => and_congr_right fun _ => fits_save_iff hvalues x.content

/-! ## A voyage with a storm -/

/-- A host with a source of a voyage to a harbour. -/
def harbourHost : Host :=
  .ofSources (.ofList [("main", "== start\nOff.\n-> harbour\n== harbour\nWe dock.\n" ++
    "+ [Again] -> harbour\n== wreck\nWe sink.\n+ [Again] -> harbour\n")]) fun _ => ""

/-- A world with that host. -/
def harbourWorld : World := ⟨harbourHost, 4, 40⟩

/-- An interrupt that redirects a divert. -/
def storm : Interrupt :=
  { id := "storm", kind := .divert, text := redirection "harbour" "wreck" }

/-- An interrupt that offers a choice. -/
def swim : Interrupt :=
  { id := "swim", kind := .choice, text := "* [Swim] Cold." }

/-- Both are added, the first is used up on the way, and the choice of the second is offered. -/
def voyage : List Action :=
  [.addInterrupt storm, .addInterrupt swim, .advance, .advance]

/-- The voyage is saved in the storm and restored into a story in which both interrupts were added
again. -/
theorem restore_save_overlaid_voyage : ∃ s t : Story,
    Overlaid harbourHost "main" [storm, swim] s ∧
    Reachable harbourHost "main" (·.isUndisturbed = true) t ∧ s.Restorable harbourHost ∧
    s.interrupts = [storm.finish, swim] ∧ s.ids s.choices = ["swim", "wreck.1"] ∧
    (∃ u, restore harbourHost s.save (addInterrupts harbourHost [storm, swim] t) = (.ok (), u) ∧
      u.sources = s.sources ∧ u.SamePlay s ∧
      u.interrupts = (addInterrupts harbourHost [storm, swim] t).interrupts ∧
      Spent u.interrupts s.interrupts ∧
      (∀ (w : World) (actions : List Action), (∀ a ∈ actions, a.isUndisturbed = true) →
        FollowedBy w actions { s with interrupts := u.interrupts } u ∧
          FollowedBy w actions u { s with interrupts := u.interrupts }) ∧
      ∀ w actions answers v i conditions, performAll w actions u = some (answers, v) →
        (s.node i).kind = .choice false conditions → 0 < (s.memory.mark i).visits →
        (v.memory.mark i).visits < Mark.counterRange → i ∉ v.choices) ∧
    ∀ other, (∃ u, restore harbourHost s.save other = (.ok (), u)) ↔
      ∃ x, requireFiles harbourHost s.sources.files other = (.ok (), x) ∧
        s.Recognized x.content := by
  have hplayed : (played? harbourWorld "main" 0 voyage).any (fun s =>
      s.Restorable harbourHost ∧ s.interrupts = [storm.finish, swim] ∧
      s.ids s.choices = ["swim", "wreck.1"]) = true := by
    decide +kernel
  have hloaded : (played? harbourWorld "main" 7 []).isSome = true := by
    decide +kernel
  obtain ⟨s, hs, hplayed⟩ := (Option.any_eq_true _ _).1 hplayed
  obtain ⟨hvalues, hinterrupts, hchoices⟩ := of_decide_eq_true hplayed
  obtain ⟨t, ht⟩ := Option.isSome_iff_exists.1 hloaded
  have hoverlaid : Overlaid harbourHost "main" [storm, swim] s := overlaid_of_played? hs
  have hreached : Reachable harbourWorld.host "main" (·.isUndisturbed = true) t :=
    reachable_of_played? (List.forall_mem_nil _) ht
  exact ⟨s, t, hoverlaid, hreached, hvalues, hinterrupts, hchoices,
    restore_save_overlaid hoverlaid hreached hvalues⟩

/-- The storm that is over in the saved story comes up again in the restored one, and without the
interrupt whose choice is pending the saved game is refused. -/
theorem restored_interrupt_fires_again : ∃ s t u : Story,
    played? harbourWorld "main" 0 voyage = some s ∧ played? harbourWorld "main" 7 [] = some t ∧
    restore harbourHost s.save (addInterrupts harbourHost [storm, swim] t) = (.ok (), u) ∧
    s.interrupts = [storm.finish, swim] ∧ u.interrupts = [storm, swim] ∧
    (performAll harbourWorld [.choose 1, .advance] s).map (·.2.transcript) =
      some ["Off.", "We sink.", "We dock."] ∧
    (performAll harbourWorld [.choose 1, .advance] u).map (·.2.transcript) =
      some ["Off.", "We sink.", "We sink."] ∧
    (restore harbourHost s.save t).1 = .error (.unknownContainer "swim") := by
  have hplayed : (played? harbourWorld "main" 0 voyage).any (fun s =>
      (played? harbourWorld "main" 7 []).any fun t =>
        (restore harbourHost s.save (addInterrupts harbourHost [storm, swim] t)).1 = .ok () ∧
        s.interrupts = [storm.finish, swim] ∧
        (restore harbourHost s.save (addInterrupts harbourHost [storm, swim] t)).2.interrupts =
          [storm, swim] ∧
        (performAll harbourWorld [.choose 1, .advance] s).map (·.2.transcript) =
          some ["Off.", "We sink.", "We dock."] ∧
        (performAll harbourWorld [.choose 1, .advance]
            (restore harbourHost s.save (addInterrupts harbourHost [storm, swim] t)).2).map
            (·.2.transcript) = some ["Off.", "We sink.", "We sink."] ∧
        (restore harbourHost s.save t).1 = .error (.unknownContainer "swim")) = true := by
    decide +kernel
  obtain ⟨s, hs, hloaded⟩ := (Option.any_eq_true _ _).1 hplayed
  obtain ⟨t, ht, hloaded⟩ := (Option.any_eq_true _ _).1 hloaded
  obtain ⟨hok, hspent, hrenewed, hdock, hsink, hrefused⟩ := of_decide_eq_true hloaded
  exact ⟨s, t, _, hs, ht, Prod.ext hok rfl, hspent, hrenewed, hdock, hsink, hrefused⟩

end Narrative.Story
