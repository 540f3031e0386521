import Narrative.Proofs.SavedGame.Restoring
import Narrative.Proofs.Story.Chance

/-!
# Saving loses nothing

A story that is saved and restored into another story of the same sources is where it was, and plays
on as if it had never been saved, until it draws a random number.
-/

namespace Narrative.Story

open HasDice

/-- Two stories are at the same point of play. -/
structure SamePlay (s t : Story) : Prop where
  /-- The same container is being played. -/
  container : s.container = t.container
  /-- The same position in it is next. -/
  index : s.index = t.index
  /-- The same choices are pending in the same order. -/
  choices : s.choices = t.choices
  /-- The same comments were collected. -/
  comments : s.comments = t.comments
  /-- The same texts were shown. -/
  transcript : s.transcript = t.transcript
  /-- The same background picture is shown. -/
  background : s.background = t.background
  /-- Both or neither were diverted to the end. -/
  running : s.running = t.running
  /-- Both or neither wait for a choice. -/
  processing : s.processing = t.processing
  /-- The global variables have the same values. -/
  globals : s.memory.globals = t.memory.globals
  /-- Every node was visited as often. -/
  visits (i : NodeId) : (s.memory.mark i).visits = (t.memory.mark i).visits
  /-- Every block has the same option chosen. -/
  selection (i : NodeId) : (s.memory.mark i).selection = (t.memory.mark i).selection
  /-- Every section has the same parameters. -/
  scope (i : NodeId) : (s.memory.mark i).scope = (t.memory.mark i).scope

/-- Whatever a story answers to some actions without drawing a number, another one answers too, and
it ends at the same point. -/
def FollowedBy (w : World) (actions : List Action) (s t : Story) : Prop :=
  ∀ answers s', performAll w actions s = some (answers, s') →
    s'.memory.dice.drawn = s.memory.dice.drawn →
    ∃ t', performAll w actions t = some (answers, t') ∧ t'.SamePlay s'

/-- Stories that differ in their dice only are at the same point of play. -/
theorem samePlay_withDice (d : Dice) (s : Story) : (withDice d s).SamePlay s :=
  ⟨rfl, rfl, rfl, rfl, rfl, rfl, rfl, rfl, rfl, fun _ => rfl, fun _ => rfl, fun _ => rfl⟩

/-- A story with other dice is followed by the same, while no number is drawn. -/
theorem followedBy_withDice (w : World) {actions : List Action}
    (h : ∀ a ∈ actions, a.isUndisturbed = true) (d : Dice) (s : Story) :
    s.FollowedBy w actions (withDice d s) := by
  intro answers s' hrun hdrawn
  obtain ⟨-, hsame⟩ := blind_performAll w h s answers s' hrun
  obtain ⟨-, hcourse⟩ := hsame hdrawn
  exact ⟨withDice d s', hcourse d, samePlay_withDice d s'⟩

/-- A host with one source. -/
def tramHost : Host :=
  .ofSources (.ofList [("tram",
    "== stop\nVAR fare = 2.5\nA tram stops.\n* [Ride] You pay.\n* [Walk]\n")]) fun _ => ""

/-- A world with that host. -/
def tramWorld : World := ⟨tramHost, 4, 40⟩

/-- The story of the tram, loaded from a seed and asked for some actions. -/
def tramStory? (seed : Nat) (actions : List Action) : Option Story := do
  let s ← (← load tramWorld "tram" seed).toOption
  return (← performAll tramWorld actions s).2

/-- The story of the tram is reachable. -/
theorem reachable_tramStory {seed : Nat} {actions : List Action} {s : Story}
    (hactions : ∀ a ∈ actions, a.isUndisturbed = true) (h : tramStory? seed actions = some s) :
    Reachable tramHost "tram" (·.isUndisturbed = true) s := by
  obtain ⟨r, hload, hrest⟩ := Option.bind_eq_some_iff.1 h
  obtain ⟨s₀, hok, hrest⟩ := Option.bind_eq_some_iff.1 hrest
  obtain ⟨⟨answers, t⟩, hrun, hend⟩ := Option.bind_eq_some_iff.1 hrest
  cases hend
  cases r with
  | error e => cases hok
  | ok s₁ =>
    cases hok
    exact (Reachable.load rfl hload).performAll rfl hactions hrun

end Narrative.Story
