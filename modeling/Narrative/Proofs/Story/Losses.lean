import Narrative.Proofs.Story.Advancing
import Narrative.Proofs.Story.Reachable

/-!
# Words that are lost

Where a node fails while a story is advanced, the nodes before it have been played, and the cursor
is behind them. The error is all that is answered: their texts are not recorded, and play goes on at
the node that has failed. So a course of play tells the words of all nodes that were played just if
no call that failed had come to a word.
-/

namespace Narrative

open Text (words unglued)

/-- The words of some nodes that were played. -/
def wordsPlayed (visits : List Visit) : List (List Char) :=
  visits.flatMap fun v => words (unglued v.fragment)

namespace Answer

/-- Whether a unit of text was told. -/
def isTold : Answer → Bool
  | text (.ok _) => true
  | _ => false

/-- Whether a unit of text has failed. -/
def isLost : Answer → Bool
  | text (.error _) => true
  | _ => false

/-- The words of the text that was told. -/
def words : Answer → List (List Char)
  | .text (.ok told) => Text.words told.toList
  | _ => []

end Answer

namespace Story

variable {w : World} {s t u : Story} {actions : List Action} {answers : List Answer}

/-- The words that have been recorded. -/
def recorded (s : Story) : List (List Char) :=
  s.transcript.flatMap fun text => words text.toList

/-- The words of the nodes that are played in a course of play, for the actions whose answers
count. -/
def wordsOf (w : World) (counts : Answer → Bool) : List Action → Story → List (List Char)
  | [], _ => []
  | action :: rest, s =>
    match perform w action s with
    | none => []
    | some (answer, t) =>
      (if counts answer then wordsPlayed (visits w s) else []) ++ wordsOf w counts rest t

/-- The words that come to be told. -/
abbrev told (w : World) : List Action → Story → List (List Char) :=
  wordsOf w Answer.isTold

/-- The words that the calls which failed had come to. -/
abbrev lost (w : World) : List Action → Story → List (List Char) :=
  wordsOf w Answer.isLost

/-- The words of all nodes that are played. -/
abbrev resolved (w : World) : List Action → Story → List (List Char) :=
  wordsOf w fun answer => answer.isTold || answer.isLost

/-! ## A call that fails -/

/-- Where a unit fails, the last of its nodes does, and the cursor stays there. All others have been
played. -/
theorem last_of_playUnit_error {steps : Nat} {backwards : List Char} {e : StoryError}
    (hmore : s.hasMore = true) (h : playUnit w steps backwards s = some (.error e, t)) :
    ∃ i u, (turnsWithin w steps backwards s).getLast? = some (i, u) ∧
      playNode w i u = some (.error e, t) ∧ u.Thinks t ∧
      (visitsWithin w steps backwards s).map (·.node) =
        (turnsWithin w steps backwards s).dropLast.map (·.1) := by
  induction steps generalizing s backwards with
  | zero => cases h
  | succ steps ih =>
    obtain ⟨i, hi, hcurrent⟩ := current?_of_hasMore hmore
    rw [turnsWithin, visitsWithin]
    simp only [hcurrent]
    obtain ⟨e', he, hfails⟩ | ⟨fragment, u, hplayed, hrest⟩ := playUnit_succ hcurrent h
    · cases he
      simp only [hfails]
      obtain ⟨_, -, hthinks⟩ | ⟨_, herror, -⟩ | ⟨_, _, herror, -⟩ :=
        playNode_anywhere hmore hi hfails
      · exact ⟨i, s, rfl, hfails, hthinks, rfl⟩
      · cases herror
      · cases herror
    · simp only [hplayed]
      obtain ⟨hon, hrest⟩ | ⟨-, herror, -⟩ := hrest
      · rw [if_pos hon, if_pos hon]
        obtain ⟨j, v, hlast, hfails, hthinks, hnodes⟩ := ih (hasMore_of_goesOn hon) hrest
        have hne : turnsWithin w steps (fragment.reverse ++ backwards) u ≠ [] := by
          intro hnil
          rw [hnil] at hlast
          cases hlast
        refine ⟨j, v, ?_, hfails, hthinks, ?_⟩
        · rw [List.getLast?_cons, hlast]
          rfl
        · rw [List.dropLast_cons_of_ne_nil hne, List.map_cons, List.map_cons, hnodes]
      · cases herror

/-- An advance that fails shows nothing, and stops at the node that fails. -/
theorem advance_fails {e : StoryError} (hmore : s.hasMore = true)
    (h : advance w s = some (.error e, t)) :
    t.transcript = s.transcript ∧ ∃ i u, (turns w s).getLast? = some (i, u) ∧
      playNode w i u = some (.error e, t) ∧ t.container = u.container ∧ t.index = u.index ∧
      (visits w s).map (·.node) = (turns w s).dropLast.map (·.1) := by
  obtain ⟨hnone, -⟩ | ⟨-, ⟨e', he, hunit⟩ | ⟨_, _, _, -, -, hok, -⟩⟩ := advance_eq_some h
  · rw [hmore] at hnone
    cases hnone
  · cases he
    have hmoves : s.Moves anywhere t := plays_playUnit hmore (fun _ _ _ _ => trivial) _ _ hunit
    obtain ⟨i, u, hlast, hfails, hthinks, hnodes⟩ := last_of_playUnit_error hmore hunit
    rw [turns, visits, if_pos hmore, if_pos hmore]
    refine ⟨hmoves.steady.transcript, i, u, hlast, hfails, ?_, ?_, hnodes⟩
    · rw [hthinks.eq]
    · rw [hthinks.eq]
  · cases hok

/-! ## A course of play -/

/-- What is recorded depends on the transcript only. -/
theorem recorded_congr (h : t.transcript = s.transcript) : t.recorded = s.recorded := by
  rw [recorded, recorded, h]

/-- A unit of text that is told has the words of its nodes, and they are recorded. -/
theorem recorded_of_advance {text : String} (h : advance w s = some (.ok text, t)) :
    words text.toList = wordsPlayed (visits w s) ∧
      t.recorded = s.recorded ++ words text.toList := by
  obtain ⟨-, -, hwords, htranscript⟩ := told_of_advance h
  refine ⟨hwords, ?_⟩
  rw [recorded, htranscript]
  split
  · next hempty =>
    subst hempty
    exact (List.append_nil _).symm
  · rw [List.flatMap_append, List.flatMap_singleton]
    rfl

/-- Where a unit of text fails nothing is recorded. -/
theorem recorded_of_error {e : StoryError} (h : advance w s = some (.error e, t)) :
    t.recorded = s.recorded := by
  cases hmore : s.hasMore with
  | true => exact recorded_congr (advance_fails hmore h).1
  | false =>
    obtain ⟨-, -, rfl⟩ | ⟨hmore', -⟩ := advance_eq_some h
    · rfl
    · rw [hmore] at hmore'
      cases hmore'

/-- What is told is what is recorded. -/
theorem recorded_of_perform {action : Action} {answer : Answer}
    (h : perform w action s = some (answer, t)) :
    t.recorded = s.recorded ++ answer.words ∧
      answer.words = if answer.isTold then wordsPlayed (visits w s) else [] := by
  have hquiet {answer : Answer} (hanswer : ∀ r, answer ≠ .text r)
      (hsame : t.transcript = s.transcript) : t.recorded = s.recorded ++ answer.words ∧
        answer.words = if answer.isTold then wordsPlayed (visits w s) else [] := by
    cases answer with
    | text r => exact absurd rfl (hanswer r)
    | _ => exact ⟨(recorded_congr hsame).trans (List.append_nil _).symm, rfl⟩
  obtain ⟨r, -, rfl, hadvance⟩ | ⟨index, r, -, rfl, hchoose⟩ | ⟨i, r, -, rfl, hadd⟩ |
    ⟨hthinks, -, hanswer⟩ := perform_eq_some h
  · cases r with
    | error e => exact ⟨(recorded_of_error hadvance).trans (List.append_nil _).symm, rfl⟩
    | ok text =>
      obtain ⟨hwords, hrecorded⟩ := recorded_of_advance hadvance
      exact ⟨hrecorded, hwords⟩
  · have hmoves : s.Moves anywhere t := plays_choose (fun _ _ => trivial) _ _ hchoose
    exact hquiet nofun hmoves.steady.transcript
  · exact hquiet nofun (by rw [addInterrupt_eq hadd])
  · exact hquiet hanswer (by rw [hthinks.eq])

/-- What is told in a course of play is what is recorded in it. -/
theorem recorded_of_performAll (h : performAll w actions s = some (answers, t)) :
    t.recorded = s.recorded ++ told w actions s ∧
      answers.flatMap Answer.words = told w actions s := by
  induction actions generalizing s answers with
  | nil =>
    cases h
    exact ⟨(List.append_nil _).symm, rfl⟩
  | cons action rest ih =>
    obtain ⟨answer, u, hfirst, hrest⟩ := Run.bind_eq_some.1 h
    obtain ⟨answers', v, hrest', hend⟩ := Run.bind_eq_some.1 hrest
    cases hend
    obtain ⟨hrecorded, hwords⟩ := recorded_of_perform hfirst
    obtain ⟨hlater, hanswers⟩ := ih hrest'
    rw [told, wordsOf]
    simp only [hfirst]
    rw [← hwords, hlater, hrecorded, List.append_assoc, List.flatMap_cons, hanswers]
    exact ⟨rfl, rfl⟩

/-- The words that come to be told stand among all words in their order, and the others are lost. -/
theorem told_sublist (w : World) (actions : List Action) (s : Story) :
    (told w actions s).Sublist (resolved w actions s) ∧
      (resolved w actions s).length = (told w actions s).length + (lost w actions s).length := by
  induction actions generalizing s with
  | nil => exact ⟨.slnil, rfl⟩
  | cons action rest ih =>
    rw [told, lost, resolved, wordsOf, wordsOf, wordsOf]
    cases hperform : perform w action s with
    | none => exact ⟨.slnil, rfl⟩
    | some r =>
      obtain ⟨answer, t⟩ := r
      obtain ⟨hsublist, hlength⟩ := ih t
      have hquiet : (([] : List (List Char)) ++ told w rest t).Sublist ([] ++ resolved w rest t) ∧
          ([] ++ resolved w rest t).length =
            ([] ++ told w rest t).length + ([] ++ lost w rest t).length := ⟨hsublist, hlength⟩
      cases answer with
      | text r =>
        cases r with
        | ok text =>
          refine ⟨hsublist.append_left _, ?_⟩
          change (wordsPlayed (visits w s) ++ resolved w rest t).length =
            (wordsPlayed (visits w s) ++ told w rest t).length + ([] ++ lost w rest t).length
          rw [List.length_append, List.length_append, hlength, Nat.add_assoc]
          rfl
        | error e =>
          refine ⟨hsublist.trans (List.sublist_append_right _ _), ?_⟩
          change (wordsPlayed (visits w s) ++ resolved w rest t).length =
            ([] ++ told w rest t).length + (wordsPlayed (visits w s) ++ lost w rest t).length
          rw [List.nil_append, List.length_append, List.length_append, hlength, Nat.add_left_comm]
      | _ => exact hquiet

/-- A course of play records the words of the units of text that are told, and these are what is
answered. Those are the words of all nodes that were played just if no call that failed had come to
a word: a call that fails records nothing, and the cursor stays at the node that has failed, behind
all others that were played. -/
theorem tells_all_iff (h : performAll w actions s = some (answers, t)) :
    t.recorded = s.recorded ++ told w actions s ∧
    answers.flatMap Answer.words = told w actions s ∧
    (t.recorded = s.recorded ++ resolved w actions s ↔ lost w actions s = []) ∧
    ∀ e u, s.hasMore = true → advance w s = some (.error e, u) →
      u.transcript = s.transcript ∧ ∃ i v, (turns w s).getLast? = some (i, v) ∧
        playNode w i v = some (.error e, u) ∧ u.container = v.container ∧ u.index = v.index ∧
        (visits w s).map (·.node) = (turns w s).dropLast.map (·.1) := by
  obtain ⟨hrecorded, hanswers⟩ := recorded_of_performAll h
  obtain ⟨hsublist, hlength⟩ := told_sublist w actions s
  refine ⟨hrecorded, hanswers, ?_, fun e u hmore hfails => advance_fails hmore hfails⟩
  rw [hrecorded, List.append_cancel_left_eq]
  constructor
  · intro hsame
    rw [hsame, Nat.left_eq_add] at hlength
    exact List.eq_nil_of_length_eq_zero hlength
  · intro hnone
    rw [hnone, List.length_nil, Nat.add_zero] at hlength
    exact hsublist.eq_of_length hlength.symm

/-- What a host does that declares a variable after a unit of text has failed. -/
def ghostActions : List Action :=
  [.advance, .setVariable "ghost" (.int 0), .advance]

/-- A world in which an assignment to a variable comes before the first text. -/
def emptyHouseWorld : World :=
  ⟨.ofSources (.ofList [("main", "== start\n~ ghost = 3\nNobody.\n")]) fun _ => "", 4, 40⟩

/-- There the first call fails, and no word is lost. -/
theorem tells_all_emptyHouse : ∃ (s t : Story) (answers : List Answer),
    Reachable emptyHouseWorld.host "main" (fun _ => True) s ∧
    performAll emptyHouseWorld ghostActions s = some (answers, t) ∧
    answers.map Answer.isLost = [true, false, false] ∧
    t.recorded = s.recorded ++ resolved emptyHouseWorld ghostActions s ∧
    t.recorded = ["Nobody.".toList] := by
  have hplayed : (played? emptyHouseWorld "main" 0 []).any (fun s =>
      (performAll emptyHouseWorld ghostActions s).any (fun r =>
        r.1.map Answer.isLost = [true, false, false] ∧
        lost emptyHouseWorld ghostActions s = [] ∧ r.2.recorded = ["Nobody.".toList]) = true) =
      true := by
    decide +kernel
  obtain ⟨s, hs, hplays⟩ := (Option.any_eq_true _ _).1 hplayed
  obtain ⟨⟨answers, t⟩, hrun, hresult⟩ := (Option.any_eq_true _ _).1 (of_decide_eq_true hplays)
  obtain ⟨hfails, hnone, hrecorded⟩ := of_decide_eq_true hresult
  have hreached : Reachable emptyHouseWorld.host "main" (fun _ => True) s :=
    reachable_of_played? (fun _ _ => trivial) hs
  obtain ⟨-, -, hall, -⟩ := tells_all_iff hrun
  exact ⟨s, t, answers, hreached, hrun, hfails, hall.2 hnone, hrecorded⟩

/-- A world in which a text goes on behind such an assignment. -/
def hauntedWorld : World :=
  ⟨.ofSources (.ofList [("main", "== start\nHello <>\n~ ghost = 3\nMore.\n")]) fun _ => "", 4, 40⟩

/-- There the first word has been resolved when the first call fails, and it is never told. -/
theorem lost_haunted : ¬ ∀ (w : World) (main : String) (s t : Story) (actions : List Action)
    (answers : List Answer), Reachable w.host main (fun _ => True) s →
      performAll w actions s = some (answers, t) →
      t.recorded = s.recorded ++ resolved w actions s := by
  intro htells
  have hplayed : (played? hauntedWorld "main" 0 []).any (fun s =>
      (performAll hauntedWorld ghostActions s).any (fun r =>
        r.2.recorded ≠ s.recorded ++ resolved hauntedWorld ghostActions s) = true) = true := by
    decide +kernel
  obtain ⟨s, hs, hplays⟩ := (Option.any_eq_true _ _).1 hplayed
  obtain ⟨⟨answers, t⟩, hrun, hother⟩ := (Option.any_eq_true _ _).1 (of_decide_eq_true hplays)
  have hreached : Reachable hauntedWorld.host "main" (fun _ => True) s :=
    reachable_of_played? (fun _ _ => trivial) hs
  exact of_decide_eq_true hother
    (htells hauntedWorld "main" s t ghostActions answers hreached hrun)

end Story

end Narrative
