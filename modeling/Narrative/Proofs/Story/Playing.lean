import Narrative.Proofs.Story.Moves
import Narrative.Proofs.Story.Visits

/-!
# Playing by moves

Every computation of play is a chain of moves: a divert is taken, a node is played, a unit of text
is played node by node, a choice is taken. A node that is played ends in one of three ways: with an
error and the cursor where it was, at the end of the story, or with the cursor brought to rest.
-/

namespace Narrative

open Relation

/-- A divert leads to a node of the content. -/
theorem Stage.lt_size_of_target? {s : Stage} {m : Memory} {name : String} {i : NodeId}
    (h : s.target? m name = some i) : i < s.content.size := by
  have hid {id : String} {j : NodeId} (hj : s.content.find? id = some j) : j < s.content.size :=
    (Content.find?_eq_some hj).1
  simp only [Stage.target?, Option.orElse_eq_orElse, Option.orElse_eq_or,
    Option.or_eq_some_iff] at h
  obtain h | ⟨_, h | ⟨_, h | ⟨_, h⟩⟩⟩ := h
  · exact hid (Option.filter_eq_some_iff.1 h).1
  · obtain ⟨j, _, hj⟩ := List.exists_of_findSome?_eq_some h
    exact hid (Option.filter_eq_some_iff.1 hj).1
  · exact Content.lt_size_of_findByLabel? h
  · split at h
    · exact hid h
    · cases h

namespace Story

variable {leads : Route} {w : World}

/-! ## Diverts -/

/-- Looking for an interrupt that redirects a divert consists of thoughts. -/
theorem plays_redirectBy (w : World) (target : List Char) (position : Nat)
    (interrupts : List Interrupt) (s : Story) :
    Plays Thought (redirectBy w target position interrupts) s := by
  induction interrupts generalizing position s with
  | nil => exact plays_pure _
  | cons i rest ih =>
    unfold redirectBy
    split
    · next origin destination _ =>
      refine (plays_fires w i _ s).bind fun fired t _ => ?_
      cases fired with
      | true => exact (plays_modify (.fire position i)).bind fun _ _ _ => plays_pure _
      | false => exact ih _ t
    · exact ih _ s

/-- Evaluating the arguments of a divert consists of thoughts. -/
theorem plays_evaluateArguments (w : World) (line : Nat) (args : List (List Char)) (s : Story) :
    PlaysAttempt Thought (evaluateArguments w line args) s := by
  induction args generalizing s with
  | nil => exact plays_attempt_pure _
  | cons arg rest ih =>
    refine plays_attempt_bind (plays_lift (plays_evaluate w _ s)) fun r t _ => ?_
    cases r with
    | ok v => exact plays_attempt_bind (ih t) fun _ _ _ => plays_attempt_pure _
    | error e => exact plays_throw _

/-- Finding out where a divert leads leaves the cursor. -/
theorem plays_takeDivert (w : World) (n : Node) (s : Story) :
    PlaysAttempt Thought (takeDivert w n) s := by
  unfold takeDivert
  simp only
  split
  · exact plays_attempt_pure _
  · refine plays_attempt_get ?_
    refine plays_attempt_bind (plays_lift (plays_redirectBy w _ 0 s.interrupts s)) ?_
    intro name t _
    split
    · exact plays_attempt_pure _
    · refine plays_attempt_get ?_
      split
      · exact plays_throw _
      · exact plays_attempt_bind (plays_evaluateArguments w _ _ t) fun _ _ _ =>
          plays_attempt_pure _

/-- A knot that begins with a stitch is entered at a node. -/
theorem lt_size_of_descend {s : Story} {i : Nat} (hi : i < s.content.size) :
    s.descend i < s.content.size := by
  unfold descend
  split
  · split
    · split
      · next hstitch => exact Content.lt_size (p := Node.isStitch) rfl hstitch
      · exact hi
    · exact hi
  · exact hi

/-- A divert leads to a node. -/
theorem lt_size_of_takeDivert {n : Node} {s t : Story} {i : NodeId} {args : List Value}
    (h : takeDivert w n s = some (.ok (some (i, args)), t)) : i < t.content.size := by
  unfold takeDivert at h
  simp only at h
  split at h
  · cases h
  · rw [Attempt.get_bind_apply] at h
    obtain ⟨name, u, _, h⟩ := Attempt.bind_eq_ok.1 h
    split at h
    · cases h
    · rw [Attempt.get_bind_apply] at h
      cases htarget : (u.stage w.host).target? u.memory (String.ofList name) with
      | none =>
        simp only [htarget] at h
        cases h
      | some j =>
        simp only [htarget] at h
        obtain ⟨args', v, hargs, hrest⟩ := Attempt.bind_eq_ok.1 h
        cases hrest
        rw [Thinks.content_eq (plays_evaluateArguments w _ _ u _ _ hargs)]
        exact lt_size_of_descend (Stage.lt_size_of_target? htarget)

/-- What is no block is entered without a choice of options. -/
theorem enter_of_not_block {i : NodeId} {s : Story} (h : (s.node i).isBlock = false) :
    enter w i s = some ((), s.moveInto i) := by
  have hselect (ctx : Context Memory) (m : Memory) :
      (s.stage w.host).selectOption ctx i m = some ((), m) := by
    unfold Stage.selectOption
    cases hkind : ((s.stage w.host).content.node i).kind with
    | block mode options =>
      have hblock : (s.node i).isBlock = true := by
        change ((s.stage w.host).content.node i).isBlock = true
        rw [Node.isBlock, hkind]
      rw [hblock] at h
      cases h
    | _ => rfl
  rw [enter, Run.bind_apply, think, hselect]
  rfl

/-- A section is no block. -/
theorem isBlock_of_isSection {n : Node} (h : n.isSection = true) : n.isBlock = false := by
  unfold Node.isSection at h
  unfold Node.isBlock
  split at h <;> simp_all

/-- The target of a divert is entered, with its parameters if it has any, unless there are too many
or too few arguments for them. -/
theorem enterWith_eq_some {i : NodeId} {args : List Value} {s t : Story}
    {r : Except StoryError Unit} (h : enterWith w i args s = some (r, t)) :
    (∃ e, r = .error e ∧ t = s) ∨
      r = .ok () ∧ ∃ m m', Memory.Changes s.content s.memory m ∧
        Memory.Readies s.content i m m' ∧ t = { s with memory := m' }.moveInto i := by
  have hplain (h : (ExceptT.lift (enter w i) : Play Unit) s = some (r, t)) :
      r = .ok () ∧ ∃ m m', Memory.Changes s.content s.memory m ∧
        Memory.Readies s.content i m m' ∧ t = { s with memory := m' }.moveInto i := by
    rw [Attempt.lift_apply] at h
    obtain ⟨⟨a, u⟩, henter, heq⟩ := Option.map_eq_some_iff.1 h
    cases heq
    exact ⟨rfl, enter_eq_some henter⟩
  rw [enterWith, Attempt.get_bind_apply] at h
  simp only at h
  split at h
  · next hsection =>
    split at h
    · next hlength =>
      split at h
      · exact .inr (hplain h)
      · have hmoved := enter_of_not_block (w := w) (i := i)
          (s := { s with memory := s.memory.bind i (s.node i).params args })
          (isBlock_of_isSection hsection)
        change (ExceptT.lift (enter w i) : Play Unit) _ = some (r, t) at h
        rw [Attempt.lift_apply, hmoved] at h
        cases h
        exact .inr ⟨rfl, s.memory, _, .refl, .params hsection hlength, rfl⟩
    · cases h
      exact .inl ⟨_, rfl, rfl⟩
  · exact .inr (hplain h)

/-! ## Playing a node -/

/-- A divert is a text. -/
theorem kind_of_isDivert {n : Node} (h : n.isDivert = true) : n.kind = .text := by
  unfold Node.isDivert Node.divertTarget? at h
  split at h
  · assumption
  · cases h

/-- Passing a node leaves the content. -/
@[simp] theorem content_pass (s : Story) (i : NodeId) : (s.pass i).content = s.content := by
  unfold pass
  split <;> rfl

/-- Passing a node is a chain of moves. -/
theorem moves_pass (s : Story) (i : NodeId) : s.Moves leads (s.pass i) := by
  unfold pass
  split
  · exact .refl
  · exact .single .pass

/-- A divert adds glue to the unit. -/
theorem resolve_of_isDivert {i : NodeId} {s : Story} (hi : (s.node i).isDivert = true) :
    resolve w i s = some (.ok glue, s) := by
  rw [resolve, Attempt.get_bind_apply]
  simp only [kind_of_isDivert hi, hi]
  rfl

/-- After a node that is no divert the next one is brought to the cursor. -/
theorem step_of_not_isDivert {i : NodeId} {s : Story} (hi : (s.node i).isDivert = false) :
    step w i s = (settle w (s.pass i)).map fun r => (.ok r.1, r.2) := by
  rw [step, Attempt.get_bind_apply]
  simp only [hi, Bool.false_eq_true, if_false]
  change (ExceptT.lift (settle w) : Play Unit) (s.pass i) = _
  rw [Attempt.lift_apply]

/-- Playing a node that is no choice leaves the cursor, also where it fails. -/
theorem plays_resolve {i : NodeId} {s : Story} (hchoice : (s.node i).isChoice = false) :
    PlaysAttempt Thought (resolve w i) s := by
  refine plays_attempt_get ?_
  simp only
  split
  · next hkind =>
    split
    · exact plays_attempt_pure _
    · have hexpand : PlaysAttempt Thought (ExceptT.lift (think w fun _ ctx => Directive.expand ctx
          (s.memory.mark i).count (s.node i).text.toList) : Play (List Char)) s :=
        plays_lift (plays_think fun _ hctx => hctx.expand _ _)
      refine plays_attempt_bind hexpand fun text t hrun => ?_
      have hkind' : (t.node i).kind = .text := by
        rw [node, Thinks.content_eq (hexpand _ _ hrun)]
        exact hkind
      intro _ u hmodify
      cases hmodify
      exact .single (.utter hkind')
  · next hkind =>
    rw [Node.isChoice, hkind] at hchoice
    cases hchoice
  · next hkind =>
    intro _ u hmodify
    cases hmodify
    exact .single (.note hkind)
  · refine plays_attempt_bind ?_ fun _ _ _ => plays_attempt_pure _
    exact plays_act fun _ hctx => (Memory.changing_governs s.content).execute rfl hctx _ _
  · exact plays_attempt_pure _

/-- Playing a choice adds no text. -/
theorem resolve_of_isChoice {i : NodeId} {s : Story} (hchoice : (s.node i).isChoice = true) :
    resolve w i s = (addChoice w i s).map fun r => (.ok [], r.2) := by
  rw [resolve, Attempt.get_bind_apply]
  unfold Node.isChoice at hchoice
  split at hchoice
  · next repeatable conditions hkind =>
    simp only [hkind]
    rw [Attempt.bind_apply]
    change ((ExceptT.lift (addChoice w i) : Play Unit) s).bind _ = _
    rw [Attempt.lift_apply]
    cases addChoice w i s <;> rfl
  · cases hchoice

/-- Where playing a node fails the cursor is left. -/
theorem thinks_of_resolve_error {i : NodeId} {s t : Story} {e : StoryError}
    (h : resolve w i s = some (.error e, t)) : s.Thinks t := by
  by_cases hchoice : (s.node i).isChoice = true
  · rw [resolve_of_isChoice hchoice] at h
    obtain ⟨_, -, heq⟩ := Option.map_eq_some_iff.1 h
    cases heq
  · exact plays_resolve (Bool.eq_false_iff.2 hchoice) _ _ h

/-- Offering the choice at the cursor and passing it is one move, and so is meeting a fallback
choice where no other is pending. -/
theorem moves_of_addChoice {i : NodeId} {s t : Story} {a : Unit} (hmore : s.hasMore = true)
    (hi : s.cursor? = some i) (h : addChoice w i s = some (a, t)) : s.Moves leads (t.pass i) := by
  obtain ⟨available, u, havailable, hrest⟩ := Run.bind_eq_some.1 h
  obtain ⟨m, hchanges, rfl, hchoice⟩ := changes_of_isAvailable havailable
  have hthink : s.Moves leads (pass { s with memory := m } i) :=
    (Thinks.moves (.single (.think hchanges))).trans (moves_pass _ i)
  cases available with
  | false =>
    cases hrest
    exact hthink
  | true =>
    obtain ⟨hchoice, hfresh⟩ := hchoice rfl
    cases hrest
    simp only
    split
    · next hfallback =>
      split
      · next hnone =>
        rw [pass, if_pos rfl]
        exact .single (.fallBack hi hfallback (List.isEmpty_iff.1 hnone) hchanges)
      · exact hthink
    · next hfallback =>
      exact .single (.offer hmore hi hchoice (Bool.eq_false_iff.2 hfallback) hfresh hchanges)

/-- At a divert a step fails where it is, or ends the story, or enters the target, where the cursor
comes to rest. -/
theorem step_of_isDivert {i : NodeId} {s t : Story} {r : Except StoryError Unit}
    (hi : (s.node i).isDivert = true) (h : step w i s = some (r, t)) :
    (∃ e, r = .error e ∧ s.Thinks t) ∨
      (∃ u, r = .ok () ∧ takeDivert w (s.node i) s = some (.ok none, u) ∧ t = u.finish) ∨
      ∃ u target args m m', r = .ok () ∧
        takeDivert w (s.node i) s = some (.ok (some (target, args)), u) ∧
        Memory.Changes u.content u.memory m ∧ Memory.Readies u.content target m m' ∧
        settle w { ({ u with memory := m' }.moveInto target) with choices := [] } =
          some ((), t) := by
  rw [step, Attempt.get_bind_apply] at h
  simp only [hi, if_true] at h
  rw [Attempt.bind_apply, Option.bind_eq_some_iff] at h
  obtain ⟨⟨taken, u⟩, htake, h⟩ := h
  have hthinks : s.Thinks u := plays_takeDivert w _ s _ _ htake
  cases taken with
  | error e =>
    cases h
    exact .inl ⟨e, rfl, hthinks⟩
  | ok target =>
    cases target with
    | none =>
      cases h
      exact .inr (.inl ⟨u, rfl, htake, rfl⟩)
    | some found =>
      obtain ⟨target, args⟩ := found
      simp only at h
      rw [Attempt.bind_apply, Option.bind_eq_some_iff] at h
      obtain ⟨⟨entered, v⟩, henter, h⟩ := h
      obtain ⟨e, rfl, rfl⟩ | ⟨rfl, m, m', hchanges, hreadies, rfl⟩ := enterWith_eq_some henter
      · cases h
        exact .inl ⟨e, rfl, hthinks⟩
      · simp only at h
        rw [Attempt.modify_bind_apply] at h
        change (ExceptT.lift (settle w) : Play Unit) _ = _ at h
        rw [Attempt.lift_apply] at h
        obtain ⟨⟨_, v⟩, hsettle, heq⟩ := Option.map_eq_some_iff.1 h
        cases heq
        exact .inr (.inr ⟨u, target, args, m, m', rfl, htake, hchanges, hreadies, hsettle⟩)

/-- The destination of a node is where its divert leads. -/
theorem destination?_of_takeDivert {i : NodeId} {s u : Story}
    {target : Option (NodeId × List Value)}
    (hi : (s.node i).isDivert = true)
    (h : takeDivert w (s.node i) s = some (.ok target, u)) :
    destination? w i s = some (target.map (·.1)) := by
  simp only [destination?, hi, if_true, h]

section PlayNode

variable {i : NodeId} {s t : Story} {r : Except StoryError (List Char)}

/-- A divert fails where it is, or ends the story, or leads to a node where the cursor comes to
rest. -/
theorem playNode_of_isDivert (hmore : s.hasMore = true) (hi : (s.node i).isDivert = true)
    (hleads : ∀ target, destination? w i s = some target → leads s.content target)
    (h : playNode w i s = some (r, t)) :
    (∃ e, r = .error e ∧ s.Thinks t) ∨
      (∃ u, r = .ok glue ∧ destination? w i s = some none ∧ s.Thinks u ∧ t = u.finish) ∨
      ∃ text u, r = .ok text ∧ destination? w i s ≠ some none ∧ s.Moves leads u ∧
        settle w u = some ((), t) := by
  rw [playNode, Attempt.bind_apply, resolve_of_isDivert hi, Option.bind_some] at h
  simp only at h
  rw [Attempt.bind_apply, Option.bind_eq_some_iff] at h
  obtain ⟨⟨stepped, v⟩, hstep, h⟩ := h
  obtain ⟨e, rfl, hthinks⟩ | ⟨u, rfl, htake, rfl⟩ |
    ⟨u, target, args, m, m', rfl, htake, hchanges, hreadies, hsettle⟩ := step_of_isDivert hi hstep
  · cases h
    exact .inl ⟨e, rfl, hthinks⟩
  · cases h
    have hthinks : s.Thinks u := plays_takeDivert w _ s _ _ htake
    exact .inr (.inl ⟨u, rfl, destination?_of_takeDivert hi htake, hthinks, rfl⟩)
  · cases h
    have hthinks : s.Thinks u := plays_takeDivert w _ s _ _ htake
    have hdestination := destination?_of_takeDivert hi htake
    have hprocessing : u.processing = true := by
      rw [hthinks.eq]
      rw [hasMore, Bool.and_eq_true_iff, Bool.and_eq_true_iff] at hmore
      exact hmore.1.1
    have htarget := hleads (some target) hdestination
    rw [← hthinks.content_eq] at htarget
    refine .inr (.inr ⟨glue, _, rfl, fun hend => ?_, ?_, hsettle⟩)
    · rw [hdestination] at hend
      cases hend
    · exact hthinks.moves.tail
        (.divert hprocessing htarget (lt_size_of_takeDivert htake) hchanges hreadies)

/-- What is no divert has no destination. -/
theorem destination?_of_not_isDivert (hi : (s.node i).isDivert = false) :
    destination? w i s = none := by
  rw [destination?, hi]
  rfl

/-- What was played and leads nowhere is passed, and the cursor comes to rest. -/
theorem settle_of_playNode (hi : (s.node i).isDivert = false) {u : Story} {text : List Char}
    (hresolve : resolve w i s = some (.ok text, u)) (hcontent : u.content = s.content)
    (h : playNode w i s = some (r, t)) :
    r = .ok text ∧ settle w (u.pass i) = some ((), t) := by
  have hi' : (u.node i).isDivert = false := by
    rw [node, hcontent]
    exact hi
  rw [playNode, Attempt.bind_apply, hresolve, Option.bind_some] at h
  simp only at h
  rw [Attempt.bind_apply, step_of_not_isDivert hi', Option.bind_eq_some_iff] at h
  obtain ⟨_, hmap, h⟩ := h
  obtain ⟨⟨a, v⟩, hsettle, heq⟩ := Option.map_eq_some_iff.1 hmap
  subst heq
  cases h
  exact ⟨rfl, hsettle⟩

/-- A node that is played ends in one of three ways: with an error and the cursor where it was, at
the end of the story, or with the cursor brought to rest. -/
theorem playNode_eq_some (hmore : s.hasMore = true) (hi : s.cursor? = some i)
    (hleads : ∀ target, destination? w i s = some target → leads s.content target)
    (h : playNode w i s = some (r, t)) :
    (∃ e, r = .error e ∧ s.Thinks t) ∨
      (∃ u, r = .ok glue ∧ destination? w i s = some none ∧ s.Thinks u ∧ t = u.finish) ∨
      ∃ text u, r = .ok text ∧ destination? w i s ≠ some none ∧ s.Moves leads u ∧
        settle w u = some ((), t) := by
  by_cases hdivert : (s.node i).isDivert = true
  · exact playNode_of_isDivert hmore hdivert hleads h
  · rw [Bool.not_eq_true] at hdivert
    have hnowhere : destination? w i s ≠ some none := by
      rw [destination?_of_not_isDivert hdivert]
      exact nofun
    cases hresolve : resolve w i s with
    | none =>
      rw [playNode, Attempt.bind_apply, hresolve] at h
      cases h
    | some result =>
      obtain ⟨resolved, u⟩ := result
      cases resolved with
      | error e =>
        rw [playNode, Attempt.bind_apply, hresolve] at h
        cases h
        exact .inl ⟨e, rfl, thinks_of_resolve_error hresolve⟩
      | ok text =>
        have hmoves : s.Moves leads (u.pass i) := by
          by_cases hchoice : (s.node i).isChoice = true
          · rw [resolve_of_isChoice hchoice] at hresolve
            obtain ⟨⟨a, v⟩, hadd, heq⟩ := Option.map_eq_some_iff.1 hresolve
            cases heq
            exact moves_of_addChoice hmore hi hadd
          · rw [Bool.not_eq_true] at hchoice
            have hthinks : s.Thinks u := plays_resolve hchoice _ _ hresolve
            exact hthinks.moves.trans (moves_pass u i)
        have hcontent : u.content = s.content := by
          rw [← Moves.content_eq hmoves, content_pass]
        obtain ⟨rfl, hsettle⟩ := settle_of_playNode hdivert hresolve hcontent h
        exact .inr (.inr ⟨text, _, rfl, hnowhere, hmoves, hsettle⟩)

end PlayNode

/-- Wherever diverts lead, a node that is played ends in one of these ways. -/
theorem playNode_anywhere {i : NodeId} {s t : Story} {r : Except StoryError (List Char)}
    (hmore : s.hasMore = true) (hi : s.cursor? = some i) (h : playNode w i s = some (r, t)) :
    (∃ e, r = .error e ∧ s.Thinks t) ∨
      (∃ u, r = .ok glue ∧ destination? w i s = some none ∧ s.Thinks u ∧ t = u.finish) ∨
      ∃ text u, r = .ok text ∧ destination? w i s ≠ some none ∧ s.Moves anywhere u ∧
        settle w u = some ((), t) :=
  playNode_eq_some hmore hi (fun _ _ => trivial) h

/-- A node that is played is left by moves. -/
theorem plays_playNode {i : NodeId} {s : Story} (hmore : s.hasMore = true)
    (hi : s.cursor? = some i)
    (hleads : ∀ target, destination? w i s = some target → leads s.content target) :
    PlaysAttempt (Move leads) (playNode w i) s := by
  intro r t h
  obtain ⟨e, -, hthinks⟩ | ⟨u, -, hend, hthinks, rfl⟩ | ⟨text, u, -, -, hmoves, hsettle⟩ :=
    playNode_eq_some hmore hi hleads h
  · exact hthinks.moves
  · refine hthinks.moves.tail (.finish ?_ (hthinks.content_eq ▸ hleads none hend))
    rw [hthinks.eq]
    rw [hasMore, Bool.and_eq_true_iff, Bool.and_eq_true_iff] at hmore
    exact hmore.1.1
  · exact ReflTransGen.trans hmoves (plays_settle w u _ _ hsettle)

/-! ## Units of text -/

/-- Where a unit goes on there is more to be played. -/
theorem hasMore_of_goesOn {s : Story} {host : Host} {backwards : List Char}
    (h : s.goesOn host backwards = true) : s.hasMore = true := by
  unfold goesOn current? at h
  unfold hasMore
  cases hrunning : s.running <;> cases hcursor : s.cursor? <;> simp_all

/-- Where there is more to be played, there is a node at the cursor. -/
theorem current?_of_hasMore {s : Story} (h : s.hasMore = true) :
    ∃ i, s.cursor? = some i ∧ s.current? = some i := by
  rw [hasMore, Bool.and_eq_true_iff, Bool.and_eq_true_iff] at h
  obtain ⟨⟨-, hrunning⟩, hcursor⟩ := h
  obtain ⟨i, hi⟩ := Option.isSome_iff_exists.1 hcursor
  exact ⟨i, hi, by rw [current?, if_pos hrunning, hi]⟩

/-- A unit of text ends at an error, or after a node with which it does not go on. -/
theorem playUnit_succ {steps : Nat} {backwards : List Char} {i : NodeId} {s t : Story}
    {r : Except StoryError (List Char)} (hi : s.current? = some i)
    (h : playUnit w (steps + 1) backwards s = some (r, t)) :
    (∃ e, r = .error e ∧ playNode w i s = some (.error e, t)) ∨
      ∃ fragment u, playNode w i s = some (.ok fragment, u) ∧
        (u.goesOn w.host (fragment.reverse ++ backwards) = true ∧
            playUnit w steps (fragment.reverse ++ backwards) u = some (r, t) ∨
          u.goesOn w.host (fragment.reverse ++ backwards) = false ∧
            r = .ok (fragment.reverse ++ backwards).reverse ∧ t = u) := by
  rw [playUnit, Attempt.get_bind_apply] at h
  simp only [hi] at h
  rw [Attempt.bind_apply, Option.bind_eq_some_iff] at h
  obtain ⟨⟨played, u⟩, hplay, h⟩ := h
  cases played with
  | error e =>
    cases h
    exact .inl ⟨e, rfl, hplay⟩
  | ok fragment =>
    refine .inr ⟨fragment, u, hplay, ?_⟩
    simp only at h
    rw [Attempt.get_bind_apply] at h
    split at h
    · next hon => exact .inl ⟨hon, h⟩
    · next hoff =>
      cases h
      exact .inr ⟨Bool.eq_false_iff.2 hoff, rfl, rfl⟩

/-- What is kept by playing each node of a unit is kept by playing the unit, also when it stops at
an error. -/
theorem playUnit_keeps {P : Story → Prop} {D : Visit → Prop}
    (hplay : ∀ {s t : Story} {i : NodeId} {fragment : List Char}, P s → s.hasMore = true →
      s.cursor? = some i → D ⟨i, fragment, destination? w i s⟩ →
      playNode w i s = some (.ok fragment, t) → P t)
    (herror : ∀ {s t : Story} {i : NodeId} {e : StoryError}, P s → s.hasMore = true →
      s.cursor? = some i → playNode w i s = some (.error e, t) → P t)
    {steps : Nat} {backwards : List Char} {s t : Story} {r : Except StoryError (List Char)}
    (hs : P s) (hmore : s.hasMore = true) (hvisits : ∀ v ∈ visitsWithin w steps backwards s, D v)
    (h : playUnit w steps backwards s = some (r, t)) : P t := by
  induction steps generalizing backwards s with
  | zero => cases h
  | succ steps ih =>
    obtain ⟨i, hi, hcurrent⟩ := current?_of_hasMore hmore
    rw [visitsWithin] at hvisits
    simp only [hcurrent] at hvisits
    obtain ⟨e, -, hfails⟩ | ⟨fragment, u, hplayed, hrest⟩ := playUnit_succ hcurrent h
    · exact herror hs hmore hi hfails
    · simp only [hplayed] at hvisits
      have hu := hplay hs hmore hi (hvisits _ List.mem_cons_self) hplayed
      obtain ⟨hon, hrest⟩ | ⟨-, -, rfl⟩ := hrest
      · rw [if_pos hon] at hvisits
        exact ih hu (hasMore_of_goesOn hon) (fun v hv => hvisits v (List.mem_cons_of_mem _ hv))
          hrest
      · exact hu

/-- A unit of text is played by moves, where the diverts lead as they may. -/
theorem plays_playUnit {steps : Nat} {backwards : List Char} {s : Story}
    (hmore : s.hasMore = true)
    (hleads : ∀ v ∈ visitsWithin w steps backwards s, ∀ target,
      v.destination = some target → leads s.content target) :
    PlaysAttempt (Move leads) (playUnit w steps backwards) s := by
  intro r t hrun
  refine playUnit_keeps (P := fun t => s.Moves leads t)
    (D := fun v => ∀ target, v.destination = some target → leads s.content target)
    (fun {t u i fragment} ht hmore hi hvisit hplay => ?_)
    (fun {t u i e} ht hmore hi hplay => ?_) .refl hmore hleads hrun
  · rw [← Moves.content_eq ht] at hvisit
    exact ReflTransGen.trans ht (plays_playNode hmore hi hvisit _ _ hplay)
  · obtain ⟨_, -, hthinks⟩ | ⟨_, herror, -⟩ | ⟨_, _, herror, -⟩ :=
      playNode_anywhere hmore hi hplay
    · exact ReflTransGen.trans ht hthinks.moves
    · cases herror
    · cases herror

/-- Where a unit has been played and nothing more can be played, play has halted. -/
theorem halted_of_playUnit {steps : Nat} {backwards unit : List Char} {s t : Story}
    (hmore : s.hasMore = true) (h : playUnit w steps backwards s = some (.ok unit, t))
    (hend : t.hasMore = false) : t.Halted := by
  induction steps generalizing backwards s with
  | zero => cases h
  | succ steps ih =>
    obtain ⟨i, hi, hcurrent⟩ := current?_of_hasMore hmore
    obtain ⟨e, herror, -⟩ | ⟨fragment, u, hplayed, ⟨hon, hrest⟩ | ⟨-, -, rfl⟩⟩ :=
      playUnit_succ hcurrent h
    · cases herror
    · exact ih (hasMore_of_goesOn hon) hrest
    · obtain ⟨e, herror, -⟩ | ⟨v, -, -, -, rfl⟩ | ⟨text, v, -, -, -, hsettle⟩ :=
        playNode_anywhere hmore hi hplayed
      · cases herror
      · exact .inr (.inl rfl)
      · exact (atRest_of_settle hsettle).halted hend

/-! ## The choices of interrupts -/

/-- Evaluating expressions visits no choice. -/
theorem fresh_iff_of_changes {s : Story} {i : NodeId} {m : Memory}
    (hchanges : Memory.Changes s.content s.memory m) (hi : (s.node i).isChoice = true) :
    Fresh { s with memory := m } i ↔ s.Fresh i :=
  forall₂_congr fun _ _ => by rw [Mark.count_congr (hchanges.visits_eq hi)]

/-- An interrupt offers its choice, in front of the others, or nothing. -/
theorem addInterruptChoice_eq_some {k : Interrupt} {s t : Story} {a : Unit}
    (h : addInterruptChoice w k s = some (a, t)) :
    ∃ m, Memory.Changes s.content s.memory m ∧ (t = { s with memory := m } ∨
      ∃ i, k.kind = .choice ∧ s.content.find? k.id = some i ∧ (s.node i).isChoice = true ∧
        s.Fresh i ∧ i ∉ s.choices ∧ t = { s with memory := m, choices := i :: s.choices }) := by
  obtain ⟨fired, u, hfires, h⟩ := Run.bind_eq_some.1 h
  obtain ⟨m, hchanges, rfl, hoccasion⟩ := changes_of_fires hfires
  cases fired with
  | false =>
    cases h
    exact ⟨m, hchanges, .inl rfl⟩
  | true =>
    have hkind : k.kind = .choice := eq_of_beq (hoccasion rfl)
    rw [if_pos rfl, Run.get_bind_apply] at h
    simp only [content] at h
    cases hfind : s.content.find? k.id with
    | none =>
      simp only [content] at hfind
      simp only [hfind] at h
      cases h
      exact ⟨m, hchanges, .inl rfl⟩
    | some choice =>
      simp only [content] at hfind
      simp only [hfind] at h
      split at h
      · cases h
        exact ⟨m, hchanges, .inl rfl⟩
      · next hnew =>
        obtain ⟨available, v, havailable, h⟩ := Run.bind_eq_some.1 h
        obtain ⟨m', hchanges', rfl, hchoice⟩ := changes_of_isAvailable havailable
        refine ⟨m', hchanges.trans hchanges', ?_⟩
        cases available with
        | false =>
          cases h
          exact .inl rfl
        | true =>
          obtain ⟨hchoice, hfresh⟩ := hchoice rfl
          cases h
          refine .inr ⟨choice, hkind, rfl, hchoice,
            (fresh_iff_of_changes hchanges hchoice).1 hfresh, ?_, rfl⟩
          exact fun hmem => hnew (List.contains_iff_mem.2 hmem)

/-- Interrupts put their choices in front of the others and change nothing else but the memory. -/
theorem addInterruptChoices_eq_some {interrupts : List Interrupt} {s t : Story} {a : Unit}
    (h : addInterruptChoices w interrupts s = some (a, t)) :
    ∃ m added, Memory.Changes s.content s.memory m ∧
      t = { s with memory := m, choices := added ++ s.choices } ∧
      ∀ i ∈ added, ∃ k ∈ interrupts, k.kind = .choice ∧ s.content.find? k.id = some i := by
  induction interrupts generalizing s with
  | nil =>
    cases h
    exact ⟨t.memory, [], .refl, rfl, fun i hi => by cases hi⟩
  | cons k rest ih =>
    obtain ⟨_, u, hfirst, hrest⟩ := Run.bind_eq_some.1 h
    obtain ⟨m, hchanges, hu⟩ := addInterruptChoice_eq_some hfirst
    obtain ⟨m', added, hchanges', rfl, hadded⟩ := ih hrest
    have hrest' {c : Content} (hc : u.content = c) (i : NodeId) (hi : i ∈ added) :
        ∃ k' ∈ k :: rest, k'.kind = .choice ∧ c.find? k'.id = some i := by
      obtain ⟨k', hk', hkind, hfind⟩ := hadded i hi
      exact ⟨k', List.mem_cons_of_mem _ hk', hkind, hc ▸ hfind⟩
    obtain rfl | ⟨i, hkind, hfind, -, -, -, rfl⟩ := hu
    · exact ⟨m', added, hchanges.trans hchanges', rfl, hrest' rfl⟩
    · refine ⟨m', added ++ [i], hchanges.trans hchanges', ?_, fun j hj => ?_⟩
      · rw [List.append_assoc]
        rfl
      · rcases List.mem_append.1 hj with hj | hj
        · exact hrest' rfl j hj
        · rw [List.mem_singleton.1 hj]
          exact ⟨k, List.mem_cons_self, hkind, hfind⟩

/-- Interrupts offer their choices by moves, where play has halted. -/
theorem plays_addInterruptChoices {interrupts : List Interrupt} {s : Story} (hs : s.Halted)
    (hinterrupts : ∀ k ∈ interrupts, k ∈ s.interrupts) :
    Plays (Move leads) (addInterruptChoices w interrupts) s := by
  induction interrupts generalizing s with
  | nil => exact plays_pure _
  | cons k rest ih =>
    have hk := hinterrupts k List.mem_cons_self
    have hrest (j : Interrupt) (hj : j ∈ rest) := hinterrupts j (List.mem_cons_of_mem _ hj)
    refine Plays.bind (fun a t h => ?_) fun a t h => ?_
    all_goals obtain ⟨m, hchanges, rfl | ⟨i, hkind, hfind, hchoice, hfresh, hnew, rfl⟩⟩ :=
      addInterruptChoice_eq_some h
    · exact .single (.thought (.think hchanges))
    · exact .single (.interpose hs hk hkind hfind hchoice hfresh hnew hchanges)
    · exact ih (Thinks.halted (.single (.think hchanges)) hs) hrest
    · have hthought : Halted { s with memory := m } := Thinks.halted (.single (.think hchanges)) hs
      exact ih hthought hrest

/-! ## What the player can do -/

/-- Advancing fails where nothing more can be played, or plays a unit of text. Where nothing more
can be played after that, interrupts offer their choices. -/
theorem advance_eq_some {s t : Story} {r : Except StoryError String}
    (h : advance w s = some (r, t)) :
    (s.hasMore = false ∧ r = .error .nothingPending ∧ t = s) ∨
      s.hasMore = true ∧
        ((∃ e, r = .error e ∧ playUnit w w.steps [] s = some (.error e, t)) ∨
          ∃ unit u v, playUnit w w.steps [] s = some (.ok unit, u) ∧
            (u.hasMore = true ∧ v = u ∨
              u.hasMore = false ∧ addInterruptChoices w u.interrupts u = some ((), v)) ∧
            r = .ok (String.ofList (Text.cleanUp unit)) ∧
            t = v.record (String.ofList (Text.cleanUp unit))) := by
  rw [advance, Attempt.get_bind_apply] at h
  cases hmore : s.hasMore with
  | false =>
    simp only [hmore] at h
    cases h
    exact .inl ⟨rfl, rfl, rfl⟩
  | true =>
    simp only [hmore] at h
    refine .inr ⟨rfl, ?_⟩
    change (playUnit w w.steps [] >>= _) s = _ at h
    rw [Attempt.bind_apply, Option.bind_eq_some_iff] at h
    obtain ⟨⟨played, u⟩, hunit, h⟩ := h
    cases played with
    | error e =>
      cases h
      exact .inl ⟨e, rfl, hunit⟩
    | ok unit =>
      refine .inr ⟨unit, u, ?_⟩
      simp only at h
      rw [Attempt.get_bind_apply] at h
      split at h
      · next hmore' =>
        cases h
        exact ⟨u, hunit, .inl ⟨hmore', rfl⟩, rfl, rfl⟩
      · next hnone =>
        rw [Attempt.bind_apply, Option.bind_eq_some_iff] at h
        obtain ⟨_, hlift, h⟩ := h
        change (ExceptT.lift (addInterruptChoices w u.interrupts) : Play Unit) u = _ at hlift
        rw [Attempt.lift_apply] at hlift
        obtain ⟨⟨a, v⟩, hadd, heq⟩ := Option.map_eq_some_iff.1 hlift
        subst heq
        cases h
        exact ⟨v, hunit, .inr ⟨Bool.eq_false_iff.2 hnone, hadd⟩, rfl, rfl⟩

/-- After a unit of text interrupts offer their choices by moves, if they do. -/
theorem moves_of_overlay {steps : Nat} {backwards unit : List Char} {s u v : Story}
    (hmore : s.hasMore = true) (hunit : playUnit w steps backwards s = some (.ok unit, u))
    (hadd : u.hasMore = true ∧ v = u ∨
      u.hasMore = false ∧ addInterruptChoices w u.interrupts u = some ((), v)) :
    u.Moves leads v := by
  obtain ⟨-, rfl⟩ | ⟨hnone, hadd⟩ := hadd
  · exact .refl
  · exact plays_addInterruptChoices (halted_of_playUnit hmore hunit hnone) (fun _ hk => hk) _ _
      hadd

/-- Advancing is a chain of moves, also when it fails, after which the text may be recorded. -/
theorem moves_of_advance {s t : Story} {r : Except StoryError String}
    (hleads : ∀ v ∈ visits w s, ∀ target,
      v.destination = some target → leads s.content target)
    (h : advance w s = some (r, t)) :
    ∃ u, s.Moves leads u ∧ (t = u ∨ ∃ text, t = u.record text) := by
  obtain ⟨-, -, rfl⟩ | ⟨hmore, hplayed⟩ := advance_eq_some h
  · exact ⟨t, .refl, .inl rfl⟩
  · rw [visits, if_pos hmore] at hleads
    obtain ⟨e, -, hunit⟩ | ⟨unit, u, v, hunit, hend, -, rfl⟩ := hplayed
    · exact ⟨t, plays_playUnit hmore hleads _ _ hunit, .inl rfl⟩
    · have hmoves : s.Moves leads u := plays_playUnit hmore hleads _ _ hunit
      exact ⟨v, hmoves.trans (moves_of_overlay hmore hunit hend), .inr ⟨_, rfl⟩⟩

/-- Choosing fails where there is no such choice, or takes the choice and goes on inside it. -/
theorem choose_eq_some {index : Nat} {s t : Story} {r : Except StoryError Unit}
    (h : choose w index s = some (r, t)) :
    (s.choices[index]? = none ∧ r = .error (s.noSuchChoice index) ∧ t = s) ∨
      ∃ choice, s.choices[index]? = some choice ∧ r = .ok () ∧
        settle w (s.take choice) = some ((), t) := by
  rw [choose, Attempt.get_bind_apply] at h
  cases hchoice : s.choices[index]? with
  | none =>
    simp only [hchoice] at h
    cases h
    exact .inl ⟨rfl, rfl, rfl⟩
  | some choice =>
    simp only [hchoice] at h
    rw [Attempt.modify_bind_apply] at h
    change (ExceptT.lift (settle w) : Play Unit) (s.take choice) = _ at h
    rw [Attempt.lift_apply] at h
    obtain ⟨⟨a, u⟩, hsettle, heq⟩ := Option.map_eq_some_iff.1 h
    cases heq
    exact .inr ⟨choice, rfl, rfl, hsettle⟩

/-- Taking a choice is a chain of moves, also when it fails. -/
theorem plays_choose {index : Nat} {s : Story}
    (hleads : ∀ i, s.choices[index]? = some i → leads s.content (some i)) :
    PlaysAttempt (Move leads) (choose w index) s := by
  intro r t h
  obtain ⟨-, -, rfl⟩ | ⟨choice, hchoice, -, hsettle⟩ := choose_eq_some h
  · exact .refl
  · exact (ReflTransGen.single
      (.take (List.mem_of_getElem? hchoice) (hleads choice hchoice))).trans
      (plays_settle w _ _ _ hsettle)

/-- Finding the texts of choices consists of thoughts. -/
theorem plays_choiceTexts (is : List NodeId) (s : Story) :
    Plays Thought (choiceTexts w is) s := by
  induction is generalizing s with
  | nil => exact plays_pure _
  | cons i rest ih =>
    exact (plays_shownText w i s).bind fun _ t _ => (ih t).bind fun _ _ _ => plays_pure _

/-- Showing the pending choices leaves the cursor and the choices. -/
theorem plays_pendingTexts (w : World) (s : Story) : Plays Thought (pendingTexts w) s :=
  plays_get (plays_choiceTexts s.choices s)

/-- Looking for a comment to show consists of thoughts. -/
theorem plays_commentFrom (position : Nat) (is : List NodeId) (s : Story) :
    Plays Thought (commentFrom w position is) s := by
  induction is generalizing position s with
  | nil => exact plays_pure _
  | cons i rest ih =>
    refine plays_get ?_
    split
    · refine (plays_think fun _ hctx => hctx.allHold _).bind fun shown t _ => ?_
      split
      · split
        · exact (plays_modify (.forget position)).bind fun _ u _ =>
            (plays_shownText w i u).bind fun _ _ _ => plays_pure _
        · exact (plays_shownText w i t).bind fun _ _ _ => plays_pure _
      · exact ih _ t
    · exact ih _ s

/-- Showing a comment leaves the cursor and the choices. -/
theorem plays_currentComment (w : World) (s : Story) : Plays Thought (currentComment w) s :=
  plays_get (plays_commentFrom 0 s.comments s)

/-- Storing a variable leaves the cursor and the choices. -/
theorem plays_assign (host : Host) (name : String) (value : Value) (s : Story) :
    Plays Thought (modify fun s => s.assign host name value) s :=
  plays_modify (.think (.single (.assign (s.stage host) name value rfl)))

end Story

end Narrative
