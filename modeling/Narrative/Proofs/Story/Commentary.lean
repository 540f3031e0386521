import Narrative.Proofs.Story.Telling
import Narrative.Proofs.Story.Trailing
import Narrative.Proofs.Text.Words

/-!
# Stories with and without comments

A story and the one without its comments are told with the same transcript. A comment may close a
unit of text that goes on behind it, but then what the unit goes on with adds no word to it.
-/

namespace Narrative

variable {omitted : NodeId → Bool}

/-- Whether every node continues a unit: it is blank so far, or glue ends it. -/
def isOpen (backwards : List Char) : Bool :=
  glue.reverse.isPrefixOf backwards || backwards.all Text.isBlank

namespace Story

/-! ## Side by side -/

section Abreast

variable {w : World} {s s' t t' : Story} {m : Nat}

/-- Telling a text changes the transcript only. -/
theorem exists_record_eq (s : Story) (text : String) :
    ∃ transcript, s.record text = { s with transcript } :=
  ⟨_, record_eq s text⟩

/-- Stories stay abreast whatever texts they tell. -/
theorem Abreast.record (h : s.Abreast omitted s') (x y : String) :
    (s.record x).Abreast omitted (s'.record y) := by
  obtain ⟨j, _, hs, haligned, rfl⟩ := h
  obtain ⟨transcript, hx⟩ := exists_record_eq s x
  obtain ⟨transcript', hy⟩ := exists_record_eq (s.without omitted j _) y
  rw [hx, hy]
  exact ⟨j, transcript', hs, ⟨haligned.content,
    haligned.interrupts, haligned.index_eq⟩, rfl⟩

/-- A story goes on trailing whatever texts are told. -/
theorem Trails.record (h : Trails omitted w m s s') (x y : String) :
    Trails omitted w m (s.record x) (s'.record y) := by
  cases h with
  | level habreast => exact .level (habreast.record x y)
  | @behind _ _ t' _ _ transcript' hs hmore haligned hm hrun =>
    obtain ⟨transcript, hx⟩ := exists_record_eq s x
    obtain ⟨after, hy⟩ := exists_record_eq { t' with transcript := transcript' } y
    have haligned' : Aligned omitted { s with transcript } _ :=
      ⟨haligned.content, haligned.interrupts, haligned.index_eq⟩
    have htrails : Trails omitted w m { s with transcript } { t' with transcript := after } :=
      .behind hs hmore haligned' hm hrun
    rw [hx, hy]
    exact htrails

/-- Stories that are abreast have no interrupts. -/
theorem Abreast.interrupts (h : s.Abreast omitted s') : s.interrupts = [] ∧ s'.interrupts = [] := by
  obtain ⟨j, transcript, -, haligned, rfl⟩ := h
  exact ⟨haligned.interrupts, haligned.interrupts⟩

/-- Stories that are abreast stand at the same node. -/
theorem Abreast.cursor?_eq (h : s.Abreast omitted s') : s'.cursor? = s.cursor? := by
  obtain ⟨j, transcript, hs, haligned, rfl⟩ := h
  exact haligned.cursor?_without hs transcript

/-- Both can go on, or none can. -/
theorem Abreast.hasMore_eq (h : s.Abreast omitted s') : s'.hasMore = s.hasMore := by
  have hcursor := h.cursor?_eq
  obtain ⟨j, transcript, hs, haligned, rfl⟩ := h
  rw [hasMore, hasMore, hcursor]
  rfl

/-- Looking ahead, a divert leads to the same node. -/
theorem peekDivert_without {k : Nat} {transcript : List String} (h : s.Aligned omitted k)
    (host : Host) (n : Node) :
    (s.without omitted k transcript).peekDivert host (n.without omitted) = s.peekDivert host n := by
  have hmemory : (s.without omitted k transcript).memory = s.memory := rfl
  simp only [peekDivert, Node.divertTarget?_without, stage_without, Stage.target?_without, hmemory,
    descend_without h]

/-- Where no text begins with glue, a unit goes on with a node as it does without the comments. -/
theorem continuesInto_without {k : Nat} {transcript : List String} (h : s.Aligned omitted k)
    (host : Host) (i : NodeId) (b : List Char) :
    (s.without omitted k transcript).continuesInto host i b = s.continuesInto host i b := by
  have hglueless (j : NodeId) : startsWithGlue (s.node j).text = false :=
    h.content.omissible.glueless j
  unfold continuesInto
  simp only [node_without, Node.text_without, Node.isChoice_without, Node.isFallback_without,
    Node.isStitch_without, peekDivert_without h, hglueless, Option.any_false]

/-- A unit goes on in both, or in none. -/
theorem Abreast.goesOn_eq (h : s.Abreast omitted s') (host : Host) (b : List Char) :
    s'.goesOn host b = s.goesOn host b := by
  have hcursor := h.cursor?_eq
  obtain ⟨j, transcript, hs, haligned, rfl⟩ := h
  rw [goesOn, goesOn, current?, current?, hcursor]
  simp only [continuesInto_without haligned]
  rfl

/-- An open unit goes on where there is more to be played. -/
theorem goesOn_of_isOpen {b : List Char} (hb : isOpen b = true) (s : Story) (host : Host) :
    s.goesOn host b = s.hasMore := by
  have hcontinues (i : NodeId) : s.continuesInto host i b = true := by
    rw [isOpen] at hb
    rw [continuesInto, Bool.or_assoc, hb, Bool.or_true, if_pos rfl]
  unfold goesOn hasMore current?
  cases s.running <;> cases s.cursor? <;> simp [hcontinues]

/-- A comment closes a unit that is not open. -/
theorem goesOn_of_isComment {b : List Char} (hb : isOpen b = false) {i : NodeId}
    (hi : s.cursor? = some i) (hcomment : (s.node i).isComment = true)
    (hglueless : startsWithGlue (s.node i).text = false) (host : Host) :
    s.goesOn host b = false := by
  obtain ⟨once, conditions, hkind⟩ := Node.kind_of_isComment hcomment
  have hcontinues : s.continuesInto host i b = false := by
    rw [isOpen] at hb
    rw [continuesInto, Bool.or_assoc, hb, hglueless]
    simp [Node.isChoice, Node.isStitch, hkind, peekDivert, Node.divertTarget?_of_isComment hcomment]
  unfold goesOn current?
  rw [hi]
  split <;> simp [hcontinues]

end Abreast

/-! ## What a unit goes on with -/

section Bridges

variable {w : World} {s t : Story} {i : NodeId}

/-- Whether a unit goes on with a node that adds no word to it: a choice, a stitch or a divert to
the end. -/
def Bridges (host : Host) (s : Story) (i : NodeId) : Prop :=
  (s.node i).isChoice = true ∨ (s.node i).isStitch = true ∨
    s.peekDivert host (s.node i) = some none

/-- Where no text begins with glue, a unit that is not open goes on with nodes that add no word to
it only. -/
theorem bridges_of_goesOn {host : Host} {b : List Char} (hb : isOpen b = false)
    (hglueless : ∀ j, startsWithGlue (s.node j).text = false) (h : s.goesOn host b = true) :
    ∃ i, s.cursor? = some i ∧ s.Bridges host i := by
  obtain ⟨i, hi, hcurrent⟩ := current?_of_hasMore (hasMore_of_goesOn h)
  rw [goesOn, hcurrent, Option.any_some, Bool.and_eq_true_iff, continuesInto, Bool.or_assoc] at h
  rw [isOpen] at hb
  refine ⟨i, hi, ?_⟩
  simp only [hb, hglueless, Bool.or_false, Option.any_false, Bool.false_eq_true, if_false] at h
  obtain ⟨-, h⟩ := h
  split at h
  · next hlist =>
    obtain hchoice | hstitch := Bool.or_eq_true_iff.1 hlist
    · exact .inl (Bool.and_eq_true_iff.1 hchoice).1
    · exact .inr (.inl hstitch)
  · cases hpeek : s.peekDivert host (s.node i) with
    | none => simp [hpeek] at h
    | some target =>
      cases target with
      | none => exact .inr (.inr hpeek)
      | some target => simp [hpeek] at h

/-- A divert to the end is taken by ending the story. -/
theorem playNode_of_peekDivert_end (h : s.peekDivert w.host (s.node i) = some none) :
    playNode w i s = some (.ok glue, s.finish) := by
  obtain ⟨target, htarget, hname⟩ := Option.bind_eq_some_iff.1 h
  have hdivert : (s.node i).isDivert = true := by rw [Node.isDivert, htarget]; rfl
  have hend : (splitCall target).1 = endName := by
    by_contra hne
    simp [hne] at hname
  have htake : takeDivert w (s.node i) s = some (.ok none, s) := by
    unfold takeDivert
    simp only [htarget, Option.getD_some, hend, if_true]
    rfl
  rw [playNode, Attempt.bind_apply, resolve_of_isDivert hdivert, Option.bind_some]
  simp only
  rw [Attempt.bind_apply, step, Attempt.get_bind_apply]
  simp only [hdivert, if_true]
  rw [Attempt.bind_apply, htake]
  rfl

/-- Such a node is played without failing, and it adds no word. -/
theorem playNode_of_bridges {r : Except StoryError (List Char)} (h : s.Bridges w.host i)
    (hrun : playNode w i s = some (r, t)) :
    r = .ok [] ∨ r = .ok glue ∧ t.hasMore = false := by
  have hplain {u : Story} (hi : (s.node i).kind ≠ .text) (hcontent : u.content = s.content)
      (hresolve : resolve w i s = some (.ok [], u)) : r = .ok [] :=
    (settle_of_playNode (Bool.eq_false_iff.2 fun hdivert => hi (kind_of_isDivert hdivert)) hresolve
      hcontent hrun).1
  obtain hchoice | hstitch | hend := h
  · cases hresolve : resolve w i s with
    | none =>
      rw [playNode, Attempt.bind_apply, hresolve] at hrun
      cases hrun
    | some result =>
      obtain ⟨resolved, u⟩ := result
      have hcontent := content_eq_of_resolve hresolve
      rw [resolve_of_isChoice hchoice] at hresolve
      obtain ⟨⟨a, v⟩, hadd, heq⟩ := Option.map_eq_some_iff.1 hresolve
      cases heq
      refine .inl (hplain (fun hkind => ?_) hcontent
        (by rw [resolve_of_isChoice hchoice, hadd]; rfl))
      rw [Node.isChoice, hkind] at hchoice
      cases hchoice
  · have hkind : ∃ params, (s.node i).kind = .stitch params := by
      unfold Node.isStitch at hstitch
      split at hstitch
      · next params hkind => exact ⟨params, hkind⟩
      · cases hstitch
    obtain ⟨params, hkind⟩ := hkind
    refine .inl (hplain (u := s) (by simp [hkind]) rfl ?_)
    rw [resolve, Attempt.get_bind_apply]
    simp only [hkind]
    rfl
  · rw [playNode_of_peekDivert_end hend] at hrun
    cases hrun
    refine .inr ⟨rfl, ?_⟩
    simp [hasMore, finish]

end Bridges

/-! ## What is recorded -/

section Records

variable {s s' : Story}

/-- Telling nothing changes nothing. -/
@[simp] theorem record_empty (s : Story) : s.record "" = s := rfl

/-- Glue alone shows nothing. -/
theorem shownUnit_glue : shownUnit glue.reverse = "" := by decide

/-- Glue at the end of a unit adds no word to it. -/
theorem shownUnit_glue_append (b : List Char) :
    shownUnit (glue.reverse ++ b) = shownUnit b := by
  rw [shownUnit, shownUnit, List.reverse_append, List.reverse_reverse, Text.cleanUp,
    Text.words_unglued_append (.inr (.inr (.inr (List.prefix_refl _)))), Text.cleanUp]
  have hglue : Text.words (Text.unglued glue) = [] := by decide
  rw [hglue, List.append_nil]

/-- Stories with the same transcript have the same one after the same text. -/
theorem transcript_record_congr (h : s.transcript = s'.transcript) (text : String) :
    (s.record text).transcript = (s'.record text).transcript := by
  unfold record
  split
  · exact h
  · exact congrArg (· ++ [text]) h

end Records

/-! ## Collecting comments on the way -/

section Notes

variable {w : World} {s t u : Story} {r : Except StoryError Unit} {b : List Char}

/-- Without interrupts nothing is done where a unit is closed. -/
theorem closes_iff (h : s.interrupts = []) : s.Closes w t ↔ t = s := by
  unfold Closes
  rw [h]
  cases s.hasMore <;> simp [addInterruptChoices, eq_comm]

/-- An open unit takes in the comments in front of it. -/
theorem tells_of_notes (h : Relation.ReflTransGen (Notes w) s u) (hb : isOpen b = true)
    (htells : Tells w (.after b) u r t) : Tells w (.after b) s r t := by
  induction h using Relation.ReflTransGen.head_induction_on with
  | refl => exact htells
  | head hnote _ ih =>
    obtain ⟨i, hmore, hi, -, hplay⟩ := hnote
    exact .goOn ((goesOn_of_isOpen hb _ _).trans hmore) (.play hi hmore hplay ih)

/-- Collecting comments shows no text. -/
theorem transcript_of_notes (h : Relation.ReflTransGen (Notes w) s u) :
    u.transcript = s.transcript := by
  induction h with
  | refl => rfl
  | tail _ hnote ih => exact hnote.transcript_eq.trans ih

/-- A unit of which nothing has been played has not begun. -/
theorem Tells.of_after_nil (hinterrupts : s.interrupts = []) (h : Tells w (.after []) s r t) :
    Tells w .between s r t := by
  cases h with
  | goOn hon hrest => exact .begin (hasMore_of_goesOn hon) hrest
  | close hoff hcloses hrest =>
    obtain rfl := (closes_iff hinterrupts).1 hcloses
    exact hrest

end Notes

/-! ## Telling with and without the comments -/

section Keeps

variable {w : World} {s s' t' u' : Story} {r : Except StoryError Unit} {m m' : Telling}
  {b : List Char} {i : NodeId}

/-- How far a story has been told when the one without the omitted comments has been told so far. -/
inductive Keeps (omitted : NodeId → Bool) (w : World) : Telling → Story → Telling → Story → Prop
  /-- Both are in a unit, with the same node in front. -/
  | before {s s' : Story} {b : List Char} : s.Abreast omitted s' → s.transcript = s'.transcript →
      Keeps omitted w (.before b) s (.before b) s'
  /-- Both are in a unit, of which a node was played. -/
  | after {s s' : Story} {b : List Char} {moves : Nat} : Trails omitted w moves s s' →
      s.transcript = s'.transcript → Keeps omitted w (.after b) s (.after b) s'
  /-- Both are between units. -/
  | between {s s' : Story} {moves : Nat} : Trails omitted w moves s s' →
      s.transcript = s'.transcript → Keeps omitted w .between s .between s'
  /-- The next unit has begun already. -/
  | begun {s s' : Story} {moves : Nat} : Trails omitted w moves s s' →
      s.transcript = s'.transcript → Keeps omitted w (.after []) s .between s'
  /-- The unit was closed by a comment, and without it the unit goes on. -/
  | closed {s s' : Story} {b : List Char} : isOpen b = false → s.Abreast omitted s' →
      s'.goesOn w.host b = true → s.transcript = (s'.record (shownUnit b)).transcript →
      Keeps omitted w (.before []) s (.before b) s'
  /-- The unit was closed by a comment, and without it the unit went on with no word. -/
  | bridged {s s' : Story} {b : List Char} {moves : Nat} : isOpen b = false →
      Trails omitted w moves s s' → s.transcript = (s'.record (shownUnit b)).transcript →
      Keeps omitted w (.after []) s (.after b) s'
  /-- The unit was closed by a comment, and without it the unit went on with the end. -/
  | ended {s s' : Story} {b : List Char} : s.Abreast omitted s' → s.hasMore = false →
      s.transcript = (s'.record (shownUnit b)).transcript →
      Keeps omitted w (.after glue.reverse) s (.after (glue.reverse ++ b)) s'

/-- A story that trails another one has no interrupts, nor has the other one. -/
theorem Trails.interrupts {n : Nat} (h : Trails omitted w n s s') :
    s.interrupts = [] ∧ s'.interrupts = [] := by
  obtain ⟨u, -, habreast⟩ := h.catches_up
  refine ⟨?_, habreast.interrupts.2⟩
  cases h with
  | level habreast => exact habreast.interrupts.1
  | behind _ _ haligned _ _ => exact haligned.interrupts

/-- Without the comments a unit goes on that is closed at one of them, if it is not open. -/
theorem Trails.goesOn_eq_false {n : Nat} (h : Trails omitted w n s s') (hb : isOpen b = false)
    (hoff : s.AtOmitted omitted ∨ s'.goesOn w.host b = false) : s.goesOn w.host b = false := by
  cases h with
  | level habreast =>
    refine hoff.elim (fun hs => ?_) (habreast.goesOn_eq w.host b).symm.trans
    obtain ⟨_, _, hnot, -, -⟩ := habreast
    exact absurd hs hnot
  | behind hs _ haligned _ _ =>
    obtain ⟨i, hi, homitted⟩ := hs
    exact goesOn_of_isComment hb hi (haligned.content.omissible.comment homitted)
      (haligned.content.omissible.glueless i) w.host

/-- Behind the comments in front of it the story is abreast of the one without them, and what is
told from there in an open unit is told from here. -/
theorem Trails.reaches {n : Nat} (h : Trails omitted w n s s') (hb : isOpen b = true) :
    ∃ u, u.Abreast omitted s' ∧ u.transcript = s.transcript ∧
      ∀ {r t}, Tells w (.after b) u r t → Tells w (.after b) s r t := by
  obtain ⟨u, hnotes, habreast⟩ := h.catches_up
  exact ⟨u, habreast, transcript_of_notes hnotes, tells_of_notes hnotes hb⟩

/-- What is between units without the comments goes on as a unit of which nothing has been played.
-/
theorem Keeps.of_between (h : Keeps omitted w m s .between s') :
    (∃ n, Trails omitted w n s s') ∧ s.transcript = s'.transcript ∧
      ∀ {r t}, Tells w (.after []) s r t → Tells w m s r t := by
  cases h with
  | between htrails htranscript =>
    exact ⟨⟨_, htrails⟩, htranscript, fun htells => htells.of_after_nil htrails.interrupts.1⟩
  | begun htrails htranscript => exact ⟨⟨_, htrails⟩, htranscript, id⟩

/-- A node that is played without the comments is played with them. -/
theorem Abreast.plays {played : Except StoryError (List Char)} (h : s.Abreast omitted s')
    (hi : s'.cursor? = some i) (hmore : s'.hasMore = true)
    (hrun : playNode w i s' = some (played, u')) :
    ∃ u n, s.cursor? = some i ∧ s.hasMore = true ∧ playNode w i s = some (played, u) ∧
      Trails omitted w n u u' ∧ u.transcript = s.transcript ∧ u'.transcript = s'.transcript := by
  have hcursor := h.cursor?_eq
  have hmore' := h.hasMore_eq
  rw [hi] at hcursor
  rw [hmore] at hmore'
  have hsame {x y : Story} (hi : x.cursor? = some i) (hmore : x.hasMore = true)
      (hrun : playNode w i x = some (played, y)) : y.transcript = x.transcript := by
    have hmoves : x.Moves anywhere y := plays_playNode hmore hi (fun _ _ => trivial) _ _ hrun
    exact hmoves.steady.transcript
  obtain ⟨j, transcript, hs, haligned, rfl⟩ := h
  have hkept : omitted i = false :=
    Bool.eq_false_iff.2 fun homitted => hs ⟨i, hcursor.symm, homitted⟩
  obtain ⟨u, n, hplay, htrails⟩ := trails_of_playNode haligned hmore'.symm hcursor.symm hkept hrun
  exact ⟨u, n, hcursor.symm, hmore'.symm, hplay, htrails,
    hsame hcursor.symm hmore'.symm hplay, hsame hi hmore hrun⟩

/-- Where a unit goes on that is not open, the next node adds no word to it. -/
theorem Abreast.bridges (h : s.Abreast omitted s') (hb : isOpen b = false)
    (hon : s'.goesOn w.host b = true) (hi : s.cursor? = some i) : s.Bridges w.host i := by
  rw [h.goesOn_eq] at hon
  obtain ⟨j, transcript, hs, haligned, rfl⟩ := h
  obtain ⟨i', hi', hbridges⟩ := bridges_of_goesOn hb haligned.content.omissible.glueless hon
  cases hi.symm.trans hi'
  exact hbridges

/-- Where a node cannot be played without the comments, it cannot be played with them. -/
theorem Abreast.fails {e : StoryError} (h : s.Abreast omitted s') (hi : s'.cursor? = some i)
    (hmore : s'.hasMore = true) (hrun : playNode w i s' = some (.error e, u')) :
    ∃ u, s.cursor? = some i ∧ s.hasMore = true ∧ playNode w i s = some (.error e, u) ∧
      u.Abreast omitted u' ∧ u.transcript = s.transcript ∧ u'.transcript = s'.transcript := by
  obtain ⟨u, n, hcursor, hready, hplay, htrails, hu, hu'⟩ := h.plays hi hmore hrun
  refine ⟨u, hcursor, hready, hplay, ?_, hu, hu'⟩
  obtain ⟨j, transcript, hs, haligned, rfl⟩ := h
  obtain ⟨_, -, hthinks⟩ | ⟨_, herror, -⟩ | ⟨_, _, herror, -⟩ :=
    playNode_anywhere hready hcursor hplay
  · have hnot := haligned.not_atOmitted_of_thinks hs hthinks
    cases htrails with
    | level habreast => exact habreast
    | behind hat _ _ _ _ => exact absurd hat hnot
  · cases herror
  · cases herror

/-- When the one story is told to its end, so is the other. -/
theorem Keeps.rest (h : Keeps omitted w m s .between s') (hnone : s'.hasMore = false) :
    ∃ t, Tells w m s (.ok ()) t ∧ t.Abreast omitted s' ∧ t.transcript = s'.transcript := by
  obtain ⟨⟨n, htrails⟩, htranscript, hbegin⟩ := h.of_between
  obtain ⟨u, habreast, hsame, hreach⟩ := htrails.reaches (b := []) rfl
  have hnone' : u.hasMore = false := habreast.hasMore_eq.symm.trans hnone
  have hclose : Tells w (.after []) u (.ok ()) u :=
    .close ((goesOn_of_isOpen rfl u w.host).trans hnone') ((closes_iff habreast.interrupts.1).2 rfl)
      (.rest hnone')
  exact ⟨u, hbegin (hreach hclose), habreast, hsame.trans htranscript⟩

/-- A step of the one without the comments is kept up with. -/
theorem Keeps.begin (h : Keeps omitted w m s .between s') (hmore : s'.hasMore = true) :
    ∃ n u, Keeps omitted w n u (.before []) s' ∧ ∀ {r t}, Tells w n u r t → Tells w m s r t := by
  obtain ⟨⟨n, htrails⟩, htranscript, hbegin⟩ := h.of_between
  obtain ⟨u, habreast, hsame, hreach⟩ := htrails.reaches (b := []) rfl
  refine ⟨.before [], u, .before habreast (hsame.trans htranscript), fun htells => ?_⟩
  have hon : u.goesOn w.host [] = true :=
    (goesOn_of_isOpen rfl u w.host).trans (habreast.hasMore_eq.symm.trans hmore)
  exact hbegin (hreach (.goOn hon htells))

/-- When the one plays a node, so does the other. -/
theorem Keeps.play {fragment : List Char} (h : Keeps omitted w m s (.before b) s')
    (hi : s'.cursor? = some i) (hmore : s'.hasMore = true)
    (hrun : playNode w i s' = some (.ok fragment, u')) :
    ∃ n u, Keeps omitted w n u (.after (fragment.reverse ++ b)) u' ∧
      ∀ {r t}, Tells w n u r t → Tells w m s r t := by
  cases h with
  | before habreast htranscript =>
    obtain ⟨u, n, hi, hmore, hplay, htrails, hu, hu'⟩ := habreast.plays hi hmore hrun
    exact ⟨_, u, .after htrails (hu.trans (htranscript.trans hu'.symm)), .play hi hmore hplay⟩
  | closed hb habreast hon htranscript =>
    obtain ⟨u, n, hi, hmore, hplay, htrails, hu, hu'⟩ := habreast.plays hi hmore hrun
    have hsame : u.transcript = (u'.record (shownUnit b)).transcript :=
      hu.trans (htranscript.trans (transcript_record_congr hu'.symm _))
    obtain hnothing | ⟨hend, hnone⟩ :=
      playNode_of_bridges (habreast.bridges hb hon hi) hplay
    · cases hnothing
      exact ⟨_, u, .bridged hb htrails hsame, .play hi hmore hplay⟩
    · cases hend
      cases htrails with
      | level habreast' =>
        exact ⟨_, u, .ended habreast' hnone hsame, .play hi hmore hplay⟩
      | behind _ hmore' _ _ _ =>
        rw [hnone] at hmore'
        cases hmore'

/-- When the one fails at a node, so does the other. -/
theorem Keeps.fail {e : StoryError} (h : Keeps omitted w m s (.before b) s')
    (hi : s'.cursor? = some i) (hmore : s'.hasMore = true)
    (hrun : playNode w i s' = some (.error e, t')) :
    ∃ t, Tells w m s (.error e) t ∧ t.Abreast omitted t' ∧ t.transcript = t'.transcript := by
  cases h with
  | before habreast htranscript =>
    obtain ⟨t, hi, hmore, hplay, habreast', ht, ht'⟩ := habreast.fails hi hmore hrun
    exact ⟨t, .fail hi hmore hplay, habreast', ht.trans (htranscript.trans ht'.symm)⟩
  | closed hb habreast hon htranscript =>
    obtain ⟨t, hi, hmore, hplay, -⟩ := habreast.fails hi hmore hrun
    obtain hok | ⟨hok, -⟩ := playNode_of_bridges (habreast.bridges hb hon hi) hplay
    · cases hok
    · cases hok

/-- When the one goes on in a unit, so does the other. -/
theorem Keeps.goOn (h : Keeps omitted w m s (.after b) s') (hon : s'.goesOn w.host b = true) :
    ∃ n u, Keeps omitted w n u (.before b) s' ∧ ∀ {r t}, Tells w n u r t → Tells w m s r t := by
  have hmore : s'.hasMore = true := hasMore_of_goesOn hon
  have hnil {u : Story} (habreast : u.Abreast omitted s') : u.goesOn w.host [] = true :=
    (goesOn_of_isOpen rfl u w.host).trans (habreast.hasMore_eq.symm.trans hmore)
  cases h with
  | after htrails htranscript =>
    cases hb : isOpen b with
    | true =>
      obtain ⟨u, habreast, hsame, hreach⟩ := htrails.reaches hb
      exact ⟨_, u, .before habreast (hsame.trans htranscript), fun htells =>
        hreach (.goOn ((habreast.goesOn_eq w.host b).symm.trans hon) htells)⟩
    | false =>
      have hrecorded := htrails.record (shownUnit b) ""
      have hoff := htrails.goesOn_eq_false hb
      have hinterrupts := htrails.interrupts.1
      cases htrails with
      | level habreast =>
        exact ⟨_, s, .before habreast htranscript,
          .goOn ((habreast.goesOn_eq w.host b).symm.trans hon)⟩
      | behind hs _ _ _ _ =>
        -- the comment closes the unit, and the next one is begun in front of it
        obtain ⟨u, habreast, hsame, hreach⟩ := hrecorded.reaches (b := []) rfl
        exact ⟨_, u, .closed hb habreast hon
          (hsame.trans (transcript_record_congr htranscript (shownUnit b))), fun htells =>
            .close (hoff (.inl hs)) ((closes_iff hinterrupts).2 rfl)
              ((hreach (.goOn (hnil habreast) htells)).of_after_nil hrecorded.interrupts.1)⟩
  | bridged hb htrails htranscript =>
    obtain ⟨u, habreast, hsame, hreach⟩ := htrails.reaches (b := []) rfl
    exact ⟨_, u, .closed hb habreast hon (hsame.trans htranscript), fun htells =>
      hreach (.goOn (hnil habreast) htells)⟩
  | ended habreast hnone htranscript =>
    rw [habreast.hasMore_eq, hnone] at hmore
    cases hmore

/-- When the one closes a unit, so does the other. -/
theorem Keeps.close (h : Keeps omitted w m s (.after b) s') (hoff : s'.goesOn w.host b = false)
    (hcloses : s'.Closes w u') :
    ∃ n u, Keeps omitted w n u .between (u'.record (shownUnit b)) ∧
      ∀ {r t}, Tells w n u r t → Tells w m s r t := by
  cases h with
  | after htrails htranscript =>
    obtain rfl := (closes_iff htrails.interrupts.2).1 hcloses
    cases hb : isOpen b with
    | true =>
      obtain ⟨u, habreast, hsame, hreach⟩ := htrails.reaches hb
      exact ⟨_, u.record (shownUnit b), .between (.level (habreast.record _ _))
        (transcript_record_congr (hsame.trans htranscript) _), fun htells =>
          hreach (.close ((habreast.goesOn_eq w.host b).symm.trans hoff)
            ((closes_iff habreast.interrupts.1).2 rfl) htells)⟩
    | false =>
      exact ⟨_, s.record (shownUnit b), .between (htrails.record _ _)
        (transcript_record_congr htranscript _),
        .close (htrails.goesOn_eq_false hb (.inr hoff)) ((closes_iff htrails.interrupts.1).2 rfl)⟩
  | bridged hb htrails htranscript =>
    obtain rfl := (closes_iff htrails.interrupts.2).1 hcloses
    exact ⟨_, s, .begun (htrails.record "" _) htranscript, id⟩
  | ended habreast hnone htranscript =>
    obtain rfl := (closes_iff habreast.interrupts.2).1 hcloses
    rw [shownUnit_glue_append]
    refine ⟨_, s, .between (.level (habreast.record "" _)) htranscript, fun htells => ?_⟩
    exact .close ((goesOn_of_isOpen rfl s w.host).trans hnone)
      ((closes_iff habreast.interrupts.1).2 rfl) (by rwa [shownUnit_glue, record_empty])

/-- What is told without the comments is told with them. -/
theorem Keeps.tells (h : Keeps omitted w m s m' s') (htells : Tells w m' s' r t') :
    ∃ t, Tells w m s r t ∧ t.Abreast omitted t' ∧ t.transcript = t'.transcript := by
  induction htells generalizing m s with
  | rest hnone => exact h.rest hnone
  | begin hmore _ ih =>
    obtain ⟨n, u, hkeeps, htold⟩ := h.begin hmore
    obtain ⟨t, htells, hend⟩ := ih hkeeps
    exact ⟨t, htold htells, hend⟩
  | play hi hmore hplay _ ih =>
    obtain ⟨n, u, hkeeps, htold⟩ := h.play hi hmore hplay
    obtain ⟨t, htells, hend⟩ := ih hkeeps
    exact ⟨t, htold htells, hend⟩
  | fail hi hmore hplay => exact h.fail hi hmore hplay
  | goOn hon _ ih =>
    obtain ⟨n, u, hkeeps, htold⟩ := h.goOn hon
    obtain ⟨t, htells, hend⟩ := ih hkeeps
    exact ⟨t, htold htells, hend⟩
  | close hoff hcloses _ ih =>
    obtain ⟨n, u, hkeeps, htold⟩ := h.close hoff hcloses
    obtain ⟨t, htells, hend⟩ := ih hkeeps
    exact ⟨t, htold htells, hend⟩

end Keeps

end Story

end Narrative
