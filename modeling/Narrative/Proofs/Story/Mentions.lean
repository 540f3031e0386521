import Narrative.Proofs.Story.Conservation
import Narrative.Proofs.Story.Counts
import Narrative.Proofs.Story.Tracking
import Narrative.Proofs.Story.Trailing

/-!
# Comments that are shown

A comment is collected when its line is played, and of the collected ones the first whose conditions
hold is shown. One that is to be shown once is dropped then, and that is all that is remembered of it:
when its line is played again, it is collected and shown again.
-/

namespace Narrative

/-- What happens to a comment. -/
inductive Mention where
  /-- Its line is played. -/
  | met (i : NodeId)
  /-- It is shown, and perhaps dropped. -/
  | shown (i : NodeId) (dropped : Bool)
deriving DecidableEq

/-- Whether the node is a comment that is to be shown once. -/
def Node.isOnce (n : Node) : Bool :=
  match n.kind with
  | .comment once _ => once
  | _ => false

namespace Mention

/-- The collected comments after a mention. -/
def heed (comments : List NodeId) : Mention → List NodeId
  | met i => if comments.contains i then comments else comments ++ [i]
  | shown i dropped => if dropped then comments.erase i else comments

/-- Whether what is shown was collected each time. -/
def Sayable : List NodeId → List Mention → Prop
  | _, [] => True
  | comments, m :: rest => (∀ i dropped, m = shown i dropped → i ∈ comments) ∧
      Sayable (heed comments m) rest

variable {comments : List NodeId} {m : Mention} {ms before between after : List Mention}
  {i : NodeId} {dropped : Bool}

/-- A mention lists no comment twice. -/
theorem nodup_heed (h : comments.Nodup) (m : Mention) : (heed comments m).Nodup := by
  cases m with
  | met i =>
    rw [heed]
    split
    · exact h
    · next hnew =>
      rw [List.contains_iff_mem] at hnew
      exact List.nodup_append.2 ⟨h, List.nodup_singleton i, fun j hj k hk hjk =>
        hnew (List.mem_singleton.1 hk ▸ hjk ▸ hj)⟩
  | shown i dropped =>
    rw [heed]
    split
    · exact h.erase i
    · exact h

/-- A comment has been collected when it is met now, or was collected and is not dropped now. -/
theorem mem_heed_iff (h : comments.Nodup) :
    i ∈ heed comments m ↔ m = met i ∨ i ∈ comments ∧ m ≠ shown i true := by
  cases m with
  | met j =>
    rw [heed]
    split
    · next hold =>
      rw [List.contains_iff_mem] at hold
      simp only [met.injEq, ne_eq, reduceCtorEq, not_false_eq_true, and_true]
      exact ⟨.inr, fun hi => hi.elim (fun hji => hji ▸ hold) id⟩
    · simp [or_comm, eq_comm]
  | shown j dropped =>
    cases dropped with
    | false => simp [heed]
    | true =>
      rw [heed, if_pos rfl, h.mem_erase_iff]
      simp [and_comm, eq_comm]

/-- What is shown and dropped is no longer collected. -/
theorem not_mem_heed_shown (h : comments.Nodup) (i : NodeId) :
    i ∉ heed comments (shown i true) := by
  rw [mem_heed_iff h]
  simp

/-- Several mentions list no comment twice. -/
theorem nodup_foldl_heed (h : comments.Nodup) (ms : List Mention) :
    (ms.foldl heed comments).Nodup := by
  induction ms generalizing comments with
  | nil => exact h
  | cons m ms ih => exact ih (nodup_heed h m)

/-- What was not collected is not collected as long as it is not met. -/
theorem not_mem_foldl_heed (h : comments.Nodup) (hi : i ∉ comments) (hunmet : met i ∉ ms) :
    i ∉ ms.foldl heed comments := by
  induction ms generalizing comments with
  | nil => exact hi
  | cons m ms ih =>
    obtain ⟨hm, hrest⟩ := not_or.1 (mt List.mem_cons.2 hunmet)
    refine ih (nodup_heed h m) (fun hmem => ?_) hrest
    obtain hmet | ⟨hold, -⟩ := (mem_heed_iff h).1 hmem
    · exact hm hmet.symm
    · exact hi hold

/-- What is never dropped has been collected in the end when it was before or was met. -/
theorem mem_foldl_heed_iff (h : comments.Nodup) (hkept : shown i true ∉ ms) :
    i ∈ ms.foldl heed comments ↔ i ∈ comments ∨ met i ∈ ms := by
  induction ms generalizing comments with
  | nil => simp
  | cons m ms ih =>
    obtain ⟨hm, hrest⟩ := not_or.1 (mt List.mem_cons.2 hkept)
    rw [List.foldl_cons, ih (nodup_heed h m) hrest, mem_heed_iff h, List.mem_cons]
    have hne : m ≠ shown i true := Ne.symm hm
    simp only [hne, ne_eq, not_false_eq_true, and_true, eq_comm (a := m)]
    rw [or_assoc, or_left_comm]

/-- Mentions are sayable one after the other. -/
theorem sayable_append {ms' : List Mention} :
    Sayable comments (ms ++ ms') ↔ Sayable comments ms ∧ Sayable (ms.foldl heed comments) ms' := by
  induction ms generalizing comments with
  | nil => simp [Sayable]
  | cons m ms ih => simp [Sayable, ih, and_assoc]

/-- What is shown a second time although it was dropped has been met in between. -/
theorem Sayable.met_between (h : comments.Nodup)
    (hsayable : Sayable comments
      (before ++ shown i true :: (between ++ shown i dropped :: after))) :
    met i ∈ between := by
  by_contra hunmet
  obtain ⟨-, -, hrest⟩ := sayable_append.1 hsayable
  obtain ⟨-, hagain, -⟩ := sayable_append.1 hrest
  have hnodup := nodup_foldl_heed h before
  exact not_mem_foldl_heed (nodup_heed hnodup _) (not_mem_heed_shown hnodup i) hunmet
    (hagain i dropped rfl)

end Mention

namespace Story

open Mention (met shown heed Sayable)

variable {w : World} {s t u : Story} {actions : List Action} {answers : List Answer}

/-! ## What is mentioned -/

/-- The first of some collected comments whose conditions hold. -/
def shownFrom? (w : World) : List NodeId → Story → Option NodeId
  | [], _ => none
  | i :: rest, s =>
    match (s.node i).kind with
    | .comment _ conditions =>
      match think w (fun _ ctx => ctx.allHold conditions) s with
      | none => none
      | some (true, _) => some i
      | some (false, t) => shownFrom? w rest t
    | _ => shownFrom? w rest s

/-- The comment that is shown when a story is asked for one. -/
def shownComment? (w : World) (s : Story) : Option NodeId :=
  shownFrom? w s.comments s

/-- The comments among some nodes that are played. -/
def metAmong (c : Content) (visits : List Visit) : List Mention :=
  ((visits.map (·.node)).filter fun i => (c.node i).isComment).map met

/-- What is mentioned when a story is asked for something. -/
def mentionsOf (w : World) (action : Action) (s : Story) : List Mention :=
  match action with
  | .advance => metAmong s.content (visits w s)
  | .currentComment => (s.shownComment? w).toList.map fun i => shown i (s.node i).isOnce
  | _ => []

/-- What is mentioned in a course of play. -/
def mentions (w : World) : List Action → Story → List Mention
  | [], _ => []
  | action :: rest, s =>
    match perform w action s with
    | none => []
    | some (_, t) => mentionsOf w action s ++ mentions w rest t

/-! ## Playing collects -/

/-- Apart from playing comments and showing them, play leaves the comments. -/
theorem tracks_comments (w : World) :
    Tracks w fun s t => t.content = s.content ∧ t.comments = s.comments where
  refl _ := ⟨rfl, rfl⟩
  trans h h' := ⟨h'.1.trans h.1, h'.2.trans h.2⟩
  still hsources hcomments _ := ⟨congrArg Sources.content hsources, hcomments⟩
  remember _ := ⟨rfl, rfl⟩
  think _ h := by
    obtain ⟨m, -, rfl⟩ := think_eq_some h
    exact ⟨rfl, rfl⟩
  enter _ h := by
    obtain ⟨m, m', -, -, rfl⟩ := enter_eq_some h
    exact ⟨rfl, rfl⟩
  stray _ _ _ h henter := by
    obtain ⟨m, m', -, -, rfl⟩ := enter_eq_some henter
    exact h
  utter {i s t r} hi h := by
    by_cases hdivert : (s.node i).isDivert = true
    · rw [resolve_of_isDivert hdivert] at h
      cases h
      exact ⟨rfl, rfl⟩
    · rw [resolve_of_text hi (Bool.eq_false_iff.2 hdivert)] at h
      obtain ⟨⟨text, u⟩, hthink, heq⟩ := Option.map_eq_some_iff.1 h
      obtain ⟨m, -, rfl⟩ := think_eq_some hthink
      cases heq
      exact ⟨rfl, rfl⟩

/-- Playing a node collects it if it is a comment. -/
theorem comments_of_playNode {i : NodeId} {r : Except StoryError (List Char)}
    (h : playNode w i s = some (r, t)) :
    t.content = s.content ∧
      t.comments = (if (s.node i).isComment then heed s.comments (met i) else s.comments) ∧
      ((s.node i).isComment = true → ∃ text, r = .ok text) := by
  cases hi : (s.node i).isComment with
  | false =>
    obtain ⟨hcontent, hcomments⟩ := (tracks_comments w).of_playNode hi h
    exact ⟨hcontent, hcomments, nofun⟩
  | true =>
    have hcontent : (s.addComment i).content = s.content := by rw [addComment_eq]; rfl
    obtain ⟨rfl, hsettle⟩ := settle_of_playNode (Node.isDivert_of_isComment hi)
      (resolve_of_isComment hi) hcontent h
    obtain ⟨hsame, hcomments⟩ := (tracks_comments w).tracking_settle _ _ _ hsettle
    rw [content_pass, hcontent] at hsame
    have hpass : ((s.addComment i).pass i).comments = (s.addComment i).comments := by
      unfold pass
      split <;> rfl
    refine ⟨hsame, (hcomments.trans hpass).trans ?_, fun _ => ⟨_, rfl⟩⟩
    rw [if_pos rfl, heed, addComment]
    split <;> rfl

/-- A comment that is played is met in front of the others. -/
theorem metAmong_cons (c : Content) (v : Visit) (visits : List Visit) :
    metAmong c (v :: visits) =
      (if (c.node v.node).isComment then [met v.node] else []) ++ metAmong c visits := by
  rw [metAmong, List.map_cons, List.filter_cons]
  split <;> rfl

/-- A unit of text collects the comments that are played in it. -/
theorem comments_of_playUnit {steps : Nat} {backwards : List Char}
    {r : Except StoryError (List Char)} (h : playUnit w steps backwards s = some (r, t)) :
    t.content = s.content ∧ t.comments =
      (metAmong s.content (visitsWithin w steps backwards s)).foldl heed s.comments := by
  induction steps generalizing s backwards with
  | zero => cases h
  | succ steps ih =>
    rw [visitsWithin]
    cases hcurrent : s.current? with
    | none =>
      rw [playUnit, Attempt.get_bind_apply] at h
      simp only [hcurrent] at h
      cases h
      exact ⟨rfl, rfl⟩
    | some i =>
      obtain ⟨e, rfl, hfails⟩ | ⟨fragment, u, hplayed, hrest⟩ := playUnit_succ hcurrent h
      · obtain ⟨hcontent, hcomments, hok⟩ := comments_of_playNode hfails
        simp only [hfails]
        refine ⟨hcontent, hcomments.trans (if_neg fun hi => ?_)⟩
        obtain ⟨_, herror⟩ := hok hi
        cases herror
      · obtain ⟨hcontent, hcomments, -⟩ := comments_of_playNode hplayed
        simp only [hplayed, metAmong_cons, List.foldl_append]
        have hmet : u.comments = (if (s.content.node i).isComment then [met i] else []).foldl heed
            s.comments := by
          rw [hcomments, node]
          split <;> rfl
        rw [← hmet]
        obtain ⟨hon, hrest⟩ | ⟨hoff, -, rfl⟩ := hrest
        · obtain ⟨hsame, hlater⟩ := ih hrest
          rw [if_pos hon]
          exact ⟨hsame.trans hcontent, hcontent ▸ hlater⟩
        · rw [if_neg (by rw [hoff]; exact Bool.false_ne_true)]
          exact ⟨hcontent, rfl⟩

/-- Advancing collects the comments that are played, also when it fails. -/
theorem comments_of_advance {r : Except StoryError String} (h : advance w s = some (r, t)) :
    t.comments = (metAmong s.content (visits w s)).foldl heed s.comments := by
  obtain ⟨hnone, -, rfl⟩ | ⟨hmore, ⟨e, -, hunit⟩ | ⟨unit, u, v, hunit, hend, -, rfl⟩⟩ :=
    advance_eq_some h
  · rw [visits, if_neg (by rw [hnone]; exact Bool.false_ne_true)]
    rfl
  · rw [visits, if_pos hmore]
    exact (comments_of_playUnit hunit).2
  · rw [visits, if_pos hmore, ← (comments_of_playUnit hunit).2, record_eq]
    obtain ⟨-, rfl⟩ | ⟨-, hadd⟩ := hend
    · rfl
    · exact ((tracks_comments w).tracking_addInterruptChoices _ _ _ _ hadd).2

/-! ## Showing drops -/

/-- What becomes of the collected comments when the one at the end of `front` and `before` is shown,
or none. -/
inductive Shows (w : World) (front rest : List NodeId) (s : Story) (told : Option String)
    (t : Story) : Prop
  /-- There is none whose conditions hold. -/
  | silent : shownFrom? w rest s = none → told = none → t.comments = s.comments →
      Shows w front rest s told t
  /-- A comment is shown, and perhaps dropped. -/
  | aloud {before after : List NodeId} {i : NodeId} {u : Story} {text : String} :
      rest = before ++ i :: after → shownFrom? w rest s = some i →
      t.comments = (if (s.node i).isOnce then front ++ before ++ after else s.comments) →
      shownText w i u = some (text, t) → told = some text → Shows w front rest s told t

/-- A comment that is passed over stands before the one that is shown. -/
theorem Shows.later {front rest : List NodeId} {i : NodeId} {told : Option String}
    (h : Shows w (front ++ [i]) rest u told t) (hcontent : u.content = s.content)
    (hcomments : u.comments = s.comments)
    (hskip : shownFrom? w (i :: rest) s = shownFrom? w rest u) :
    Shows w front (i :: rest) s told t := by
  cases h with
  | silent hnone htold hsame => exact .silent (hskip.trans hnone) htold (hsame.trans hcomments)
  | @aloud before after j _ _ hrest hshown hsame htext htold =>
    have hnode : u.node j = s.node j := congrArg (·.node j) hcontent
    refine .aloud (show i :: rest = (i :: before) ++ j :: after by rw [hrest]; rfl)
      (hskip.trans hshown) ?_ htext htold
    rw [hsame, hnode, hcomments, List.append_assoc front [i], List.singleton_append]

/-- The search shows a comment that was collected, or none. -/
theorem shows_of_commentFrom {front rest : List NodeId} {told : Option String}
    (hcomments : s.comments = front ++ rest)
    (h : commentFrom w front.length rest s = some (told, t)) : Shows w front rest s told t := by
  induction rest generalizing front s with
  | nil =>
    cases h
    exact .silent rfl rfl rfl
  | cons i rest ih =>
    have hlater {u : Story} (hu : u.content = s.content ∧ u.comments = s.comments)
        (hskip : shownFrom? w (i :: rest) s = shownFrom? w rest u)
        (h : commentFrom w (front.length + 1) rest u = some (told, t)) :
        Shows w front (i :: rest) s told t := by
      have hfront : u.comments = (front ++ [i]) ++ rest := by
        rw [hu.2, hcomments, List.append_assoc, List.singleton_append]
      have hlength : front.length + 1 = (front ++ [i]).length := by simp
      exact (ih hfront (hlength ▸ h)).later hu.1 hu.2 hskip
    rw [commentFrom, Run.get_bind_apply] at h
    cases hkind : (s.node i).kind with
    | comment once conditions =>
      simp only [hkind] at h
      obtain ⟨holds, u, hthink, hrest⟩ := Run.bind_eq_some.1 h
      have hu := (tracks_comments w).tracking_allHold conditions _ _ _ hthink
      cases holds with
      | false => exact hlater hu (by simp only [shownFrom?, hkind, hthink]) hrest
      | true =>
        have hshown : shownFrom? w (i :: rest) s = some i := by
          simp only [shownFrom?, hkind, hthink]
        have honce : (s.node i).isOnce = once := by rw [Node.isOnce, hkind]
        have htext {v : Story} (h : (do return some (← shownText w i)) v = some (told, t)) :
            t.comments = v.comments ∧ ∃ text, shownText w i v = some (text, t) ∧
              told = some text := by
          obtain ⟨text, x, hshownText, hend⟩ := Run.bind_eq_some.1 h
          cases hend
          exact ⟨((tracks_comments w).tracking_shownText i _ _ _ hshownText).2, text, hshownText,
            rfl⟩
        cases once with
        | false =>
          obtain ⟨hsame, text, hshownText, htold⟩ := htext hrest
          refine .aloud (List.nil_append _).symm hshown ?_ hshownText htold
          rw [honce, if_neg Bool.false_ne_true, hsame, hu.2]
        | true =>
          obtain ⟨hsame, text, hshownText, htold⟩ := htext hrest
          refine .aloud (List.nil_append _).symm hshown ?_ hshownText htold
          rw [honce, if_pos rfl, hsame, List.append_nil]
          change u.comments.eraseIdx front.length = front ++ rest
          rw [hu.2, hcomments, List.eraseIdx_append_of_length_le (Nat.le_refl _), Nat.sub_self]
          rfl
    | _ =>
      simp only [hkind] at h
      exact hlater ⟨rfl, rfl⟩ (by simp only [shownFrom?, hkind]) h

/-- What is shown is a comment that was collected. -/
theorem mem_of_shownFrom? {is : List NodeId} {i : NodeId} (h : shownFrom? w is s = some i) :
    i ∈ is ∧ ∃ conditions, (s.node i).kind = .comment (s.node i).isOnce conditions := by
  induction is generalizing s with
  | nil => cases h
  | cons j rest ih =>
    have hlater {u : Story} (hcontent : u.content = s.content) (h : shownFrom? w rest u = some i) :
        i ∈ j :: rest ∧ ∃ conditions, (s.node i).kind = .comment (s.node i).isOnce conditions := by
      obtain ⟨hmem, hkind⟩ := ih h
      have hnode : u.node i = s.node i := congrArg (·.node i) hcontent
      exact ⟨List.mem_cons_of_mem _ hmem, hnode ▸ hkind⟩
    rw [shownFrom?] at h
    cases hkind : (s.node j).kind with
    | comment once conditions =>
      simp only [hkind] at h
      split at h
      · cases h
      · cases h
        exact ⟨List.mem_cons_self, conditions, by rw [Node.isOnce, hkind]⟩
      · next u hthink =>
        exact hlater ((tracks_comments w).tracking_allHold _ _ _ _ hthink).1 h
    | _ =>
      simp only [hkind] at h
      exact hlater rfl h

/-- Asking for the comment drops what is shown. -/
theorem comments_of_currentComment {told : Option String} (hnodup : s.comments.Nodup)
    (h : currentComment w s = some (told, t)) :
    t.comments = (mentionsOf w .currentComment s).foldl heed s.comments ∧
      ((s.shownComment? w = none ∧ told = none) ∨
        ∃ i ∈ s.comments, s.shownComment? w = some i ∧
          ∃ u text, shownText w i u = some (text, t) ∧ told = some text) := by
  rw [mentionsOf, shownComment?]
  cases shows_of_commentFrom (List.nil_append _).symm h with
  | silent hnone htold hsame =>
    rw [hnone]
    exact ⟨hsame, .inl ⟨rfl, htold⟩⟩
  | @aloud before after i u text hcomments hshown hsame htext htold =>
    rw [hshown]
    refine ⟨hsame.trans ?_, .inr ⟨i, ?_, rfl, u, text, htext, htold⟩⟩
    · rw [Option.toList_some, List.map_singleton, List.foldl_cons, List.foldl_nil, heed]
      split
      · have hnew : i ∉ before := by
          rw [hcomments] at hnodup
          exact fun hi => (List.nodup_append.1 hnodup).2.2 i hi i List.mem_cons_self rfl
        rw [hcomments, List.erase_append_right _ hnew, List.erase_cons_head, List.nil_append]
      · rfl
    · rw [hcomments]
      exact List.mem_append_right _ List.mem_cons_self

/-! ## A course of play -/

/-- Whatever a story is asked for, it heeds what is mentioned. -/
theorem comments_of_perform {action : Action} {answer : Answer} (hs : s.Sound)
    (hnodup : s.comments.Nodup) (h : perform w action s = some (answer, t)) :
    t.comments = (mentionsOf w action s).foldl heed s.comments := by
  cases action with
  | advance =>
    obtain ⟨r, u, hadvance, hend⟩ := Run.bind_eq_some.1 h
    cases hend
    exact comments_of_advance hadvance
  | choose index =>
    obtain ⟨r, u, hchoose, hend⟩ := Run.bind_eq_some.1 h
    cases hend
    exact ((tracks_comments w).of_choose (fun _ => hs.choices) hchoose).2
  | setVariable name v =>
    cases h
    rfl
  | pendingChoices =>
    obtain ⟨r, u, htexts, hend⟩ := Run.bind_eq_some.1 h
    cases hend
    exact ((tracks_comments w).tracking_pendingTexts _ _ _ htexts).2
  | currentComment =>
    obtain ⟨r, u, hcomment, hend⟩ := Run.bind_eq_some.1 h
    cases hend
    exact (comments_of_currentComment hnodup hcomment).1
  | addInterrupt k =>
    obtain ⟨r, rfl, hadd⟩ := addInterrupt_of_perform h
    rw [addInterrupt_eq hadd]
    rfl

/-- No action lists a comment twice. -/
theorem nodup_comments_of_perform {action : Action} {answer : Answer} (hs : s.Sound)
    (hnodup : s.comments.Nodup) (h : perform w action s = some (answer, t)) :
    t.comments.Nodup := by
  rw [comments_of_perform hs hnodup h]
  exact Mention.nodup_foldl_heed hnodup _

/-- No comment is collected twice. -/
theorem Reachable.nodup_comments {host : Host} {main : String} {permitted : Action → Prop}
    (h : Reachable host main permitted s) : s.comments.Nodup := by
  induction h with
  | @load w _ _ _ hload =>
    obtain ⟨start, sources, -, hsettle⟩ := settle_of_load hload
    rw [((tracks_comments w).tracking_settle _ _ _ hsettle).2]
    exact List.nodup_nil
  | perform hs _ _ hperform ih => exact nodup_comments_of_perform hs.sound ih hperform

/-- What is mentioned fits the comments that were collected, and the comment it is about. -/
theorem sayable_mentionsOf (w : World) (action : Action) (s : Story) :
    Sayable s.comments (mentionsOf w action s) ∧
      ∀ i dropped, shown i dropped ∈ mentionsOf w action s →
        ∃ conditions, (s.node i).kind = .comment dropped conditions := by
  have hmet (comments is : List NodeId) : Sayable comments (is.map met) := by
    induction is generalizing comments with
    | nil => trivial
    | cons i is ih => exact ⟨nofun, ih _⟩
  cases action with
  | advance =>
    refine ⟨hmet _ _, fun i dropped hi => ?_⟩
    obtain ⟨j, -, hj⟩ := List.mem_map.1 hi
    cases hj
  | currentComment =>
    rw [mentionsOf]
    cases hshown : s.shownComment? w with
    | none => exact ⟨trivial, nofun⟩
    | some j =>
      obtain ⟨hmem, hkind⟩ := mem_of_shownFrom? hshown
      constructor
      · refine ⟨fun i dropped hi => ?_, trivial⟩
        cases hi
        exact hmem
      · intro i dropped hi
        cases List.mem_singleton.1 hi
        exact hkind
  | _ => exact ⟨trivial, nofun⟩

/-- A course of play heeds what is mentioned in it, and it mentions only what can be. -/
theorem comments_of_performAll {host : Host} {main : String} (hhost : w.host = host)
    (hs : Reachable host main (fun _ => True) s)
    (h : performAll w actions s = some (answers, t)) :
    t.comments = (mentions w actions s).foldl heed s.comments ∧
      Sayable s.comments (mentions w actions s) ∧
      ∀ i dropped, shown i dropped ∈ mentions w actions s →
        ∃ conditions, (t.node i).kind = .comment dropped conditions := by
  induction actions generalizing s answers with
  | nil =>
    cases h
    exact ⟨rfl, trivial, nofun⟩
  | cons action rest ih =>
    obtain ⟨answer, u, hfirst, hrest⟩ := Run.bind_eq_some.1 h
    obtain ⟨answers', v, hrest', hend⟩ := Run.bind_eq_some.1 hrest
    cases hend
    have hu := hs.perform hhost trivial hfirst
    obtain ⟨hlater, hsayable, hkinds⟩ := ih hu hrest'
    have hheeds := comments_of_perform hs.sound hs.nodup_comments hfirst
    obtain ⟨hhere, hkind⟩ := sayable_mentionsOf w action s
    rw [mentions]
    simp only [hfirst]
    refine ⟨?_, ?_, fun i dropped hi => ?_⟩
    · rw [hlater, hheeds, List.foldl_append]
    · exact Mention.sayable_append.2 ⟨hhere, hheeds ▸ hsayable⟩
    · obtain hi | hi := List.mem_append.1 hi
      · obtain ⟨conditions, hcomment⟩ := hkind i dropped hi
        have hextends := (later_of_performAll hs hhost h).extends_content
        refine ⟨conditions, ?_⟩
        rw [node, hextends.node_eq (Content.lt_size_of_kind hcomment (by simp))]
        exact hcomment
      · exact hkinds i dropped hi

/-- No comment is collected twice. One that is to be shown each time stays once it was collected. One
that is to be shown once is dropped when it is shown, and collected again just if its line is played
again: between two times that it is shown its line is played. What is told when a story is asked for
the comment is the text of the one that is shown. -/
theorem shown_again_when_met {main : String} (hs : Reachable w.host main (fun _ => True) s)
    (h : performAll w actions s = some (answers, t)) :
    t.comments.Nodup ∧
    t.comments = (mentions w actions s).foldl heed s.comments ∧
    (∀ i dropped, shown i dropped ∈ mentions w actions s →
      ∃ conditions, (t.node i).kind = .comment dropped conditions) ∧
    (∀ before between after i dropped,
      mentions w actions s = before ++ shown i true :: (between ++ shown i dropped :: after) →
      met i ∈ between) ∧
    (∀ before after i, mentions w actions s = before ++ shown i true :: after →
      shown i true ∉ after → (i ∈ t.comments ↔ met i ∈ after)) ∧
    (∀ i conditions, (t.node i).kind = .comment false conditions →
      (i ∈ t.comments ↔ i ∈ s.comments ∨ met i ∈ mentions w actions s)) ∧
    ∀ told u, currentComment w s = some (told, u) →
      (s.shownComment? w = none ∧ told = none) ∨ ∃ i ∈ s.comments, s.shownComment? w = some i ∧
        ∃ v text, shownText w i v = some (text, u) ∧ told = some text := by
  obtain ⟨hheeds, hsayable, hkinds⟩ := comments_of_performAll rfl hs h
  have hnodup := hs.nodup_comments
  refine ⟨?_, hheeds, hkinds, ?_, ?_, ?_, fun told u hcomment =>
    (comments_of_currentComment hnodup hcomment).2⟩
  · rw [hheeds]
    exact Mention.nodup_foldl_heed hnodup _
  · intro before between after i dropped hmentions
    exact Sayable.met_between hnodup (hmentions ▸ hsayable)
  · intro before after i hmentions hlast
    have hbefore := Mention.nodup_foldl_heed hnodup before
    have hgone := Mention.not_mem_heed_shown hbefore i
    rw [hheeds, hmentions, List.foldl_append, List.foldl_cons,
      Mention.mem_foldl_heed_iff (Mention.nodup_heed hbefore _) hlast, or_iff_right hgone]
  · intro i conditions hkind
    rw [hheeds]
    refine Mention.mem_foldl_heed_iff hnodup fun hdropped => ?_
    obtain ⟨_, hother⟩ := hkinds i true hdropped
    rw [hkind] at hother
    cases hother

/-- A world in which play comes back to a line with a comment that is to be shown once. -/
def echoWorld : World :=
  ⟨.ofSources (.ofList [("echo",
    "== start\n-> room\n== room\nHi. // @* Note.\n+ [Again] -> room\n")]) fun _ => "", 4, 40⟩

/-- What a host does that asks twice for a comment each time the line was played. -/
def echoActions : List Action :=
  [.advance, .advance, .currentComment, .currentComment, .choose 0, .advance, .advance,
    .currentComment, .currentComment]

/-- The comment is shown a second time after its line was played again, and then no more. -/
theorem shown_again_echo : ∃ (s t : Story) (answers : List Answer) (i : NodeId),
    Reachable echoWorld.host "echo" (fun _ => True) s ∧
    performAll echoWorld echoActions s = some (answers, t) ∧
    mentions echoWorld echoActions s = [met i, shown i true, met i, shown i true] ∧
    (∃ conditions, (t.node i).kind = .comment true conditions) ∧ i ∉ t.comments := by
  have hplayed : (played? echoWorld "echo" 0 []).any (fun s =>
      (performAll echoWorld echoActions s).isSome = true ∧
      (s.content.find? "room.1").any (fun i => mentions echoWorld echoActions s =
        [met i, shown i true, met i, shown i true]) = true) = true := by
    decide +kernel
  obtain ⟨s, hs, hplays⟩ := (Option.any_eq_true _ _).1 hplayed
  obtain ⟨hruns, hfound⟩ := of_decide_eq_true hplays
  obtain ⟨⟨answers, t⟩, hrun⟩ := Option.isSome_iff_exists.1 hruns
  obtain ⟨i, -, hmentions⟩ := (Option.any_eq_true _ _).1 hfound
  replace hmentions := of_decide_eq_true hmentions
  have hreached : Reachable echoWorld.host "echo" (fun _ => True) s :=
    reachable_of_played? (fun _ _ => trivial) hs
  obtain ⟨-, -, hkinds, -, hlast, -⟩ := shown_again_when_met hreached hrun
  refine ⟨s, t, answers, i, hreached, hrun, hmentions, hkinds i true ?_, ?_⟩
  · rw [hmentions]
    exact List.mem_cons_of_mem _ List.mem_cons_self
  · rw [hlast [met i, shown i true, met i] [] i hmentions List.not_mem_nil]
    exact List.not_mem_nil

/-- So it is shown twice. -/
theorem shown_twice_echo : ¬ ∀ (w : World) (main : String) (s t : Story) (actions : List Action)
    (answers : List Answer) (i : NodeId), Reachable w.host main (fun _ => True) s →
      performAll w actions s = some (answers, t) →
      (mentions w actions s).count (shown i true) ≤ 1 := by
  intro hatMost
  have hplayed : (played? echoWorld "echo" 0 []).any (fun s =>
      (performAll echoWorld echoActions s).isSome = true ∧
      (s.content.find? "room.1").any (fun i =>
        (mentions echoWorld echoActions s).count (shown i true) = 2) = true) = true := by
    decide +kernel
  obtain ⟨s, hs, hplays⟩ := (Option.any_eq_true _ _).1 hplayed
  obtain ⟨hruns, hfound⟩ := of_decide_eq_true hplays
  obtain ⟨⟨answers, t⟩, hrun⟩ := Option.isSome_iff_exists.1 hruns
  obtain ⟨i, -, htwice⟩ := (Option.any_eq_true _ _).1 hfound
  have hreached : Reachable echoWorld.host "echo" (fun _ => True) s :=
    reachable_of_played? (fun _ _ => trivial) hs
  have hle := hatMost echoWorld "echo" s t echoActions answers i hreached hrun
  rw [of_decide_eq_true htwice] at hle
  exact absurd hle (by decide)

end Story

end Narrative
