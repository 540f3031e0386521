import Narrative.Proofs.Story.Alignment

/-!
# Trailing behind at comments

A comment that is omitted from a story stops the cursor of the story that has it. There the story
trails behind the one without the comment until the comment has been collected; apart from that both
play the same nodes, with the same texts.
-/

namespace Narrative

variable {omitted : NodeId → Bool}

namespace Story

/-! ## Coming to rest -/

section Settling

variable {w : World} {s t : Story} {again : Bool} {a : Unit}

/-- How a move toward rest ends. -/
inductive Stirs (s t : Story) : (again : Bool) → Prop
  /-- The cursor has to move on, and play goes on as before. -/
  | onward : t.running = s.running → t.processing = s.processing → Stirs s t true
  /-- The cursor was at rest. -/
  | still : t = s → Stirs s t false
  /-- The content has ended. -/
  | ended : t.container = none → Stirs s t false
  /-- Play waits for a choice. -/
  | waiting : t = { s with processing := false } → Stirs s t false

/-- Entering a node leaves play as it was going. -/
theorem flags_of_enter {i : NodeId} (h : enter w i s = some (a, t)) :
    t.running = s.running ∧ t.processing = s.processing := by
  obtain ⟨m, m', -, -, rfl⟩ := enter_eq_some h
  exact ⟨rfl, rfl⟩

/-- The end of a container is left in one of these ways. -/
theorem stirs_of_settleExhausted {c : NodeId} (h : settleExhausted w c s = some (again, t)) :
    s.Stirs t again := by
  rw [settleExhausted, Run.get_bind_apply] at h
  split at h
  · obtain ⟨_, u, hleave, hend⟩ := Run.bind_eq_some.1 h
    cases hleave
    cases hend
    cases hparent : (s.node c).parent with
    | none => exact .ended (by simp only [leaveBlock, hparent])
    | some p =>
      exact .onward (by simp only [leaveBlock, hparent]) (by simp only [leaveBlock, hparent])
  · split at h
    · cases h
      exact .still rfl
    · generalize (if (s.node c).isChoice || (s.node c).isGather then s.landing? c else none) =
        landing at h
      cases landing with
      | none =>
        cases h
        exact .ended rfl
      | some landing =>
        cases landing with
        | gather i =>
          obtain ⟨_, u, henter, hend⟩ := Run.bind_eq_some.1 h
          cases hend
          exact .onward (flags_of_enter henter).1 (flags_of_enter henter).2
        | choice p position =>
          cases h
          exact .onward rfl rfl

/-- Play settles at a node in one of these ways. -/
theorem stirs_of_settleAt {i : NodeId} (h : settleAt w i s = some (again, t)) :
    s.Stirs t again := by
  rw [settleAt, Run.get_bind_apply] at h
  split at h
  · obtain ⟨available, u, havailable, hrest⟩ := Run.bind_eq_some.1 h
    obtain ⟨m, -, rfl, -⟩ := changes_of_isAvailable havailable
    cases available with
    | true =>
      obtain ⟨_, v, henter, hend⟩ := Run.bind_eq_some.1 hrest
      cases hend
      exact .onward (flags_of_enter henter).1 (flags_of_enter henter).2
    | false =>
      cases hrest
      exact .onward rfl rfl
  · split at h
    · obtain ⟨_, u, henter, hend⟩ := Run.bind_eq_some.1 h
      cases hend
      exact .onward (flags_of_enter henter).1 (flags_of_enter henter).2
    · split at h
      · split at h
        · obtain ⟨_, u, henter, hend⟩ := Run.bind_eq_some.1 h
          cases hend
          exact .onward (flags_of_enter henter).1 (flags_of_enter henter).2
        · cases h
          exact .waiting rfl
      · cases h
        exact .still rfl

/-- Every move toward rest ends in one of these ways. -/
theorem stirs_of_settleOnce (h : settleOnce w s = some (again, t)) : s.Stirs t again := by
  rw [settleOnce, Run.get_bind_apply] at h
  cases hc : s.container with
  | none =>
    simp only [hc] at h
    cases h
    exact .still rfl
  | some c =>
    cases hi : s.cursor? with
    | none =>
      simp only [hc, hi] at h
      exact stirs_of_settleExhausted h
    | some i =>
      simp only [hc, hi] at h
      exact stirs_of_settleAt h

/-- At an omitted comment the cursor is at rest. -/
theorem settleOnce_of_atOmitted {k : Nat} (h : s.Aligned omitted k) (hs : s.AtOmitted omitted) :
    settleOnce w s = some (false, s) := by
  obtain ⟨i, hi, homitted⟩ := hs
  obtain ⟨c, hc, -⟩ := exists_of_cursor? hi
  have hcomment := h.isComment_of_omitted homitted
  rw [settleOnce, Run.get_bind_apply]
  simp only [hc, hi]
  rw [settleAt, Run.get_bind_apply]
  simp only [Node.isFallback, Node.isChoice_of_isComment hcomment,
    Node.isBlock_of_isComment hcomment, Node.isGather_of_isComment hcomment]
  rfl

/-- Where the cursor comes to rest by a move that does not stand at an omitted comment, it does not
stand at one. -/
theorem Stirs.not_atOmitted (h : s.Stirs t false) (hs : ¬ s.AtOmitted omitted) :
    ¬ t.AtOmitted omitted := by
  cases h with
  | still heq => exact heq ▸ hs
  | ended hend =>
    rintro ⟨i, hi, -⟩
    obtain ⟨c, hc, -⟩ := exists_of_cursor? hi
    rw [hend] at hc
    cases hc
  | waiting heq =>
    rw [heq]
    exact hs

/-- A story that stands where the one without the omitted comments does, and not at an omitted
comment. Their transcripts may differ. -/
def Abreast (omitted : NodeId → Bool) (s s' : Story) : Prop :=
  ∃ j transcript, ¬ s.AtOmitted omitted ∧ s.Aligned omitted j ∧ s' = s.without omitted j transcript

/-- A story that is abreast of the one without the omitted comments, or that stands at one of these
while the other comes to rest somewhere behind it, by a number of moves. -/
inductive Trails (omitted : NodeId → Bool) (w : World) : (moves : Nat) → Story → Story → Prop
  /-- Both have come to rest at the same place. -/
  | level {t t' : Story} : t.Abreast omitted t' → Trails omitted w 0 t t'
  /-- A comment is in front of that place. -/
  | behind {moves : Nat} {t t' : Story} {j : Nat} {transcript transcript' : List String} :
      t.AtOmitted omitted → t.hasMore = true → t.Aligned omitted j →
      moves ≤ 4 * t.content.size + 4 →
      settleWithin w moves (t.without omitted j transcript) = some ((), t') →
      Trails omitted w moves t { t' with transcript := transcript' }

/-- The story trails the one without the comments after as many moves, or fewer ones. -/
theorem trails_of_settleWithin {n k : Nat} {transcript : List String} {t' : Story}
    (h : s.Aligned omitted k) (hrunning : s.running = true) (hprocessing : s.processing = true)
    (hn : n ≤ 4 * s.content.size + 4)
    (hrun : settleWithin w n (s.without omitted k transcript) = some ((), t')) :
    ∃ t m, settleWithin w n s = some ((), t) ∧ Trails omitted w m t t' ∧
      (m < n ∨ m = n ∧ t = s) := by
  induction n generalizing s k with
  | zero => cases hrun
  | succ n ih =>
    by_cases hs : s.AtOmitted omitted
    · have hmore : s.hasMore = true := by
        obtain ⟨i, hi, -⟩ := hs
        rw [hasMore, hrunning, hprocessing, hi]
        rfl
      exact ⟨s, n + 1, by rw [settleWithin, Run.bind_apply, settleOnce_of_atOmitted h hs]; rfl,
        .behind hs hmore h hn hrun, .inr ⟨rfl, rfl⟩⟩
    · obtain ⟨again, u', honce', hrest⟩ := Run.bind_eq_some.1 hrun
      obtain ⟨u, j, honce, rfl, hu⟩ := follows_settleOnce h hs again u' honce'
      have hstirs := stirs_of_settleOnce honce
      cases again with
      | true =>
        cases hstirs with
        | onward hr hp =>
          have hmoves : s.Moves anywhere u := plays_settleOnce w s _ _ honce
          have hcontent : u.content = s.content := hmoves.content_eq
          obtain ⟨t, m, ht, htrails, hlt⟩ := ih hu (hr.trans hrunning) (hp.trans hprocessing)
            (by rw [hcontent]; omega) hrest
          exact ⟨t, m, Run.bind_eq_some.2 ⟨true, u, honce, ht⟩, htrails, .inl (by omega)⟩
      | false =>
        cases hrest
        exact ⟨u, 0, Run.bind_eq_some.2 ⟨false, u, honce, rfl⟩,
          .level ⟨_, _, hstirs.not_atOmitted hs, hu, rfl⟩, .inl (Nat.succ_pos n)⟩

end Settling

/-! ## Playing a node -/

section Playing

variable {w : World} {s t : Story} {k : Nat} {transcript : List String}

/-- Thoughts change what play goes through in blocks that calls play inside only. -/
theorem Thinks.called_or_children_eq (hthinks : s.Thinks t) (c : NodeId) :
    s.content.Called c ∧ (s.node c).isBlock = true ∨ t.children c = s.children c := by
  by_cases hcalled : s.content.Called c
  · cases hblock : (s.node c).isBlock with
    | true => exact .inl ⟨hcalled, rfl⟩
    | false =>
      have hnode : t.node c = s.node c := by rw [node, hthinks.content_eq, node]
      right
      rw [children_of_not_block hblock, children_of_not_block (hnode ▸ hblock), hnode]
  · exact .inr (hthinks.children_eq hcalled)

/-- Thoughts bring no omitted comment to the cursor. -/
theorem Aligned.not_atOmitted_of_thinks (h : s.Aligned omitted k) (hs : ¬ s.AtOmitted omitted)
    (hthinks : s.Thinks t) : ¬ t.AtOmitted omitted := by
  rintro ⟨i, hi, homitted⟩
  have hcontent : t.content = s.content := hthinks.content_eq
  obtain ⟨c, hc, hmem⟩ := exists_of_cursor? hi
  have hparent := parent_of_mem_children (hcontent ▸ h.content.tree) (List.mem_of_getElem? hmem)
  rw [node, hcontent] at hparent
  obtain ⟨hcalled, hblock⟩ | hchildren := Thinks.called_or_children_eq hthinks c
  · exact h.content.omissible.uncalled homitted hparent hblock hcalled
  · refine hs ⟨i, ?_, homitted⟩
    rw [← hi, hthinks.cursor?_eq fun c' hc' => ?_]
    rw [hthinks.eq] at hc
    cases hc.symm.trans hc'
    exact hchildren

/-- Thoughts leave it so. -/
theorem Aligned.passable_of_thinks (h : s.Aligned omitted k) (hs : s.Passable omitted)
    (hthinks : s.Thinks t) : t.Passable omitted := by
  intro c hc
  have hindex : t.index = s.index := by rw [hthinks.eq]
  have hcontainer : t.container = s.container := by rw [hthinks.eq]
  rw [hindex]
  obtain ⟨hcalled, hblock⟩ | hchildren := Thinks.called_or_children_eq hthinks c
  · have hposition := h.positionWithout_of_called hcalled hblock t.memory
    rw [children, hthinks.content_eq, hposition, hposition]
  · rw [hchildren]
    exact hs c (hcontainer ▸ hc)

/-- The arguments of a divert are evaluated alike. -/
theorem follows_evaluateArguments (h : s.Aligned omitted k) (line : Nat)
    (args : List (List Char)) :
    FollowsAttempt omitted transcript (evaluateArguments w line args)
      (evaluateArguments w line args) s k := by
  induction args generalizing s k with
  | nil => exact follows_attempt_pure h _
  | cons arg rest ih =>
    have hevaluate : Follows omitted transcript (evaluate w (String.ofList arg))
        (evaluate w (String.ofList arg)) s k :=
      follows_think h (fun _ => rfl) fun _ hctx => hctx.evalText _
    refine follows_attempt_bind (follows_lift hevaluate) fun r t j _ ht => ?_
    cases r with
    | ok v =>
      exact follows_attempt_bind (ih ht) fun _ _ _ _ hu => follows_attempt_pure hu _
    | error e => exact follows_throw ht _

/-- A knot begins with a stitch without the omitted comments if it does so with them. -/
theorem descend_without (h : s.Aligned omitted k) (i : NodeId) :
    (s.without omitted k transcript).descend i = s.descend i := by
  unfold descend
  rw [node_without, Node.isKnot_without, children_without]
  split
  · next hknot =>
    rw [children_of_not_block (Node.isBlock_of_isKnot hknot)]
    cases hchildren : (s.node i).children with
    | nil => rfl
    | cons first rest =>
      cases homitted : omitted first with
      | false =>
        rw [List.filter_cons_of_pos (by simp [homitted])]
        simp only [List.head?_cons, node_without, Node.isStitch_without]
      | true =>
        have hplain := Node.isStitch_of_isComment (h.isComment_of_omitted homitted)
        simp only [List.head?_cons, hplain, Bool.false_eq_true, if_false]
        split
        · next j hj =>
          rw [node_without, Node.isStitch_without]
          split
          · next hstitch =>
            -- the knot would begin with the stitch, and not with the comment
            have hfirst : (s.node i).children.head? = some j :=
              h.content.omissible.stitch hknot (by rw [← node, hchildren]; exact hj) hstitch
            rw [hchildren, List.head?_cons, Option.some.injEq] at hfirst
            rw [← hfirst, hplain] at hstitch
            cases hstitch
          · rfl
        · rfl
  · rfl

/-- A divert leads to the same node. -/
theorem follows_takeDivert (h : s.Aligned omitted k) (n : Node) :
    FollowsAttempt omitted transcript (takeDivert w n) (takeDivert w (n.without omitted)) s k := by
  unfold takeDivert
  simp only [Node.divertTarget?_without, Node.line_without]
  refine .ite (fun _ => follows_attempt_pure h _) fun _ => ?_
  refine follows_attempt_get ?_
  have hinterrupts : (s.without omitted k transcript).interrupts = [] := h.interrupts
  rw [hinterrupts, h.interrupts]
  refine follows_attempt_bind (follows_lift (follows_pure h _)) fun name t j _ ht => ?_
  refine .ite (fun _ => follows_attempt_pure ht _) fun _ => ?_
  refine follows_attempt_get ?_
  rw [stage_without, Stage.target?_without, Stage.qualified_without]
  have hmemory : (t.without omitted j transcript).memory = t.memory := rfl
  rw [hmemory]
  cases (t.stage w.host).target? t.memory (String.ofList name) with
  | none => exact follows_throw ht _
  | some i =>
    simp only [descend_without ht]
    exact follows_attempt_bind (follows_evaluateArguments ht _ _) fun _ _ _ _ hu =>
      follows_attempt_pure hu _

/-- What does not change what play goes through keeps a story aligned. -/
theorem Aligned.remember (h : s.Aligned omitted k) {m : Memory}
    (hm : ∀ c, m.children s.content c = s.children c) : Aligned omitted { s with memory := m } k :=
  ⟨h.content, h.interrupts, fun {c} hc =>
    (h.index_eq hc).trans (congrArg (positionWithout omitted · s.index) (hm c).symm)⟩

/-- A container is entered with the same arguments. -/
theorem follows_enterWith (h : s.Aligned omitted k) (i : NodeId) (args : List Value) :
    FollowsAttempt omitted transcript (enterWith w i args) (enterWith w i args) s k := by
  refine follows_attempt_get ?_
  simp only [node_without, Node.isSection_without, Node.params_without, Node.id_without]
  have henter {s : Story} {k : Nat} (h : s.Aligned omitted k) :
      FollowsAttempt omitted transcript (ExceptT.lift (enter w i) : Play Unit)
        (ExceptT.lift (enter w i)) s k :=
    follows_lift (follows_enter h i)
  refine .ite (fun _ => .ite (fun _ => ?_) fun _ => ?_) fun _ => henter h
  · refine .ite (fun _ => henter h) fun _ => ?_
    exact follows_attempt_bind (follows_attempt_modify
      (h.remember fun _ => Memory.children_bind ..) rfl) fun _ _ _ _ ht =>
      henter ht
  · exact follows_throw h _

/-- The same choices are offered. -/
theorem follows_addChoice (h : s.Aligned omitted k) (i : NodeId) :
    Follows omitted transcript (addChoice w i) (addChoice w i) s k := by
  refine (follows_isAvailable h i).bind fun available t j _ ht => .ite (fun _ => ?_) fun _ =>
    follows_pure ht _
  have hwithout : (t.without omitted j transcript).node i = (t.node i).without omitted :=
    node_without ..
  have hchoices : (t.without omitted j transcript).choices = t.choices := rfl
  cases hfallback : (t.node i).isFallback with
  | false =>
    refine follows_modify (j := j) ?_ ?_
    · simp only [hfallback, Bool.false_eq_true, if_false]
      exact ⟨ht.content, ht.interrupts, ht.index_eq⟩
    · simp only [hwithout, Node.isFallback_without, hfallback, Bool.false_eq_true, if_false]
      rfl
  | true =>
    cases hnone : t.choices.isEmpty with
    | false =>
      refine follows_modify (j := j) ?_ ?_
      · simp only [hfallback, hnone, Bool.false_eq_true, if_true, if_false]
        exact ht
      · simp only [hwithout, Node.isFallback_without, hfallback, hchoices, hnone,
          Bool.false_eq_true, if_true, if_false]
    | true =>
      refine follows_modify (j := 0) ?_ ?_
      · simp only [hfallback, hnone, if_true]
        exact ht.enter rfl ht.interrupts rfl
      · simp only [hwithout, Node.isFallback_without, hfallback, hchoices, hnone, if_true]
        rfl

/-- A comment that stays is collected in both. -/
theorem addComment_without {i : NodeId} (hi : omitted i = false) :
    (s.without omitted k transcript).addComment i =
      (s.addComment i).without omitted k transcript := by
  have hcontains : (s.comments.filter (!omitted ·)).contains i = s.comments.contains i := by
    simp [hi]
  change (if (s.comments.filter (!omitted ·)).contains i then _ else _) = _
  rw [hcontains, addComment]
  split
  · rfl
  · have hfilter : (s.comments ++ [i]).filter (!omitted ·) =
        s.comments.filter (!omitted ·) ++ [i] := by
      rw [List.filter_append, List.filter_cons_of_pos (by simp [hi]), List.filter_nil]
    simp only [without, hfilter]
    rfl

/-- Collecting a comment keeps a story aligned. -/
theorem Aligned.addComment (h : s.Aligned omitted k) (i : NodeId) :
    (s.addComment i).Aligned omitted k := by
  unfold Story.addComment
  split
  · exact h
  · exact ⟨h.content, h.interrupts, h.index_eq⟩

/-- A node that stays has the same effect. -/
theorem follows_resolve (h : s.Aligned omitted k) {i : NodeId} (hi : omitted i = false) :
    FollowsAttempt omitted transcript (resolve w i) (resolve w i) s k := by
  refine follows_attempt_get ?_
  simp only [node_without, Node.isDivert_without, Node.text_without, Node.line_without]
  rw [Node.without]
  simp only
  cases (s.node i).kind with
  | text =>
    refine .ite (fun _ => follows_attempt_pure h _) fun _ => ?_
    refine follows_attempt_bind (follows_lift (follows_expand h _ _)) fun text t j _ ht => ?_
    exact follows_attempt_bind
      (follows_attempt_modify (ht.remember fun _ => Memory.children_visit ..) rfl)
      fun _ _ _ _ hu => follows_attempt_pure hu _
  | choice repeatable conditions =>
    exact follows_attempt_bind (follows_lift (follows_addChoice h i)) fun _ _ _ _ ht =>
      follows_attempt_pure ht _
  | comment once conditions =>
    exact follows_attempt_bind (follows_attempt_modify (h.addComment i) (addComment_without hi))
      fun _ _ _ _ ht => follows_attempt_pure ht _
  | statement t =>
    have hexecute : FollowsAttempt omitted transcript
        (act w fun stage ctx => stage.execute ctx (s.node i).line t)
        (act w fun stage ctx => stage.execute ctx (s.node i).line t) s k :=
      follows_think (f := fun stage ctx => (stage.execute ctx (s.node i).line t).run)
        (g := fun stage ctx => (stage.execute ctx (s.node i).line t).run) h
        (fun ctx => congrArg ExceptT.run (Stage.execute_without omitted _ ctx _ t))
        fun _ hctx => (Memory.changing_governs s.content).execute rfl hctx _ _
    exact follows_attempt_bind hexecute fun _ _ _ _ ht => follows_attempt_pure ht _
  | _ => exact follows_attempt_pure h _

/-- Playing a node leaves the cursor, or offers a choice, or enters a fallback choice. -/
theorem resolve_eq_some {i : NodeId} {r : Except StoryError (List Char)}
    (h : resolve w i s = some (r, t)) :
    s.Thinks t ∨ ∃ m, Memory.Changes s.content s.memory m ∧
      (t = { s with memory := m, choices := s.choices ++ [i] } ∨
        t = { s with container := some i, index := 0, memory := m.visit i }) := by
  by_cases hchoice : (s.node i).isChoice = true
  · rw [resolve_of_isChoice hchoice] at h
    obtain ⟨⟨a, u⟩, hadd, heq⟩ := Option.map_eq_some_iff.1 h
    cases heq
    obtain ⟨available, v, havailable, hrest⟩ := Run.bind_eq_some.1 hadd
    obtain ⟨m, hchanges, rfl, -⟩ := changes_of_isAvailable havailable
    have hthinks : s.Thinks { s with memory := m } := .single (.think hchanges)
    cases available with
    | false =>
      cases hrest
      exact .inl hthinks
    | true =>
      cases hrest
      simp only
      split
      · split
        · exact .inr ⟨m, hchanges, .inr rfl⟩
        · exact .inl hthinks
      · exact .inr ⟨m, hchanges, .inl rfl⟩
  · exact .inl (plays_resolve (Bool.eq_false_iff.2 hchoice) _ _ h)

/-- What a node does leaves the content. -/
theorem content_eq_of_resolve {i : NodeId} {r : Except StoryError (List Char)}
    (h : resolve w i s = some (r, t)) : t.content = s.content := by
  obtain hthinks | ⟨m, -, rfl | rfl⟩ := resolve_eq_some h
  · exact hthinks.content_eq
  · rfl
  · rfl

/-- A node is not played where what it does fails. -/
theorem playNode_of_resolve_error {i : NodeId} {e : StoryError}
    (h : resolve w i s = some (.error e, t)) : playNode w i s = some (.error e, t) := by
  rw [playNode, Attempt.bind_apply, h, Option.bind_some]

/-- A node that is no divert is played by doing what it does and passing it. -/
theorem playNode_of_resolve {i : NodeId} {u : Story} {text : List Char}
    (hi : (s.node i).isDivert = false) (hresolve : resolve w i s = some (.ok text, u))
    (hcontent : u.content = s.content) (hsettle : settle w (u.pass i) = some ((), t)) :
    playNode w i s = some (.ok text, t) := by
  have hi' : (u.node i).isDivert = false := by rw [node, hcontent]; exact hi
  rw [playNode, Attempt.bind_apply, hresolve, Option.bind_some]
  simp only
  rw [Attempt.bind_apply, step_of_not_isDivert hi', hsettle]
  rfl

/-- Where the one without the omitted comments comes to rest, the story that has them does, too, or
trails behind. -/
theorem trails_of_settle {t' : Story} (h : s.Aligned omitted k) (hrunning : s.running = true)
    (hprocessing : s.processing = true)
    (hrun : settle w (s.without omitted k transcript) = some ((), t')) :
    ∃ t m, settle w s = some ((), t) ∧ Trails omitted w m t t' := by
  change settleWithin w (4 * (s.content.without omitted).size + 4) _ = _ at hrun
  rw [Content.size_without] at hrun
  obtain ⟨t, m, hsettle, htrails, -⟩ :=
    trails_of_settleWithin h hrunning hprocessing (Nat.le_refl _) hrun
  exact ⟨t, m, hsettle, htrails⟩

/-- The cursor is at no omitted node where the node stays. -/
theorem not_atOmitted_of_cursor? {i : NodeId} (hi : s.cursor? = some i)
    (hkept : omitted i = false) : ¬ s.AtOmitted omitted := by
  rintro ⟨j, hj, homitted⟩
  cases hi.symm.trans hj
  rw [hkept] at homitted
  cases homitted

/-- Where a node has been played, play goes on, and the node can be passed. -/
theorem Aligned.of_resolve (h : s.Aligned omitted k) {i : NodeId} {u : Story}
    {r : Except StoryError (List Char)} (hmore : s.hasMore = true) (hi : s.cursor? = some i)
    (hkept : omitted i = false) (hresolve : resolve w i s = some (r, u)) :
    u.running = true ∧ u.processing = true ∧ (u.container = some i ∨ u.Passable omitted) := by
  have hpassable := h.passable hi hkept
  rw [hasMore, Bool.and_eq_true_iff, Bool.and_eq_true_iff] at hmore
  obtain ⟨⟨hprocessing, hrunning⟩, -⟩ := hmore
  obtain hthinks | ⟨m, hchanges, rfl | rfl⟩ := resolve_eq_some hresolve
  · have hpassable' := h.passable_of_thinks hpassable hthinks
    rw [hthinks.eq] at hpassable' ⊢
    exact ⟨hrunning, hprocessing, .inr hpassable'⟩
  · exact ⟨hrunning, hprocessing, .inr (h.passable_think hpassable hchanges)⟩
  · exact ⟨hrunning, hprocessing, .inl rfl⟩

/-- A node is passed with the omitted comments and without them. -/
theorem Aligned.pass_without (h : s.Aligned omitted k) {i : NodeId}
    (hpass : s.container = some i ∨ s.Passable omitted) :
    ∃ l, (s.pass i).Aligned omitted l ∧
      (s.without omitted k transcript).pass i = (s.pass i).without omitted l transcript := by
  by_cases hentered : s.container = some i
  · have hentered' : (s.without omitted k transcript).container = some i := hentered
    refine ⟨k, ?_, ?_⟩
    · rw [Story.pass, if_pos hentered]
      exact h
    · rw [Story.pass, if_pos hentered', Story.pass, if_pos hentered]
  · have hentered' : ¬ (s.without omitted k transcript).container = some i := hentered
    refine ⟨k + 1, ?_, ?_⟩
    · rw [Story.pass, if_neg hentered]
      exact h.pass (hpass.resolve_left hentered)
    · rw [Story.pass, if_neg hentered', Story.pass, if_neg hentered]
      rfl

/-- Where a node is played that leads nowhere, the story with the omitted comments plays it, too. -/
theorem trails_of_playNode_of_not_isDivert {i : NodeId} {r : Except StoryError (List Char)}
    {t' : Story} (h : s.Aligned omitted k) (hmore : s.hasMore = true) (hi : s.cursor? = some i)
    (hkept : omitted i = false) (hdivert : (s.node i).isDivert = false)
    (hrun : playNode w i (s.without omitted k transcript) = some (r, t')) :
    ∃ t m, playNode w i s = some (r, t) ∧ Trails omitted w m t t' := by
  have hs := not_atOmitted_of_cursor? hi hkept
  cases hresolve' : resolve w i (s.without omitted k transcript) with
  | none =>
    rw [playNode, Attempt.bind_apply, hresolve'] at hrun
    cases hrun
  | some result =>
    obtain ⟨resolved, u'⟩ := result
    obtain ⟨u, j, hresolve, rfl, hu⟩ := follows_resolve h hkept resolved u' hresolve'
    cases resolved with
    | error e =>
      rw [playNode_of_resolve_error hresolve'] at hrun
      cases hrun
      exact ⟨u, 0, playNode_of_resolve_error hresolve, .level ⟨_, _,
        h.not_atOmitted_of_thinks hs (thinks_of_resolve_error hresolve), hu, rfl⟩⟩
    | ok text =>
      have hcontent := content_eq_of_resolve hresolve
      obtain ⟨hrunning, hprocessing, hpass⟩ := h.of_resolve hmore hi hkept hresolve
      obtain ⟨rfl, hsettle'⟩ := settle_of_playNode
        (by rw [node_without, Node.isDivert_without]; exact hdivert) hresolve'
        (content_eq_of_resolve hresolve') hrun
      obtain ⟨l, haligned, heq⟩ := hu.pass_without hpass
      rw [heq] at hsettle'
      have hkeeps : (u.pass i).running = true ∧ (u.pass i).processing = true := by
        unfold pass
        split <;> exact ⟨hrunning, hprocessing⟩
      obtain ⟨t, m, hsettle, htrails⟩ :=
        trails_of_settle haligned hkeeps.1 hkeeps.2 hsettle'
      exact ⟨t, m, playNode_of_resolve hdivert hresolve hcontent hsettle, htrails⟩

/-- What is left of a step that leads to a target: it is entered, and the choices are given up. -/
def divertTo (w : World) (target : NodeId) (args : List Value) : Play Unit := do
  enterWith w target args
  modify fun s => { s with choices := [] }
  settle w

/-- Where the target of a divert is entered, the story with the omitted comments enters it, too. -/
theorem trails_of_divertTo {target : NodeId} {args : List Value} {r : Except StoryError Unit}
    {t' : Story} (h : s.Aligned omitted k) (hs : ¬ s.AtOmitted omitted)
    (hrunning : s.running = true) (hprocessing : s.processing = true)
    (hrun : divertTo w target args (s.without omitted k transcript) = some (r, t')) :
    ∃ t m, divertTo w target args s = some (r, t) ∧ Trails omitted w m t t' := by
  rw [divertTo, Attempt.bind_apply, Option.bind_eq_some_iff] at hrun
  obtain ⟨⟨entered, v'⟩, henter', hrun⟩ := hrun
  obtain ⟨v, l, henter, rfl, hv⟩ := follows_enterWith h target args entered v' henter'
  rw [divertTo, Attempt.bind_apply, henter, Option.bind_some]
  obtain ⟨e, rfl, rfl⟩ | ⟨rfl, m, m', -, -, rfl⟩ := enterWith_eq_some henter
  · cases hrun
    exact ⟨v, 0, rfl, .level ⟨_, _, hs, hv, rfl⟩⟩
  · simp only at hrun ⊢
    rw [Attempt.modify_bind_apply] at hrun ⊢
    change (ExceptT.lift (settle w) : Play Unit) _ = _ at hrun
    change ∃ t m, (ExceptT.lift (settle w) : Play Unit) _ = _ ∧ _
    rw [Attempt.lift_apply] at hrun
    obtain ⟨⟨_, x'⟩, hsettle', heq⟩ := Option.map_eq_some_iff.1 hrun
    cases heq
    have hcleared : Aligned omitted
        { ({ s with memory := m' }.moveInto target) with choices := [] } l :=
      ⟨hv.content, hv.interrupts, hv.index_eq⟩
    obtain ⟨t, n, hsettle, htrails⟩ := trails_of_settle hcleared hrunning hprocessing hsettle'
    refine ⟨t, n, ?_, htrails⟩
    rw [Attempt.lift_apply, hsettle]
    rfl

/-- Where a divert is taken, the story with the omitted comments takes it, too. -/
theorem trails_of_step_of_isDivert {i : NodeId} {r : Except StoryError Unit} {t' : Story}
    (h : s.Aligned omitted k) (hs : ¬ s.AtOmitted omitted) (hrunning : s.running = true)
    (hprocessing : s.processing = true) (hdivert : (s.node i).isDivert = true)
    (hrun : step w i (s.without omitted k transcript) = some (r, t')) :
    ∃ t m, step w i s = some (r, t) ∧ Trails omitted w m t t' := by
  rw [step, Attempt.get_bind_apply, node_without] at hrun
  simp only [Node.isDivert_without, hdivert, if_true] at hrun
  rw [step, Attempt.get_bind_apply]
  simp only [hdivert, if_true]
  rw [Attempt.bind_apply, Option.bind_eq_some_iff] at hrun
  obtain ⟨⟨taken, u'⟩, htake', hrun⟩ := hrun
  obtain ⟨u, j, htake, rfl, hu⟩ := follows_takeDivert h (s.node i) taken u' htake'
  have hthinks : s.Thinks u := plays_takeDivert w _ s _ _ htake
  have hu' : ¬ u.AtOmitted omitted := h.not_atOmitted_of_thinks hs hthinks
  rw [Attempt.bind_apply, htake, Option.bind_some]
  cases taken with
  | error e =>
    cases hrun
    exact ⟨u, 0, rfl, .level ⟨_, _, hu', hu, rfl⟩⟩
  | ok target =>
    cases target with
    | none =>
      cases hrun
      have hover : u.finish.Aligned omitted j := hu.over rfl hu.interrupts rfl
      have hnowhere : ¬ u.finish.AtOmitted omitted := by
        rintro ⟨i, hi, -⟩
        cases hi
      exact ⟨u.finish, 0, rfl, .level ⟨_, transcript, hnowhere, hover, rfl⟩⟩
    | some found =>
      obtain ⟨target, args⟩ := found
      have hflags : u.running = true ∧ u.processing = true := by
        rw [hthinks.eq]
        exact ⟨hrunning, hprocessing⟩
      exact trails_of_divertTo hu hu' hflags.1 hflags.2 hrun

/-- Where a node is played that is not omitted, the story with the omitted comments plays it, too,
with the same text. -/
theorem trails_of_playNode {i : NodeId} {r : Except StoryError (List Char)} {t' : Story}
    (h : s.Aligned omitted k) (hmore : s.hasMore = true) (hi : s.cursor? = some i)
    (hkept : omitted i = false)
    (hrun : playNode w i (s.without omitted k transcript) = some (r, t')) :
    ∃ t m, playNode w i s = some (r, t) ∧ Trails omitted w m t t' := by
  cases hdivert : (s.node i).isDivert with
  | false => exact trails_of_playNode_of_not_isDivert h hmore hi hkept hdivert hrun
  | true =>
    have hs := not_atOmitted_of_cursor? hi hkept
    have hdivert' : ((s.without omitted k transcript).node i).isDivert = true := by
      rw [node_without, Node.isDivert_without]
      exact hdivert
    rw [hasMore, Bool.and_eq_true_iff, Bool.and_eq_true_iff] at hmore
    rw [playNode, Attempt.bind_apply, resolve_of_isDivert hdivert', Option.bind_some] at hrun
    simp only at hrun
    rw [Attempt.bind_apply, Option.bind_eq_some_iff] at hrun
    obtain ⟨⟨stepped, u'⟩, hstep', hrun⟩ := hrun
    obtain ⟨t, m, hstep, htrails⟩ :=
      trails_of_step_of_isDivert h hs hmore.1.2 hmore.1.1 hdivert hstep'
    rw [playNode, Attempt.bind_apply, resolve_of_isDivert hdivert, Option.bind_some]
    simp only
    rw [Attempt.bind_apply, hstep, Option.bind_some]
    cases stepped with
    | error e =>
      cases hrun
      exact ⟨t, m, rfl, htrails⟩
    | ok a =>
      cases hrun
      exact ⟨t, m, rfl, htrails⟩

end Playing

/-! ## Catching up -/

section CatchingUp

variable {w : World} {s t : Story} {k m n : Nat}

/-- With more moves at hand play comes to rest at the same place. -/
theorem settleWithin_mono (hle : m ≤ n) (h : settleWithin w m s = some ((), t)) :
    settleWithin w n s = some ((), t) := by
  induction m generalizing s n with
  | zero => cases h
  | succ m ih =>
    obtain ⟨n, rfl⟩ : ∃ l, n = l + 1 := ⟨n - 1, by omega⟩
    obtain ⟨again, u, honce, hrest⟩ := Run.bind_eq_some.1 h
    refine Run.bind_eq_some.2 ⟨again, u, honce, ?_⟩
    cases again with
    | true => exact ih (by omega) hrest
    | false => exact hrest

/-- A comment at the cursor is collected, which adds no text. -/
def Notes (w : World) (s t : Story) : Prop :=
  ∃ i, s.hasMore = true ∧ s.cursor? = some i ∧ (s.node i).isComment = true ∧
    playNode w i s = some (.ok [], t)

/-- Collecting a comment shows no text. -/
theorem Notes.transcript_eq (h : s.Notes w t) : t.transcript = s.transcript := by
  obtain ⟨i, hmore, hi, -, hplay⟩ := h
  have hmoves : s.Moves anywhere t := plays_playNode hmore hi (fun _ _ => trivial) _ _ hplay
  exact hmoves.steady.transcript

/-- How many nodes are left in the container from the cursor on. -/
def left (s : Story) : Nat :=
  s.container.elim 0 fun c => (s.children c).length - s.index

/-- Collecting a comment changes what was collected only. -/
theorem addComment_eq (s : Story) (i : NodeId) :
    s.addComment i = { s with comments := (s.addComment i).comments } := by
  unfold addComment
  split <;> rfl

/-- An omitted comment that is collected is none of the others. -/
theorem filter_comments_addComment {i : NodeId} (hi : omitted i = true) :
    (s.addComment i).comments.filter (!omitted ·) = s.comments.filter (!omitted ·) := by
  unfold addComment
  split
  · rfl
  · rw [List.filter_append, List.filter_cons_of_neg (by simp [hi]), List.filter_nil,
      List.append_nil]

/-- A comment is collected and adds no text. -/
theorem resolve_of_isComment {i : NodeId} (hi : (s.node i).isComment = true) :
    resolve w i s = some (.ok [], s.addComment i) := by
  obtain ⟨once, conditions, hkind⟩ := Node.kind_of_isComment hi
  rw [resolve, Attempt.get_bind_apply]
  simp only [hkind]
  rfl

/-- Collect comment `i` and leave it behind. -/
def note (s : Story) (i : NodeId) : Story := { s.addComment i with index := s.index + 1 }

/-- A comment that is omitted leaves no trace without the omitted comments. -/
theorem note_without {transcript : List String} {i : NodeId} (hi : omitted i = true) :
    (s.note i).without omitted k transcript = s.without omitted k transcript := by
  rw [note, addComment_eq]
  simp only [without, filter_comments_addComment hi]
  rfl

/-- A story stays aligned when it passes an omitted comment. -/
theorem Aligned.note (h : s.Aligned omitted k) {i : NodeId} (hi : s.cursor? = some i)
    (homitted : omitted i = true) : (s.note i).Aligned omitted k := by
  obtain ⟨c, hc, hmem⟩ := exists_of_cursor? hi
  rw [Story.note, addComment_eq]
  refine ⟨h.content, h.interrupts, fun {c'} hc' => ?_⟩
  cases hc.symm.trans hc'
  exact (h.index_eq hc).trans
    (positionWithout_succ_of_omitted (h.length_children c) hmem homitted).symm

/-- The node at the cursor is not the container that the cursor is in. -/
theorem Aligned.pass_addComment (h : s.Aligned omitted k) {i : NodeId} (hi : s.cursor? = some i) :
    (s.addComment i).pass i = s.note i := by
  obtain ⟨c, hc, hmem⟩ := exists_of_cursor? hi
  have hci : c < i :=
    h.content.tree.descends.lt (parent_of_mem_children h.content.tree (List.mem_of_getElem? hmem))
  have hcontainer : ¬ (s.addComment i).container = some i := by
    rw [addComment_eq]
    simp only [hc, Option.some.injEq]
    exact Nat.ne_of_lt hci
  rw [Story.pass, if_neg hcontainer, Story.note, addComment_eq]

/-- Less is left behind a comment that is passed. -/
theorem left_note_lt {i : NodeId} (hi : s.cursor? = some i) : (s.note i).left < s.left := by
  obtain ⟨c, hc, hmem⟩ := exists_of_cursor? hi
  have hlt := (List.getElem?_eq_some_iff.1 hmem).1
  have hbefore : s.left = (s.children c).length - s.index := by
    rw [left, hc]
    rfl
  have hafter : (s.note i).left = (s.children c).length - (s.index + 1) := by
    rw [left, note, addComment_eq]
    simp only [hc]
    rfl
  omega

/-- An omitted comment is collected by the story that has it, while nothing changes in the one
without it. -/
theorem notes_of_atOmitted {transcript : List String} {s' : Story} (h : s.Aligned omitted k)
    (hs : s.AtOmitted omitted) (hmore : s.hasMore = true) (hm : m ≤ 4 * s.content.size + 4)
    (hrun : settleWithin w m (s.without omitted k transcript) = some ((), s')) :
    ∃ t n, s.Notes w t ∧ Trails omitted w n t s' ∧ (n < m ∨ n = m ∧ t.left < s.left) := by
  obtain ⟨i, hi, homitted⟩ := hs
  have hcomment := h.isComment_of_omitted homitted
  have hcontent : (s.addComment i).content = s.content := by
    rw [addComment_eq]
    rfl
  obtain ⟨hrunning, hprocessing⟩ : (s.note i).running = true ∧ (s.note i).processing = true := by
    rw [hasMore, Bool.and_eq_true_iff, Bool.and_eq_true_iff] at hmore
    rw [note, addComment_eq]
    exact ⟨hmore.1.2, hmore.1.1⟩
  have hm' : m ≤ 4 * (s.note i).content.size + 4 := by
    change m ≤ 4 * (s.addComment i).content.size + 4
    rw [hcontent]
    exact hm
  rw [← note_without homitted] at hrun
  obtain ⟨t, n, hsettle, htrails, hless⟩ :=
    trails_of_settleWithin (h.note hi homitted) hrunning hprocessing hm' hrun
  have hplay : playNode w i s = some (.ok [], t) := by
    refine playNode_of_resolve (Node.isDivert_of_isComment hcomment)
      (resolve_of_isComment hcomment) hcontent ?_
    rw [h.pass_addComment hi]
    exact settleWithin_mono hm' hsettle
  refine ⟨t, n, ⟨i, hmore, hi, hcomment, hplay⟩, htrails, hless.imp_right ?_⟩
  rintro ⟨rfl, rfl⟩
  exact ⟨rfl, left_note_lt hi⟩

/-- The story with the omitted comments catches up with the one without them, and does so by
collecting comments. -/
theorem Trails.catches_up {s' : Story} (h : Trails omitted w m s s') :
    ∃ t, Relation.ReflTransGen (Notes w) s t ∧ t.Abreast omitted s' := by
  induction m using Nat.strongRecOn generalizing s s' with
  | ind m ihMoves =>
    generalize hleft : s.left = left
    induction left using Nat.strongRecOn generalizing s s' with
    | ind left ihLeft =>
      cases h with
      | level habreast => exact ⟨s, .refl, habreast⟩
      | @behind _ _ s' _ _ _ hs hmore haligned hm hrun =>
        obtain ⟨u, n, hnotes, htrails, hless⟩ := notes_of_atOmitted haligned hs hmore hm hrun
        obtain ⟨t, hsteps, j, transcript, ht, htaligned, heq⟩ :
            ∃ t, Relation.ReflTransGen (Notes w) u t ∧ t.Abreast omitted s' := by
          obtain hlt | ⟨rfl, hlt⟩ := hless
          · exact ihMoves n hlt htrails
          · exact ihLeft u.left (hleft ▸ hlt) htrails rfl
        exact ⟨t, .head hnotes hsteps, j, _, ht, htaligned, by rw [heq]; rfl⟩

end CatchingUp

end Story

end Narrative
