import Narrative.Proofs.Story.Copying
import Narrative.Proofs.Story.Playthrough

/-!
# Playing a copy of the content

A story is played in the same way with a copy of its content: the player meets the same texts, the
same choices and the same end, whichever choices are taken.
-/

namespace Narrative

variable {place : NodeId → NodeId}

/-! ## Stories in a copy -/

/-- The content `c` in the world `w'` is a copy of the content `d` in the world `w`, where the worlds
differ in their sources only. -/
structure Retelling (place : NodeId → NodeId) (w' w : World) (c d : Content) : Prop where
  /-- The content is copied. -/
  copies : c.Copies place d
  /-- It can be. -/
  portable : d.IsPortable
  /-- Objects have the same methods. -/
  method : w'.host.method = w.host.method
  /-- The same numbers are drawn. -/
  random : w'.host.random = w.host.random
  /-- Calls nest as deeply. -/
  depth : w'.depth = w.depth
  /-- As many nodes are played in a row. -/
  steps : w'.steps = w.steps

/-- The player meets the same at two stops: the same texts, the same choices and the same end. Both
were reached by an error, or none was. -/
structure Stop.Agrees (stop stop' : Stop) : Prop where
  /-- Both are errors, or none is. -/
  outcome : stop.outcome.isOk = stop'.outcome.isOk
  /-- The texts shown. -/
  transcript : stop.transcript = stop'.transcript
  /-- The texts of the choices. -/
  choices : stop.choices = stop'.choices
  /-- Whether the story is over. -/
  isEnded : stop.isEnded = stop'.isEnded

/-- The landing in the copy. -/
def Landing.moved (place : NodeId → NodeId) : Landing → Landing
  | gather i => gather (place i)
  | choice parent position => choice (place parent) position

namespace Story

/-- The story `t`, of content `c`, has come as far as the story `s`, of content `d`, and play is at
the copy of the place. Only the comments collected may differ. -/
structure Retells (place : NodeId → NodeId) (c d : Content) (t s : Story) : Prop where
  /-- What the story tells. -/
  told : s.content = d
  /-- What the copy tells. -/
  retold : t.content = c
  /-- No interrupt was added to the story. -/
  undisturbed : s.interrupts = []
  /-- Nor to the copy. -/
  undisturbed' : t.interrupts = []
  /-- Play is in the copy of the container. -/
  container : t.container = s.container.map place
  /-- It is at the same position there. -/
  index : t.index = s.index
  /-- The same texts were shown. -/
  transcript : t.transcript = s.transcript
  /-- The copies of the choices are pending. -/
  choices : t.choices = s.choices.map place
  /-- The background is the same. -/
  background : t.background = s.background
  /-- Both have been led to the end, or none has. -/
  running : t.running = s.running
  /-- Both wait for a choice, or none does. -/
  processing : t.processing = s.processing
  /-- The copies are marked like the nodes. -/
  memory : t.memory.Copies place s.memory

/-- Computations on a story and on one with a copy of its content: where the first one ends, the
second one does. -/
def retelling (place : NodeId → NodeId) (c d : Content) : Coupling Story Story :=
  .leading fun s t => t.Retells place c d s

/-- Computations are repeated on a copy. -/
abbrev Repeats {α β : Type} (place : NodeId → NodeId) (c d : Content) (Q : α → β → Prop)
    (x : Run Story α) (y : Run Story β) : Prop :=
  (retelling place c d).Couples Q x y

/-- Computations that may fail are repeated on a copy; they fail in the same place. -/
abbrev Attempts {α β : Type} (place : NodeId → NodeId) (c d : Content) (Q : α → β → Prop)
    (x : Play α) (y : Play β) : Prop :=
  (retelling place c d).CouplesAttempt (fun _ _ => True) Q x y

/-- A node has the same position among the copies. -/
theorem positionAfter_map (hinjective : Function.Injective place) (is : List NodeId) (i : NodeId) :
    positionAfter (is.map place) (place i) = positionAfter is i := by
  unfold positionAfter
  rw [List.findIdx?_map]
  refine congrArg (fun p => ((List.findIdx? p is).map (· + 1)).getD beyondAll) (funext fun j => ?_)
  rw [Function.comp_apply, Bool.eq_iff_iff, beq_iff_eq, beq_iff_eq, hinjective.eq_iff]

namespace Retells

variable {c d : Content} {t s : Story} (hcopies : c.Copies place d) (h : t.Retells place c d s)

include hcopies h

/-- A node and its copy, as the two stories know them. -/
theorem node (i : NodeId) : (t.node (place i)).Copies place (s.node i) := by
  rw [Story.node, Story.node, h.told, h.retold]
  exact hcopies.node i

/-- The copies of what is played inside a node are what is played inside its copy. -/
theorem children (i : NodeId) : t.children (place i) = (s.children i).map place := by
  rw [Story.children, Story.children, h.told, h.retold, h.memory.children hcopies]

/-- The cursor is at the copy of the node. -/
theorem cursor? : t.cursor? = s.cursor?.map place := by
  unfold Story.cursor?
  rw [h.container, h.index]
  cases s.container with
  | none => rfl
  | some i =>
    rw [Option.map_some, Option.bind_some, Option.bind_some, h.children hcopies]
    split
    · exact List.getElem?_map
    · rfl

/-- The copy of the current node is current. -/
theorem current? : t.current? = s.current?.map place := by
  unfold Story.current?
  rw [h.running, h.cursor? hcopies]
  split <;> rfl

/-- One of them can go on just when the other one can. -/
theorem hasMore : t.hasMore = s.hasMore := by
  rw [Story.hasMore, h.processing, h.running, h.cursor? hcopies, Option.isSome_map, Story.hasMore]

omit hcopies in
/-- One of them has ended just when the other one has. -/
theorem isEnded : t.isEnded = s.isEnded := by
  rw [Story.isEnded, Story.isEnded, h.container, Option.isNone_map]

omit hcopies in
/-- Memories that copy each other may be put in place of what the two remember. -/
theorem withMemory {m' m : Memory} (hm : m'.Copies place m) :
    Retells place c d { t with memory := m' } { s with memory := m } :=
  ⟨h.told, h.retold, h.undisturbed, h.undisturbed', h.container, h.index, h.transcript, h.choices,
    h.background, h.running, h.processing, hm⟩

omit hcopies in
/-- The cursor is moved alike. -/
theorem movedTo (here : Option NodeId) (index : Nat) :
    Retells place c d { t with container := here.map place, index }
      { s with container := here, index } :=
  ⟨h.told, h.retold, h.undisturbed, h.undisturbed', rfl, rfl, h.transcript, h.choices,
    h.background, h.running, h.processing, h.memory⟩

omit hcopies in
/-- Both run out of what can be played. -/
theorem runOut : t.runOut.Retells place c d s.runOut :=
  ⟨h.told, h.retold, h.undisturbed, h.undisturbed', rfl, h.index, h.transcript, h.choices,
    h.background, h.running, h.processing, h.memory⟩

omit hcopies in
/-- Both go past the current node. -/
theorem passed : Retells place c d { t with index := t.index + 1 } { s with index := s.index + 1 } :=
  ⟨h.told, h.retold, h.undisturbed, h.undisturbed', h.container, congrArg (· + 1) h.index,
    h.transcript, h.choices, h.background, h.running, h.processing, h.memory⟩

omit hcopies in
/-- Both come to wait for a choice, or go on. -/
theorem waiting : Retells place c d { t with processing := false } { s with processing := false } :=
  ⟨h.told, h.retold, h.undisturbed, h.undisturbed', h.container, h.index, h.transcript, h.choices,
    h.background, h.running, rfl, h.memory⟩

/-- A visit of a node is remembered in its copy. -/
theorem visit (i : NodeId) : (t.memory.visit (place i)).Copies place (s.memory.visit i) :=
  h.memory.visit hcopies.injective i

/-- Both move into a container. -/
theorem moveInto (i : NodeId) : (t.moveInto (place i)).Retells place c d (s.moveInto i) where
  told := h.told
  retold := h.retold
  undisturbed := h.undisturbed
  undisturbed' := h.undisturbed'
  container := rfl
  index := rfl
  transcript := h.transcript
  choices := h.choices
  background := by
    change ((t.node (place i)).background <|> t.background) =
      ((s.node i).background <|> s.background)
    rw [(h.node hcopies i).background, h.background]
  running := h.running
  processing := h.processing
  memory := h.visit hcopies i

/-! ### The cursor -/

/-- Among the copies of some children, play lands at the copy of the one it lands at. -/
theorem landingAmong? (parent : NodeId) (takesChoice : Bool) (position : Nat) (is : List NodeId) :
    t.landingAmong? (place parent) takesChoice position (is.map place) =
      (s.landingAmong? parent takesChoice position is).map (·.moved place) := by
  induction is generalizing position with
  | nil => rfl
  | cons i rest ih =>
    rw [List.map_cons, Story.landingAmong?, Story.landingAmong?, (h.node hcopies i).isGather,
      (h.node hcopies i).isChoice, ih]
    split
    · rfl
    · split <;> rfl

/-- Looking upward, play lands at a copy of where it lands. -/
theorem landingAbove? (takesChoice : Bool) (line : List NodeId) :
    t.landingAbove? takesChoice (line.map place) =
      (s.landingAbove? takesChoice line).map (·.moved place) := by
  induction line generalizing takesChoice with
  | nil => rfl
  | cons child line ih =>
    cases line with
    | nil => rfl
    | cons parent above =>
      have hsiblings := h.children hcopies parent
      have hamong := h.landingAmong? hcopies parent takesChoice
        (positionAfter (s.children parent) child)
        ((s.children parent).drop (positionAfter (s.children parent) child))
      simp only [List.map_cons, Story.landingAbove?] at ih ⊢
      rw [hsiblings, positionAfter_map hcopies.injective, ← List.map_drop, hamong, ih]
      simp only [Option.orElse_eq_orElse, Option.orElse_eq_or, Option.map_or]

/-- What follows a container that was played to its end is copied. -/
theorem landing? (i : NodeId) :
    t.landing? (place i) = (s.landing? i).map (·.moved place) := by
  rw [Story.landing?, (h.node hcopies i).isGather, h.retold, hcopies.lineage,
    h.landingAbove? hcopies, Story.landing?, h.told]

/-- Both leave a block behind. -/
theorem leaveBlock (block : NodeId) :
    (t.leaveBlock (place block)).Retells place c d (s.leaveBlock block) := by
  unfold Story.leaveBlock
  rw [(h.node hcopies block).parent]
  cases (s.node block).parent with
  | none => exact h.runOut
  | some parent =>
    simp only [Option.map_some]
    rw [h.children hcopies, positionAfter_map hcopies.injective]
    exact h.movedTo (some parent) _

/-- The copy of a knot is entered at the copy of its first stitch, where the knot begins with
one. -/
theorem descend (i : NodeId) : t.descend (place i) = place (s.descend i) := by
  unfold Story.descend
  rw [(h.node hcopies i).isKnot, h.children hcopies, List.head?_map]
  split
  · cases (s.children i).head? with
    | none => rfl
    | some first =>
      simp only [Option.map_some, (h.node hcopies first).isStitch]
      split <;> rfl
  · rfl

omit hcopies in
/-- A choice is pending in both, or in none. -/
theorem isEmpty_choices : t.choices.isEmpty = s.choices.isEmpty := by
  rw [h.choices, List.isEmpty_map]

/-- Both offer a choice, or enter it when it is a fallback. -/
theorem offered (i : NodeId) : Retells place c d
    (if (t.node (place i)).isFallback then
      if t.choices.isEmpty then
        { t with container := some (place i), index := 0, memory := t.memory.visit (place i) }
      else t
    else { t with choices := t.choices ++ [place i] })
    (if (s.node i).isFallback then
      if s.choices.isEmpty then
        { s with container := some i, index := 0, memory := s.memory.visit i }
      else s
    else { s with choices := s.choices ++ [i] }) := by
  rw [(h.node hcopies i).isFallback, h.isEmpty_choices]
  split
  · split
    · exact (h.movedTo (some i) 0).withMemory (h.visit hcopies i)
    · exact h
  · refine ⟨h.told, h.retold, h.undisturbed, h.undisturbed', h.container, h.index, h.transcript, ?_,
      h.background, h.running, h.processing, h.memory⟩
    rw [h.choices, List.map_append]
    rfl

omit hcopies in
/-- Both note a comment. -/
theorem noted (i : NodeId) : (t.addComment (place i)).Retells place c d (s.addComment i) := by
  rw [addComment_eq t, addComment_eq s]
  exact ⟨h.told, h.retold, h.undisturbed, h.undisturbed', h.container, h.index, h.transcript,
    h.choices, h.background, h.running, h.processing, h.memory⟩

omit hcopies in
/-- Both come to the end. -/
theorem finish : t.finish.Retells place c d s.finish :=
  ⟨h.told, h.retold, h.undisturbed, h.undisturbed', rfl, h.index, h.transcript, rfl, h.background,
    rfl, h.processing, h.memory⟩

omit hcopies in
/-- Both drop the choices and go on. -/
theorem cleared : Retells place c d { t with choices := [] } { s with choices := [] } :=
  ⟨h.told, h.retold, h.undisturbed, h.undisturbed', h.container, h.index, h.transcript, rfl,
    h.background, h.running, h.processing, h.memory⟩

/-- Both pass a node. -/
theorem pass (i : NodeId) : (t.pass (place i)).Retells place c d (s.pass i) := by
  have hiff : t.container = some (place i) ↔ s.container = some i := by
    rw [h.container, Option.map_eq_some_iff]
    exact ⟨fun ⟨j, hj, heq⟩ => hcopies.injective heq ▸ hj, fun hi => ⟨i, hi, rfl⟩⟩
  unfold Story.pass
  simp only [hiff]
  split
  · exact h
  · exact h.passed

omit hcopies in
/-- Both tell the same text. -/
theorem record (text : String) : (t.record text).Retells place c d (s.record text) := by
  unfold Story.record
  split
  · exact h
  · exact ⟨h.told, h.retold, h.undisturbed, h.undisturbed', h.container, h.index,
      congrArg (· ++ [text]) h.transcript, h.choices, h.background, h.running, h.processing, h.memory⟩

/-- Both take a choice. -/
theorem take (choice : NodeId) : (t.take (place choice)).Retells place c d (s.take choice) where
  told := h.told
  retold := h.retold
  undisturbed := by simp [Story.take, h.undisturbed]
  undisturbed' := by simp [Story.take, h.undisturbed']
  container := rfl
  index := rfl
  transcript := h.transcript
  choices := rfl
  background := h.background
  running := h.running
  processing := rfl
  memory := h.visit hcopies choice

end Retells

end Story

namespace Retelling

open Story Coupling

variable {w' w : World} {c d : Content} (h : Retelling place w' w c d)

include h

/-! ## Thoughts -/

/-- What conditions see in the one is a copy of what they see in the other. -/
theorem stage {t s : Story} (hst : t.Retells place c d s) :
    (t.stage w'.host).Copies place (s.stage w.host) where
  content := by
    change t.content.Copies place s.content
    rw [hst.told, hst.retold]
    exact h.copies
  portable := by
    change s.content.IsPortable
    rw [hst.told]
    exact h.portable
  here := hst.container
  method := h.method
  random := h.random

/-- The nodes of the story can be copied. -/
theorem isPortable {t s : Story} (hst : t.Retells place c d s) (i : NodeId) :
    (s.node i).IsPortable d := by
  rw [Story.node, hst.told]
  exact h.portable.node i

/-- What expressions do to the memory is repeated. -/
theorem repeats_think {α β : Type} {Q : α → β → Prop} {f : Stage → Context Memory → Run Memory α}
    {g : Stage → Context Memory → Run Memory β}
    (hfg : ∀ {stage' stage : Stage} {ctx' ctx : Context Memory}, stage.content = d →
      stage'.Copies place stage → ctx'.Repeats place ctx →
      (Memory.copying place).Couples Q (f stage ctx) (g stage' ctx')) :
    Repeats place c d Q (think w f) (think w' g) := by
  intro s t hst a s₁ hrun
  have hstage := h.stage hst
  have hctx := hstage.repeats_context w.depth
  obtain ⟨⟨b, m⟩, hf, heq⟩ := Option.map_eq_some_iff.1 hrun
  cases heq
  obtain ⟨b', m', hg, hab, hm⟩ := hfg hst.told hstage hctx s.memory t.memory hst.memory _ _ hf
  refine ⟨b', { t with memory := m' }, ?_, hab, hst.withMemory hm⟩
  change ((g (t.stage w'.host) ((t.stage w'.host).context w'.depth)) t.memory).map _ = _
  rw [h.depth, hg]
  rfl

/-- The copy of a node shows the same text. -/
theorem repeats_shownText (i : NodeId) :
    Repeats place c d Eq (shownText w i) (shownText w' (place i)) := by
  refine (retelling place c d).consult fun s t hst => ?_
  rw [hst.memory.mark, (hst.node h.copies i).text]
  refine (retelling place c d).bind (h.repeats_think fun _ _ hctx =>
    hctx.expand (h.isPortable hst i).text _) ?_
  rintro text _ rfl
  exact (retelling place c d).pure rfl

/-- An expression that mentions no place has the same value, or fails in both. -/
theorem repeats_evaluate {source : String} (hsource : Token.Mentions Placeless source.toList) :
    Repeats place c d (Outcomes (fun _ _ => True) (Value.Same Value.IsPortable))
      (evaluate w source) (evaluate w' source) :=
  h.repeats_think fun _ _ hctx => hctx.evalText hsource

/-- The copy of a choice is available just when the choice is. -/
theorem repeats_isAvailable (i : NodeId) :
    Repeats place c d Eq (isAvailable w i) (isAvailable w' (place i)) := by
  refine (retelling place c d).consult fun s t hst => ?_
  have hconditions := (h.isPortable hst i).kind
  rw [hst.memory.mark, (hst.node h.copies i).kind]
  cases hkind : (s.node i).kind with
  | choice repeatable conditions =>
    rw [hkind] at hconditions
    simp only [NodeKind.moved]
    split
    · exact (retelling place c d).pure rfl
    · exact h.repeats_think fun _ _ hctx => hctx.allHold hconditions
  | _ => exact (retelling place c d).pure rfl

/-! ## The cursor -/

/-- Entering the copy of a container is like entering the container. -/
theorem repeats_enter (i : NodeId) : Repeats place c d Eq (enter w i) (enter w' (place i)) := by
  refine (retelling place c d).bind (h.repeats_think fun _ hstage hctx =>
    hstage.repeats_selectOption hctx i) fun _ _ _ => ?_
  exact (retelling place c d).change fun s t hst => hst.moveInto h.copies i

/-- What is done at the end of a container is repeated in its copy. -/
theorem repeats_settleExhausted (i : NodeId) :
    Repeats place c d Eq (settleExhausted w i) (settleExhausted w' (place i)) := by
  refine (retelling place c d).consult fun s t hst => ?_
  have hnode := hst.node h.copies i
  simp only [hst.isEmpty_choices, hst.landing? h.copies, hnode.isBlock, hnode.isChoice,
    hnode.isGather, hnode.parent, Option.isSome_map]
  split
  · refine (retelling place c d).bind ((retelling place c d).change fun s t hst =>
      hst.leaveBlock h.copies i) fun _ _ _ => ?_
    exact (retelling place c d).pure rfl
  · split
    · exact (retelling place c d).pure rfl
    · have hlanding : (if ((s.node i).isChoice || (s.node i).isGather) = true then
          (s.landing? i).map (·.moved place) else none) =
          (if ((s.node i).isChoice || (s.node i).isGather) = true then s.landing? i
            else none).map (·.moved place) := by
        split <;> rfl
      rw [hlanding]
      cases (if ((s.node i).isChoice || (s.node i).isGather) = true then s.landing? i
        else none) with
      | none =>
        exact (retelling place c d).bind ((retelling place c d).change fun s t hst => hst.runOut)
          fun _ _ _ => (retelling place c d).pure rfl
      | some landing =>
        cases landing with
        | gather j =>
          exact (retelling place c d).bind (h.repeats_enter j) fun _ _ _ =>
            (retelling place c d).pure rfl
        | choice parent position =>
          exact (retelling place c d).bind ((retelling place c d).change fun s t hst =>
            hst.movedTo (some parent) position) fun _ _ _ => (retelling place c d).pure rfl

/-- Settling at a node is repeated at its copy. -/
theorem repeats_settleAt (i : NodeId) :
    Repeats place c d Eq (settleAt w i) (settleAt w' (place i)) := by
  refine (retelling place c d).consult fun s t hst => ?_
  have hnode := hst.node h.copies i
  have henter : Repeats place c d Eq (enter w i >>= fun _ => pure true)
      (enter w' (place i) >>= fun _ => pure true) :=
    (retelling place c d).bind (h.repeats_enter i) fun _ _ _ => (retelling place c d).pure rfl
  simp only [hst.isEmpty_choices, hnode.isFallback, hnode.isBlock, hnode.isGather]
  split
  · refine (retelling place c d).bind (h.repeats_isAvailable i) ?_
    rintro available _ rfl
    cases available with
    | true => exact henter
    | false =>
      exact (retelling place c d).bind ((retelling place c d).change fun s t hst => hst.passed)
        fun _ _ _ => (retelling place c d).pure rfl
  · split
    · exact henter
    · split
      · split
        · exact henter
        · exact (retelling place c d).bind ((retelling place c d).change fun s t hst => hst.waiting)
            fun _ _ _ => (retelling place c d).pure rfl
      · exact (retelling place c d).pure rfl

/-- One move of settling is repeated. -/
theorem repeats_settleOnce : Repeats place c d Eq (settleOnce w) (settleOnce w') := by
  refine (retelling place c d).consult fun s t hst => ?_
  rw [hst.container, hst.cursor? h.copies]
  cases s.container with
  | none => exact (retelling place c d).pure rfl
  | some j =>
    cases s.cursor? with
    | none => exact h.repeats_settleExhausted j
    | some i => exact h.repeats_settleAt i

/-- Settling is repeated by one that may take more moves. -/
theorem repeats_settleWithin {moves moves' : Nat} (hle : moves ≤ moves') :
    Repeats place c d Eq (settleWithin w moves) (settleWithin w' moves') := by
  induction moves generalizing moves' with
  | zero =>
    intro s t hst a s₁ hrun
    cases hrun
  | succ moves ih =>
    obtain ⟨moves', rfl⟩ := Nat.exists_eq_add_of_le' (Nat.lt_of_lt_of_le moves.succ_pos hle)
    refine (retelling place c d).bind h.repeats_settleOnce ?_
    rintro again _ rfl
    cases again with
    | true => exact ih (by omega)
    | false => exact (retelling place c d).pure rfl

/-- The cursor comes to rest at the copy. -/
theorem repeats_settle : Repeats place c d Eq (settle w) (settle w') := by
  refine (retelling place c d).consult fun s t hst => h.repeats_settleWithin ?_
  have hsize := h.copies.size_le
  rw [hst.told, hst.retold]
  omega

/-! ## Diverts -/

/-- Where a divert leads in the copy, with the same values of the arguments. -/
def Leads (place : NodeId → NodeId) (r r' : Option (NodeId × List Value)) : Prop :=
  (∀ x ∈ r, ∀ v ∈ x.2, v.IsPortable) ∧ r' = r.map fun x => (place x.1, x.2)

omit h in
/-- Without interrupts no divert is redirected. -/
theorem repeats_redirectBy {interrupts interrupts' : List Interrupt} (hnone : interrupts = [])
    (hnone' : interrupts' = []) (name : List Char) :
    Repeats place c d (fun a b => a = name ∧ b = name) (redirectBy w name 0 interrupts)
      (redirectBy w' name 0 interrupts') := by
  subst hnone hnone'
  exact (retelling place c d).pure ⟨rfl, rfl⟩

/-- The arguments of a divert have the same values, and these can be copied. -/
theorem repeats_evaluateArguments {args : List (List Char)}
    (hargs : ∀ arg ∈ args, Token.Mentions Placeless arg) (line : Nat) :
    Attempts place c d (fun vs ws => (∀ v ∈ vs, v.IsPortable) ∧ ws = vs)
      (evaluateArguments w line args) (evaluateArguments w' line args) := by
  induction args with
  | nil => exact attempt_pure ⟨List.forall_mem_nil _, rfl⟩
  | cons arg rest ih =>
    obtain ⟨harg, hrest⟩ := List.forall_mem_cons.1 hargs
    have hsource : Token.Mentions Placeless (String.ofList arg).toList := by
      rwa [String.toList_ofList]
    refine attempt_bind (attempt_lift (h.repeats_evaluate hsource)) fun _ _ hr => hr.elim ?_ ?_
    · rintro v _ ⟨hv, rfl⟩
      refine attempt_bind (ih hrest) ?_
      rintro _ vs ⟨hvs, rfl⟩
      exact attempt_pure ⟨List.forall_mem_cons.2 ⟨hv, hvs⟩, rfl⟩
    · exact fun _ _ _ => attempt_throw trivial

/-- The copy of a divert leads to the copy of its target. -/
theorem repeats_takeDivert {n' n : Node} (hnode : n'.Copies place n) (hportable : n.IsPortable d)
    (hdivert : n.isDivert = true) :
    Attempts place c d (Leads place) (takeDivert w n) (takeDivert w' n') := by
  obtain ⟨target, htarget⟩ := Option.isSome_iff_exists.1 hdivert
  obtain ⟨hname, hargs⟩ := hportable.divert target htarget
  unfold takeDivert
  simp only [hnode.divertTarget?, hnode.line, htarget, Option.getD_some]
  have hend : Attempts place c d (Leads place) (pure none) (pure none) :=
    attempt_pure ⟨fun x hx => absurd hx (Option.not_mem_none x), rfl⟩
  split
  · exact hend
  · refine attempt_consult fun s t hst => ?_
    refine attempt_bind (attempt_lift (repeats_redirectBy hst.undisturbed hst.undisturbed' _)) ?_
    rintro _ _ ⟨rfl, rfl⟩
    split
    · exact hend
    · refine attempt_consult fun s t hst => ?_
      rw [(h.stage hst).target? hst.memory hname]
      cases (s.stage w.host).target? s.memory (String.ofList (splitCall target).1) with
      | none => exact attempt_throw trivial
      | some i =>
        simp only [Option.map_some, hst.descend h.copies]
        refine attempt_bind (h.repeats_evaluateArguments hargs n.line) ?_
        rintro _ vs ⟨hvs, rfl⟩
        exact attempt_pure ⟨fun x hx => by cases hx; exact hvs, rfl⟩

/-- A divert that is not taken would lead to the copy. -/
theorem peekDivert_eq {t s : Story} (hst : t.Retells place c d s) {n' n : Node}
    (hnode : n'.Copies place n) (hportable : n.IsPortable d) :
    t.peekDivert w'.host n' = (s.peekDivert w.host n).map (·.map place) := by
  unfold Story.peekDivert
  rw [hnode.divertTarget?]
  cases htarget : n.divertTarget? with
  | none => rfl
  | some target =>
    have hname := (hportable.divert target htarget).1
    simp only [Option.bind_some, (h.stage hst).target? hst.memory hname]
    split
    · rfl
    · rw [Option.map_map, Option.map_map]
      exact congrArg (Option.map · _) (funext fun i => congrArg some (hst.descend h.copies i))

/-- The copy of a container is entered with the same arguments. -/
theorem repeats_enterWith (i : NodeId) {args : List Value} (hargs : ∀ v ∈ args, v.IsPortable) :
    Attempts place c d Eq (enterWith w i args) (enterWith w' (place i) args) := by
  have henter : Attempts place c d Eq (ExceptT.lift (enter w i)) (ExceptT.lift (enter w' (place i))) :=
    attempt_lift (h.repeats_enter i)
  refine attempt_consult fun s t hst => ?_
  have hnode := hst.node h.copies i
  simp only [hnode.isSection, hnode.params]
  split
  · split
    · split
      · exact henter
      · exact attempt_bind (attempt_modify fun s t hst =>
          hst.withMemory (hst.memory.bind h.copies.injective i _ hargs)) fun _ _ _ => henter
    · exact attempt_throw trivial
  · exact henter

/-! ## Play -/

/-- The copy of a choice is offered just when the choice is. -/
theorem repeats_addChoice (i : NodeId) :
    Repeats place c d Eq (addChoice w i) (addChoice w' (place i)) := by
  refine (retelling place c d).bind (h.repeats_isAvailable i) ?_
  rintro available _ rfl
  cases available with
  | false => exact (retelling place c d).pure rfl
  | true =>
    exact (retelling place c d).change fun s t hst => hst.offered h.copies i

/-- The copy of a node has the same effect. -/
theorem repeats_resolve (i : NodeId) :
    Attempts place c d Eq (resolve w i) (resolve w' (place i)) := by
  refine attempt_consult fun s t hst => ?_
  have hnode := hst.node h.copies i
  have hportable := h.isPortable hst i
  simp only [hnode.isDivert, hnode.text, hnode.line, hnode.kind, hst.memory.mark]
  cases hkind : (s.node i).kind with
  | text =>
    simp only [NodeKind.moved]
    split
    · exact attempt_pure rfl
    · refine attempt_bind (attempt_lift (h.repeats_think fun _ _ hctx =>
        hctx.expand hportable.text _)) ?_
      rintro text _ rfl
      exact attempt_bind (attempt_modify fun s t hst =>
        hst.withMemory (hst.visit h.copies i)) fun _ _ _ => attempt_pure rfl
  | choice repeatable conditions =>
    exact attempt_bind (attempt_lift (h.repeats_addChoice i)) fun _ _ _ => attempt_pure rfl
  | comment once conditions =>
    exact attempt_bind (attempt_modify fun s t hst => hst.noted i) fun _ _ _ => attempt_pure rfl
  | statement t =>
    refine attempt_bind (h.repeats_think fun hcontent hstage hctx =>
      hstage.repeats_execute hctx ?_ _) fun _ _ _ => attempt_pure rfl
    have hkinds := hportable.kind
    rw [hkind] at hkinds
    rw [hcontent]
    exact hkinds
  | _ => exact attempt_pure rfl

/-- Playing past a node is repeated at its copy. -/
theorem repeats_step (i : NodeId) : Attempts place c d Eq (step w i) (step w' (place i)) := by
  refine attempt_consult fun s t hst => ?_
  have hnode := hst.node h.copies i
  have hsettle : Attempts place c d Eq (ExceptT.lift (settle w)) (ExceptT.lift (settle w')) :=
    attempt_lift h.repeats_settle
  simp only [hnode.isDivert]
  split
  · next hdivert =>
    refine attempt_bind (h.repeats_takeDivert hnode (h.isPortable hst i) hdivert) ?_
    rintro found _ ⟨hargs, rfl⟩
    cases found with
    | none => exact attempt_modify fun s t hst => hst.finish
    | some x =>
      refine attempt_bind (h.repeats_enterWith x.1 (hargs x rfl)) fun _ _ _ => ?_
      exact attempt_bind (attempt_modify fun s t hst => hst.cleared) fun _ _ _ => hsettle
  · exact attempt_bind (attempt_modify fun s t hst => hst.pass h.copies i) fun _ _ _ => hsettle

/-- A line continues into a node just when it continues into its copy. -/
theorem continuesInto_eq {t s : Story} (hst : t.Retells place c d s) (next : NodeId)
    (backwards : List Char) :
    t.continuesInto w'.host (place next) backwards = s.continuesInto w.host next backwards := by
  have hnode := hst.node h.copies next
  unfold Story.continuesInto
  simp only [hnode.text, hnode.isChoice, hnode.isFallback, hnode.isStitch,
    h.peekDivert_eq hst hnode (h.isPortable hst next)]
  cases s.peekDivert w.host (s.node next) with
  | none => rfl
  | some found =>
    cases found with
    | none => rfl
    | some target =>
      simp only [Option.map_some, hst.children h.copies, List.head?_map]
      cases (s.children target).head? with
      | none => rfl
      | some first => simp only [Option.map_some, Option.any_some, (hst.node h.copies first).text]

/-- A unit goes on just when it does in the copy. -/
theorem goesOn_eq {t s : Story} (hst : t.Retells place c d s) (backwards : List Char) :
    t.goesOn w'.host backwards = s.goesOn w.host backwards := by
  unfold Story.goesOn
  rw [hst.processing, hst.current? h.copies]
  cases s.current? with
  | none => rfl
  | some next => exact congrArg (s.processing && ·) (h.continuesInto_eq hst next backwards)

/-- The copy of a node adds the same text. -/
theorem repeats_playNode (i : NodeId) :
    Attempts place c d Eq (playNode w i) (playNode w' (place i)) := by
  refine attempt_bind (h.repeats_resolve i) ?_
  rintro text _ rfl
  exact attempt_bind (h.repeats_step i) fun _ _ _ => attempt_pure rfl

/-- A unit of text is the same in the copy. -/
theorem repeats_playUnit (steps : Nat) (backwards : List Char) :
    Attempts place c d Eq (playUnit w steps backwards) (playUnit w' steps backwards) := by
  induction steps generalizing backwards with
  | zero =>
    intro s t hst a s₁ hrun
    cases hrun
  | succ steps ih =>
    refine attempt_consult fun s t hst => ?_
    rw [hst.current? h.copies]
    cases s.current? with
    | none => exact attempt_pure rfl
    | some i =>
      refine attempt_bind (h.repeats_playNode i) ?_
      rintro text _ rfl
      refine attempt_consult fun s t hst => ?_
      rw [h.goesOn_eq hst]
      split
      · exact ih _
      · exact attempt_pure rfl

omit h in
/-- Without interrupts none of them offers a choice. -/
theorem repeats_addInterruptChoices {interrupts interrupts' : List Interrupt}
    (hnone : interrupts = []) (hnone' : interrupts' = []) :
    Repeats place c d Eq (addInterruptChoices w interrupts)
      (addInterruptChoices w' interrupts') := by
  subst hnone hnone'
  exact (retelling place c d).pure rfl

/-- The story and its copy advance by the same text. -/
theorem repeats_advance : Attempts place c d Eq (advance w) (advance w') := by
  refine attempt_consult fun s t hst => ?_
  rw [hst.hasMore h.copies]
  have hplay : Attempts place c d Eq (do
      let unit ← playUnit w w.steps []
      let s ← get
      unless s.hasMore do addInterruptChoices w s.interrupts
      let text := String.ofList (Text.cleanUp unit)
      modify (·.record text)
      return text : Play String) (do
      let unit ← playUnit w' w'.steps []
      let s ← get
      unless s.hasMore do addInterruptChoices w' s.interrupts
      let text := String.ofList (Text.cleanUp unit)
      modify (·.record text)
      return text : Play String) := by
    rw [h.steps]
    refine attempt_bind (h.repeats_playUnit w.steps []) ?_
    rintro unit _ rfl
    refine attempt_consult fun s t hst => ?_
    have hend {text : String} : Attempts place c d Eq (do modify (·.record text); return text : Play String)
        (do modify (·.record text); return text : Play String) :=
      attempt_bind (attempt_modify fun s t hst => hst.record text) fun _ _ _ => attempt_pure rfl
    rw [hst.hasMore h.copies]
    by_cases hmore : s.hasMore = true
    · simp only [hmore, if_true]
      exact hend
    · simp only [hmore]
      exact attempt_bind (attempt_lift (repeats_addInterruptChoices hst.undisturbed
        hst.undisturbed')) fun _ _ _ => hend
  by_cases hmore : s.hasMore = true
  · simp only [hmore, if_true]
    exact hplay
  · simp only [hmore]
    exact attempt_throw trivial

/-- The story and its copy show the same texts over several advances. -/
theorem repeats_advanceWithin (steps : Nat) :
    Attempts place c d Eq (advanceWithin w steps) (advanceWithin w' steps) := by
  induction steps with
  | zero =>
    intro s t hst a s₁ hrun
    cases hrun
  | succ steps ih =>
    refine attempt_consult fun s t hst => ?_
    rw [hst.hasMore h.copies]
    split
    · refine attempt_bind h.repeats_advance ?_
      rintro text _ rfl
      refine attempt_bind ih ?_
      rintro rest _ rfl
      exact attempt_pure rfl
    · exact attempt_pure rfl

/-! ## From choice to choice -/

/-- The copies of choices have the same texts. -/
theorem repeats_choiceTexts (is : List NodeId) :
    Repeats place c d Eq (choiceTexts w is) (choiceTexts w' (is.map place)) := by
  induction is with
  | nil => exact (retelling place c d).pure rfl
  | cons i rest ih =>
    refine (retelling place c d).bind (h.repeats_shownText i) ?_
    rintro text _ rfl
    refine (retelling place c d).bind ih ?_
    rintro texts _ rfl
    exact (retelling place c d).pure rfl

/-- The pending choices have the same texts. -/
theorem repeats_pendingTexts : Repeats place c d Eq (pendingTexts w) (pendingTexts w') := by
  refine (retelling place c d).consult fun s t hst => ?_
  rw [hst.choices]
  exact h.repeats_choiceTexts s.choices

/-- A choice is taken alike. -/
theorem repeats_choose (index : Nat) :
    Attempts place c d Eq (choose w index) (choose w' index) := by
  refine attempt_consult fun s t hst => ?_
  rw [hst.choices, List.getElem?_map]
  cases s.choices[index]? with
  | none => exact attempt_throw trivial
  | some choice =>
    exact attempt_bind (attempt_modify fun s t hst => hst.take h.copies choice) fun _ _ _ =>
      attempt_lift h.repeats_settle

/-- Play goes on to a stop at which the player meets the same. -/
theorem repeats_playOn : Repeats place c d Stop.Agrees (playOn w) (playOn w') := by
  have hadvance : Attempts place c d Eq (advanceAll w) (advanceAll w') := by
    unfold advanceAll
    rw [h.steps]
    exact h.repeats_advanceWithin w.steps
  refine (retelling place c d).bind hadvance fun r r' hr => ?_
  refine (retelling place c d).bind h.repeats_pendingTexts ?_
  rintro texts _ rfl
  refine (retelling place c d).consult fun s t hst => (retelling place c d).pure ?_
  refine ⟨?_, hst.transcript.symm, rfl, hst.isEnded.symm⟩
  exact hr.elim (fun _ _ _ => rfl) fun _ _ _ => rfl

/-- The player meets the same at every stop when the same choices are taken. -/
theorem repeats_playThrough (indices : List Nat) :
    Repeats place c d (List.Forall₂ Stop.Agrees) (playThrough w indices)
      (playThrough w' indices) := by
  induction indices with
  | nil =>
    exact (retelling place c d).bind h.repeats_playOn fun stop stop' hstop =>
      (retelling place c d).pure (.cons hstop .nil)
  | cons index rest ih =>
    refine (retelling place c d).bind h.repeats_playOn fun stop stop' hstop => ?_
    refine (retelling place c d).bind (h.repeats_choose index) fun _ _ _ => ?_
    exact (retelling place c d).bind ih fun stops stops' hstops =>
      (retelling place c d).pure (.cons hstop hstops)

omit h in
/-- A story begins in the copy of the knot at which it starts. -/
theorem retells_atStart {copies plain : Sources} (hcopies : copies.content.Copies place plain.content)
    (start : NodeId) (seed : Nat) : (atStart copies (place start) seed).Retells place copies.content
      plain.content (atStart plain start seed) := by
  have hmemory : ({} : Memory).Copies place {} :=
    ⟨rfl, rfl, fun i => rfl, nofun, nofun⟩
  have hbegun : Retells place copies.content plain.content
      { sources := copies, container := some (place start) }
      { sources := plain, container := some start } :=
    ⟨rfl, rfl, rfl, rfl, rfl, rfl, rfl, rfl, rfl, rfl, rfl, hmemory⟩
  refine ⟨rfl, rfl, rfl, rfl, congrArg some (hbegun.descend hcopies start), rfl, rfl, rfl,
    (hbegun.node hcopies start).background, rfl, rfl, ?_⟩
  refine ⟨rfl, rfl, fun i => rfl, fun {name v} hv => ?_, nofun⟩
  have hmem := NameMap.mem_of_mem_ofList (NameMap.mem_of_find? hv)
  simp only [List.mem_cons, Prod.mk.injEq, List.not_mem_nil, or_false] at hmem
  obtain ⟨-, rfl⟩ | ⟨-, rfl⟩ := hmem <;> trivial

end Retelling

end Narrative
