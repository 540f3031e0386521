import Narrative.Proofs.Source.Housing
import Narrative.Proofs.Story.Omission
import Narrative.Proofs.Story.Reachable

/-!
# Play step by step without some of the comments

A story from which some comments are omitted is played like the story that has them: wherever no
omitted comment is at the cursor, each does what the other does, and they stay alike.
-/

namespace Narrative

variable {omitted : NodeId → Bool}

/-- Omitted nodes that play does not miss: comments that are in no block of the body of a function
and in front of no stitch with which a knot begins. No text begins with glue, which would join what
a comment stands between. -/
structure Content.Omissible (c : Content) (omitted : NodeId → Bool) : Prop where
  /-- What is omitted are comments. -/
  comment {i : NodeId} : omitted i = true → (c.node i).isComment = true
  /-- They hang in no block that a call of a function plays inside. -/
  uncalled {i b : NodeId} : omitted i = true → (c.node i).parent = some b →
    (c.node b).isBlock = true → ¬ c.Called b
  /-- A stitch with which a knot begins without them begins the knot. -/
  stitch {k i : NodeId} : (c.node k).isKnot = true →
    ((c.node k).children.filter (!omitted ·)).head? = some i → (c.node i).isStitch = true →
    (c.node k).children.head? = some i
  /-- No text begins with glue. -/
  glueless (i : NodeId) : startsWithGlue (c.node i).text = false

/-- Content as it is read, from which the omitted nodes can be taken. -/
structure Content.Separable (c : Content) (omitted : NodeId → Bool) : Prop where
  /-- The content is a tree. -/
  tree : c.Tree
  /-- Nodes hang under containers. -/
  housed : c.Housed
  /-- Every position comes before the one beyond all. -/
  bounded : c.size < beyondAll
  /-- Play does not miss the comments. -/
  omissible : c.Omissible omitted

/-- A landing where a choice stands at its position without the omitted comments. -/
def Landing.without (omitted : NodeId → Bool) (s : Story) : Landing → Landing
  | .gather i => .gather i
  | .choice parent position =>
    .choice parent (positionWithout omitted (s.children parent) position)

namespace Story

/-- The story without the omitted comments, with the cursor at a position and with a transcript of
its own. -/
def without (omitted : NodeId → Bool) (index : Nat) (transcript : List String) (s : Story) :
    Story :=
  { s with
    sources := { s.sources with content := s.content.without omitted }
    index, transcript
    comments := s.comments.filter (!omitted ·) }

/-- A story from which the comments can be omitted, where `index` is the position of the cursor
without them. -/
structure Aligned (omitted : NodeId → Bool) (s : Story) (index : Nat) : Prop where
  /-- The comments can be taken from the content. -/
  content : s.content.Separable omitted
  /-- No interrupt was added. -/
  interrupts : s.interrupts = []
  /-- The cursor stands at the corresponding position. -/
  index_eq {c : NodeId} : s.container = some c →
    index = positionWithout omitted (s.children c) s.index

/-- Whether the node at the cursor is omitted. -/
def AtOmitted (omitted : NodeId → Bool) (s : Story) : Prop :=
  ∃ i, s.cursor? = some i ∧ omitted i = true

section Without

variable (omitted : NodeId → Bool) (index : Nat) (transcript : List String) (s : Story)

/-- The content of the story is the one without the omitted nodes. -/
@[simp] theorem content_without :
    (s.without omitted index transcript).content = s.content.without omitted := rfl

/-- The nodes are those without the omitted ones under them. -/
@[simp] theorem node_without (i : NodeId) :
    (s.without omitted index transcript).node i = (s.node i).without omitted :=
  s.content.node_without omitted i

/-- Play goes through the same nodes but for the omitted ones. -/
@[simp] theorem children_without (i : NodeId) :
    (s.without omitted index transcript).children i = (s.children i).filter (!omitted ·) :=
  s.memory.children_without omitted s.content i

/-- Expressions are evaluated on the stage without the omitted nodes. -/
theorem stage_without (host : Host) :
    (s.without omitted index transcript).stage host = (s.stage host).without omitted := rfl

/-- A container is entered in front of its first node that stays. -/
theorem moveInto_without (i : NodeId) : (s.without omitted index transcript).moveInto i =
    (s.moveInto i).without omitted 0 transcript := by
  rw [moveInto, node_without, Node.background_without]
  rfl

end Without

section Aligned

variable {s t : Story} {k : Nat}

/-- No container has so many children that the position beyond all of them is among them. -/
theorem Aligned.length_children (h : s.Aligned omitted k) (i : NodeId) :
    (s.children i).length < beyondAll :=
  Nat.lt_of_le_of_lt (length_children_le h.content.tree i) h.content.bounded

/-- Positions inside a node that a call plays inside do not depend on what is omitted. -/
theorem Aligned.positionWithout_of_called (h : s.Aligned omitted k) {c : NodeId}
    (hcalled : s.content.Called c) (hblock : (s.node c).isBlock = true) (m : Memory)
    (position : Nat) :
    positionWithout omitted (m.children s.content c) position = position := by
  refine positionWithout_of_forall (fun i hi => ?_) position
  refine Bool.eq_false_iff.2 fun homitted => ?_
  have hparent := h.content.tree.parent_of_listed (Node.mem_listed_of_mem_childrenAt hi)
  exact h.content.omissible.uncalled homitted hparent hblock hcalled

/-- Expressions leave every position where it is. -/
theorem Aligned.positionWithout_eq (h : s.Aligned omitted k) {m : Memory}
    (hm : Memory.Changes s.content s.memory m) (c : NodeId) (position : Nat) :
    positionWithout omitted (m.children s.content c) position =
      positionWithout omitted (s.children c) position := by
  by_cases hcalled : s.content.Called c
  · cases hblock : (s.node c).isBlock with
    | true => rw [h.positionWithout_of_called hcalled hblock, children,
        h.positionWithout_of_called hcalled hblock]
    | false =>
      have hchildren := children_of_not_block (s := { s with memory := m }) hblock
      rw [children_of_not_block hblock]
      exact congrArg (positionWithout omitted · position) hchildren
  · rw [hm.children_eq hcalled, children]

/-- Expressions keep a story aligned. -/
theorem Aligned.think (h : s.Aligned omitted k) {m : Memory}
    (hm : Memory.Changes s.content s.memory m) : Aligned omitted { s with memory := m } k :=
  ⟨h.content, h.interrupts, fun hc =>
    (h.index_eq hc).trans (h.positionWithout_eq hm _ _).symm⟩

/-- A story is aligned where it enters a container. -/
theorem Aligned.enter (h : s.Aligned omitted k) (hcontent : t.content = s.content)
    (hinterrupts : t.interrupts = []) (hindex : t.index = 0) : t.Aligned omitted 0 :=
  ⟨hcontent ▸ h.content, hinterrupts,
    fun _ => by rw [hindex, positionWithout_zero]⟩

/-- A story that is over is aligned. -/
theorem Aligned.over (h : s.Aligned omitted k) (hcontent : t.content = s.content)
    (hinterrupts : t.interrupts = []) (hcontainer : t.container = none) : t.Aligned omitted k :=
  ⟨hcontent ▸ h.content, hinterrupts,
    fun hc => by rw [hcontainer] at hc; cases hc⟩

/-- The cursor is at the node at its position in the container. -/
theorem Aligned.cursor?_eq (h : s.Aligned omitted k) :
    s.cursor? = s.container.bind fun c => (s.children c)[s.index]? := by
  unfold cursor?
  refine congrArg s.container.bind (funext fun c => ?_)
  split
  · rfl
  · have := h.length_children c
    rw [List.getElem?_eq_none (by omega)]

/-- What is omitted are comments. -/
theorem Aligned.isComment_of_omitted (h : s.Aligned omitted k) {i : NodeId}
    (hi : omitted i = true) : (s.node i).isComment = true :=
  h.content.omissible.comment hi

/-- A container stays. -/
theorem Aligned.kept_of_isContainer (h : s.Aligned omitted k) {i : NodeId}
    (hi : (s.node i).isContainer = true) : omitted i = false := by
  refine Bool.eq_false_iff.2 fun homitted => ?_
  rw [Node.isContainer_of_isComment (h.isComment_of_omitted homitted)] at hi
  cases hi

/-- Where no omitted comment is at the cursor, the node at the cursor is the same without them. -/
theorem Aligned.cursor?_without (h : s.Aligned omitted k) (hs : ¬ s.AtOmitted omitted)
    (transcript : List String) : (s.without omitted k transcript).cursor? = s.cursor? := by
  have hchildren : (s.without omitted k transcript).cursor? =
      s.container.bind fun c => ((s.children c).filter (!omitted ·))[k]? := by
    unfold cursor?
    refine congrArg s.container.bind (funext fun c => ?_)
    rw [children_without]
    split
    · rfl
    · next hbeyond =>
      have := h.length_children c
      have := List.length_filter_le (!omitted ·) (s.children c)
      rw [List.getElem?_eq_none]
      change ¬ k < beyondAll at hbeyond
      omega
  rw [hchildren, h.cursor?_eq]
  cases hc : s.container with
  | none => rfl
  | some c =>
    rw [Option.bind_some, Option.bind_some, ← List.head?_drop, h.index_eq hc,
      drop_positionWithout (h.length_children c), ← List.head?_drop]
    cases hdrop : (s.children c).drop s.index with
    | nil => rfl
    | cons i rest =>
      have hi : omitted i = false := by
        refine Bool.eq_false_iff.2 fun homitted => hs ⟨i, ?_, homitted⟩
        rw [h.cursor?_eq, hc, Option.bind_some, ← List.head?_drop, hdrop, List.head?_cons]
      rw [List.filter_cons_of_pos (by simp [hi]), List.head?_cons, List.head?_cons]

end Aligned

/-! ## Doing the same -/

/-- Whatever the second computation does to a story without the omitted comments, the first one does
to the story that has them. -/
def Follows (omitted : NodeId → Bool) (transcript : List String) {α : Type} (x x' : Run Story α)
    (s : Story) (k : Nat) : Prop :=
  ∀ a t', x' (s.without omitted k transcript) = some (a, t') →
    ∃ t j, x s = some (a, t) ∧ t' = t.without omitted j transcript ∧ t.Aligned omitted j

/-- The same for computations that may fail. -/
abbrev FollowsAttempt (omitted : NodeId → Bool) (transcript : List String) {ε α : Type}
    (x x' : Attempt ε Story α) (s : Story) (k : Nat) : Prop :=
  Follows omitted transcript (α := Except ε α) x x' s k

section Rules

variable {α β ε : Type} {transcript : List String} {s : Story} {k : Nat}

/-- A computation that changes nothing keeps pace. -/
theorem follows_pure (h : s.Aligned omitted k) (a : α) :
    Follows omitted transcript (pure a) (pure a) s k := by
  intro b t' hrun
  cases hrun
  exact ⟨s, k, rfl, rfl, h⟩

/-- Computations that keep pace do so one after the other. -/
theorem Follows.bind {x x' : Run Story α} {f f' : α → Run Story β}
    (hx : Follows omitted transcript x x' s k)
    (hf : ∀ a t j, x s = some (a, t) → t.Aligned omitted j →
      Follows omitted transcript (f a) (f' a) t j) :
    Follows omitted transcript (x >>= f) (x' >>= f') s k := by
  intro b u' hrun
  obtain ⟨a, t', hfirst', hrest'⟩ := Run.bind_eq_some.1 hrun
  obtain ⟨t, j, hfirst, rfl, ht⟩ := hx a t' hfirst'
  obtain ⟨u, l, hrest, hu', hu⟩ := hf a t j hfirst ht b u' hrest'
  exact ⟨u, l, Run.bind_eq_some.2 ⟨a, t, hfirst, hrest⟩, hu', hu⟩

/-- Reading the story, the computations go on with the one and with the other. -/
theorem follows_get {f f' : Story → Run Story α}
    (h : Follows omitted transcript (f s) (f' (s.without omitted k transcript)) s k) :
    Follows omitted transcript (get >>= f) (get >>= f') s k := h

/-- Changes that lead to aligned stories keep pace. -/
theorem follows_modify {g g' : Story → Story} {j : Nat} (h : (g s).Aligned omitted j)
    (heq : g' (s.without omitted k transcript) = (g s).without omitted j transcript) :
    Follows omitted transcript (modify g) (modify g') s k := by
  intro a t' hrun
  cases hrun
  exact ⟨g s, j, rfl, heq, h⟩

/-- Changes that lead to aligned stories keep pace when a result is given afterwards. -/
theorem follows_modify_pure {g g' : Story → Story} {j : Nat} {a : α} (h : (g s).Aligned omitted j)
    (heq : g' (s.without omitted k transcript) = (g s).without omitted j transcript) :
    Follows omitted transcript (do modify g; return a) (do modify g'; return a) s k :=
  (follows_modify h heq).bind fun _ _ _ _ ht => follows_pure ht _

/-- Both branches keep pace. -/
theorem Follows.ite {p : Prop} [Decidable p] {x x' y y' : Run Story α}
    (hx : p → Follows omitted transcript x x' s k)
    (hy : ¬ p → Follows omitted transcript y y' s k) :
    Follows omitted transcript (if p then x else y) (if p then x' else y') s k := by
  split
  · next h => exact hx h
  · next h => exact hy h

/-- A computation that changes nothing keeps pace, where it may fail. -/
theorem follows_attempt_pure (h : s.Aligned omitted k) (a : α) :
    FollowsAttempt omitted transcript (pure a : Attempt ε Story α) (pure a) s k :=
  follows_pure h (Except.ok a : Except ε α)

/-- Failures keep pace. -/
theorem follows_throw (h : s.Aligned omitted k) (e : ε) :
    FollowsAttempt omitted transcript (throw e : Attempt ε Story α) (throw e) s k :=
  follows_pure h (Except.error e : Except ε α)

/-- Computations that may fail keep pace one after the other. -/
theorem follows_attempt_bind {x x' : Attempt ε Story α} {f f' : α → Attempt ε Story β}
    (hx : FollowsAttempt omitted transcript x x' s k)
    (hf : ∀ a t j, x s = some (.ok a, t) → t.Aligned omitted j →
      FollowsAttempt omitted transcript (f a) (f' a) t j) :
    FollowsAttempt omitted transcript (x >>= f) (x' >>= f') s k := by
  refine Follows.bind hx fun r t j hr ht => ?_
  cases r with
  | ok a => exact hf a t j hr ht
  | error e => exact follows_pure ht _

/-- Computations that cannot fail keep pace among those that can. -/
theorem follows_lift {x x' : Run Story α} (hx : Follows omitted transcript x x' s k) :
    FollowsAttempt omitted transcript (ExceptT.lift x : Attempt ε Story α) (ExceptT.lift x') s k :=
  hx.bind fun _ _ _ _ ht => follows_pure ht _

/-- Changes that lead to aligned stories keep pace among steps that may fail. -/
theorem follows_attempt_modify {g g' : Story → Story} {j : Nat} (h : (g s).Aligned omitted j)
    (heq : g' (s.without omitted k transcript) = (g s).without omitted j transcript) :
    FollowsAttempt omitted transcript (modify g : Attempt ε Story Unit) (modify g') s k := by
  intro a t' hrun
  cases hrun
  exact ⟨g s, j, rfl, heq, h⟩

/-- Reading the story, steps that may fail go on with the one and with the other. -/
theorem follows_attempt_get {f f' : Story → Attempt ε Story α}
    (h : FollowsAttempt omitted transcript (f s) (f' (s.without omitted k transcript)) s k) :
    FollowsAttempt omitted transcript (get >>= f) (get >>= f') s k := h

end Rules

/-! ## Thinking -/

section Thinking

variable {α : Type} {transcript : List String} {w : World} {s : Story} {k : Nat}

/-- Thinking does the same where what is thought about does. -/
theorem think_without (h : s.Aligned omitted k) {f g : Stage → Context Memory → Run Memory α}
    (hg : ∀ ctx, g ((s.stage w.host).without omitted) ctx = f (s.stage w.host) ctx) {a : α}
    {t' : Story} (hrun : think w g (s.without omitted k transcript) = some (a, t')) :
    ∃ m, think w f s = some (a, { s with memory := m }) ∧
      t' = { s with memory := m }.without omitted k transcript := by
  obtain ⟨m, hthought, rfl⟩ := think_eq_some hrun
  have hcontext := Stage.context_without (s := s.stage w.host)
    (fun _ => h.content.omissible.comment) w.depth
  rw [stage_without, hcontext, hg] at hthought
  exact ⟨m, Option.map_eq_some_iff.2 ⟨(a, m), hthought, rfl⟩, rfl⟩

/-- Whatever is asked of the context for expressions has the same answer. -/
theorem follows_think (h : s.Aligned omitted k) {f g : Stage → Context Memory → Run Memory α}
    (hg : ∀ ctx, g ((s.stage w.host).without omitted) ctx = f (s.stage w.host) ctx)
    (hobeys : ∀ ctx : Context Memory, ctx.Obeys (Memory.changing s.content) →
      (Memory.changing s.content).Allows (f (s.stage w.host) ctx)) :
    Follows omitted transcript (think w f) (think w g) s k := by
  intro a t' hrun'
  obtain ⟨m, hrun, rfl⟩ := think_without h hg hrun'
  obtain ⟨m', hchanges, heq⟩ := changes_of_think hobeys hrun
  cases heq
  exact ⟨_, k, hrun, rfl, h.think hchanges⟩

/-- A text is expanded alike. -/
theorem follows_expand (h : s.Aligned omitted k) (count : Nat) (text : List Char) :
    Follows omitted transcript (think w fun _ ctx => Directive.expand ctx count text)
      (think w fun _ ctx => Directive.expand ctx count text) s k :=
  follows_think h (fun _ => rfl) fun _ hctx => hctx.expand count text

/-- The same choices are available. -/
theorem follows_isAvailable (h : s.Aligned omitted k) (i : NodeId) :
    Follows omitted transcript (isAvailable w i) (isAvailable w i) s k := by
  refine follows_get ?_
  rw [node_without, Node.without]
  simp only
  cases (s.node i).kind with
  | choice repeatable conditions =>
    exact .ite (fun _ => follows_pure h _) fun _ =>
      follows_think h (fun _ => rfl) fun _ hctx => hctx.allHold _
  | _ => exact follows_pure h _

/-- The same container is entered. -/
theorem follows_enter (h : s.Aligned omitted k) (i : NodeId) :
    Follows omitted transcript (enter w i) (enter w i) s k := by
  intro a t' hrun
  obtain ⟨_, u', hselect', hmove⟩ := Run.bind_eq_some.1 hrun
  cases hmove
  obtain ⟨m, hselect, rfl⟩ := think_without h (f := fun stage ctx => stage.selectOption ctx i)
    (fun ctx => (s.stage w.host).selectOption_without omitted ctx i) hselect'
  exact ⟨{ s with memory := m }.moveInto i, 0, Run.bind_eq_some.2 ⟨_, _, hselect, rfl⟩,
    moveInto_without .., h.enter rfl h.interrupts rfl⟩

end Thinking

/-! ## Coming to rest -/

section Settling

variable {transcript : List String} {w : World} {s : Story} {k : Nat}

/-- Among the children that stay, play lands where it lands among all of them. -/
theorem landingAmong?_without (h : s.Aligned omitted k) (parent : NodeId) (takesChoice : Bool)
    {position : Nat} {rest : List NodeId} (hrest : (s.children parent).drop position = rest) :
    (s.without omitted k transcript).landingAmong? parent takesChoice
        (positionWithout omitted (s.children parent) position) (rest.filter (!omitted ·)) =
      (s.landingAmong? parent takesChoice position rest).map (Landing.without omitted s) := by
  induction rest generalizing position with
  | nil => rfl
  | cons i rest ih =>
    have hi : (s.children parent)[position]? = some i := by
      rw [← List.head?_drop, hrest, List.head?_cons]
    have hnext : (s.children parent).drop (position + 1) = rest := by
      rw [← List.tail_drop, hrest, List.tail_cons]
    have hlength := h.length_children parent
    have ih := ih hnext
    rw [landingAmong?]
    cases homitted : omitted i with
    | true =>
      have hcomment := h.isComment_of_omitted homitted
      rw [positionWithout_succ_of_omitted hlength hi homitted] at ih
      rw [List.filter_cons_of_neg (by simp [homitted]), Node.isGather_of_isComment hcomment,
        Node.isChoice_of_isComment hcomment, Bool.and_false, if_neg Bool.false_ne_true,
        if_neg Bool.false_ne_true, ← ih]
    | false =>
      rw [positionWithout_succ hlength hi homitted] at ih
      rw [List.filter_cons_of_pos (by simp [homitted]), landingAmong?, node_without,
        Node.isGather_without, Node.isChoice_without, ih]
      split
      · rfl
      · split <;> rfl

/-- Further up it lands there, too. -/
theorem landingAbove?_without (h : s.Aligned omitted k) (takesChoice : Bool) {line : List NodeId}
    (hline : ∀ i ∈ line, omitted i = false) :
    (s.without omitted k transcript).landingAbove? takesChoice line =
      (s.landingAbove? takesChoice line).map (Landing.without omitted s) := by
  fun_induction landingAbove? s takesChoice line with
  | case1 takesChoice child parent above siblings start ih =>
    have hchild := hline child List.mem_cons_self
    rw [landingAbove?, ih fun i hi => hline i (List.mem_cons_of_mem _ hi), children_without,
      ← positionWithout_positionAfter (h.length_children parent) hchild,
      drop_positionWithout (h.length_children parent),
      landingAmong?_without h parent takesChoice rfl]
    cases s.landingAmong? parent takesChoice start (siblings.drop start) <;> rfl
  | case2 takesChoice line hshort => simp [landingAbove?]

/-- Nothing above a node that stays is omitted. -/
theorem Aligned.omitted_of_mem_lineage (h : s.Aligned omitted k) {i j : Nat}
    (hi : omitted i = false) (hj : j ∈ s.content.lineage i) : omitted j = false := by
  induction i using Nat.strongRecOn with
  | ind i ih =>
    obtain rfl | ⟨p, hp, hj⟩ := h.content.tree.descends.mem_lineage_iff.1 hj
    · exact hi
    · have hkept := h.kept_of_isContainer (h.content.housed i p hp)
      exact ih p (h.content.tree.descends.lt hp) hkept hj

/-- What follows a container is the same. -/
theorem landing?_without (h : s.Aligned omitted k) {c : NodeId} (hc : omitted c = false) :
    (s.without omitted k transcript).landing? c =
      (s.landing? c).map (Landing.without omitted s) := by
  rw [landing?, node_without, Node.isGather_without, content_without, Content.lineage_without,
    landingAbove?_without h _ fun i hi => h.omitted_of_mem_lineage hc hi, landing?]

/-- A story is aligned where the cursor is moved to a position in a node. -/
theorem Aligned.place (h : s.Aligned omitted k) (p : NodeId) (position : Nat) :
    Aligned omitted { s with container := some p, index := position }
      (positionWithout omitted (s.children p) position) := by
  refine ⟨h.content, h.interrupts, ?_⟩
  rintro _ ⟨⟩
  rfl

/-- A block is left at the same node. -/
theorem follows_leaveBlock (h : s.Aligned omitted k) {c : NodeId}
    (hc : (s.node c).isBlock = true) :
    Follows omitted transcript (modify (·.leaveBlock c)) (modify (·.leaveBlock c)) s k := by
  have hkept : omitted c = false := h.kept_of_isContainer (Node.isContainer_of_isBlock hc)
  cases hparent : (s.node c).parent with
  | none =>
    have hleave : s.leaveBlock c = { s with container := none } := by rw [leaveBlock, hparent]
    refine follows_modify (j := k) (hleave ▸ h.over rfl h.interrupts rfl) ?_
    rw [hleave, leaveBlock, node_without, Node.parent_without, hparent]
    rfl
  | some p =>
    have hleave : s.leaveBlock c =
        { s with container := some p, index := positionAfter (s.children p) c } := by
      rw [leaveBlock, hparent]
    refine follows_modify (hleave ▸ h.place p _) ?_
    rw [hleave, leaveBlock, node_without, Node.parent_without, hparent,
      positionWithout_positionAfter (h.length_children p) hkept]
    simp only [children_without]
    rfl

/-- At the end of a container both go on alike. -/
theorem follows_settleExhausted (h : s.Aligned omitted k) (c : NodeId) :
    Follows omitted transcript (settleExhausted w c) (settleExhausted w c) s k := by
  refine follows_get ?_
  simp only [node_without, Node.isBlock_without, Node.parent_without, Node.isChoice_without,
    Node.isGather_without]
  refine .ite (fun hblock => ?_) fun _ => .ite (fun _ => follows_pure h _) fun _ => ?_
  · exact (follows_leaveBlock h hblock).bind fun _ _ _ _ ht => follows_pure ht _
  · by_cases hstrand : ((s.node c).isChoice || (s.node c).isGather) = true
    · have hkept : omitted c = false := h.kept_of_isContainer
        (Node.isContainer_of_branch (by rw [Bool.or_assoc, hstrand, Bool.or_true]))
      rw [if_pos hstrand, if_pos hstrand, landing?_without h hkept]
      cases s.landing? c with
      | none =>
        exact follows_modify_pure (h.over rfl h.interrupts rfl) rfl
      | some landing =>
        cases landing with
        | gather i => exact (follows_enter h i).bind fun _ _ _ _ ht => follows_pure ht _
        | choice p position => exact follows_modify_pure (h.place p position) rfl
    · rw [if_neg hstrand, if_neg hstrand]
      exact follows_modify_pure (h.over rfl h.interrupts rfl) rfl

/-- Whether the position behind the cursor is one further without the omitted comments, too. -/
def Passable (omitted : NodeId → Bool) (s : Story) : Prop :=
  ∀ c, s.container = some c → positionWithout omitted (s.children c) (s.index + 1) =
    positionWithout omitted (s.children c) s.index + 1

/-- Where the node at the cursor stays, play passes it in both. -/
theorem Aligned.passable (h : s.Aligned omitted k) {i : NodeId} (hi : s.cursor? = some i)
    (hkept : omitted i = false) : s.Passable omitted := by
  intro c hc
  rw [h.cursor?_eq, hc, Option.bind_some] at hi
  exact positionWithout_succ (h.length_children c) hi hkept

/-- Thinking leaves it so. -/
theorem Aligned.passable_think (h : s.Aligned omitted k) (hs : s.Passable omitted) {m : Memory}
    (hm : Memory.Changes s.content s.memory m) : Passable omitted { s with memory := m } := by
  intro c hc
  have hposition := h.positionWithout_eq hm c
  exact (hposition _).trans ((hs c hc).trans (congrArg (· + 1) (hposition _).symm))

/-- Passing a node keeps a story aligned. -/
theorem Aligned.pass (h : s.Aligned omitted k) (hs : s.Passable omitted) :
    Aligned omitted { s with index := s.index + 1 } (k + 1) :=
  ⟨h.content, h.interrupts, fun {c} hc =>
    (congrArg (· + 1) (h.index_eq hc)).trans (hs c hc).symm⟩

/-- Both settle alike at a node that stays. -/
theorem follows_settleAt (h : s.Aligned omitted k) {i : NodeId} (hi : s.cursor? = some i)
    (hkept : omitted i = false) :
    Follows omitted transcript (settleAt w i) (settleAt w i) s k := by
  refine follows_get ?_
  simp only [node_without, Node.isBlock_without, Node.isFallback_without, Node.isGather_without]
  refine .ite (fun _ => ?_) fun _ => .ite (fun _ => ?_) fun _ => .ite (fun _ => ?_) fun _ =>
    follows_pure h _
  · refine (follows_isAvailable h i).bind fun available t j havailable ht => ?_
    obtain ⟨m, hchanges, rfl, -⟩ := changes_of_isAvailable havailable
    have hpassable := h.passable_think (h.passable hi hkept) hchanges
    cases available with
    | true => exact (follows_enter ht i).bind fun _ _ _ _ ht => follows_pure ht _
    | false => exact follows_modify_pure (ht.pass hpassable) rfl
  · exact (follows_enter h i).bind fun _ _ _ _ ht => follows_pure ht _
  · refine .ite (fun _ => ?_) fun _ => ?_
    · exact (follows_enter h i).bind fun _ _ _ _ ht => follows_pure ht _
    · have hwait : Aligned omitted { s with processing := false } k :=
        ⟨h.content, h.interrupts, h.index_eq⟩
      exact follows_modify_pure hwait rfl

/-- Where no omitted comment is at the cursor, the cursor moves toward rest in the same way. -/
theorem follows_settleOnce (h : s.Aligned omitted k) (hs : ¬ s.AtOmitted omitted) :
    Follows omitted transcript (settleOnce w) (settleOnce w) s k := by
  refine follows_get ?_
  rw [h.cursor?_without hs]
  have hcontainer : (s.without omitted k transcript).container = s.container := rfl
  rw [hcontainer]
  cases hc : s.container with
  | none => exact follows_pure h _
  | some c =>
    cases hi : s.cursor? with
    | none => exact follows_settleExhausted h c
    | some i =>
      exact follows_settleAt h hi (Bool.eq_false_iff.2 fun homitted => hs ⟨i, hi, homitted⟩)

end Settling

end Story

end Narrative
