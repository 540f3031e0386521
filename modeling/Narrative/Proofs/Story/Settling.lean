import Mathlib.Data.Set.Card
import Narrative.Proofs.Story.Pending

/-!
# Coming to rest

The cursor is brought to rest in rounds. A round enters the node at the cursor or passes it, leaves
an exhausted block, or goes on behind a node above. What is still to come never grows, and a round
that does not lessen it leads up to a node above. So there is an end of the rounds as long as the
conditions that are evaluated on the way come to an end.
-/

namespace Narrative

namespace Content

/-- What has a node in its line is a node. -/
theorem lt_size_of_mem_lineage {c : Content} {i z : Nat} (hi : i < c.size)
    (hz : i ∈ c.lineage z) : z < c.size := by
  by_contra hge
  rw [lineage_of_root (by rw [node_eq_default (Nat.le_of_not_lt hge)]; rfl),
    List.mem_singleton] at hz
  exact hge (hz ▸ hi)

/-- What hangs under a node outside of functions is outside, however far below. -/
theorem Tree.not_inFunction_of_mem_lineage {c : Content} (h : c.Tree) {i p : Nat}
    (hp : p ∈ c.lineage i) (hout : ¬ c.InFunction p) : ¬ c.InFunction i := by
  induction i using Nat.strongRecOn with
  | ind i ih =>
    obtain rfl | ⟨q, hq, hmem⟩ := h.descends.mem_lineage_iff.1 hp
    · exact hout
    · exact h.not_inFunction_of_parent hq (ih q (h.descends.lt hq) hmem)

end Content

/-- Choosing an option comes to an end unless the guards do not. -/
theorem Context.chooseOption_eq_none_iff {σ : Type} {ctx : Context σ} {mode : BlockMode}
    {options : List BlockOption} {count : Nat} {m : σ} :
    ctx.chooseOption mode options count m = none ↔
      mode = .conditional ∧ ctx.firstHolding (options.map (·.guard)) m = none := by
  cases mode with
  | conditional => simp only [chooseOption, true_and]
  | shuffle =>
    rw [chooseOption]
    split <;> exact ⟨nofun, nofun⟩
  | _ => exact ⟨nofun, nofun⟩

namespace Story

open Content (Listed Upcoming)

variable {w : World} {s t : Story} {again : Bool}

/-! ## Rounds -/

/-- The rounds that have to go on. -/
def Rounds (w : World) : Story → Story → Prop :=
  Relation.ReflTransGen fun s t => settleOnce w s = some (true, t)

/-- Whether the conditions that are evaluated at the cursor do not come to an end. -/
inductive Undecided (w : World) (s : Story) : Prop
  /-- Those of a fallback choice. -/
  | fallback {i : NodeId} {repeatable : Bool} {conditions : List String} :
      s.cursor? = some i → (s.node i).kind = .choice repeatable conditions →
      (s.node i).isFallback = true → s.choices = [] → s.Fresh i →
      think w (fun _ ctx => ctx.allHold conditions) s = none → Undecided w s
  /-- Those of the options of a block. -/
  | guards {i : NodeId} {options : List BlockOption} :
      s.cursor? = some i → (s.node i).kind = .block .conditional options →
      think w (fun _ ctx => ctx.firstHolding (options.map (·.guard))) s = none → Undecided w s

/-- What a round does. Where it enters a node, the node is entered like the target of a divert
without arguments, which does not fail. -/
inductive Round (w : World) (s : Story) : (again : Bool) → Story → Prop
  /-- The cursor is at rest. -/
  | still : Round w s false s
  /-- Play waits for a choice in front of a gather. -/
  | wait {i : NodeId} :
      s.cursor? = some i → (s.node i).isGather = true → s.choices ≠ [] →
      Round w s false { s with processing := false }
  /-- The content ends. -/
  | runOut {c : NodeId} :
      s.container = some c → s.cursor? = none → s.choices = [] → Round w s false s.runOut
  /-- An exhausted block is left. -/
  | leave {c : NodeId} :
      s.container = some c → s.cursor? = none → (s.node c).isBlock = true →
      Round w s (s.node c).parent.isSome (s.leaveBlock c)
  /-- A gather is entered behind a node above. -/
  | land {c i : NodeId} {t : Story} :
      s.container = some c → s.cursor? = none → s.choices = [] →
      s.landing? c = some (.gather i) → enterWith w i [] s = some (.ok (), t) → Round w s true t
  /-- Play goes on at a choice behind the container. -/
  | converge {c p : NodeId} {position : Nat} :
      s.container = some c → s.cursor? = none → s.choices = [] →
      s.landing? c = some (.choice p position) →
      Round w s true { s with container := some p, index := position }
  /-- The node at the cursor is entered, which is a block where choices are pending. -/
  | enter {i : NodeId} {m : Memory} {t : Story} :
      s.cursor? = some i → (s.choices = [] ∨ (s.node i).isBlock = true) →
      Memory.Changes s.content s.memory m →
      enterWith w i [] { s with memory := m } = some (.ok (), t) → Round w s true t
  /-- The fallback choice at the cursor is passed. -/
  | decline {i : NodeId} {m : Memory} :
      s.cursor? = some i → (s.node i).isFallback = true → s.choices = [] →
      Memory.Changes s.content s.memory m →
      Round w s true { s with memory := m, index := s.index + 1 }

/-- A node that is no section has no parameters to be bound. -/
theorem enterWith_of_not_isSection {i : NodeId} (hi : (s.node i).isSection = false)
    (h : enter w i s = some ((), t)) : enterWith w i [] s = some (.ok (), t) := by
  rw [enterWith, Attempt.get_bind_apply]
  simp only [hi, Bool.false_eq_true, if_false]
  change (ExceptT.lift (enter w i) : Play Unit) s = _
  rw [Attempt.lift_apply, h]
  rfl

/-- A block is no section. -/
theorem isSection_of_isBlock {n : Node} (h : n.isBlock = true) : n.isSection = false := by
  cases hsection : n.isSection with
  | false => rfl
  | true =>
    rw [isBlock_of_isSection hsection] at h
    cases h

/-- A choice is no section. -/
theorem isSection_of_isChoice {n : Node} (h : n.isChoice = true) : n.isSection = false := by
  unfold Node.isChoice at h
  unfold Node.isSection
  split at h <;> simp_all

/-- A gather is no section. -/
theorem isSection_of_isGather {n : Node} (h : n.isGather = true) : n.isSection = false := by
  unfold Node.isGather at h
  unfold Node.isSection
  split at h <;> simp_all

/-- Play lands at a gather where it is said to. -/
theorem isGather_of_landing? {c i : NodeId} (h : s.landing? c = some (.gather i)) :
    (s.node i).isGather = true := by
  obtain ⟨_, -, ⟨j, -, hj, hgather⟩ | ⟨_, hother, -⟩⟩ := landing_of_landingAbove? h
  · cases hj
    exact hgather
  · cases hother

/-- What is done at the end of a container is a round. -/
theorem round_of_settleExhausted {c : NodeId} (hc : s.container = some c)
    (hnone : s.cursor? = none) (h : settleExhausted w c s = some (again, t)) :
    s.Round w again t := by
  rw [settleExhausted, Run.get_bind_apply] at h
  split at h
  · next hblock =>
    obtain ⟨_, u, hleave, hend⟩ := Run.bind_eq_some.1 h
    cases hleave
    cases hend
    exact .leave hc hnone hblock
  · split at h
    · cases h
      exact .still
    · next hempty =>
      have hchoices : s.choices = [] := by simpa using hempty
      cases hlanding :
        (if (s.node c).isChoice || (s.node c).isGather then s.landing? c else none) with
      | none =>
        simp only [hlanding] at h
        cases h
        exact .runOut hc hnone hchoices
      | some landing =>
        simp only [hlanding] at h
        replace hlanding : s.landing? c = some landing := by
          split at hlanding
          · exact hlanding
          · cases hlanding
        cases landing with
        | gather i =>
          obtain ⟨_, u, henter, hend⟩ := Run.bind_eq_some.1 h
          cases hend
          have hplain := isSection_of_isGather (isGather_of_landing? hlanding)
          exact .land hc hnone hchoices hlanding (enterWith_of_not_isSection hplain henter)
        | choice p position =>
          cases h
          exact .converge hc hnone hchoices hlanding

/-- Settling at a node is a round. -/
theorem round_of_settleAt {i : NodeId} (hi : s.cursor? = some i)
    (h : settleAt w i s = some (again, t)) : s.Round w again t := by
  rw [settleAt, Run.get_bind_apply] at h
  split at h
  · next hfallback =>
    rw [Bool.and_eq_true, List.isEmpty_iff] at hfallback
    obtain ⟨hfallback, hchoices⟩ := hfallback
    obtain ⟨available, u, havailable, hrest⟩ := Run.bind_eq_some.1 h
    obtain ⟨m, hchanges, rfl, -⟩ := changes_of_isAvailable havailable
    cases available with
    | true =>
      obtain ⟨_, v, henter, hend⟩ := Run.bind_eq_some.1 hrest
      cases hend
      rw [Node.isFallback, Bool.and_eq_true] at hfallback
      have hplain := isSection_of_isChoice hfallback.1
      exact .enter hi (.inl hchoices) hchanges (enterWith_of_not_isSection hplain henter)
    | false =>
      cases hrest
      exact .decline hi hfallback hchoices hchanges
  · split at h
    · next hblock =>
      obtain ⟨_, u, henter, hend⟩ := Run.bind_eq_some.1 h
      cases hend
      exact .enter hi (.inr hblock) .refl
        (enterWith_of_not_isSection (isSection_of_isBlock hblock) henter)
    · split at h
      · next hgather =>
        split at h
        · next hempty =>
          obtain ⟨_, u, henter, hend⟩ := Run.bind_eq_some.1 h
          cases hend
          exact .enter hi (.inl (List.isEmpty_iff.1 hempty)) .refl
            (enterWith_of_not_isSection (isSection_of_isGather hgather) henter)
        · next hpending =>
          cases h
          exact .wait hi hgather (by simpa using hpending)
      · cases h
        exact .still

/-- Every round that finishes is one of these. -/
theorem round_of_settleOnce (h : settleOnce w s = some (again, t)) : s.Round w again t := by
  rw [settleOnce, Run.get_bind_apply] at h
  cases hc : s.container with
  | none =>
    simp only [hc] at h
    cases h
    exact .still
  | some c =>
    cases hi : s.cursor? with
    | none =>
      simp only [hc, hi] at h
      exact round_of_settleExhausted hc hi h
    | some i =>
      simp only [hc, hi] at h
      exact round_of_settleAt hi h

/-! ## Evaluation -/

/-- Thinking does not end just when what is thought does not. -/
theorem think_eq_none_iff {α : Type} {f : Stage → Context Memory → Run Memory α} :
    think w f s = none ↔
      f (s.stage w.host) ((s.stage w.host).context w.depth) s.memory = none :=
  Option.map_eq_none_iff

/-- Finding out whether a choice is offered comes to an end unless its conditions do not. -/
theorem isAvailable_eq_none_iff {i : NodeId} :
    isAvailable w i s = none ↔ s.Fresh i ∧ ∃ repeatable conditions,
      (s.node i).kind = .choice repeatable conditions ∧
        think w (fun _ ctx => ctx.allHold conditions) s = none := by
  rw [isAvailable, Run.get_bind_apply]
  cases hkind : (s.node i).kind with
  | choice repeatable conditions =>
    simp only [NodeKind.choice.injEq]
    split
    · next hstale =>
      rw [Bool.and_eq_true, Bool.not_eq_true', decide_eq_true_eq] at hstale
      obtain ⟨rfl, hcount⟩ := hstale
      constructor
      · intro hnone
        cases hnone
      · rintro ⟨hfresh, -⟩
        have := hfresh conditions hkind
        omega
    · next hstale =>
      have hfresh : s.Fresh i := by
        intro conditions' hkind'
        rw [hkind] at hkind'
        cases hkind'
        simpa using hstale
      constructor
      · intro hnone
        exact ⟨hfresh, repeatable, conditions, ⟨rfl, rfl⟩, hnone⟩
      · rintro ⟨-, _, _, ⟨rfl, rfl⟩, hnone⟩
        exact hnone
  | _ => simp

/-- Entering a node comes to an end unless the guards of a block do not. -/
theorem enter_eq_none_iff {i : NodeId} :
    enter w i s = none ↔ ∃ options, (s.node i).kind = .block .conditional options ∧
      think w (fun _ ctx => ctx.firstHolding (options.map (·.guard))) s = none := by
  have hselect : enter w i s = none ↔
      think w (fun stage ctx => stage.selectOption ctx i) s = none := by
    rw [enter, Run.bind_eq_none, or_iff_left]
    rintro ⟨_, _, -, hmove⟩
    cases hmove
  have hnode : (s.stage w.host).content.node i = s.node i := rfl
  simp only [hselect, think_eq_none_iff, Stage.selectOption, hnode]
  cases hkind : (s.node i).kind with
  | block mode options =>
    simp only
    rw [Run.get_bind_apply, Run.bind_eq_none, or_iff_left]
    · rw [Context.chooseOption_eq_none_iff]
      constructor
      · rintro ⟨rfl, hnone⟩
        exact ⟨options, rfl, hnone⟩
      · rintro ⟨_, hsame, hnone⟩
        cases hsame
        exact ⟨rfl, hnone⟩
    · rintro ⟨_, _, -, hmove⟩
      cases hmove
  | _ => simp

/-- A choice is no block. -/
theorem isBlock_of_isChoice {n : Node} (h : n.isChoice = true) : n.isBlock = false := by
  unfold Node.isChoice at h
  unfold Node.isBlock
  split at h <;> simp_all

/-- A gather is no block. -/
theorem isBlock_of_isGather {n : Node} (h : n.isGather = true) : n.isBlock = false := by
  unfold Node.isGather at h
  unfold Node.isBlock
  split at h <;> simp_all

/-- A node that is no block is entered without an evaluation. -/
theorem enter_ne_none {i : NodeId} (hi : (s.node i).isBlock = false) : enter w i s ≠ none := by
  intro h
  obtain ⟨_, hkind, -⟩ := enter_eq_none_iff.1 h
  rw [Node.isBlock, hkind] at hi
  cases hi

/-- Where the container is exhausted nothing is evaluated. -/
theorem settleExhausted_ne_none {c : NodeId} : settleExhausted w c s ≠ none := by
  intro h
  rw [settleExhausted, Run.get_bind_apply] at h
  split at h
  · cases h
  · split at h
    · cases h
    · cases hlanding :
        (if (s.node c).isChoice || (s.node c).isGather then s.landing? c else none) with
      | none =>
        simp only [hlanding] at h
        cases h
      | some landing =>
        simp only [hlanding] at h
        cases landing with
        | gather i =>
          split at hlanding
          · rcases Run.bind_eq_none.1 h with henter | ⟨_, _, -, hend⟩
            · exact enter_ne_none (isBlock_of_isGather (isGather_of_landing? hlanding)) henter
            · cases hend
          · cases hlanding
        | choice p position => cases h

/-- Settling at a node ends unless conditions do not. -/
theorem undecided_of_settleAt {i : NodeId} (hi : s.cursor? = some i)
    (h : settleAt w i s = none) : s.Undecided w := by
  rw [settleAt, Run.get_bind_apply] at h
  split at h
  · next hfallback =>
    rw [Bool.and_eq_true, List.isEmpty_iff] at hfallback
    rcases Run.bind_eq_none.1 h with havailable | ⟨available, u, havailable, hrest⟩
    · obtain ⟨hfresh, _, _, hkind, hnone⟩ := isAvailable_eq_none_iff.1 havailable
      exact .fallback hi hkind hfallback.1 hfallback.2 hfresh hnone
    · obtain ⟨m, -, rfl, -⟩ := changes_of_isAvailable havailable
      cases available with
      | true =>
        rcases Run.bind_eq_none.1 hrest with henter | ⟨_, _, -, hend⟩
        · rw [Node.isFallback, Bool.and_eq_true] at hfallback
          exact absurd henter (enter_ne_none (isBlock_of_isChoice hfallback.1.1))
        · cases hend
      | false => cases hrest
  · split at h
    · rcases Run.bind_eq_none.1 h with henter | ⟨_, _, -, hend⟩
      · obtain ⟨_, hkind, hnone⟩ := enter_eq_none_iff.1 henter
        exact .guards hi hkind hnone
      · cases hend
    · split at h
      · split at h
        · rcases Run.bind_eq_none.1 h with henter | ⟨_, _, -, hend⟩
          · obtain ⟨_, hkind, hnone⟩ := enter_eq_none_iff.1 henter
            exact .guards hi hkind hnone
          · cases hend
        · cases h
      · cases h

/-- A round comes to an end unless the conditions that are evaluated at the cursor do not. -/
theorem settleOnce_eq_none_iff : settleOnce w s = none ↔ s.Undecided w := by
  rw [settleOnce, Run.get_bind_apply]
  constructor
  · intro h
    cases hc : s.container with
    | none =>
      simp only [hc] at h
      cases h
    | some c =>
      cases hi : s.cursor? with
      | none =>
        simp only [hc, hi] at h
        exact absurd h settleExhausted_ne_none
      | some i =>
        simp only [hc, hi] at h
        exact undecided_of_settleAt hi h
  · intro h
    cases h with
    | @fallback i repeatable conditions hi hkind hfallback hchoices hfresh hnone =>
      obtain ⟨c, hc, -⟩ := exists_of_cursor? hi
      simp only [hc, hi]
      rw [settleAt, Run.get_bind_apply, if_pos (by rw [hfallback, hchoices]; rfl)]
      exact Run.bind_eq_none.2 (.inl (isAvailable_eq_none_iff.2
        ⟨hfresh, repeatable, conditions, hkind, hnone⟩))
    | @guards i options hi hkind hnone =>
      obtain ⟨c, hc, -⟩ := exists_of_cursor? hi
      simp only [hc, hi]
      have hblock : (s.node i).isBlock = true := by rw [Node.isBlock, hkind]
      have hfallback : (s.node i).isFallback = false := by
        rw [Node.isFallback, Node.isChoice, hkind]
        rfl
      rw [settleAt, Run.get_bind_apply, hfallback, Bool.false_and, if_neg Bool.false_ne_true,
        if_pos hblock]
      exact Run.bind_eq_none.2 (.inl (enter_eq_none_iff.2 ⟨options, hkind, hnone⟩))

/-! ## Going on behind a node above -/

/-- Play lands among the nodes it looks through. -/
theorem exists_of_landingAmong? {p : NodeId} {takesChoice : Bool} {position : Nat}
    {list : List NodeId} {landing : Landing}
    (h : s.landingAmong? p takesChoice position list = some landing) :
    ∃ (n : Nat) (i : NodeId), list[n]? = some i ∧
      (landing = .gather i ∨ landing = .choice p (position + n) ∧ takesChoice = true) := by
  induction list generalizing position with
  | nil => cases h
  | cons i rest ih =>
    rw [landingAmong?] at h
    split at h
    · cases h
      exact ⟨0, i, rfl, .inl rfl⟩
    · split at h
      · next hchoice =>
        cases h
        rw [Bool.and_eq_true] at hchoice
        exact ⟨0, i, rfl, .inr ⟨rfl, hchoice.1⟩⟩
      · obtain ⟨n, j, hj, hlanding⟩ := ih h
        refine ⟨n + 1, j, hj, ?_⟩
        rwa [Nat.add_assoc, Nat.add_comm 1 n] at hlanding

/-- Play lands on a node that stands behind one in the line of the container, and at a choice only
behind the container itself. -/
theorem exists_of_landingAbove? (htree : s.content.Tree) (hbounded : s.content.size < beyondAll)
    {takesChoice : Bool} {c : NodeId} {landing : Landing}
    (h : s.landingAbove? takesChoice (s.content.lineage c) = some landing) :
    ∃ (b p : NodeId) (k j : Nat) (i : NodeId), b ∈ s.content.lineage c ∧
      (s.children p)[k]? = some b ∧ k < j ∧ (s.children p)[j]? = some i ∧
      (landing = .gather i ∨ landing = .choice p j ∧ b = c ∧ takesChoice = true) := by
  -- above the first node of the line no choice is taken
  induction c using Nat.strongRecOn generalizing takesChoice with
  | ind c ih =>
    cases hparent : (s.content.node c).parent with
    | none =>
      rw [Content.lineage_of_root hparent] at h
      cases h
    | some p =>
      rw [htree.descends.lineage_of_parent hparent, Content.lineage, landingAbove?,
        Option.orElse_eq_orElse, Option.orElse_eq_or, Option.or_eq_some_iff] at h
      rcases h with hhere | ⟨-, habove⟩
      · obtain ⟨n, i, hi, hlanding⟩ := exists_of_landingAmong? hhere
        rw [List.getElem?_drop] at hi
        have hlt := (List.getElem?_eq_some_iff.1 hi).1
        have hlength := length_children_le htree p
        have hstart : positionAfter (s.children p) c < beyondAll := by omega
        obtain ⟨k, hafter, hk⟩ := exists_of_positionAfter hstart
        refine ⟨c, p, k, positionAfter (s.children p) c + n, i, s.content.mem_lineage_self c, hk,
          by omega, hi, ?_⟩
        rcases hlanding with rfl | ⟨rfl, htakes⟩
        · exact .inl rfl
        · exact .inr ⟨rfl, rfl, htakes⟩
      · rw [← Content.lineage] at habove
        obtain ⟨b, q, k, j, i, hb, hk, hkj, hj, hlanding⟩ := ih p (htree.descends.lt hparent) habove
        refine ⟨b, q, k, j, i, htree.descends.mem_lineage_trans (htree.descends.parent_mem hparent) hb,
          hk, hkj, hj, ?_⟩
        rcases hlanding with rfl | ⟨-, -, hfalse⟩
        · exact .inl rfl
        · cases hfalse

section Landing

variable (htree : s.content.Tree) (hbounded : s.content.size < beyondAll)

include htree hbounded

/-- Play lands in a gather behind a node in the line of the container. -/
theorem exists_of_landing_gather {c i : NodeId} (h : s.landing? c = some (.gather i)) :
    ∃ (b p : NodeId) (k j : Nat), b ∈ s.content.lineage c ∧ (s.children p)[k]? = some b ∧ k < j ∧
      (s.children p)[j]? = some i := by
  obtain ⟨b, p, k, j, i', hb, hk, hkj, hj, hi | ⟨hother, -⟩⟩ :=
    exists_of_landingAbove? htree hbounded h
  · cases hi
    exact ⟨b, p, k, j, hb, hk, hkj, hj⟩
  · cases hother

/-- Play lands at a choice behind the container. -/
theorem exists_of_landing_choice {c p : NodeId} {position : Nat}
    (h : s.landing? c = some (.choice p position)) :
    ∃ (k : Nat) (i : NodeId), (s.children p)[k]? = some c ∧ k < position ∧
      (s.children p)[position]? = some i := by
  obtain ⟨b, p', k, j, i, -, hk, hkj, hj, hother | ⟨hplace, hself, -⟩⟩ :=
    exists_of_landingAbove? htree hbounded h
  · cases hother
  · cases hplace
    subst hself
    exact ⟨k, i, hk, hkj, hj⟩

end Landing

/-- What is upcoming at last was upcoming at first. -/
theorem Onward.trans {u : Story} (h : s.Onward t) (h' : t.Onward u)
    (hcontent : t.content = s.content) : s.Onward u where
  listed {p z} hp hz := by
    rw [← hcontent] at hz
    obtain ⟨q, hq, hz'⟩ := h'.listed hp hz
    rw [hcontent] at hz'
    exact h.listed hq hz'
  active {p z} hp hout hz := by
    rw [← hcontent] at hout hz
    obtain ⟨q, hq, hout', hz'⟩ := h'.active hp hout hz
    rw [hcontent] at hout' hz'
    exact h.active hq hout' hz'

/-- Where play goes on behind a node above, it goes on onward. -/
theorem onward_rise (htree : s.content.Tree) {c b p : NodeId} {k position : Nat}
    (hc : s.container = some c) (hb : b ∈ s.content.lineage c)
    (hk : (s.children p)[k]? = some b) (hlt : k < position) :
    s.Onward { s with container := some p, index := position } := by
  have hparent := parent_of_mem_children htree (List.mem_of_getElem? hk)
  constructor
  · intro q z hq hz
    cases hq
    exact ⟨c, hc, hz.of_rise htree hb hparent (listed_children s p) fun _ => ⟨k, hk, hlt⟩⟩
  · intro q z hq hout hz
    cases hq
    have habove := htree.descends.mem_lineage_trans hb (htree.descends.parent_mem hparent)
    exact ⟨c, hc, htree.not_inFunction_of_mem_lineage habove hout,
      hz.of_rise htree hb hparent rfl fun _ => ⟨k, hk, hlt⟩⟩

/-- What is entered like the target of a divert is moved into. -/
theorem moveInto_of_enterWith {i : NodeId} {m : Memory}
    (hchanges : Memory.Changes s.content s.memory m)
    (h : enterWith w i [] { s with memory := m } = some (.ok (), t)) :
    ∃ m' m'', Memory.Changes s.content s.memory m' ∧ Memory.Readies s.content i m' m'' ∧
      t = { s with memory := m'' }.moveInto i := by
  obtain ⟨_, herror, -⟩ | ⟨-, m', m'', hchanges', hreadies, rfl⟩ := enterWith_eq_some h
  · cases herror
  · exact ⟨m', m'', hchanges.trans hchanges', hreadies, rfl⟩

/-- Every round goes onward. -/
theorem Round.onward (htree : s.content.Tree) (hbounded : s.content.size < beyondAll)
    (h : s.Round w again t) : s.Onward t := by
  cases h with
  | still => exact onward_of_eq rfl rfl rfl
  | wait _ _ _ => exact onward_of_eq rfl rfl rfl
  | runOut _ _ _ => exact ⟨nofun, nofun⟩
  | leave hc _ _ => exact onward_leave htree hc
  | @land c i _ hc _ _ hlanding henter =>
    obtain ⟨b, p, k, j, hb, hk, hkj, hj⟩ := exists_of_landing_gather htree hbounded hlanding
    obtain ⟨m, m', hchanges, hreadies, rfl⟩ := moveInto_of_enterWith .refl henter
    -- the gather is entered from the place where it stands
    have hlength := length_children_le htree p
    have hlt := (List.getElem?_eq_some_iff.1 hj).1
    have hcursor : cursor? { s with container := some p, index := j } = some i := by
      change (if j < beyondAll then (s.children p)[j]? else none) = some i
      rw [if_pos (by omega), hj]
    have hrise := onward_rise htree hc hb hk hkj
    exact hrise.trans (onward_enter (s := { s with container := some p, index := j }) htree
      hcursor hchanges hreadies) rfl
  | @converge c p position hc _ _ hlanding =>
    obtain ⟨k, i, hk, hkj, -⟩ := exists_of_landing_choice htree hbounded hlanding
    exact onward_rise htree hc (s.content.mem_lineage_self c) hk hkj
  | enter hi _ hchanges henter =>
    obtain ⟨m, m', hchanges, hreadies, rfl⟩ := moveInto_of_enterWith hchanges henter
    exact onward_enter htree hi hchanges hreadies
  | decline hi _ _ hchanges =>
    have hthought := onward_thought htree (.think hchanges)
    exact hthought.trans onward_pass rfl

/-! ## The end of the rounds -/

/-- The nodes that play may still come to, whatever options are chosen. -/
def ahead (s : Story) : Set NodeId :=
  { z | ∃ p, s.container = some p ∧ s.content.Upcoming s.content.Listed p s.index z }

/-- How deep the container is nested. -/
def depth (s : Story) : Nat :=
  s.container.elim 0 fun c => (s.content.lineage c).length

/-- What is left to be done until the cursor is at rest. A node that is passed weighs more than one
step down into it. -/
noncomputable def effort (s : Story) : Nat :=
  2 * s.ahead.ncard + s.depth

/-- Going onward, play comes to no node that was not ahead. -/
theorem Onward.ahead_subset (h : s.Onward t) (hcontent : t.content = s.content) :
    t.ahead ⊆ s.ahead := by
  rintro z ⟨p, hp, hz⟩
  rw [hcontent] at hz
  exact h.listed hp hz

section Tree

variable (htree : s.content.Tree)

include htree

/-- What play may come to are nodes. -/
theorem ahead_subset : s.ahead ⊆ ↑(Finset.range s.content.size) := by
  have hunder {a b z : NodeId} {list : List NodeId} {j : Nat} (hlist : s.content.Listed a list)
      (hj : list[j]? = some b) (hz : b ∈ s.content.lineage z) : z < s.content.size :=
    Content.lt_size_of_mem_lineage (Content.lt_size_of_parent (htree.parent_of_view hlist hj)) hz
  rintro z ⟨p, -, hz⟩
  rw [Finset.coe_range, Set.mem_Iio]
  cases hz with
  | inside hlist hj _ _ hmem => exact hunder hlist hj hmem
  | behind _ _ _ hlist hj _ _ hmem => exact hunder hlist hj hmem

/-- Only so many nodes are ahead. -/
theorem finite_ahead : s.ahead.Finite :=
  (Finset.finite_toSet _).subset (ahead_subset htree)

/-- No more nodes are ahead than there are. -/
theorem ncard_ahead_le : s.ahead.ncard ≤ s.content.size := by
  have hle := Set.ncard_le_ncard (ahead_subset htree) (Finset.finite_toSet _)
  rwa [Set.ncard_coe_finset, Finset.card_range] at hle

/-- A node that play is inside is not ahead. -/
theorem not_upcoming_self {i : NodeId} {position : Nat} :
    ¬ s.content.Upcoming s.content.Listed i position i := by
  intro hself
  cases hself with
  | inside hlist hj _ _ hmem =>
    have hbelow := htree.descends.lt (htree.parent_of_view hlist hj)
    exact absurd (htree.descends.le_of_mem_lineage hmem) (Nat.not_le.2 hbelow)
  | behind hb hlist hi hlist' hj hij _ hmem =>
    exact htree.splits_listed hlist hi hlist' hj hij hb hmem rfl

omit htree in
/-- The node at the cursor is ahead. -/
theorem mem_ahead_of_cursor? {i : NodeId} (hi : s.cursor? = some i) : i ∈ s.ahead := by
  obtain ⟨c, hc, hmem⟩ := exists_of_cursor? hi
  exact ⟨c, hc, Content.upcoming_self (listed_children s c) hmem (lt_of_cursor? hi)⟩

/-- A node is nested at least as deep as those above it. -/
theorem length_lineage_le {c p : NodeId} (hp : p ∈ s.content.lineage c) :
    (s.content.lineage p).length ≤ (s.content.lineage c).length := by
  obtain ⟨before, hbefore⟩ := htree.descends.exists_lineage_eq hp
  rw [hbefore, List.length_append]
  exact Nat.le_add_left _ _

/-- The place is no deeper than there are nodes. -/
theorem depth_le : s.depth ≤ s.content.size + 1 := by
  have hline (i : NodeId) : (s.content.lineage i).length ≤ i + 1 := by
    induction i using Nat.strongRecOn with
    | ind i ih =>
      cases hparent : (s.content.node i).parent with
      | none =>
        rw [Content.lineage_of_root hparent]
        exact Nat.le_add_left 1 i
      | some p =>
        have hlt := htree.descends.lt hparent
        have hline := ih p hlt
        rw [htree.descends.lineage_of_parent hparent, List.length_cons]
        omega
  unfold depth
  cases hc : s.container with
  | none => exact Nat.zero_le _
  | some c =>
    change (s.content.lineage c).length ≤ s.content.size + 1
    rcases Nat.lt_or_ge c s.content.size with hlt | hge
    · have := hline c
      omega
    · rw [Content.lineage_of_root (by rw [Content.node_eq_default hge]; rfl)]
      exact Nat.le_add_left 1 _

/-- The moves that the cursor is given are enough. -/
theorem effort_lt_moves : s.effort < 4 * s.content.size + 4 := by
  have hahead := ncard_ahead_le htree
  have hdepth := depth_le htree
  unfold effort
  omega

/-- Where a node that was ahead no longer is, there is less to be done, though play may be one step
deeper. -/
theorem effort_lt_of_mem {i : NodeId} (hsubset : t.ahead ⊆ s.ahead) (hi : i ∈ s.ahead)
    (hnot : i ∉ t.ahead) (hdepth : t.depth ≤ s.depth + 1) : t.effort < s.effort := by
  have hlt := Set.ncard_lt_ncard ⟨hsubset, fun hall => hnot (hall hi)⟩ (finite_ahead htree)
  unfold effort
  omega

/-- Where play goes up there is less to be done. -/
theorem effort_lt_of_parent {c p : NodeId} (hsubset : t.ahead ⊆ s.ahead)
    (hcontent : t.content = s.content) (hc : s.container = some c) (hp : t.container = some p)
    (hparent : (s.node c).parent = some p) : t.effort < s.effort := by
  have hle := Set.ncard_le_ncard hsubset (finite_ahead htree)
  have hdepth : s.depth = t.depth + 1 := by
    rw [depth, depth, hc, hp, hcontent]
    exact congrArg List.length (htree.descends.lineage_of_parent hparent)
  unfold effort
  omega

/-- Where a node is entered that was ahead, under a node in the line of the container, there is less
to be done. -/
theorem effort_lt_of_entered {c p i : NodeId} (hsubset : t.ahead ⊆ s.ahead)
    (hcontent : t.content = s.content) (hc : s.container = some c) (hi : i ∈ s.ahead)
    (hentered : t.container = some i) (hparent : (s.node i).parent = some p)
    (hp : p ∈ s.content.lineage c) : t.effort < s.effort := by
  refine effort_lt_of_mem htree hsubset hi ?_ ?_
  · rintro ⟨p', hp', hself⟩
    rw [hentered] at hp'
    cases hp'
    rw [hcontent] at hself
    exact not_upcoming_self htree hself
  · have hline := htree.descends.lineage_of_parent hparent
    have hle := length_lineage_le htree hp
    rw [depth, depth, hc, hentered, hcontent]
    change (s.content.lineage i).length ≤ (s.content.lineage c).length + 1
    rw [hline, List.length_cons]
    omega

/-- A node that is passed is no longer ahead. -/
theorem not_mem_ahead_of_pass {i : NodeId} (hi : s.cursor? = some i)
    (hcontent : t.content = s.content) (hcontainer : t.container = s.container)
    (hindex : t.index = s.index + 1) : i ∉ t.ahead := by
  obtain ⟨c, hc, hmem⟩ := exists_of_cursor? hi
  rintro ⟨p, hp, hz⟩
  rw [hcontainer, hc] at hp
  cases hp
  rw [hcontent, hindex] at hz
  exact Content.Splits.of_upcoming htree id htree.splits_listed (listed_children s c) hmem hz rfl

end Tree

/-- A round leaves the content. -/
theorem Round.content_eq (h : s.Round w again t) : t.content = s.content := by
  cases h with
  | leave _ _ _ =>
    unfold leaveBlock
    split <;> rfl
  | land _ _ _ _ henter =>
    obtain ⟨m, m', -, -, rfl⟩ := moveInto_of_enterWith .refl henter
    rfl
  | enter _ _ hchanges henter =>
    obtain ⟨m, m', -, -, rfl⟩ := moveInto_of_enterWith hchanges henter
    rfl
  | _ => rfl

/-- A round comes to no node that was not ahead. -/
theorem Round.ahead_subset (htree : s.content.Tree) (hbounded : s.content.size < beyondAll)
    (h : s.Round w again t) : t.ahead ⊆ s.ahead :=
  (h.onward htree hbounded).ahead_subset h.content_eq

/-- A round that has to go on leaves less to be done. -/
theorem Round.effort_lt (htree : s.content.Tree) (hbounded : s.content.size < beyondAll)
    (h : s.Round w again t) (hagain : again = true) : t.effort < s.effort := by
  have hsubset := h.ahead_subset htree hbounded
  have hcontent := h.content_eq
  cases h with
  | still => cases hagain
  | wait _ _ _ => cases hagain
  | runOut _ _ _ => cases hagain
  | @leave c hc _ _ =>
    obtain ⟨p, hparent⟩ := Option.isSome_iff_exists.1 hagain
    refine effort_lt_of_parent htree hsubset hcontent hc ?_ hparent
    rw [leaveBlock, hparent]
  | @land c i _ hc _ _ hlanding henter =>
    obtain ⟨b, p, k, j, hb, hk, hkj, hj⟩ := exists_of_landing_gather htree hbounded hlanding
    obtain ⟨m, m', -, -, rfl⟩ := moveInto_of_enterWith .refl henter
    have hbelow := parent_of_mem_children htree (List.mem_of_getElem? hk)
    have hp := htree.descends.mem_lineage_trans hb (htree.descends.parent_mem hbelow)
    have hlength := length_children_le htree p
    have hlt := (List.getElem?_eq_some_iff.1 hj).1
    have hahead : i ∈ s.ahead := ⟨c, hc, .behind hb (listed_children s p) hk
      (listed_children s p) hj hkj (by omega) (s.content.mem_lineage_self i)⟩
    exact effort_lt_of_entered htree hsubset hcontent hc hahead rfl
      (parent_of_mem_children htree (List.mem_of_getElem? hj)) hp
  | @converge c p position hc _ _ hlanding =>
    obtain ⟨k, i, hk, -, -⟩ := exists_of_landing_choice htree hbounded hlanding
    exact effort_lt_of_parent htree hsubset hcontent hc rfl
      (parent_of_mem_children htree (List.mem_of_getElem? hk))
  | enter hi _ hchanges henter =>
    obtain ⟨c, hc, hmem⟩ := exists_of_cursor? hi
    obtain ⟨m, m', -, -, rfl⟩ := moveInto_of_enterWith hchanges henter
    exact effort_lt_of_entered htree hsubset hcontent hc (mem_ahead_of_cursor? hi) rfl
      (parent_of_mem_children htree (List.mem_of_getElem? hmem)) (s.content.mem_lineage_self c)
  | decline hi _ _ _ =>
    exact effort_lt_of_mem htree hsubset (mem_ahead_of_cursor? hi)
      (not_mem_ahead_of_pass htree hi rfl rfl rfl) (Nat.le_succ _)

/-- Rounds leave the content. -/
theorem Rounds.content_eq (h : s.Rounds w t) : t.content = s.content := by
  induction h with
  | refl => rfl
  | tail _ hround ih => exact (round_of_settleOnce hround).content_eq.trans ih

/-- What is ahead after rounds was ahead before them. -/
theorem Rounds.ahead_subset (htree : s.content.Tree) (hbounded : s.content.size < beyondAll)
    (h : s.Rounds w t) : t.ahead ⊆ s.ahead := by
  induction h with
  | refl => exact Set.Subset.rfl
  | tail hrounds hround ih =>
    have hcontent := Rounds.content_eq hrounds
    have hsubset := (round_of_settleOnce hround).ahead_subset (hcontent ▸ htree)
      (hcontent ▸ hbounded)
    exact hsubset.trans ih

/-- The cursor comes to rest in as many moves as there is left to be done, unless conditions on the
way do not come to an end. -/
theorem isSome_settleWithin_iff (htree : s.content.Tree) (hbounded : s.content.size < beyondAll)
    {moves : Nat} (hmoves : s.effort < moves) :
    (settleWithin w moves s).isSome = true ↔ ∀ t, s.Rounds w t → ¬ t.Undecided w := by
  induction moves generalizing s with
  | zero => exact absurd hmoves (Nat.not_lt_zero _)
  | succ moves ih =>
    rw [settleWithin, Run.bind_apply]
    cases hround : settleOnce w s with
    | none =>
      refine ⟨nofun, fun h => absurd ?_ (h s .refl)⟩
      exact settleOnce_eq_none_iff.1 hround
    | some r =>
      obtain ⟨again, u⟩ := r
      have hhere : ¬ s.Undecided w := by
        rw [← settleOnce_eq_none_iff, hround]
        exact nofun
      -- the rounds that have to go on are this one and those from there
      have hhead {t : Story} (ht : s.Rounds w t) :
          t = s ∨ again = true ∧ u.Rounds w t := by
        obtain rfl | ⟨v, hv, hrest⟩ := Relation.ReflTransGen.cases_head ht
        · exact .inl rfl
        · rw [hround] at hv
          cases hv
          exact .inr ⟨rfl, hrest⟩
      cases again with
      | false =>
        refine ⟨fun _ t ht => ?_, fun _ => rfl⟩
        obtain rfl | ⟨hother, -⟩ := hhead ht
        · exact hhere
        · cases hother
      | true =>
        have hmade := round_of_settleOnce hround
        have hlt := hmade.effort_lt htree hbounded rfl
        have hcontent := hmade.content_eq
        have hrest := ih (s := u) (by rwa [hcontent]) (by rwa [hcontent]) (by omega)
        refine Iff.trans hrest ⟨fun h t ht => ?_, fun h t ht => h t (.head hround ht)⟩
        obtain rfl | ⟨-, ht⟩ := hhead ht
        · exact hhere
        · exact h t ht

/-- The cursor comes to rest unless conditions on the way do not come to an end. -/
theorem isSome_settle_iff (htree : s.content.Tree) (hbounded : s.content.size < beyondAll) :
    (settle w s).isSome = true ↔ ∀ t, s.Rounds w t → ¬ t.Undecided w := by
  rw [settle, Run.get_bind_apply]
  exact isSome_settleWithin_iff htree hbounded (effort_lt_moves htree)

end Story

end Narrative
