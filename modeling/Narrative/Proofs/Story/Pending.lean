import Narrative.Proofs.Story.Counts
import Narrative.Proofs.Story.Upcoming

/-!
# Pending choices

The pending choices are those of interrupts, and behind them the choices that play has collected on
its way. The cursor moves forward only while choices are pending, so no choice is collected twice,
and outside of functions they are collected in the order in which they were read.
-/

namespace Narrative.Story

open Content (View Listed Passed Splits Upcoming)

variable {leads : Route} {s t : Story}

/-! ## Halted play -/

/-- Where play has halted it stays halted until the choices are gone. -/
theorem Move.halted (h : s.Move leads t) (hs : s.Halted) : t.Halted ∨ t.choices = [] := by
  -- what needs a node at the cursor, or to leave a block, cannot be
  have hcursor {i : NodeId} (hi : s.cursor? = some i) :
      s.processing = false ∨ s.running = false := by
    obtain hwaiting | hover | hended | ⟨c, -, -, hnone⟩ := hs
    · exact .inl hwaiting
    · exact .inr hover
    · rw [cursor?, hended] at hi
      cases hi
    · rw [hnone] at hi
      cases hi
  cases h with
  | thought hthought => exact .inl (Thinks.halted (.single hthought) hs)
  | enter hi _ _ _ => exact .inl ((hcursor hi).imp id .inl)
  | land _ hchoices _ _ _ => exact .inr hchoices
  | converge _ hchoices _ => exact .inr hchoices
  | @leave c hc hblock _ =>
    refine .inl ?_
    obtain hwaiting | hover | hended | ⟨c', hc', hplain, -⟩ := hs
    · refine .inl ?_
      unfold leaveBlock
      split <;> exact hwaiting
    · refine .inr (.inl ?_)
      unfold leaveBlock
      split <;> exact hover
    · rw [hended] at hc
      cases hc
    · rw [hc] at hc'
      cases hc'
      rw [hblock] at hplain
      cases hplain
  | runOut hchoices => exact .inr hchoices
  | wait _ => exact .inl (.inl rfl)
  | pass =>
    refine .inl (hs.imp id (.imp id (.imp id ?_)))
    rintro ⟨c, hc, hblock, hnone⟩
    refine ⟨c, hc, hblock, ?_⟩
    rw [cursor?, hc, Option.bind_some] at hnone ⊢
    split
    · next hlt =>
      have hlt' : s.index < beyondAll := Nat.lt_of_succ_lt hlt
      rw [if_pos hlt', List.getElem?_eq_none_iff] at hnone
      exact List.getElem?_eq_none (Nat.le_succ_of_le hnone)
    · rfl
  | offer hmore _ _ _ _ _ =>
    rw [hs.hasMore_eq] at hmore
    cases hmore
  | fallBack _ _ hchoices _ => exact .inr hchoices
  | finish _ _ => exact .inr rfl
  | divert _ _ _ _ _ => exact .inr rfl
  | take _ _ => exact .inr rfl
  | @interpose k i m _ _ _ _ _ _ _ hchanges =>
    have hthought : Halted { s with memory := m } :=
      Thinks.halted (.single (.think hchanges)) hs
    exact .inl hthought

/-! ## The queue -/

/-- Inside each node play goes through its list as things are. -/
def active (s : Story) : View :=
  fun a list => list = s.children a

/-- The pending choices are some that interrupts have put in front, and those that were collected.
-/
structure Queue (s : Story) (interposed offered : List NodeId) : Prop where
  /-- The story is sound. -/
  sound : s.Sound
  /-- The pending choices are the ones in front and the others. -/
  choices_eq : s.choices = interposed ++ offered
  /-- Interrupts put choices in front where play has halted. -/
  halted : interposed ≠ [] → s.Halted
  /-- The ones in front are those of interrupts. -/
  interposed {i : NodeId} : i ∈ interposed →
    ∃ id, (id, .choice) ∈ s.overlays ∧ s.content.find? id = some i
  /-- No choice is pending twice. -/
  nodup : s.choices.Nodup
  /-- They are repeatable or were never visited. -/
  fresh {i : NodeId} : i ∈ s.choices → s.Fresh i
  /-- What was collected will not be met again. -/
  distinct {p : NodeId} : s.container = some p →
    s.content.Passed s.content.Listed (· ≠ ·) p s.index offered
  /-- Outside of functions it stands in order. -/
  ordered : (∀ i ∈ offered, ¬ s.content.InFunction i) → offered.Pairwise (· < ·)
  /-- Outside of functions it comes before what is still to come. -/
  before {p : NodeId} : s.container = some p → ¬ s.content.InFunction p →
    s.content.Passed s.active (· < ·) p s.index offered

/-- Without pending choices the queue is empty. -/
theorem queue_nil (hs : s.Sound) (hchoices : s.choices = []) : s.Queue [] [] where
  sound := hs
  choices_eq := hchoices
  halted := fun h => absurd rfl h
  interposed := nofun
  nodup := hchoices ▸ List.nodup_nil
  fresh := by
    rw [hchoices]
    exact nofun
  distinct := fun _ => nofun
  ordered := fun _ => .nil
  before := fun _ _ => nofun

/-- What play goes through is listed. -/
theorem listed_active (s : Story) {a : NodeId} {list : List NodeId} (h : s.active a list) :
    s.content.Listed a list := by
  rw [active] at h
  subst h
  exact Node.childrenAt_mem_lists

/-- The children of a node are listed under it. -/
theorem listed_children (s : Story) (a : NodeId) : s.content.Listed a (s.children a) :=
  listed_active s rfl

/-- What hangs under a node was read before what hangs under the nodes behind it. -/
theorem splits_active (s : Story) (h : s.content.Tree) : s.content.Splits s.active (· < ·) :=
  h.splits_single (listed_active s) fun h h' => h.trans h'.symm

/-! ## Going on -/

/-- Whether nothing is upcoming in `t` that was not upcoming in `s`. -/
structure Onward (s t : Story) : Prop where
  /-- Whatever lists play may go through. -/
  listed {p z : NodeId} : t.container = some p →
    s.content.Upcoming s.content.Listed p t.index z →
    ∃ q, s.container = some q ∧ s.content.Upcoming s.content.Listed q s.index z
  /-- Outside of functions, also where play goes through the lists as things are. -/
  active {p z : NodeId} : t.container = some p → ¬ s.content.InFunction p →
    s.content.Upcoming t.active p t.index z →
    ∃ q, s.container = some q ∧ ¬ s.content.InFunction q ∧
      s.content.Upcoming s.active q s.index z

section Onward

variable (htree : s.content.Tree)

include htree

/-- Thoughts go onward. -/
theorem onward_thought (hthought : s.Thought t) : s.Onward t := by
  have heq := Thinks.eq (.single hthought)
  have hcontent : t.content = s.content := Thinks.content_eq (.single hthought)
  have hcontainer : t.container = s.container := by rw [heq]
  have hindex : t.index = s.index := by rw [heq]
  refine ⟨fun {p z} hp hz => ⟨p, hcontainer ▸ hp, hindex ▸ hz⟩, fun {p z} hp hout hz => ?_⟩
  refine ⟨p, hcontainer ▸ hp, hout, ?_⟩
  rw [hindex] at hz
  refine hz.transfer htree (fun hlist => hcontent ▸ listed_active t hlist)
    (fun a ha list hlist => ?_) rfl rfl
  have hout' := htree.descends.not_inFunction_of_mem ha hout
  rw [active] at hlist ⊢
  rw [hlist, hthought.children_eq (mt htree.inFunction_of_called hout')]

/-- A node at the cursor is entered onward. -/
theorem onward_enter {i : NodeId} {m m' : Memory} (hi : s.cursor? = some i)
    (hchanges : Memory.Changes s.content s.memory m)
    (hreadies : Memory.Readies s.content i m m') :
    s.Onward ({ s with memory := m' }.moveInto i) := by
  obtain ⟨q, hq, hmem⟩ := exists_of_cursor? hi
  have hlt := lt_of_cursor? hi
  have hparent := parent_of_mem_children htree (List.mem_of_getElem? hmem)
  refine ⟨fun {p z} hp hz => ?_, fun {p z} hp hout hz => ?_⟩
  · cases hp
    exact ⟨q, hq, hz.of_enter htree id (listed_children s q) hmem hlt id fun _ _ _ h => h⟩
  · cases hp
    have hout' := htree.descends.not_inFunction_of_mem (htree.descends.parent_mem hparent) hout
    refine ⟨q, hq, hout', hz.of_enter htree (listed_active s) rfl hmem hlt
      (listed_active ({ s with memory := m' }.moveInto i)) fun a ha list hlist => ?_⟩
    -- only the node that is entered is readied, and it is not in the line above it
    have hne : i ≠ a := Ne.symm (Nat.ne_of_lt
      (Nat.lt_of_le_of_lt (htree.descends.le_of_mem_lineage ha) (htree.descends.lt hparent)))
    have hout'' := htree.descends.not_inFunction_of_mem ha hout'
    rw [active] at hlist ⊢
    rw [hlist]
    exact (Memory.children_visit ..).trans ((hreadies.children_eq hne).trans
      (hchanges.children_eq (mt htree.inFunction_of_called hout'')))

/-- An exhausted block is left onward. -/
theorem onward_leave {c : NodeId} (hc : s.container = some c) : s.Onward (s.leaveBlock c) := by
  unfold leaveBlock
  cases hparent : (s.node c).parent with
  | none => exact ⟨nofun, nofun⟩
  | some parent =>
    refine ⟨fun {p z} hp hz => ?_, fun {p z} hp hout hz => ?_⟩
    · cases hp
      exact ⟨c, hc, hz.of_leave htree hparent (listed_children s _)⟩
    · cases hp
      exact ⟨c, hc, htree.not_inFunction_of_parent hparent hout, hz.of_leave htree hparent rfl⟩

omit htree in
/-- Passing a node goes onward. -/
theorem onward_pass : s.Onward { s with index := s.index + 1 } where
  listed hp hz := ⟨_, hp, hz.pred⟩
  active hp hout hz := ⟨_, hp, hout, hz.pred⟩

omit htree in
/-- Where the cursor stays nothing comes up. -/
theorem onward_of_eq (hcontainer : t.container = s.container) (hindex : t.index = s.index)
    (hchildren : t.children = s.children) : s.Onward t where
  listed {p z} hp hz := ⟨p, hcontainer ▸ hp, hindex ▸ hz⟩
  active {p z} hp hout hz := by
    have hactive : t.active = s.active := by
      unfold active
      rw [hchildren]
    exact ⟨p, hcontainer ▸ hp, hout, hactive ▸ hindex ▸ hz⟩

end Onward

namespace Queue

variable {interposed offered : List NodeId}

/-- Where play goes on without a further choice the queue stays. -/
theorem go_on (h : s.Queue interposed offered) (hmove : s.Move leads t)
    (hchoices : t.choices = s.choices)
    (hvisits : ∀ {i}, (s.node i).isChoice = true →
      (t.memory.mark i).visits = (s.memory.mark i).visits)
    (honward : s.Onward t) : t.Queue interposed offered := by
  have hcontent : t.content = s.content := congrArg Sources.content hmove.steady.sources
  refine ⟨h.sound.move hmove, hchoices.trans h.choices_eq, fun hne => ?_, fun {i} hi => ?_, ?_,
    fun {i} hi conditions hkind => ?_, fun {p} hp y hy z hz => ?_, ?_,
    fun {p} hp hout y hy z hz => ?_⟩
  · obtain hhalted | hnil := hmove.halted (h.halted hne)
    · exact hhalted
    · rw [hchoices, h.choices_eq] at hnil
      exact absurd (List.append_eq_nil_iff.1 hnil).1 hne
  · rw [hmove.steady.overlays, hcontent]
    exact h.interposed hi
  · rw [hchoices]
    exact h.nodup
  · rw [hchoices] at hi
    rw [node, hcontent] at hkind
    rw [Mark.count_congr (hvisits (h.sound.choices hi))]
    exact h.fresh hi conditions hkind
  · rw [hcontent] at hz
    obtain ⟨q, hq, hz'⟩ := honward.listed hp hz
    exact h.distinct hq y hy z hz'
  · rw [hcontent]
    exact h.ordered
  · rw [hcontent] at hout hz
    obtain ⟨q, hq, hout', hz'⟩ := honward.active hp hout hz
    exact h.before hq hout' y hy z hz'

/-- Thoughts leave the queue. -/
theorem thought (h : s.Queue interposed offered) (hthought : s.Thought t) :
    t.Queue interposed offered := by
  refine h.go_on (Move.thought hthought : s.Move anywhere t) ?_ hthought.visits_eq
    (onward_thought h.sound.content.tree hthought)
  rw [Thinks.eq (.single hthought)]

/-- A choice that stands at the cursor joins the queue behind all others. -/
theorem offer (h : s.Queue [] offered) {p i : NodeId} {list : List NodeId}
    (hp : s.container = some p) (hlist : s.content.Listed p list) (hi : list[s.index]? = some i)
    (hlt : s.index < beyondAll) (hactive : ¬ s.content.InFunction p → s.active p list)
    (hchoice : (s.node i).isChoice = true) (hfresh : s.Fresh i) :
    Queue (pass { s with choices := s.choices ++ [i] } i) [] (offered ++ [i]) := by
  have htree := h.sound.content.tree
  have hparent : (s.node i).parent = some p := htree.parent_of_view hlist hi
  have hpass : pass { s with choices := s.choices ++ [i] } i =
      { s with choices := s.choices ++ [i], index := s.index + 1 } := by
    refine if_neg fun hself => ?_
    rw [hp] at hself
    cases hself
    exact absurd (htree.descends.lt hparent) (Nat.lt_irrefl _)
  have hchoices : s.choices = offered := h.choices_eq
  rw [hpass]
  refine ⟨?_, congrArg (· ++ [i]) hchoices, (absurd rfl ·), nofun, ?_, fun {j} hj => ?_,
    fun {q} hq => ?_, fun hout => ?_, fun {q} hq hout => ?_⟩
  · refine ⟨h.sound.content, h.sound.container, fun {j} hj => ?_, h.sound.comments, h.sound.memory⟩
    rcases List.mem_append.1 hj with hj | hj
    · exact h.sound.choices hj
    · rw [List.mem_singleton.1 hj]
      exact hchoice
  · refine h.nodup.append (List.nodup_singleton i) fun j hj hj' => ?_
    rw [List.mem_singleton.1 hj', hchoices] at hj
    exact h.distinct hp i hj i (Content.upcoming_self hlist hi hlt) rfl
  · rcases List.mem_append.1 hj with hj | hj
    · exact h.fresh hj
    · rw [List.mem_singleton.1 hj]
      exact hfresh
  · have hq' : s.container = some q := hq
    rw [hp] at hq'
    cases hq'
    exact (h.distinct hp).append htree id htree.splits_listed hlist hi
  · have hout' : ¬ s.content.InFunction p := htree.descends.not_inFunction_of_mem
      (htree.descends.parent_mem hparent) (hout i (List.mem_append_right _ List.mem_cons_self))
    refine List.pairwise_append.2 ⟨h.ordered fun j hj => hout j (List.mem_append_left _ hj),
      List.pairwise_singleton _ _, fun y hy z hz => ?_⟩
    rw [List.mem_singleton.1 hz]
    exact h.before hp hout' y hy i (Content.upcoming_self (hactive hout') hi hlt)
  · have hq' : s.container = some q := hq
    rw [hp] at hq'
    cases hq'
    exact (h.before hp hout).append htree (listed_active s) (splits_active s htree) (hactive hout)
      hi

/-- The choice of an interrupt goes in front of the queue. -/
theorem interpose (h : s.Queue interposed offered) {i : NodeId} {id : String} (hs : s.Halted)
    (hid : (id, .choice) ∈ s.overlays) (hfind : s.content.find? id = some i)
    (hchoice : (s.node i).isChoice = true) (hfresh : s.Fresh i) (hnew : i ∉ s.choices) :
    Queue { s with choices := i :: s.choices } (i :: interposed) offered where
  sound := by
    refine ⟨h.sound.content, h.sound.container, fun {j} hj => ?_, h.sound.comments, h.sound.memory⟩
    rcases List.mem_cons.1 hj with rfl | hj
    · exact hchoice
    · exact h.sound.choices hj
  choices_eq := congrArg (i :: ·) h.choices_eq
  halted := fun _ => hs
  interposed := by
    intro j hj
    rcases List.mem_cons.1 hj with rfl | hj
    · exact ⟨id, hid, hfind⟩
    · exact h.interposed hj
  nodup := List.nodup_cons.2 ⟨hnew, h.nodup⟩
  fresh := by
    intro j hj
    rcases List.mem_cons.1 hj with rfl | hj
    · exact hfresh
    · exact h.fresh hj
  distinct := h.distinct
  ordered := h.ordered
  before := h.before

/-- Every move keeps a queue. -/
theorem move (h : s.Queue interposed offered) (hmove : s.Move leads t) :
    ∃ interposed offered, t.Queue interposed offered := by
  have htree := h.sound.content.tree
  have hsound := h.sound.move hmove
  have hmove' := hmove
  cases hmove with
  | thought hthought => exact ⟨_, _, h.thought hthought⟩
  | @enter i m m' hi hchoices hchanges hreadies =>
    obtain hnil | hblock := hchoices
    · exact ⟨_, _, queue_nil hsound hnil⟩
    · refine ⟨_, _, h.go_on hmove' rfl
        (fun {j} hj => ?_) (onward_enter htree hi hchanges hreadies)⟩
      -- the node that is entered is a block
      have hne : i ≠ j := by
        rintro rfl
        obtain ⟨_, _, hkind⟩ := Node.kind_of_isBlock hblock
        rw [Node.isChoice, hkind] at hj
        cases hj
      calc ((m'.visit i).mark j).visits
        _ = (m'.mark j).visits := congrArg Mark.visits ((Memory.mark_visit ..).trans (if_neg hne))
        _ = (m.mark j).visits := hreadies.visits_eq j
        _ = (s.memory.mark j).visits := hchanges.visits_eq hj
  | land _ hchoices _ _ _ => exact ⟨_, _, queue_nil hsound hchoices⟩
  | converge _ hchoices _ => exact ⟨_, _, queue_nil hsound hchoices⟩
  | @leave c hc hblock hexhausted =>
    refine ⟨_, _, h.go_on hmove' ?_ (fun _ => ?_)
      (onward_leave htree hc)⟩
    all_goals unfold leaveBlock; split <;> rfl
  | runOut hchoices => exact ⟨_, _, queue_nil hsound hchoices⟩
  | wait hpending =>
    exact ⟨_, _, h.go_on hmove' rfl (fun _ => rfl) (onward_of_eq rfl rfl rfl)⟩
  | pass => exact ⟨_, _, h.go_on hmove' rfl (fun _ => rfl) onward_pass⟩
  | @offer i m hmore hi hchoice _ hfresh hchanges =>
    have hnone : interposed = [] := by
      by_contra hne
      rw [(h.halted hne).hasMore_eq] at hmore
      cases hmore
    subst hnone
    obtain ⟨p, hp, hmem⟩ := exists_of_cursor? hi
    have hlt := lt_of_cursor? hi
    refine ⟨_, _, (h.thought (.think hchanges)).offer hp (listed_children s p) hmem hlt
      (fun hout => ?_) hchoice ((fresh_iff_of_changes hchanges hchoice).2 hfresh)⟩
    exact (hchanges.children_eq (mt htree.inFunction_of_called hout)).symm
  | fallBack _ _ hchoices _ => exact ⟨_, _, queue_nil hsound hchoices⟩
  | finish _ _ => exact ⟨_, _, queue_nil hsound rfl⟩
  | divert _ _ _ _ _ => exact ⟨_, _, queue_nil hsound rfl⟩
  | take _ _ => exact ⟨_, _, queue_nil hsound rfl⟩
  | @interpose k i m hs hk hkind hfind hchoice hfresh hnew hchanges =>
    have hid : (k.id, .choice) ∈ s.overlays :=
      List.mem_map.2 ⟨k, hk, by rw [hkind]⟩
    have hthought : Halted { s with memory := m } := Thinks.halted (.single (.think hchanges)) hs
    exact ⟨_, _, (h.thought (.think hchanges)).interpose hthought hid hfind hchoice
      ((fresh_iff_of_changes hchanges hchoice).2 hfresh) hnew⟩

/-- Recording a text keeps a queue. -/
theorem record (h : s.Queue interposed offered) (text : String) :
    (s.record text).Queue interposed offered := by
  have hs := h.sound.record text
  rw [record_eq] at hs ⊢
  exact ⟨hs, h.choices_eq, h.halted, h.interposed, h.nodup, h.fresh, h.distinct, h.ordered,
    h.before⟩

/-- What is read further keeps a queue: the new nodes were read after all that were there. -/
theorem widen (h : s.Queue interposed offered) (hwidens : s.Widens t) :
    t.Queue interposed offered := by
  have htree := h.sound.content.tree
  have htree' := hwidens.grown.tree
  have hextends := hwidens.extends_content
  have heq := hwidens.eq
  have hcontainer : t.container = s.container := by rw [heq]
  have hindex : t.index = s.index := by rw [heq]
  have hchoices : t.choices = s.choices := by rw [heq]
  have hmemory : t.memory = s.memory := by rw [heq]
  have hoffered {y : NodeId} (hy : y ∈ offered) : y < s.content.size := by
    refine Content.lt_size (p := Node.isChoice) rfl (h.sound.choices ?_)
    rw [h.choices_eq]
    exact List.mem_append_right _ hy
  have hline {i : Nat} (hi : i < s.content.size) :
      t.content.lineage i = s.content.lineage i :=
    hextends.lineage_eq htree'.descends htree.descends hi
  refine ⟨h.sound.widen hwidens, hchoices.trans h.choices_eq, fun hne => ?_, fun {i} hi => ?_,
    hchoices ▸ h.nodup, fun {i} hi conditions hkind => ?_, fun {p} hp y hy z hz => ?_,
    fun hout => ?_, fun {p} hp hout y hy z hz => ?_⟩
  · exact hwidens.halted h.sound (h.halted hne)
  · obtain ⟨id, hid, hfind⟩ := h.interposed hi
    obtain ⟨added, hadded⟩ := hwidens.interrupts
    refine ⟨id, ?_, hextends.find?_eq_some hfind⟩
    rw [overlays, hadded, List.map_append]
    exact List.mem_append_left _ hid
  · rw [hchoices] at hi
    have hlt := Content.lt_size (p := Node.isChoice) rfl (h.sound.choices hi)
    rw [node, hextends.node_eq hlt] at hkind
    rw [hmemory]
    exact h.fresh hi conditions hkind
  · rw [hcontainer] at hp
    rw [hindex] at hz
    rcases Nat.lt_or_ge z s.content.size with hlt | hge
    · refine h.distinct hp y hy z (hz.transfer htree' id (fun a ha list hlist hne => ?_)
        (hline (h.sound.container hp)) (hline hlt))
      have ha' := Nat.lt_of_le_of_lt (htree.descends.le_of_mem_lineage ha) (h.sound.container hp)
      rw [← hextends.node_eq ha']
      exact hlist hne
    · exact Nat.ne_of_lt (Nat.lt_of_lt_of_le (hoffered hy) hge)
  · refine h.ordered fun i hi => ?_
    rw [← hextends.inFunction_iff htree'.descends htree.descends (hoffered hi)]
    exact hout i hi
  · rw [hcontainer] at hp
    rw [hindex] at hz
    rcases Nat.lt_or_ge z s.content.size with hlt | hge
    · rw [hextends.inFunction_iff htree'.descends htree.descends (h.sound.container hp)] at hout
      refine h.before hp hout y hy z (hz.transfer htree' (listed_active t)
        (fun a ha list hlist => ?_) (hline (h.sound.container hp)) (hline hlt))
      have ha' := Nat.lt_of_le_of_lt (htree.descends.le_of_mem_lineage ha) (h.sound.container hp)
      rw [active] at hlist ⊢
      rw [hlist, hwidens.children_eq ha']
    · exact Nat.lt_of_lt_of_le (hoffered hy) hge

end Queue

/-- Every action keeps a queue. -/
theorem kept_queue (leads : Route) :
    Kept leads fun s => ∃ interposed offered, s.Queue interposed offered where
  sound := fun ⟨_, _, h⟩ => h.sound
  move := fun ⟨_, _, h⟩ hmove => h.move hmove
  record text := fun ⟨_, _, h⟩ => ⟨_, _, h.record text⟩
  widen := fun ⟨_, _, h⟩ hwidens => ⟨_, _, h.widen hwidens⟩

/-- The pending choices of a story that is reached are a queue. -/
theorem Reachable.queue {host : Host} {main : String} {permitted : Action → Prop}
    (h : Reachable host main permitted s) : ∃ interposed offered, s.Queue interposed offered := by
  refine h.keeps (kept_queue anywhere) fun start sources seed hmain => ?_
  obtain ⟨hgrown, hstart, -⟩ := Sources.grown_ofMain hmain
  exact ⟨[], [], queue_nil (sound_atStart hgrown hstart seed) rfl⟩

/-! ## How choices are pending -/

/-- How the pending choices stand: first those of interrupts, then those that play has collected,
and outside of functions these stand in the order in which they were read. -/
structure Lineup (s : Story) (interposed offered : List NodeId) : Prop where
  /-- The choices of interrupts stand in front of the others. -/
  choices_eq : s.choices = interposed ++ offered
  /-- Those in front are the choices of interrupts. -/
  interposed : ∀ i ∈ interposed, ∃ k ∈ s.interrupts, k.kind = .choice ∧
    s.content.find? k.id = some i
  /-- The others stand in order. -/
  ordered : (∀ i ∈ offered, ¬ s.content.InFunction i) → offered.Pairwise (· < ·)
  /-- None of them is pending twice. -/
  nodup : s.choices.Nodup
  /-- All of them are choices. -/
  isChoice : ∀ i ∈ s.choices, (s.node i).isChoice = true
  /-- The counters of those that are offered once are at zero. -/
  fresh : ∀ i ∈ s.choices, ∀ conditions, (s.node i).kind = .choice false conditions →
    (s.memory.mark i).count = 0

/-- The queue is a line-up. -/
theorem Queue.toLineup {interposed offered : List NodeId} (h : s.Queue interposed offered) :
    s.Lineup interposed offered where
  choices_eq := h.choices_eq
  interposed := by
    intro i hi
    obtain ⟨id, hid, hfind⟩ := h.interposed hi
    obtain ⟨k, hk, heq⟩ := List.mem_map.1 hid
    obtain ⟨rfl, hkind⟩ := Prod.mk.inj heq
    exact ⟨k, hk, hkind, hfind⟩
  ordered := h.ordered
  nodup := h.nodup
  isChoice := fun _ => h.sound.choices
  fresh := fun _ hi conditions hkind => h.fresh hi conditions hkind

section Repeatable

variable {w : World} {i : NodeId} {conditions : List String} {u : Story}
  (hkind : (s.node i).kind = .choice true conditions)

include hkind

/-- A repeatable choice is available where its conditions hold. -/
theorem isAvailable_of_repeatable :
    isAvailable w i s = think w (fun _ ctx => ctx.allHold conditions) s := by
  rw [isAvailable, Run.get_bind_apply]
  simp only [hkind]
  rfl

/-- There it is offered at the cursor. -/
theorem resolve_of_repeatable (htext : (s.node i).isFallback = false)
    (hholds : think w (fun _ ctx => ctx.allHold conditions) s = some (true, u)) :
    resolve w i s = some (.ok [], { u with choices := u.choices ++ [i] }) := by
  have havailable : isAvailable w i s = some (true, u) :=
    (isAvailable_of_repeatable hkind).trans hholds
  obtain ⟨m, -, rfl, -⟩ := changes_of_isAvailable havailable
  have htext' : (node { s with memory := m } i).isFallback = false := htext
  have hadd : addChoice w i s = some ((), { s with memory := m, choices := s.choices ++ [i] }) := by
    rw [addChoice, Run.bind_apply, havailable, Option.bind_some, if_pos rfl]
    change some ((), ite ((node { s with memory := m } i).isFallback = true) _ _) = _
    rw [if_neg (by rw [htext']; exact Bool.false_ne_true)]
  rw [resolve_of_isChoice (by rw [Node.isChoice, hkind]), hadd]
  rfl

/-- There an interrupt that fires offers it, unless it is pending. -/
theorem addInterruptChoice_of_repeatable {k : Interrupt} {v : Story}
    (hfind : s.content.find? k.id = some i) (hnew : i ∉ s.choices)
    (hfires : fires w k (k.kind == .choice) s = some (true, u))
    (hholds : think w (fun _ ctx => ctx.allHold conditions) u = some (true, v)) :
    addInterruptChoice w k s = some ((), { v with choices := i :: v.choices }) := by
  obtain ⟨m, -, rfl, -⟩ := changes_of_fires hfires
  have havailable : isAvailable w i { s with memory := m } = some (true, v) :=
    (isAvailable_of_repeatable (s := { s with memory := m }) hkind).trans hholds
  have hnew' : ¬ s.choices.contains i = true := mt List.contains_iff_mem.1 hnew
  rw [content] at hfind
  rw [addInterruptChoice, Run.bind_apply, hfires, Option.bind_some, if_pos rfl,
    Run.get_bind_apply]
  simp only [content, hfind]
  rw [if_neg hnew', Run.bind_apply, havailable]
  rfl

end Repeatable

/-- The pending choices of every story that is reached stand in a line without repetition, and the
counter of one that is offered once is at zero. So it is not offered again once it was visited, as
long as its counter has not started again: when it was taken, when a divert led to it, and wherever
else play has entered it. A repeatable one is offered whenever its conditions hold, at the cursor and
by an interrupt. -/
theorem Reachable.lineup {host : Host} {main : String}
    (h : Reachable host main (fun _ => True) s) :
    (∃ interposed offered, s.Lineup interposed offered) ∧
      (∀ i conditions, (s.node i).kind = .choice false conditions →
        0 < (s.memory.mark i).visits → ∀ w actions answers t, w.host = host →
        Story.performAll w actions s = some (answers, t) →
        (t.memory.mark i).visits < Mark.counterRange → i ∉ t.choices) ∧
      (∀ w index i r t, s.choices[index]? = some i → choose w index s = some (r, t) →
        0 < (t.memory.mark i).visits) ∧
      (∀ w i r t, (∃ v ∈ visits w s, v.destination = some (some i)) →
        advance w s = some (r, t) → 0 < (t.memory.mark i).visits) ∧
      (∀ u t i, s.Moves anywhere u → u.container = some i → u.index = 0 →
        (u.node i).isChoice = true → u.Moves anywhere t → 0 < (t.memory.mark i).visits) ∧
      (∀ w i conditions u, (s.node i).kind = .choice true conditions →
        (s.node i).isFallback = false →
        think w (fun _ ctx => ctx.allHold conditions) s = some (true, u) →
        resolve w i s = some (.ok [], { u with choices := u.choices ++ [i] })) ∧
      ∀ w k i conditions u v, (s.node i).kind = .choice true conditions →
        s.content.find? k.id = some i → i ∉ s.choices →
        fires w k (k.kind == .choice) s = some (true, u) →
        think w (fun _ ctx => ctx.allHold conditions) u = some (true, v) →
        addInterruptChoice w k s = some ((), { v with choices := i :: v.choices }) := by
  obtain ⟨interposed, offered, hqueue⟩ := h.queue
  refine ⟨⟨interposed, offered, hqueue.toLineup⟩, ?_, ?_, ?_, ?_, ?_, ?_⟩
  · intro i conditions hkind hvisited w actions answers t hhost hrun hrange hpending
    have ht := h.performAll hhost (fun _ _ => trivial) hrun
    obtain ⟨_, _, hqueue'⟩ := ht.queue
    have hlater := later_of_performAll h hhost hrun
    have hkind' : (t.node i).kind = .choice false conditions := by
      rw [node, hlater.extends_content.node_eq (Content.lt_size_of_kind hkind (by simp))]
      exact hkind
    have hnever := hqueue'.toLineup.fresh i hpending conditions hkind'
    rw [Mark.count_eq_visits hrange] at hnever
    exact absurd (hlater.visits_le i) (by rw [hnever]; exact Nat.not_le.2 hvisited)
  · exact fun w index i r t hi hrun => visits_pos_of_choose hi hrun
  · exact fun w i r t hvisit hrun => visits_pos_of_advance hvisit hrun
  · intro u t i hmoves hcontainer hindex hchoice hlater
    obtain ⟨-, hcounted⟩ := (kept_counted anywhere).moves ⟨h.sound, h.counted⟩ hmoves
    exact Nat.lt_of_lt_of_le (hcounted i hcontainer hindex hchoice) (hlater.visits_le i)
  · exact fun w i conditions u hkind htext hholds => resolve_of_repeatable hkind htext hholds
  · exact fun w k i conditions u v hkind hfind hnew hfires hholds =>
      addInterruptChoice_of_repeatable hkind hfind hnew hfires hholds

/-- A host with a source whose choices come up again. -/
def marketHost : Host :=
  .ofSources (.ofList [("market", "== market\n- (stall)\nHello.\n* [Apple]\n* [Pear]\n" ++
    "+ [Leave]\n- -> stall\n")]) fun _ => ""

/-- A world with that host. -/
def marketWorld : World := ⟨marketHost, 4, 40⟩

/-- With the choice of an interrupt in front, a choice that was taken is not offered again. -/
theorem lineup_market : ∃ s : Story, Reachable marketHost "market" (fun _ => True) s ∧
    s.choices.map (fun i => (s.node i).id) = ["extra", "market.2", "market.3"] ∧
    (∃ interposed offered, s.Lineup interposed offered) ∧
    ∃ i, (s.node i).id = "market.1" ∧ ∀ actions answers t,
      performAll marketWorld actions s = some (answers, t) →
      (t.memory.mark i).visits < Mark.counterRange → i ∉ t.choices := by
  have hplayed : (played? marketWorld "market" 0
      [.addInterrupt { id := "extra", kind := .choice, text := "* [Wait] More." }, .advance,
        .choose 1, .advance]).any (fun s =>
      s.choices.map (fun i => (s.node i).id) = ["extra", "market.2", "market.3"] ∧
      (s.content.find? "market.1").any (fun i => (s.node i).id = "market.1" ∧
        (s.node i).kind = .choice false [] ∧ 0 < (s.memory.mark i).visits) = true) = true := by
    decide +kernel
  obtain ⟨s, hs, hplays⟩ := (Option.any_eq_true _ _).1 hplayed
  obtain ⟨hchoices, htaken⟩ := of_decide_eq_true hplays
  obtain ⟨i, -, hi⟩ := (Option.any_eq_true _ _).1 htaken
  obtain ⟨hid, hkind, hvisited⟩ := of_decide_eq_true hi
  have hreached : Reachable marketHost "market" (fun _ => True) s :=
    reachable_of_played? (fun _ _ => trivial) hs
  obtain ⟨hlineup, hnever, -⟩ := hreached.lineup
  exact ⟨s, hreached, hchoices, hlineup, i, hid, fun actions answers t hrun =>
    hnever i [] hkind hvisited marketWorld actions answers t rfl hrun⟩

/-- A host with a source that leads play into a function whose choices depend on calling it. -/
def wheelHost : Host :=
  .ofSources (.ofList [("wheel", "== start\nVAR v = 0\n-> f\n== function f()\n~ v = v + 1\n" ++
    "\x7b\n- v > 1:\n* [P]\n* [Q]\n* [R]\n- else:\n* [Y]\n* \x7bf() == \"\"\x7d [Z]\n\x7d\n")])
    fun _ => ""

/-- A world with that host. -/
def wheelWorld : World := ⟨wheelHost, 4, 40⟩

/-- In the body of a function choices can be collected out of order: the call chooses another option
of the block that play goes through. -/
theorem lineup_disorderly : ¬ ∀ (w : World) (main : String) (s : Story),
    Reachable w.host main (fun _ => True) s → ∃ interposed offered,
      s.choices = interposed ++ offered ∧
      (∀ i ∈ interposed, ∃ k ∈ s.interrupts, k.kind = .choice ∧ s.content.find? k.id = some i) ∧
      offered.Pairwise (· < ·) := by
  intro horderly
  have hplayed : (played? wheelWorld "wheel" 0 [.advance]).any (fun s =>
      s.interrupts = [] ∧ ¬ s.choices.Pairwise (· < ·)) = true := by
    decide +kernel
  obtain ⟨s, hs, hplays⟩ := (Option.any_eq_true _ _).1 hplayed
  obtain ⟨hnone, hunordered⟩ := of_decide_eq_true hplays
  have hreached : Reachable wheelHost "wheel" (fun _ => True) s :=
    reachable_of_played? (fun _ _ => trivial) hs
  obtain ⟨interposed, offered, hchoices, hinterposed, hordered⟩ :=
    horderly wheelWorld "wheel" s hreached
  cases interposed with
  | nil =>
    rw [hchoices] at hunordered
    exact hunordered hordered
  | cons i rest =>
    obtain ⟨k, hk, -⟩ := hinterposed i List.mem_cons_self
    rw [hnone] at hk
    cases hk

end Narrative.Story
