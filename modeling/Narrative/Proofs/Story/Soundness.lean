import Mathlib.Data.List.Perm.Subperm
import Narrative.Proofs.Source.Growth
import Narrative.Proofs.Story.Playing

/-!
# Sound stories

In a sound story the cursor, the pending choices and the collected comments are nodes of the
content, and nothing is remembered of a node but what belongs there: only visited nodes have a mark,
only blocks an option and only sections parameters. Every move keeps a story sound.
-/

namespace Narrative

open Relation

namespace Memory

/-- What is remembered belongs to the content. -/
structure Sound (c : Content) (m : Memory) : Prop where
  /-- Nothing is remembered of what is no node. -/
  outside {i : Nat} : c.size ≤ i → m.mark i = {}
  /-- Nothing is remembered of a node that was not visited. -/
  unvisited {i : Nat} : (m.mark i).visits = 0 → m.mark i = {}
  /-- Only blocks have a chosen option. -/
  selection {i : Nat} : (c.node i).isBlock = false → (m.mark i).selection = 0
  /-- Only sections have parameters. -/
  scope {i : Nat} : (c.node i).isSection = false → (m.mark i).scope = .empty

/-- Whether a memory is sound is a matter of its marks. -/
theorem Sound.of_marks {c : Content} {m m' : Memory} (h : m.Sound c) (hmarks : m'.marks = m.marks) :
    m'.Sound c := by
  have hmark (i : NodeId) : m'.mark i = m.mark i := congrArg (·.get i) hmarks
  have hmark' : m'.mark = m.mark := funext hmark
  refine ⟨?_, ?_, ?_, ?_⟩ <;> rw [hmark']
  · exact h.outside
  · exact h.unvisited
  · exact h.selection
  · exact h.scope

/-- A node is marked soundly when it was visited and only what belongs to it was changed. -/
theorem Sound.modifyMark {c : Content} {m : Memory} (h : m.Sound c) {i : NodeId} {f : Mark → Mark}
    (hi : i < c.size) (hcount : (f (m.mark i)).visits ≠ 0)
    (hselection : (c.node i).isBlock = false → (f (m.mark i)).selection = (m.mark i).selection)
    (hscope : (c.node i).isSection = false → (f (m.mark i)).scope = (m.mark i).scope) :
    (m.modifyMark i f).Sound c where
  outside := by
    intro j hj
    have hne : i ≠ j := by
      rintro rfl
      exact absurd hi (Nat.not_lt.2 hj)
    rw [mark_modifyMark, if_neg hne]
    exact h.outside hj
  unvisited := by
    intro j hj
    by_cases hij : i = j
    · rw [mark_modifyMark, if_pos hij] at hj
      exact absurd hj hcount
    · rw [mark_modifyMark, if_neg hij] at hj ⊢
      exact h.unvisited hj
  selection := by
    intro j hj
    rw [mark_modifyMark]
    split
    · next heq =>
      subst heq
      rw [hselection hj]
      exact h.selection hj
    · exact h.selection hj
  scope := by
    intro j hj
    rw [mark_modifyMark]
    split
    · next heq =>
      subst heq
      rw [hscope hj]
      exact h.scope hj
    · exact h.scope hj

/-- Two changes of a mark are one. -/
theorem modifyMark_modifyMark (m : Memory) (i : NodeId) (f g : Mark → Mark) :
    (m.modifyMark i f).modifyMark i g = m.modifyMark i fun k => g (f k) := by
  have hmarks :
      ((m.modifyMark i f).modifyMark i g).marks = (m.modifyMark i fun k => g (f k)).marks := by
    refine Marks.ext_get fun j => ?_
    change ((m.modifyMark i f).modifyMark i g).mark j = (m.modifyMark i fun k => g (f k)).mark j
    rw [mark_modifyMark, mark_modifyMark, mark_modifyMark, mark_modifyMark]
    split <;> simp
  exact congrArg (fun marks => { m with marks := marks }) hmarks

/-- A visit of a node leaves the memory sound. -/
theorem Sound.visit {c : Content} {m : Memory} (h : m.Sound c) {i : NodeId} (hi : i < c.size) :
    (m.visit i).Sound c :=
  h.modifyMark hi (Nat.succ_ne_zero _) (fun _ => rfl) fun _ => rfl

/-- What readies a node is sound once the node is visited. -/
theorem Sound.readies {c : Content} {m m' : Memory} (h : m.Sound c) {i : NodeId} (hi : i < c.size)
    (hready : Readies c i m m') : (m'.visit i).Sound c := by
  cases hready with
  | plain _ => exact h.visit hi
  | option selection hblock =>
    rw [Memory.visit, Memory.select, modifyMark_modifyMark]
    refine h.modifyMark hi (Nat.succ_ne_zero _) (fun hplain => ?_) fun _ => rfl
    rw [hblock] at hplain
    cases hplain
  | params hsection _ =>
    rw [Memory.visit, Memory.bind, modifyMark_modifyMark]
    refine h.modifyMark hi (Nat.succ_ne_zero _) (fun _ => rfl) fun hplain => ?_
    rw [hsection] at hplain
    cases hplain

/-- A parameter is stored in a section that was visited, and a global variable in no node. -/
theorem Sound.assign {m : Memory} {s : Stage} (h : m.Sound s.content) (name : String) (v : Value) :
    (s.assign m name v).Sound s.content := by
  unfold Stage.assign
  cases hbinder : s.binder? m name with
  | none => exact h.of_marks rfl
  | some i =>
    have hbound : (m.mark i).scope.contains name = true := by
      have hfound := List.find?_some hbinder
      exact hfound
    have hcount : (m.mark i).visits ≠ 0 := by
      intro hzero
      rw [h.unvisited hzero] at hbound
      cases hbound
    have hi : i < s.content.size := by
      refine Nat.lt_of_not_le fun hle => hcount ?_
      rw [h.outside hle]
    refine h.modifyMark hi hcount (fun _ => rfl) fun hplain => ?_
    rw [h.scope hplain] at hbound
    cases hbound

/-- A change by a statement or function leaves it sound. -/
theorem Sound.change {c : Content} {m m' : Memory} (h : m.Sound c) (hchange : Change c m m') :
    m'.Sound c := by
  cases hchange with
  | assign s name v hs =>
    subst hs
    exact h.assign name v
  | visit hkind => exact h.visit (Content.lt_size_of_kind hkind (by simp))
  | select selection hblock _ =>
    exact h.readies (Content.lt_size (p := Node.isBlock) rfl hblock) (.option selection hblock)
  | @bind i args hfunction hlength =>
    have hsection : (c.node i).isSection = true := by
      unfold Node.isFunction at hfunction
      unfold Node.isSection
      cases hkind : (c.node i).kind with
      | function params => rfl
      | _ => simp [hkind] at hfunction
    exact h.readies (Content.lt_size (p := Node.isFunction) rfl hfunction)
      (.params hsection hlength)
  | roll source bound => exact h.of_marks rfl

/-- Several changes by statements and functions leave the memory sound. -/
theorem Sound.changes {c : Content} {m m' : Memory} (h : m.Sound c) (hchanges : Changes c m m') :
    m'.Sound c := by
  induction hchanges with
  | refl => exact h
  | tail _ hchange ih => exact ih.change hchange

/-- A memory is sound where there are more nodes. -/
theorem Sound.extends {c d : Content} {m : Memory} (h : m.Sound c)
    (hextends : d.Extends c) : m.Sound d where
  outside := fun hi => h.outside (Nat.le_trans hextends.size_le hi)
  unvisited := h.unvisited
  selection := by
    intro i hi
    rcases Nat.lt_or_ge i c.size with hlt | hge
    · rw [hextends.node_eq hlt] at hi
      exact h.selection hi
    · rw [h.outside hge]
  scope := by
    intro i hi
    rcases Nat.lt_or_ge i c.size with hlt | hge
    · rw [hextends.node_eq hlt] at hi
      exact h.scope hi
    · rw [h.outside hge]

end Memory

namespace Story

/-! ## Where the cursor is -/

/-- The node at the cursor is among those that play goes through in the container. -/
theorem exists_of_cursor? {s : Story} {i : NodeId} (h : s.cursor? = some i) :
    ∃ c, s.container = some c ∧ (s.children c)[s.index]? = some i := by
  obtain ⟨c, hc, hi⟩ := Option.bind_eq_some_iff.1 h
  split at hi
  · exact ⟨c, hc, hi⟩
  · cases hi

/-- Beyond all positions there is no node. -/
theorem lt_of_cursor? {s : Story} {i : NodeId} (h : s.cursor? = some i) : s.index < beyondAll := by
  obtain ⟨c, -, hi⟩ := Option.bind_eq_some_iff.1 h
  split at hi
  · assumption
  · cases hi

/-- What play goes through inside a node hangs under it. -/
theorem parent_of_mem_children {s : Story} (h : s.content.Tree) {c i : NodeId}
    (hi : i ∈ s.children c) : (s.node i).parent = some c :=
  h.parent_of_listed (Node.mem_listed_of_mem_childrenAt hi)

/-- Play converges on a gather or beside a choice among the nodes under one above, from a position
on. -/
theorem landing_of_landingAmong? {s : Story} {parent position : Nat} {takesChoice : Bool}
    {is : List NodeId} {landing : Landing}
    (h : s.landingAmong? parent takesChoice position is = some landing) :
    (∃ i ∈ is, landing = .gather i ∧ (s.node i).isGather = true) ∨
      ∃ position', landing = .choice parent position' ∧ position ≤ position' ∧ is ≠ [] := by
  induction is generalizing position with
  | nil => cases h
  | cons i is ih =>
    rw [landingAmong?] at h
    split at h
    · next hgather =>
      cases h
      exact .inl ⟨i, List.mem_cons_self, rfl, hgather⟩
    · split at h
      · cases h
        exact .inr ⟨position, rfl, Nat.le_refl _, List.cons_ne_nil _ _⟩
      · obtain ⟨j, hj, rfl, hgather⟩ | ⟨position', rfl, hle, -⟩ := ih h
        · exact .inl ⟨j, List.mem_cons_of_mem _ hj, rfl, hgather⟩
        · exact .inr ⟨position', rfl, Nat.le_of_succ_le hle, List.cons_ne_nil _ _⟩

/-- What comes after a node is not at the start. -/
theorem positionAfter_pos (list : List NodeId) (i : NodeId) : 0 < positionAfter list i := by
  unfold positionAfter
  cases list.findIdx? (· == i) with
  | none => exact Nat.zero_lt_of_ne_zero (by decide)
  | some k => exact Nat.succ_pos k

/-- Further up, play lands at a gather or behind a choice. -/
theorem landing_of_landingAbove? {s : Story} {takesChoice : Bool} {line : List NodeId}
    {landing : Landing} (h : s.landingAbove? takesChoice line = some landing) :
    ∃ parent ∈ line, (∃ i ∈ s.children parent, landing = .gather i ∧ (s.node i).isGather = true) ∨
      ∃ position, landing = .choice parent position ∧ 0 < position ∧ s.children parent ≠ [] := by
  fun_induction landingAbove? s takesChoice line with
  | case1 takesChoice child parent above siblings start ih =>
    rw [Option.orElse_eq_orElse, Option.orElse_eq_or, Option.or_eq_some_iff] at h
    obtain hhere | ⟨_, habove⟩ := h
    · refine ⟨parent, List.mem_cons_of_mem _ List.mem_cons_self, ?_⟩
      obtain ⟨i, hi, rfl, hgather⟩ | ⟨position, rfl, hle, hne⟩ := landing_of_landingAmong? hhere
      · exact .inl ⟨i, List.mem_of_mem_drop hi, rfl, hgather⟩
      · refine .inr ⟨position, rfl, Nat.lt_of_lt_of_le (positionAfter_pos siblings child) hle,
          fun hnil => hne ?_⟩
        simp only [siblings, hnil, List.drop_nil]
    · obtain ⟨p, hp, hlanding⟩ := ih habove
      exact ⟨p, List.mem_cons_of_mem _ hp, hlanding⟩
  | case2 => cases h

/-- A node that play goes through has a place in the content. -/
theorem lt_size_of_children {s : Story} {i : Nat} (h : s.children i ≠ []) :
    i < s.content.size := by
  refine Nat.lt_of_not_le fun hle => h ?_
  rw [children, Memory.children, Content.node_eq_default hle]
  rfl

/-- Play goes through no more nodes inside a node than there are. -/
theorem length_children_le {s : Story} (htree : s.content.Tree) (i : NodeId) :
    (s.children i).length ≤ s.content.size := by
  have hnodup : (s.children i).Nodup := by
    rcases eq_or_ne (s.children i) [] with hnil | hne
    · rw [hnil]
      exact List.nodup_nil
    · exact (htree.nodup_listed i).sublist
        (List.sublist_flatten_of_mem (Node.childrenAt_mem_lists hne))
  have hsubset : s.children i ⊆ List.range s.content.size := fun j hj =>
    List.mem_range.2 (Content.lt_size_of_parent (parent_of_mem_children htree hj))
  simpa using (List.subperm_of_subset hnodup hsubset).length_le

/-! ## Sound stories -/

/-- The content is sound and a tree, the cursor, the choices and the comments are nodes, and what is
remembered belongs to them. -/
structure Sound (s : Story) : Prop where
  /-- The content is sound and a tree. -/
  content : s.content.Grown
  /-- The container being played is a node. -/
  container {c : Nat} : s.container = some c → c < s.content.size
  /-- The pending choices are choices. -/
  choices {i : NodeId} : i ∈ s.choices → (s.node i).isChoice = true
  /-- The collected comments are nodes. -/
  comments {i : Nat} : i ∈ s.comments → i < s.content.size
  /-- What is remembered belongs to the content. -/
  memory : s.memory.Sound s.content

/-- A story stays sound with a sound memory. -/
theorem Sound.think {s : Story} (h : s.Sound) {m : Memory} (hm : m.Sound s.content) :
    Sound { s with memory := m } :=
  ⟨h.content, h.container, h.choices, h.comments, hm⟩

/-- A node is entered soundly, with or without the choices that were pending. -/
theorem Sound.enter {s : Story} (h : s.Sound) {i : Nat} (hi : i < s.content.size)
    {m m' : Memory} (hchanges : Memory.Changes s.content s.memory m)
    (hreadies : Memory.Readies s.content i m m') {choices : List NodeId}
    (hchoices : ∀ j ∈ choices, j ∈ s.choices) :
    Sound { ({ s with memory := m' }.moveInto i) with choices } where
  content := h.content
  container := by
    rintro c ⟨⟩
    exact hi
  choices := fun hj => h.choices (hchoices _ hj)
  comments := h.comments
  memory := (h.memory.changes hchanges).readies hi hreadies

/-- Thoughts leave it sound. -/
theorem Sound.thought {s t : Story} (h : s.Sound) (hthought : s.Thought t) : t.Sound := by
  cases hthought with
  | think hchanges => exact h.think (h.memory.changes hchanges)
  | utter hkind => exact h.think (h.memory.visit (Content.lt_size_of_kind hkind (by simp)))
  | @note i once conditions hkind =>
    unfold addComment
    split
    · exact h
    · refine ⟨h.content, h.container, h.choices, fun {j} hj => ?_, h.memory⟩
      rcases List.mem_append.1 hj with hj | hj
      · exact h.comments hj
      · rw [List.mem_singleton.1 hj]
        exact Content.lt_size_of_kind hkind (by simp)
  | forget position =>
    exact ⟨h.content, h.container, h.choices, fun hi => h.comments (List.mem_of_mem_eraseIdx hi),
      h.memory⟩
  | fire position i =>
    exact ⟨h.content, h.container, h.choices, h.comments, h.memory.of_marks rfl⟩

/-- Passing a node leaves it sound. -/
theorem Sound.pass {s : Story} (h : s.Sound) (i : NodeId) : (s.pass i).Sound := by
  unfold Story.pass
  split
  · exact h
  · exact ⟨h.content, h.container, h.choices, h.comments, h.memory⟩

/-- Every move keeps a story sound. -/
theorem Sound.move {leads : Route} {s t : Story} (h : s.Sound)
    (hmove : s.Move leads t) : t.Sound := by
  have htree := h.content.tree
  cases hmove with
  | thought hthought => exact h.thought hthought
  | @enter i m m' hi _ hchanges hreadies =>
    obtain ⟨c, hc, hmem⟩ := exists_of_cursor? hi
    have hlt : i < s.content.size :=
      Content.lt_size_of_parent (parent_of_mem_children htree (List.mem_of_getElem? hmem))
    exact h.enter hlt hchanges hreadies fun _ hj => hj
  | @land c i m m' hc _ hlanding hchanges hreadies =>
    obtain ⟨parent, -, ⟨j, -, hgather, hj⟩ | ⟨_, hother, -, -⟩⟩ := landing_of_landingAbove? hlanding
    · cases hgather
      exact h.enter (Content.lt_size (p := Node.isGather) rfl hj) hchanges hreadies fun _ hj => hj
    · cases hother
  | @converge c parent position hc _ hlanding =>
    refine ⟨h.content, ?_, h.choices, h.comments, h.memory⟩
    rintro _ ⟨⟩
    obtain ⟨p, -, ⟨j, -, hother, -⟩ | ⟨_, hchoice, -, hne⟩⟩ := landing_of_landingAbove? hlanding
    · cases hother
    · cases hchoice
      exact lt_size_of_children hne
  | @leave c hc _ _ =>
    unfold leaveBlock
    split
    · exact ⟨h.content, (fun hc => by cases hc), h.choices, h.comments, h.memory⟩
    · next parent hparent =>
      refine ⟨h.content, ?_, h.choices, h.comments, h.memory⟩
      rintro _ ⟨⟩
      exact h.content.sound.parent hparent
  | runOut _ => exact ⟨h.content, (fun hc => by cases hc), h.choices, h.comments, h.memory⟩
  | wait _ => exact ⟨h.content, h.container, h.choices, h.comments, h.memory⟩
  | pass => exact ⟨h.content, h.container, h.choices, h.comments, h.memory⟩
  | @offer i m _ _ hchoice _ _ hchanges =>
    have hoffered : Sound { s with memory := m, choices := s.choices ++ [i] } := by
      refine ⟨h.content, h.container, fun hj => ?_, h.comments, h.memory.changes hchanges⟩
      rcases List.mem_append.1 hj with hj | hj
      · exact h.choices hj
      · rw [List.mem_singleton.1 hj]
        exact hchoice
    exact hoffered.pass i
  | @fallBack i m _ hfallback _ hchanges =>
    have hi := Content.lt_size (p := Node.isFallback) rfl hfallback
    refine ⟨h.content, ?_, h.choices, h.comments, (h.memory.changes hchanges).visit hi⟩
    rintro c ⟨⟩
    exact hi
  | finish _ _ =>
    exact ⟨h.content, (fun hc => by cases hc), (fun hi => by cases hi), h.comments, h.memory⟩
  | divert _ _ hi hchanges hreadies =>
    exact h.enter hi hchanges hreadies fun _ hj => by cases hj
  | take hchoice _ =>
    have hi := Content.lt_size (p := Node.isChoice) rfl (h.choices hchoice)
    refine ⟨h.content, ?_, (fun hj => by cases hj), h.comments, h.memory.visit hi⟩
    rintro c ⟨⟩
    exact hi
  | interpose _ _ _ _ hchoice _ _ hchanges =>
    refine ⟨h.content, h.container, fun hi => ?_, h.comments, h.memory.changes hchanges⟩
    rcases List.mem_cons.1 hi with rfl | hi
    · exact hchoice
    · exact h.choices hi

/-- Whether a node is in the line above the container or hangs under a node there. -/
def Nearby (s : Story) (i : NodeId) : Prop :=
  ∃ c p, s.container = some c ∧ p ∈ s.content.lineage c ∧ (i = p ∨ (s.node i).parent = some p)

/-- The container is nearby. -/
theorem nearby_container {s : Story} {c : NodeId} (hc : s.container = some c) : s.Nearby c :=
  ⟨c, c, hc, s.content.mem_lineage_self c, .inl rfl⟩

/-- The node at the cursor is nearby. -/
theorem nearby_cursor {s : Story} (hs : s.content.Tree) {i : NodeId} (hi : s.cursor? = some i) :
    s.Nearby i := by
  obtain ⟨c, hc, hmem⟩ := exists_of_cursor? hi
  exact ⟨c, c, hc, s.content.mem_lineage_self c,
    .inr (parent_of_mem_children hs (List.mem_of_getElem? hmem))⟩

/-- Moves go from the container to a place nearby, or where a divert or a choice may lead. -/
theorem Move.nearby {leads : Route} {s t : Story} (h : s.Move leads t) (hs : s.content.Tree)
    {c' : NodeId} (hc' : t.container = some c') :
    s.Nearby c' ∨ leads s.content (some c') := by
  cases h with
  | thought hthought =>
    rw [Thinks.eq (.single hthought)] at hc'
    exact .inl (nearby_container hc')
  | enter hi _ _ _ =>
    cases hc'
    exact .inl (nearby_cursor hs hi)
  | @land c i _ _ hc _ hlanding _ _ =>
    cases hc'
    obtain ⟨p, hp, ⟨j, hj, hgather, -⟩ | ⟨_, hother, -⟩⟩ := landing_of_landingAbove? hlanding
    · cases hgather
      exact .inl ⟨c, p, hc, hp, .inr (parent_of_mem_children hs hj)⟩
    · cases hother
  | @converge c _ _ hc _ hlanding =>
    cases hc'
    obtain ⟨p, hp, ⟨_, -, hother, -⟩ | ⟨_, hchoice, -⟩⟩ := landing_of_landingAbove? hlanding
    · cases hother
    · cases hchoice
      exact .inl ⟨c, c', hc, hp, .inl rfl⟩
  | @leave c hc _ _ =>
    unfold leaveBlock at hc'
    split at hc'
    · cases hc'
    · next p hparent =>
      cases hc'
      exact .inl ⟨c, c', hc, hs.descends.parent_mem hparent, .inl rfl⟩
  | runOut _ => cases hc'
  | offer _ _ _ _ _ _ =>
    unfold Story.pass at hc'
    split at hc' <;> exact .inl (nearby_container hc')
  | fallBack hi _ _ _ =>
    cases hc'
    exact .inl (nearby_cursor hs hi)
  | finish _ _ => cases hc'
  | divert _ hleads _ _ _ =>
    cases hc'
    exact .inr hleads
  | take _ hleads =>
    cases hc'
    exact .inr hleads
  | _ => exact .inl (nearby_container hc')

/-- Recording a text changes the transcript only. -/
theorem record_eq (s : Story) (text : String) :
    s.record text = { s with transcript := (s.record text).transcript } := by
  unfold record
  split <;> rfl

/-- Recording a text keeps a story sound. -/
theorem Sound.record {s : Story} (h : s.Sound) (text : String) : (s.record text).Sound := by
  rw [record_eq]
  exact ⟨h.content, h.container, h.choices, h.comments, h.memory⟩

end Story

end Narrative
