import Narrative.Proofs.Story.Reachable

/-!
# Names of containers

A divert and a condition read the name of a container each in its own way. Both try the id first.
Then a divert goes outward, from the node above the place to the sections around it, and tries the
label last; a count begins inside the place, goes on with the sections around it, and knows no
labels. Here is said when the two find the same container, and that they part in no other ways than
those that are listed.
-/

namespace Narrative

namespace Stage

variable (s : Stage) (m : Memory) (name : String)

/-! ## Two ways to read a name -/

/-- The container with a name as its id. -/
def bare? : Option NodeId :=
  (s.content.find? name).filter s.isTarget

/-- The container inside the place with a name relative to it, if visits of it are counted. -/
def inner? : Option NodeId :=
  s.here.bind fun c => (s.under? c name).filter s.isCounted

/-- The node above the place. -/
def parent? : Option NodeId :=
  s.here.bind fun c => (s.content.node c).parent

/-- The sections above the place, the nearest first. -/
def around : List NodeId :=
  ((s.here.map s.content.ancestors).getD []).filter fun i => (s.content.node i).isSection

/-- The nodes relative to which a divert reads a name, the nearest first. -/
def outward : List NodeId :=
  s.parent?.toList ++ s.sections

/-- The first node that is accepted among those with a name relative to one of some nodes. -/
def firstUnder? (accepts : NodeId → Bool) (nodes : List NodeId) : Option NodeId :=
  nodes.findSome? fun i => (s.under? i name).filter accepts

/-- The node to which a reference leads that the global variable of a name holds. -/
def referred? : Option NodeId :=
  match m.globals.get? name with
  | some (.container id) => s.content.find? id
  | _ => none

/-- Whether a divert and a count read a name alike: where one of them finds a container that is no
function, the other one finds the same. -/
def Alike : Prop :=
  ∀ i, (s.content.node i).isFunction = false →
    s.target? m name = some i ∨ s.counted? name = some i →
    s.target? m name = some i ∧ s.counted? name = some i

/-- The ways in which a divert and a count read a name differently. -/
inductive Diverges : Prop
  /-- A divert finds a function, and a count goes on to a container. -/
  | function {f j : NodeId} :
      s.target? m name = some f → (s.content.node f).isFunction = true →
      s.counted? name = some j → Diverges
  /-- A container inside the place has the name, and a divert finds another one outward. -/
  | own {i j : NodeId} :
      s.bare? name = none → s.inner? name = some j →
      s.firstUnder? name s.isTarget s.outward = some i → i ≠ j → Diverges
  /-- A container inside the place has the name, and a divert finds none outward and more than one
  with this label. -/
  | shared {j : NodeId} :
      s.bare? name = none → s.inner? name = some j →
      s.firstUnder? name s.isTarget s.outward = none → s.content.findByLabel? name = none →
      Diverges
  /-- A container beside the place has the name, in a choice, a gather or a block. -/
  | beside {p i : NodeId} :
      s.bare? name = none → s.parent? = some p → (s.content.node p).isSection = false →
      s.under? p name = some i → s.isCounted i = true → Diverges
  /-- A container elsewhere has the name as its label, which a count does not know. -/
  | label {i : NodeId} :
      s.bare? name = none → s.inner? name = none →
      s.firstUnder? name s.isTarget s.outward = none → s.content.findByLabel? name = some i →
      s.isCounted i = true → Diverges

variable {s m name}

/-! ## Looking a name up -/

/-- A node whose visits are counted is a target. -/
theorem isTarget_of_isCounted {i : NodeId} (h : s.isCounted i = true) : s.isTarget i = true := by
  rw [isCounted, Bool.and_eq_true] at h
  exact h.1

/-- A node whose visits are counted is no function. -/
theorem isFunction_of_isCounted {i : NodeId} (h : s.isCounted i = true) :
    (s.content.node i).isFunction = false := by
  rw [isCounted, Bool.and_eq_true, Bool.not_eq_true'] at h
  exact h.2

/-- Every other target is counted. -/
theorem isCounted_of_isTarget {i : NodeId} (h : s.isTarget i = true)
    (hplain : (s.content.node i).isFunction = false) : s.isCounted i = true := by
  have hcontainer : (s.content.node i).isContainer = true := h
  rw [isCounted, hcontainer, hplain]
  rfl

/-- A divert looks for an id, then outward, then for a label and last for a reference. -/
theorem target?_eq : s.target? m name =
    (s.bare? name).or ((s.firstUnder? name s.isTarget s.outward).or
      ((s.content.findByLabel? name).or (s.referred? m name))) := by
  simp only [target?, Option.orElse_eq_orElse, Option.orElse_eq_or]
  rfl

/-- The surroundings are the place and the sections above it. -/
theorem surroundings_eq : s.surroundings = s.here.toList ++ s.around := by
  unfold surroundings around lineage
  cases s.here <;> rfl

/-- The sections are the place, where it is one, and those above it. -/
theorem sections_eq : s.sections =
    (s.here.toList.filter fun i => (s.content.node i).isSection) ++ s.around := by
  unfold sections around lineage
  cases hhere : s.here with
  | none => rfl
  | some c => exact List.filter_append (p := fun i => (s.content.node i).isSection) [c] _

/-- Nodes are searched one after the other. -/
theorem firstUnder?_append {accepts : NodeId → Bool} {nodes nodes' : List NodeId} :
    s.firstUnder? name accepts (nodes ++ nodes') =
      (s.firstUnder? name accepts nodes).or (s.firstUnder? name accepts nodes') :=
  List.findSome?_append

/-- A count looks inside the place first. -/
theorem firstUnder?_here : s.firstUnder? name s.isCounted s.here.toList = s.inner? name := by
  unfold firstUnder? inner?
  cases s.here with
  | none => rfl
  | some c => simp

/-- What is no target is not counted. -/
theorem filter_isCounted_eq_none {found : Option NodeId} (h : found.filter s.isTarget = none) :
    found.filter s.isCounted = none := by
  rw [Option.filter_eq_none_iff] at h ⊢
  intro i hi hcounted
  exact h i hi (isTarget_of_isCounted hcounted)

/-- Where no container has the name as its id, a count looks inside the place and then outward. -/
theorem counted?_eq (hbare : s.bare? name = none) :
    s.counted? name = (s.inner? name).or (s.firstUnder? name s.isCounted s.around) := by
  have hnone := filter_isCounted_eq_none hbare
  rw [← firstUnder?_here, ← firstUnder?_append, ← surroundings_eq]
  simp only [counted?, hnone, Option.orElse_eq_orElse, Option.orElse_eq_or, Option.none_or]
  rfl

/-- Where a divert finds no container under some nodes, a count finds none. -/
theorem firstUnder?_counted_eq_none {nodes : List NodeId}
    (h : s.firstUnder? name s.isTarget nodes = none) :
    s.firstUnder? name s.isCounted nodes = none := by
  refine List.findSome?_eq_none_iff.2 fun i hi => ?_
  exact filter_isCounted_eq_none (List.findSome?_eq_none_iff.1 h i hi)

/-- Where a divert finds a container that is no function under some nodes, a count finds it. -/
theorem firstUnder?_counted_eq_some {nodes : List NodeId} {i : NodeId}
    (h : s.firstUnder? name s.isTarget nodes = some i) (hcounted : s.isCounted i = true) :
    s.firstUnder? name s.isCounted nodes = some i := by
  obtain ⟨before, p, behind, hnodes, hp, hbefore⟩ := List.findSome?_eq_some_iff.1 h
  have hunder := (Option.filter_eq_some_iff.1 hp).1
  refine List.findSome?_eq_some_iff.2 ⟨before, p, behind, hnodes, ?_, ?_⟩
  · exact Option.filter_eq_some_iff.2 ⟨hunder, hcounted⟩
  · intro q hq
    exact filter_isCounted_eq_none (hbefore q hq)

/-- Where a divert finds no container outward, a count finds none in the sections above. -/
theorem firstUnder?_around_eq_none (h : s.firstUnder? name s.isTarget s.outward = none) :
    s.firstUnder? name s.isCounted s.around = none := by
  have hall := firstUnder?_counted_eq_none h
  rw [outward, sections_eq, firstUnder?_append, firstUnder?_append] at hall
  exact (Option.or_eq_none_iff.1 (Option.or_eq_none_iff.1 hall).2).2

/-- What a search finds was accepted. -/
theorem isTarget_of_firstUnder? {nodes : List NodeId} {i : NodeId}
    (h : s.firstUnder? name s.isTarget nodes = some i) : s.isTarget i = true := by
  obtain ⟨p, -, hp⟩ := List.exists_of_findSome?_eq_some h
  exact (Option.filter_eq_some_iff.1 hp).2

/-- A count finds a container by its id as a divert does. -/
theorem counted?_of_bare {i : NodeId} (h : s.bare? name = some i)
    (hplain : (s.content.node i).isFunction = false) : s.counted? name = some i := by
  obtain ⟨hi, htarget⟩ := Option.filter_eq_some_iff.1 h
  have hbare := Option.filter_eq_some_iff.2 ⟨hi, isCounted_of_isTarget htarget hplain⟩
  simp only [counted?, hbare, Option.orElse_eq_orElse, Option.orElse_eq_or, Option.some_or]

/-! ## Relative names -/

/-- A node with a name relative to another one is relative to that one only. -/
theorem eq_of_under? (hs : s.content.Sound) {i j k : NodeId} (hi : i < s.content.size)
    (hj : j < s.content.size) (hik : s.under? i name = some k) (hjk : s.under? j name = some k) :
    i = j := by
  have hids := (Content.find?_eq_some hik).2.symm.trans (Content.find?_eq_some hjk).2
  rw [String.append_left_inj, String.append_left_inj] at hids
  exact hs.distinct hi hj hids

/-- A container with a name relative to another node has it as its label. -/
theorem mem_labelled_of_under? {i j : NodeId} (h : s.under? i name = some j)
    (htarget : s.isTarget j = true) : j ∈ s.content.labelled name := by
  obtain ⟨hlt, hid⟩ := Content.find?_eq_some h
  refine List.mem_filter.2 ⟨List.mem_range.2 hlt, ?_⟩
  rw [Bool.and_eq_true, hid, String.toList_append, String.toList_append, List.isSuffixOf_iff_suffix]
  refine ⟨htarget, (s.content.node i).id.toList, ?_⟩
  rw [List.append_assoc]
  rfl

/-- A label that is found is borne by one node only. -/
theorem eq_of_findByLabel? {i j : NodeId} (h : s.content.findByLabel? name = some i)
    (hj : j ∈ s.content.labelled name) : j = i := by
  unfold Content.findByLabel? at h
  split at h
  · next k hlabelled =>
    cases h
    rw [hlabelled] at hj
    exact List.mem_singleton.1 hj
  · cases h

/-- What is found by its label is a target. -/
theorem isTarget_of_findByLabel? {i : NodeId} (h : s.content.findByLabel? name = some i) :
    s.isTarget i = true := by
  unfold Content.findByLabel? at h
  split at h
  · next k hlabelled =>
    cases h
    have hmem : i ∈ s.content.labelled name := by
      rw [hlabelled]
      exact List.mem_singleton_self i
    rw [Content.labelled, List.mem_filter, Bool.and_eq_true] at hmem
    exact hmem.2.1
  · cases h

/-- What is found inside the place has the name relative to it. -/
theorem exists_of_inner? {j : NodeId} (h : s.inner? name = some j) :
    ∃ c, s.here = some c ∧ s.under? c name = some j ∧ s.isCounted j = true := by
  obtain ⟨c, hc, hj⟩ := Option.bind_eq_some_iff.1 h
  exact ⟨c, hc, Option.filter_eq_some_iff.1 hj⟩

section Tree

variable (htree : s.content.Descends)

include htree

/-- Where a count finds nothing inside the place and nothing beside it but in sections, it finds the
same outward as a divert would. -/
theorem firstUnder?_outward (hinner : s.inner? name = none)
    (hbeside : ∀ p i, s.parent? = some p → s.under? p name = some i → s.isCounted i = true →
      (s.content.node p).isSection = true) :
    s.firstUnder? name s.isCounted s.outward = s.firstUnder? name s.isCounted s.around := by
  have hhere : s.firstUnder? name s.isCounted
      (s.here.toList.filter fun i => (s.content.node i).isSection) = none := by
    rw [← firstUnder?_here] at hinner
    refine List.findSome?_eq_none_iff.2 fun i hi => ?_
    exact List.findSome?_eq_none_iff.1 hinner i (List.mem_of_mem_filter hi)
  rw [outward, sections_eq, firstUnder?_append, firstUnder?_append, hhere, Option.none_or]
  cases hparent : s.parent? with
  | none => rfl
  | some p =>
    obtain ⟨c, hc, hp⟩ := Option.bind_eq_some_iff.1 hparent
    cases hunder : (s.under? p name).filter s.isCounted with
    | none =>
      have hnone : s.firstUnder? name s.isCounted (some p).toList = none := by
        simp [firstUnder?, hunder]
      rw [hnone, Option.none_or]
    | some i =>
      -- the section above the place is the first one around it
      obtain ⟨hi, hcounted⟩ := Option.filter_eq_some_iff.1 hunder
      have hsection := hbeside p i hparent hi hcounted
      have haround : s.around =
          p :: (s.content.ancestors p).filter fun i => (s.content.node i).isSection := by
        have hline := htree.lineage_of_parent hp
        rw [Content.lineage, Content.lineage, List.cons.injEq] at hline
        rw [around, hc, Option.map_some, Option.getD_some, hline.2]
        exact List.filter_cons_of_pos hsection
      rw [haround]
      simp [firstUnder?, hunder]

/-- The container beside the place is found by a divert, and by no count when it stands in a choice,
a gather or a block. -/
theorem counted?_ne_of_beside (hs : s.content.Sound) {p i : NodeId} (hbare : s.bare? name = none)
    (hparent : s.parent? = some p) (hplain : (s.content.node p).isSection = false)
    (hi : s.under? p name = some i) : s.counted? name ≠ some i := by
  obtain ⟨c, hc, hp⟩ := Option.bind_eq_some_iff.1 hparent
  have hplt := hs.parent hp
  have hclt := Content.lt_size_of_parent hp
  rw [counted?_eq hbare]
  intro hcounted
  rcases Option.or_eq_some_iff.1 hcounted with hinner | ⟨-, haround⟩
  · obtain ⟨c', hc', hunder, -⟩ := exists_of_inner? hinner
    obtain rfl : c = c' := Option.some.inj (hc.symm.trans hc')
    have heq := eq_of_under? hs hclt hplt hunder hi
    exact absurd heq (Nat.ne_of_gt (htree.lt hp))
  · obtain ⟨q, hq, hunder⟩ := List.exists_of_findSome?_eq_some haround
    rw [around, hc, List.mem_filter] at hq
    have hqlt := Content.lt_size_of_above hs.parent hq.1
    have heq := eq_of_under? hs hqlt hplt (Option.filter_eq_some_iff.1 hunder).1 hi
    rw [heq, hplain] at hq
    exact absurd hq.2 Bool.false_ne_true

/-! ## Where the two ways part -/

omit htree in
/-- What a count finds is counted. -/
theorem isCounted_of_counted? {i : NodeId} (h : s.counted? name = some i) :
    s.isCounted i = true := by
  simp only [counted?, Option.orElse_eq_orElse, Option.orElse_eq_or] at h
  rcases Option.or_eq_some_iff.1 h with hbare | ⟨-, hunder⟩
  · exact (Option.filter_eq_some_iff.1 hbare).2
  · obtain ⟨p, -, hp⟩ := List.exists_of_findSome?_eq_some hunder
    exact (Option.filter_eq_some_iff.1 hp).2

/-- Where a name is read differently, it is not read alike. -/
theorem not_alike_of_diverges (hs : s.content.Sound) (hglobal : m.globals.get? name = none)
    (h : s.Diverges m name) : ¬ s.Alike m name := by
  have hreferred : s.referred? m name = none := by rw [referred?, hglobal]
  intro halike
  cases h with
  | @function f j htarget hfunction hcounted =>
    have hplain := isFunction_of_isCounted (isCounted_of_counted? hcounted)
    have hboth := (halike j hplain (.inr hcounted)).1
    rw [htarget, Option.some.injEq] at hboth
    rw [hboth, hplain] at hfunction
    cases hfunction
  | @own i j hbare hinner houtward hne =>
    have hcounted : s.counted? name = some j := by rw [counted?_eq hbare, hinner, Option.some_or]
    have hplain := isFunction_of_isCounted (isCounted_of_counted? hcounted)
    have hboth := (halike j hplain (.inr hcounted)).1
    rw [target?_eq, hbare, houtward, Option.none_or, Option.some_or, Option.some.injEq] at hboth
    exact hne hboth
  | @shared j hbare hinner houtward hlabel =>
    have hcounted : s.counted? name = some j := by rw [counted?_eq hbare, hinner, Option.some_or]
    have hplain := isFunction_of_isCounted (isCounted_of_counted? hcounted)
    have hboth := (halike j hplain (.inr hcounted)).1
    rw [target?_eq, hbare, houtward, hlabel, hreferred] at hboth
    cases hboth
  | @beside p i hbare hparent hplain hi hcounted =>
    have houtward : s.firstUnder? name s.isTarget s.outward = some i := by
      have hfirst := Option.filter_eq_some_iff.2 ⟨hi, isTarget_of_isCounted hcounted⟩
      rw [outward, hparent, firstUnder?, Option.toList_some, List.cons_append, List.findSome?_cons,
        hfirst]
    have htarget : s.target? m name = some i := by
      rw [target?_eq, hbare, houtward, Option.none_or, Option.some_or]
    have hboth := (halike i (isFunction_of_isCounted hcounted) (.inl htarget)).2
    exact counted?_ne_of_beside htree hs hbare hparent hplain hi hboth
  | @label i hbare hinner houtward hlabel hcounted =>
    have htarget : s.target? m name = some i := by
      rw [target?_eq, hbare, houtward, hlabel, Option.none_or, Option.none_or, Option.some_or]
    have hboth := (halike i (isFunction_of_isCounted hcounted) (.inl htarget)).2
    rw [counted?_eq hbare, hinner, firstUnder?_around_eq_none houtward] at hboth
    cases hboth

/-- What a divert finds outward is counted, too, unless the name is read differently. -/
theorem counted?_of_outward (h : ¬ s.Diverges m name) (hbare : s.bare? name = none) {t : NodeId}
    (houtward : s.firstUnder? name s.isTarget s.outward = some t)
    (hcounted : s.isCounted t = true) : s.counted? name = some t := by
  rw [counted?_eq hbare]
  cases hinner : s.inner? name with
  | some j =>
    have heq : t = j := by
      by_contra hne
      exact h (.own hbare hinner houtward hne)
    rw [heq, Option.some_or]
  | none =>
    have hbeside : ∀ p i, s.parent? = some p → s.under? p name = some i →
        s.isCounted i = true → (s.content.node p).isSection = true := by
      intro p i hparent hi hicounted
      by_contra hsection
      rw [Bool.not_eq_true] at hsection
      exact h (.beside hbare hparent hsection hi hicounted)
    rw [Option.none_or, ← firstUnder?_outward htree hinner hbeside]
    exact firstUnder?_counted_eq_some houtward hcounted

omit htree in
/-- Where a divert finds nothing outward, it leads inside the place by the label, unless the name is
read differently. -/
theorem target?_of_inner (h : ¬ s.Diverges m name) (hbare : s.bare? name = none) {j : NodeId}
    (houtward : s.firstUnder? name s.isTarget s.outward = none) (hinner : s.inner? name = some j) :
    s.target? m name = some j := by
  rw [target?_eq, hbare, houtward, Option.none_or, Option.none_or]
  cases hlabel : s.content.findByLabel? name with
  | none => exact (h (.shared hbare hinner houtward hlabel)).elim
  | some l =>
    obtain ⟨c, -, hj, hcounted⟩ := exists_of_inner? hinner
    have hmem := mem_labelled_of_under? hj (isTarget_of_isCounted hcounted)
    rw [eq_of_findByLabel? hlabel hmem, Option.some_or]

/-- Where a name is read in none of these ways, it is read alike. -/
theorem alike_of_not_diverges (hglobal : m.globals.get? name = none)
    (h : ¬ s.Diverges m name) : s.Alike m name := by
  have hreferred : s.referred? m name = none := by rw [referred?, hglobal]
  intro i hplain hfound
  -- a divert that finds a function leaves nothing to be counted
  have hcountable {f : NodeId} (hf : s.target? m name = some f) :
      (s.content.node f).isFunction = false := by
    by_contra hfunction
    rw [Bool.not_eq_false] at hfunction
    rcases hfound with htarget | hcounted
    · rw [htarget, Option.some.injEq] at hf
      rw [hf, hfunction] at hplain
      cases hplain
    · exact h (.function hf hfunction hcounted)
  have hsame {j : NodeId} (htarget : s.target? m name = some j)
      (hcounted : s.counted? name = some j) :
      s.target? m name = some i ∧ s.counted? name = some i := by
    obtain rfl : i = j := by
      rcases hfound with hi | hi
      · exact Option.some.inj (hi.symm.trans htarget)
      · exact Option.some.inj (hi.symm.trans hcounted)
    exact ⟨htarget, hcounted⟩
  cases hbare : s.bare? name with
  | some e =>
    have htarget : s.target? m name = some e := by rw [target?_eq, hbare, Option.some_or]
    exact hsame htarget (counted?_of_bare hbare (hcountable htarget))
  | none =>
    cases houtward : s.firstUnder? name s.isTarget s.outward with
    | some t =>
      have htarget : s.target? m name = some t := by
        rw [target?_eq, hbare, houtward, Option.none_or, Option.some_or]
      have hcounted :=
        isCounted_of_isTarget (isTarget_of_firstUnder? houtward) (hcountable htarget)
      exact hsame htarget (counted?_of_outward htree h hbare houtward hcounted)
    | none =>
      cases hinner : s.inner? name with
      | some j =>
        have hcounted : s.counted? name = some j := by
          rw [counted?_eq hbare, hinner, Option.some_or]
        exact hsame (target?_of_inner h hbare houtward hinner) hcounted
      | none =>
        rcases hfound with hi | hi
        · rw [target?_eq, hbare, houtward, hreferred, Option.none_or, Option.none_or,
            Option.or_none] at hi
          have hcounted := isCounted_of_isTarget (isTarget_of_findByLabel? hi) hplain
          exact (h (.label hbare hinner houtward hi hcounted)).elim
        · rw [counted?_eq hbare, hinner, firstUnder?_around_eq_none houtward] at hi
          cases hi

end Tree

/-- A name is read alike unless it is read differently in one of the ways listed. -/
theorem alike_iff_not_diverges (hs : s.content.Sound) (htree : s.content.Descends)
    (hglobal : m.globals.get? name = none) : s.Alike m name ↔ ¬ s.Diverges m name := by
  constructor
  · intro halike hdiverges
    exact not_alike_of_diverges htree hs hglobal hdiverges halike
  · exact alike_of_not_diverges htree hglobal

/-- A name that stands for the visits of a container is read as their number. -/
theorem valueOf_of_counted? {i : NodeId} (hthis : name ≠ "this")
    (hbinder : s.binder? m name = none) (hreference : reference? name = none)
    (hcounted : s.counted? name = some i) : s.valueOf m name = .int (m.mark i).count := by
  rw [valueOf, if_neg hthis, parameter?, hbinder, hreference, countOf?, hcounted]
  rfl

end Stage

namespace Story

/-- A divert that no interrupt redirects leads to the node that its name finds. -/
theorem peekDivert_of_target? {s : Story} {host : Host} {n : Node} {target name : List Char}
    {args : List (List Char)} {i : NodeId} (hn : n.divertTarget? = some target)
    (hcall : splitCall target = (name, args)) (hend : name ≠ endName)
    (hi : (s.stage host).target? s.memory (String.ofList name) = some i) :
    s.peekDivert host n = some (some (s.descend i)) := by
  rw [peekDivert, hn, Option.bind_some, hcall]
  simp only [if_neg hend, hi, Option.map_some]

/-- In every story that is reached, a name that is no word of the language, no parameter and no
global variable is read alike by diverts and by counts unless one of the listed ways is met. Then,
where one of the two finds a container that is no function, the other does: its visits are what the
name stands for, and a divert to the name leads there. -/
theorem Reachable.alike_iff {host : Host} {main : String} {s : Story}
    (h : Reachable host main (fun _ => True) s) {name : String} (hthis : name ≠ "this")
    (hbinder : (s.stage host).binder? s.memory name = none)
    (hglobal : s.memory.globals.get? name = none) :
    ((s.stage host).Alike s.memory name ↔ ¬ (s.stage host).Diverges s.memory name) ∧
      (¬ (s.stage host).Diverges s.memory name →
        ∀ i, (s.node i).isFunction = false →
          (s.stage host).target? s.memory name = some i ∨
            (s.stage host).counted? name = some i →
          (Stage.reference? name = none →
            (s.stage host).valueOf s.memory name = .int (s.memory.mark i).count) ∧
          ∀ n target args, n.divertTarget? = some target →
            splitCall target = (name.toList, args) → name.toList ≠ endName →
            s.peekDivert host n = some (some (s.descend i))) := by
  have hgrown := h.sound.content
  have hiff := Stage.alike_iff_not_diverges (s := s.stage host) (m := s.memory) hgrown.sound
    hgrown.tree.descends hglobal
  refine ⟨hiff, ?_⟩
  intro hnot i hplain hfound
  obtain ⟨htarget, hcounted⟩ := hiff.2 hnot i hplain hfound
  constructor
  · intro hreference
    exact Stage.valueOf_of_counted? hthis hbinder hreference hcounted
  · intro n target args hn hcall hend
    refine peekDivert_of_target? hn hcall hend ?_
    rw [String.ofList_toList]
    exact htarget

/-- A world in which a knot goes on where its labelled choices come together. -/
def fordWorld : World :=
  ⟨.ofSources (.ofList [("main",
    "== start\n* (ask) [Ask]\n  Asked.\n- (after) {ask} {after}\n")]) fun _ => "", 4, 40⟩

/-- From the place where they come together, the label of the choice that was taken leads to it and
stands for its one visit. -/
theorem alike_iff_ford : ∃ (s : Story) (i : NodeId),
    Reachable fordWorld.host "main" (fun _ => True) s ∧
    s.container.map (fun c => (s.node c).id) = some "start.after" ∧ (s.node i).id = "start.ask" ∧
    "ask" ≠ "this" ∧ (s.stage fordWorld.host).binder? s.memory "ask" = none ∧
    s.memory.globals.get? "ask" = none ∧
    (s.stage fordWorld.host).target? s.memory "ask" = some i ∧
    (s.stage fordWorld.host).valueOf s.memory "ask" = .int (s.memory.mark i).count ∧
    (s.memory.mark i).visits = 1 := by
  have hplayed : (played? fordWorld "main" 0 [.advance, .choose 0, .advance]).any (fun s =>
      s.container.map (fun c => (s.node c).id) = some "start.after" ∧
      (s.stage fordWorld.host).binder? s.memory "ask" = none ∧
      s.memory.globals.get? "ask" = none ∧
      ((s.stage fordWorld.host).target? s.memory "ask").any (fun i =>
        (s.stage fordWorld.host).counted? "ask" = some i ∧ (s.node i).id = "start.ask" ∧
        (s.node i).isFunction = false ∧ (s.memory.mark i).visits = 1) = true) = true := by
    decide +kernel
  obtain ⟨s, hs, hplays⟩ := (Option.any_eq_true _ _).1 hplayed
  obtain ⟨hplace, hbinder, hglobal, hfinds⟩ := of_decide_eq_true hplays
  obtain ⟨i, htarget, hfound⟩ := (Option.any_eq_true _ _).1 hfinds
  obtain ⟨hcounted, hid, hplain, hcount⟩ := of_decide_eq_true hfound
  have hreached : Reachable fordWorld.host "main" (fun _ => True) s :=
    reachable_of_played? (fun _ _ => trivial) hs
  have hthis : "ask" ≠ "this" := by decide
  obtain ⟨hiff, hsame⟩ := hreached.alike_iff hthis hbinder hglobal
  have halike : (s.stage fordWorld.host).Alike s.memory "ask" := by
    intro j _ hj
    obtain rfl : j = i := by
      rcases hj with hj | hj
      · exact Option.some.inj (hj.symm.trans htarget)
      · exact Option.some.inj (hj.symm.trans hcounted)
    exact ⟨htarget, hcounted⟩
  obtain ⟨hvalue, -⟩ := hsame (hiff.1 halike) i hplain (.inl htarget)
  have hreference : Stage.reference? "ask" = none := by decide +kernel
  exact ⟨s, i, hreached, hplace, hid, hthis, hbinder, hglobal, htarget, hvalue hreference, hcount⟩

/-- A world in which two choices stand inside a choice, and one of them has a label. -/
def branchWorld : World :=
  ⟨.ofSources (.ofList [("main",
    "== start\n* [A]\n  Chosen.\n  ** (x) [B]\n  ** [C]\n  Here.\n  -> x\n")]) fun _ => "", 4, 40⟩

/-- From inside one of the choices a divert finds the other one by its label, and a count does
not. -/
theorem not_alike_branch : ¬ ∀ (w : World) (main : String) (s : Story),
    Reachable w.host main (fun _ => True) s → ∀ name, name ≠ "this" →
      (s.stage w.host).binder? s.memory name = none → s.memory.globals.get? name = none →
      (s.stage w.host).Alike s.memory name := by
  intro halike
  have hplayed : (played? branchWorld "main" 0 [.advance, .choose 0, .advance, .choose 1]).any
      (fun s => (s.stage branchWorld.host).binder? s.memory "x" = none ∧
        s.memory.globals.get? "x" = none ∧
        ((s.stage branchWorld.host).target? s.memory "x").any (fun i =>
          (s.node i).isFunction = false ∧
          (s.stage branchWorld.host).counted? "x" ≠ some i) = true) = true := by
    decide +kernel
  obtain ⟨s, hs, hplays⟩ := (Option.any_eq_true _ _).1 hplayed
  obtain ⟨hbinder, hglobal, hfinds⟩ := of_decide_eq_true hplays
  obtain ⟨i, htarget, hfound⟩ := (Option.any_eq_true _ _).1 hfinds
  obtain ⟨hplain, hother⟩ := of_decide_eq_true hfound
  have hreached : Reachable branchWorld.host "main" (fun _ => True) s :=
    reachable_of_played? (fun _ _ => trivial) hs
  have hboth := halike branchWorld "main" s hreached "x" (by decide) hbinder hglobal i hplain
    (.inl htarget)
  exact hother hboth.2

end Story

end Narrative
