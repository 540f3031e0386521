import Narrative.Proofs.SavedGame.Misfits

/-!
# What a saved game carries over

A saved game names nodes by their ids. Wherever it is restored, a node has been visited as often as
the node with its id had been in the saved story, and never when that had no such node.
-/

namespace Narrative.Story

variable {host : Host} {s t u : Story} {i j : NodeId} {id : String}

/-- What a saved game makes of a story that it is restored into. -/
theorem restore_eq_ok {g : SavedGame} (h : restore host g t = (.ok (), u)) :
    ∃ x marks globals, requireFiles host g.files t = (.ok (), x) ∧
      (∀ i, Remarked host x.content g.content.toList i {} (marks.get i)) ∧
      (∀ id ∈ g.choices, ∃ i, x.content.find? id = some i ∧ (x.node i).isChoice = true) ∧
      u = { x with
        container := g.container.bind x.content.find?
        index := g.index
        transcript := g.text
        choices := g.choices.filterMap x.content.find?
        comments := g.comments.filterMap x.content.find?
        background := g.image
        running := g.running
        processing := g.processing
        memory := { x.memory with globals, marks } } := by
  change restoring host g t = _ at h
  rw [restoring] at h
  obtain ⟨_, x, hfiles, h⟩ := Trial.bind_eq_ok.1 h
  rw [Trial.modify_bind_apply] at h
  obtain ⟨_, s₂, hmarks, h⟩ := Trial.bind_eq_ok.1 h
  obtain ⟨done, rest, marks, hentries, rfl, hremarked, -, rfl⟩ := restoreMarks_cases hmarks
  rw [List.append_nil] at hentries
  subst hentries
  obtain ⟨_, s₃, hcursor, h⟩ := Trial.bind_eq_ok.1 h
  obtain ⟨rfl, -⟩ := restoreCursor_cases hcursor
  rw [Trial.modify_bind_apply] at h
  obtain ⟨_, s₄, hchoices, h⟩ := Trial.bind_eq_ok.1 h
  obtain ⟨ids, rest, hids, rfl, hpending, rfl⟩ := restoreChoices_cases hchoices
  rw [List.append_nil] at hids
  subst hids
  rw [Trial.modify_bind_apply] at h
  obtain ⟨_, s₅, hglobals, h⟩ := Trial.bind_eq_ok.1 h
  obtain ⟨saved, rest, values, hsaved, hvalues, rfl, rfl⟩ := restoreGlobals_cases hglobals
  cases h
  exact ⟨x, marks, _, hfiles, hremarked, hpending, rfl⟩

/-- The story that is restored into has read the saved files then. -/
theorem grown_of_requireFiles {files : List String} (ht : t.content.Grown)
    (h : requireFiles host files t = (.ok (), u)) :
    u.content.Grown ∧ u = { t with sources := u.sources } := by
  obtain ⟨heq, read, hreads, -⟩ := requireFiles_cases h
  exact ⟨(hreads.grown ht).1, heq⟩

/-- The nodes that are saved are those that were visited. -/
theorem visited_of_mem {entry : String × SavedNode} (h : entry ∈ s.save.content.toList) :
    ∃ j, j < s.content.size ∧ (s.memory.mark j).count ≠ 0 ∧
      entry = ((s.node j).id, s.savedNode j) := by
  obtain ⟨j, hj, rfl⟩ := List.mem_map.1 (NameMap.mem_of_mem_ofList h)
  obtain ⟨hlt, hcount⟩ := List.mem_filter.1 hj
  exact ⟨j, List.mem_range.1 hlt, bne_iff_ne.1 hcount, rfl⟩

/-- A node that was visited is saved. -/
theorem mem_names_of_visited (hj : j < s.content.size) (hcount : (s.memory.mark j).count ≠ 0) :
    (s.node j).id ∈ s.save.content.toList.map (·.1) := by
  refine NameMap.mem_names_ofList (List.mem_map.2 ⟨((s.node j).id, s.savedNode j), ?_, rfl⟩)
  exact List.mem_map.2
    ⟨j, List.mem_filter.2 ⟨List.mem_range.2 hj, bne_iff_ne.2 hcount⟩, rfl⟩

/-- What is restored of the marks of a story belongs to the content that it is restored into. -/
theorem sound_of_remarked {c : Content} {m : Memory}
    (h : ∀ i, Remarked host c s.save.content.toList i {} (m.mark i)) : m.Sound c := by
  refine ⟨fun {i} hi => ?_, fun {i} hi => ?_, fun {i} hi => ?_, fun {i} hi => ?_⟩
  all_goals
    have hmark := h i
    generalize m.mark i = k at *
    cases hmark with
    | unsaved _ => rfl
    | saved hmem hfind _ => ?_
  · exact absurd (Content.find?_eq_some hfind).1 (Nat.not_lt.2 hi)
  · obtain ⟨j, -, hcount, heq⟩ := visited_of_mem hmem
    cases heq
    refine absurd ?_ hcount
    have hzero : (s.memory.mark j).count = 0 := hi
    exact hzero
  · rw [restoredMark, hi]
    rfl
  · rw [restoredMark, hi]
    rfl

/-- A saved game that is restored into a sound story leaves a sound one. -/
theorem Sound.restored (ht : t.Sound) (h : restore host s.save t = (.ok (), u)) : u.Sound := by
  obtain ⟨x, marks, globals, hfiles, hremarked, hpending, rfl⟩ := restore_eq_ok h
  refine ⟨(grown_of_requireFiles ht.content hfiles).1, fun {c} hc => ?_, fun {i} hi => ?_,
    fun {i} hi => ?_, sound_of_remarked hremarked⟩
  · obtain ⟨id, -, hfind⟩ := Option.bind_eq_some_iff.1 hc
    exact (Content.find?_eq_some hfind).1
  · obtain ⟨id, hid, hfind⟩ := List.mem_filterMap.1 hi
    obtain ⟨j, hj, hchoice⟩ := hpending id hid
    rw [hfind] at hj
    cases hj
    exact hchoice
  · obtain ⟨id, -, hfind⟩ := List.mem_filterMap.1 hi
    exact (Content.find?_eq_some hfind).1

/-- A node with the id of a node of the saved story has its counter. A node with another id has not
been visited. -/
theorem count_of_restored (hs : s.Sound) (h : restore host s.save t = (.ok (), u))
    (hi : u.content.find? id = some i) :
    (∀ j, s.content.find? id = some j → (u.memory.mark i).count = (s.memory.mark j).count) ∧
    (s.content.find? id = none → u.memory.mark i = {}) := by
  obtain ⟨x, marks, globals, hfiles, hremarked, hpending, rfl⟩ := restore_eq_ok h
  have hmark : Remarked host x.content s.save.content.toList i {} (marks.get i) := hremarked i
  change (∀ j, s.content.find? id = some j → (marks.get i).count = (s.memory.mark j).count) ∧
    (s.content.find? id = none → marks.get i = {})
  change x.content.find? id = some i at hi
  generalize marks.get i = k at *
  cases hmark with
  | @saved id' saved scope hmem hfind _ =>
    have hid : id' = id := (Content.find?_eq_some hfind).2.symm.trans (Content.find?_eq_some hi).2
    obtain ⟨j, hj, -, heq⟩ := visited_of_mem hmem
    cases heq
    have hsaved := hs.content.sound.find?_id hj
    change s.content.find? (s.node j).id = some j at hsaved
    rw [hid] at hsaved
    rw [hsaved]
    refine ⟨?_, nofun⟩
    rintro _ ⟨⟩
    exact Nat.mod_mod _ _
  | unsaved hnone =>
    refine ⟨fun j hj => ?_, fun _ => rfl⟩
    refine (Decidable.byContradiction fun hcount => ?_ : (s.memory.mark j).count = 0).symm
    obtain ⟨hlt, hid⟩ := Content.find?_eq_some hj
    obtain ⟨entry, hentry, hname⟩ := List.mem_map.1 (mem_names_of_visited hlt hcount)
    refine hnone entry hentry ?_
    rw [hname, node, hid]
    exact hi

end Narrative.Story
