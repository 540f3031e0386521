import Narrative.Proofs.NameMap
import Narrative.Proofs.Decimal.Canonical
import Narrative.Proofs.Source.Loading
import Narrative.Proofs.Story.Soundness

/-!
# Restoring what was saved

A saved game that is restored into a story of the same sources yields the saved story again, except
for the dice, which are not saved. A story that has read more takes the saved game, too. Each part of
the saved game restores its part of the story.
-/

namespace Narrative

/-- A value that can be restored: a number is not at the least power of ten, and an object is known
to the host. -/
def Value.Restorable (host : Host) : Value → Prop
  | .number n => n.exp ≠ Decimal.minExp
  | .object key => host.hasObject key = true
  | _ => True

instance (host : Host) : (v : Value) → Decidable (v.Restorable host)
  | .number n => inferInstanceAs (Decidable (n.exp ≠ Decimal.minExp))
  | .object key => inferInstanceAs (Decidable (host.hasObject key = true))
  | .null | .bool _ | .str _ | .container _ => isTrue trivial

/-- A restorable value is restored from its saved form. -/
theorem SavedValue.toValue_ofValue {host : Host} {v : Value} (h : v.Restorable host) :
    (ofValue v).toValue host = .ok v := by
  cases v with
  | number n =>
    rw [ofValue, toValue, Decimal.parse?_text n h]
    rfl
  | object key => exact if_pos h
  | _ => rfl

namespace Story

variable {host : Host}

/-- Values that can be restored are read back. -/
theorem restoredValues_saved {entries : List (String × Value)}
    (h : ∀ e ∈ entries, e.2.Restorable host) :
    restoredValues host (entries.map fun (name, v) => (name, .ofValue v)) = .ok entries := by
  induction entries with
  | nil => rfl
  | cons e rest ih =>
    obtain ⟨name, v⟩ := e
    have hv : v.Restorable host := h _ List.mem_cons_self
    rw [List.map_cons, restoredValues, SavedValue.toValue_ofValue hv,
      ih fun e he => h e (List.mem_cons_of_mem _ he)]
    rfl

/-- The values and the counters of a story can be restored. -/
structure Restorable (host : Host) (s : Story) : Prop where
  /-- The values of the global variables can be restored. -/
  globals {e : String × Value} : e ∈ s.memory.globals.toList → e.2.Restorable host
  /-- The values of the parameters can be restored. -/
  scope {i : Nat} {e : String × Value} :
    i < s.content.size → e ∈ (s.memory.mark i).scope.toList → e.2.Restorable host
  /-- No counter has started again. -/
  visits {i : Nat} : i < s.content.size → (s.memory.mark i).visits < Mark.counterRange

instance (host : Host) (s : Story) : Decidable (s.Restorable host) :=
  decidable_of_iff ((∀ e ∈ s.memory.globals.toList, e.2.Restorable host) ∧
      (∀ i < s.content.size, ∀ e ∈ (s.memory.mark i).scope.toList, e.2.Restorable host) ∧
      ∀ i < s.content.size, (s.memory.mark i).visits < Mark.counterRange)
    ⟨fun h => ⟨fun he => h.1 _ he, fun hi he => h.2.1 _ hi _ he, fun hi => h.2.2 _ hi⟩,
      fun h => ⟨fun _ he => h.globals he, fun _ hi _ he => h.scope hi he, fun _ hi => h.visits hi⟩⟩

/-- Files that were read need not be read again. -/
theorem requireFiles_of_subset {files : List String} {t : Story} (h : files ⊆ t.sources.files) :
    requireFiles host files t = (.ok (), t) := by
  induction files with
  | nil => rfl
  | cons file rest ih =>
    have hfile : t.sources.require host file = (.ok (), t.sources) :=
      Sources.require_of_mem (h List.mem_cons_self)
    rw [requireFiles, Trial.get_bind_apply, hfile]
    exact ih fun f hf => h (List.mem_cons_of_mem _ hf)

/-- Global variables are restored one by one. -/
theorem restoreGlobals_saved {entries : List (String × Value)} {t : Story}
    (h : ∀ e ∈ entries, e.2.Restorable host) :
    restoreGlobals host (entries.map fun (name, v) => (name, .ofValue v)) t =
      (.ok (), { t with memory := { t.memory with
        globals := entries.foldl (fun m e => m.insert e.1 e.2) t.memory.globals } }) := by
  induction entries generalizing t with
  | nil => rfl
  | cons e rest ih =>
    obtain ⟨name, v⟩ := e
    have hv : v.Restorable host := h _ List.mem_cons_self
    rw [List.map_cons, restoreGlobals, SavedValue.toValue_ofValue hv]
    exact ih fun e he => h e (List.mem_cons_of_mem _ he)

/-- The entries of a saved game are those of nodes. -/
theorem savedNode_of_mem {s : Story} {entry : String × SavedNode}
    (h : entry ∈ s.save.content.toList) :
    ∃ i, i < s.content.size ∧ entry = ((s.node i).id, s.savedNode i) := by
  obtain ⟨i, hi, rfl⟩ := List.mem_map.1 (NameMap.mem_of_mem_ofList h)
  exact ⟨i, List.mem_range.1 (List.mem_filter.1 hi).1, rfl⟩

/-- The global variables can be restored from their saved forms. -/
theorem restoredValues_globals {s : Story} (hvalues : s.Restorable host) :
    restoredValues host s.save.globals.toList = .ok s.memory.globals.toList := by
  have hglobals : s.save.globals.toList =
      s.memory.globals.toList.map fun (name, v) => (name, .ofValue v) :=
    NameMap.toList_mapValues _ _
  rw [hglobals]
  exact restoredValues_saved fun e he => hvalues.globals he

/-- The parameters of a node can be restored from their saved forms. -/
theorem restoredValues_params {s : Story} (hvalues : s.Restorable host) {i : NodeId}
    (hi : i < s.content.size) : restoredValues host (s.savedNode i).params.toList =
      .ok (s.memory.mark i).scope.toList := by
  rw [savedNode, NameMap.toList_mapValues]
  exact restoredValues_saved fun e he => hvalues.scope hi he

section Saved

variable {s t : Story} (hs : s.Sound) (hextends : t.content.Extends s.content)

include hs

/-- The mark of a node is restored from its saved form. -/
theorem restoredMark_savedNode (i : NodeId)
    (hvisits : (s.memory.mark i).visits < Mark.counterRange) :
    restoredMark (s.node i) (s.savedNode i) (s.memory.mark i).scope.toList = s.memory.mark i := by
  have hscope : (if (s.node i).isSection then NameMap.ofList (s.memory.mark i).scope.toList
      else .empty) = (s.memory.mark i).scope := by
    split
    · exact NameMap.ofList_toList _
    · next h => exact (hs.memory.scope (Bool.eq_false_iff.2 h)).symm
  have hselection : (if (s.node i).isBlock then (s.savedNode i).selection.getD 0 else 0) =
      (s.memory.mark i).selection := by
    split
    · next h => rw [savedNode, if_pos h, Option.getD_some]
    · next h => exact (hs.memory.selection (Bool.eq_false_iff.2 h)).symm
  have hcount : (s.savedNode i).count = (s.memory.mark i).visits := Mark.count_eq_visits hvisits
  rw [restoredMark, hscope, hselection, hcount]

include hextends

/-- A node is found under its id in a story that has read the same and more. -/
theorem find?_id {i : NodeId} (hi : i < s.content.size) :
    t.content.find? (s.node i).id = some i :=
  hextends.find?_eq_some (hs.content.sound.find?_id hi)

/-- The marks of saved nodes are restored, and those of other nodes are left alone. -/
theorem restoreMarks_saved (hvalues : s.Restorable host) {entries : List (String × SavedNode)}
    (hentries : ∀ e ∈ entries, ∃ i, i < s.content.size ∧ e = ((s.node i).id, s.savedNode i)) :
    ∃ marks, restoreMarks host entries t =
        (.ok (), { t with memory := { t.memory with marks } }) ∧
      ∀ i, marks.get i = if i < s.content.size ∧ (s.node i).id ∈ entries.map (·.1)
        then s.memory.mark i else t.memory.mark i := by
  induction entries generalizing t with
  | nil =>
    refine ⟨t.memory.marks, rfl, fun i => ?_⟩
    simp only [List.map_nil, List.not_mem_nil, and_false, if_false]
    rfl
  | cons e rest ih =>
    obtain ⟨i, hi, rfl⟩ := hentries e List.mem_cons_self
    have hvalue := restoredValues_params hvalues hi
    have hnode : t.node i = s.node i := hextends.node_eq hi
    obtain ⟨marks, hrun, hmarks⟩ :=
      @ih { t with memory := t.memory.modifyMark i fun _ => s.memory.mark i } hextends
        fun e he => hentries e (List.mem_cons_of_mem _ he)
    refine ⟨marks, ?_, ?_⟩
    · rw [restoreMarks, Trial.get_bind_apply, find?_id hs hextends hi]
      dsimp only
      rw [hvalue]
      dsimp only
      rw [hnode, restoredMark_savedNode hs i (hvalues.visits hi), Trial.set_bind_apply]
      exact hrun
    · intro j
      rw [hmarks j, List.map_cons]
      by_cases hij : i = j
      · subst hij
        rw [if_pos (⟨hi, List.mem_cons_self⟩ : i < s.content.size ∧ _), Memory.mark_modifyMark,
          if_pos rfl, ite_self]
      · rw [Memory.mark_modifyMark, if_neg hij]
        refine if_congr (and_congr_right fun hj => ?_) rfl rfl
        have hid : (s.node j).id ≠ (s.node i).id :=
          fun hid => hij (hs.content.sound.distinct hi hj hid.symm)
        simp only [List.mem_cons, hid, false_or]

/-- The marks of a story are restored into a story without marks. -/
theorem restoreMarks_save (hvalues : s.Restorable host) (hmarks : t.memory.marks = {}) :
    restoreMarks host s.save.content.toList t =
      (.ok (), { t with memory := { t.memory with marks := s.memory.marks } }) := by
  obtain ⟨marks, hrun, hget⟩ :=
    restoreMarks_saved hs hextends hvalues fun _ he => savedNode_of_mem he
  have heq : marks = s.memory.marks := by
    refine Marks.ext_get fun i => ?_
    rw [hget i]
    split
    · rfl
    · next hunlisted =>
      have hblank : t.memory.mark i = {} := by
        rw [Memory.mark, hmarks]
        rfl
      rw [hblank]
      change _ = s.memory.mark i
      by_cases hi : i < s.content.size
      · refine (hs.memory.unvisited ?_).symm
        refine Decidable.byContradiction fun hcount => hunlisted ⟨hi, ?_⟩
        refine NameMap.mem_names_ofList (List.mem_map.2 ⟨((s.node i).id, s.savedNode i), ?_, rfl⟩)
        refine List.mem_map.2 ⟨i, List.mem_filter.2 ⟨List.mem_range.2 hi, ?_⟩, rfl⟩
        rwa [bne_iff_ne, Mark.count_eq_visits (hvalues.visits hi)]
      · exact (hs.memory.outside (Nat.le_of_not_lt hi)).symm
  rw [hrun, heq]

/-- The cursor is restored. -/
theorem restoreCursor_save : restoreCursor s.save.container s.save.index t =
    (.ok (), { t with container := s.container, index := s.index }) := by
  cases hcontainer : s.container with
  | none =>
    have hsaved : s.save.container = none := congrArg (Option.map _) hcontainer
    rw [hsaved]
    rfl
  | some c =>
    have hsaved : s.save.container = some (s.node c).id := congrArg (Option.map _) hcontainer
    rw [hsaved, restoreCursor, Trial.get_bind_apply]
    dsimp only
    rw [find?_id hs hextends (hs.container hcontainer)]
    rfl

/-- Pending choices are restored behind those that are pending already. -/
theorem restoreChoices_ids {is : List NodeId} (his : ∀ i ∈ is, (s.node i).isChoice = true) :
    restoreChoices (s.ids is) t = (.ok (), { t with choices := t.choices ++ is }) := by
  induction is generalizing t with
  | nil =>
    rw [List.append_nil]
    rfl
  | cons i rest ih =>
    have hchoice := his i List.mem_cons_self
    have hi := Content.lt_size (p := Node.isChoice) rfl hchoice
    have hnode : (t.node i).isChoice = true := by
      rw [node, hextends.node_eq hi]
      exact hchoice
    rw [ids, List.map_cons, restoreChoices, Trial.get_bind_apply, find?_id hs hextends hi]
    dsimp only
    rw [if_pos hnode, Trial.set_bind_apply]
    refine (@ih { t with choices := t.choices ++ [i] } hextends
      fun j hj => his j (List.mem_cons_of_mem _ hj)).trans ?_
    rw [List.append_assoc]
    rfl

/-- Nodes are found under their ids. -/
theorem filterMap_find?_ids {is : List NodeId} (his : ∀ i ∈ is, i < s.content.size) :
    (s.ids is).filterMap t.content.find? = is := by
  induction is with
  | nil => rfl
  | cons i rest ih =>
    rw [ids, List.map_cons, List.filterMap_cons,
      find?_id hs hextends (his i List.mem_cons_self)]
    exact congrArg (i :: ·) (ih fun j hj => his j (List.mem_cons_of_mem _ hj))

/-- A saved story that is restored into a story that has read the same and more is the saved story
again, except for the dice, and with the sources and interrupts of the other. -/
theorem restore_save_extended (hfiles : s.sources.files ⊆ t.sources.files)
    (hvalues : s.Restorable host) :
    restore host s.save t = (.ok (), { s with
      sources := t.sources
      interrupts := t.interrupts
      memory := { s.memory with dice := t.memory.dice } }) := by
  have hglobals : s.save.globals.toList =
      s.memory.globals.toList.map fun (name, v) => (name, .ofValue v) :=
    NameMap.toList_mapValues _ _
  change restoring host s.save t = _
  have hread : requireFiles host s.save.files t = (.ok (), t) := requireFiles_of_subset hfiles
  rw [restoring, Trial.bind_of_ok hread, Trial.modify_bind_apply]
  refine (Trial.bind_of_ok (restoreMarks_save hs ?_ hvalues ?_)).trans ?_
  · exact hextends
  · rfl
  refine (Trial.bind_of_ok (restoreCursor_save hs ?_)).trans ?_
  · exact hextends
  rw [Trial.modify_bind_apply]
  refine (Trial.bind_of_ok (restoreChoices_ids hs ?_ fun i hi => hs.choices hi)).trans ?_
  · exact hextends
  rw [Trial.modify_bind_apply, hglobals]
  refine (Trial.bind_of_ok (restoreGlobals_saved fun e he => hvalues.globals he)).trans ?_
  have hcomments : (s.ids s.comments).filterMap t.content.find? = s.comments :=
    filterMap_find?_ids hs hextends fun i hi => hs.comments hi
  have hglobals' : s.memory.globals.toList.foldl (fun m e => m.insert e.1 e.2) .empty =
      s.memory.globals := NameMap.ofList_toList _
  have hwhole : ({ s with
      sources := t.sources
      interrupts := t.interrupts
      comments := (s.ids s.comments).filterMap t.content.find?
      memory :=
        { globals := s.memory.globals.toList.foldl (fun m e => m.insert e.1 e.2) .empty
          marks := s.memory.marks
          dice := t.memory.dice } } : Story) =
      { s with
        sources := t.sources
        interrupts := t.interrupts
        memory := { s.memory with dice := t.memory.dice } } := by
    rw [hcomments, hglobals']
  exact congrArg (Prod.mk (Except.ok ())) hwhole

omit hextends

/-- A saved story that is restored into a story of the same sources is the saved story again, except
for the dice. -/
theorem restore_save (hsources : t.sources = s.sources) (hvalues : s.Restorable host)
    (hinterrupts : t.interrupts = s.interrupts) :
    restore host s.save t =
      (.ok (), { s with memory := { s.memory with dice := t.memory.dice } }) := by
  have hextends : t.content.Extends s.content := by
    rw [content, hsources]
    exact .refl _
  rw [restore_save_extended hs hextends (by rw [hsources]; exact List.Subset.refl _) hvalues,
    hsources, hinterrupts]

end Saved

end Story

end Narrative
