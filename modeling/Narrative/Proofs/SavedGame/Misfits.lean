import Narrative.Proofs.SavedGame.Restoring
import Narrative.Proofs.Story.Refusals

/-!
# Saved games that do not fit

Restoring replaces the parts of a story one after another and stops at the first thing that does not
fit: a source, an object in a parameter, the container, a pending choice, or an object in a global
variable. The parts that were replaced before stay replaced. Nothing is lost by that: the story from
before can be restored from what would have been saved of it.
-/

namespace Narrative

open Sources

/-- Some of the values is an object that the host does not have. -/
def SavedValue.Lacking (host : Host) (values : List (String × SavedValue)) (e : StoryError) : Prop :=
  ∃ name key, (name, .object key) ∈ values ∧ host.hasObject key = false ∧ e = .unknownObject key

namespace SavedValue

variable {host : Host}

/-- Only an object that the host does not have is no value. -/
theorem eq_object_of_toValue {v : SavedValue} {e : StoryError} (h : v.toValue host = .error e) :
    ∃ key, v = .object key ∧ host.hasObject key = false ∧ e = .unknownObject key := by
  cases v with
  | object key =>
    rw [toValue] at h
    split at h
    · cases h
    · next hunknown =>
      cases h
      exact ⟨key, rfl, Bool.eq_false_iff.2 hunknown, rfl⟩
  | _ => cases h

/-- A value in front lets the lacking object be. -/
theorem Lacking.cons {values : List (String × SavedValue)} {e : StoryError}
    (h : Lacking host values e) (first : String × SavedValue) : Lacking host (first :: values) e := by
  obtain ⟨name, key, hmem, hunknown⟩ := h
  exact ⟨name, key, List.mem_cons_of_mem _ hmem, hunknown⟩

end SavedValue

open SavedValue

namespace Story

variable {host : Host} {s t : Story} {e : StoryError}

/-- Of values that were restored none is lacking. -/
theorem not_lacking_of_restoredValues {values : List (String × SavedValue)}
    {scope : List (String × Value)} (h : restoredValues host values = .ok scope) :
    ¬Lacking host values e := by
  induction values generalizing scope with
  | nil =>
    rintro ⟨_, _, hmem, _⟩
    cases hmem
  | cons first rest ih =>
    obtain ⟨name, v⟩ := first
    rw [restoredValues] at h
    cases hv : v.toValue host with
    | error e' =>
      rw [hv] at h
      cases h
    | ok value =>
      cases hrest : restoredValues host rest with
      | error e' =>
        rw [hv, hrest] at h
        cases h
      | ok scope =>
        rintro ⟨name', key, hmem, hunknown, he⟩
        rcases List.mem_cons.1 hmem with heq | hmem
        · cases heq
          rw [toValue, hunknown] at hv
          cases hv
        · exact ih hrest ⟨name', key, hmem, hunknown, he⟩

/-- Values that cannot be restored lack an object. -/
theorem lacking_of_restoredValues {values : List (String × SavedValue)}
    (h : restoredValues host values = .error e) : Lacking host values e := by
  induction values with
  | nil => cases h
  | cons first rest ih =>
    obtain ⟨name, v⟩ := first
    rw [restoredValues] at h
    cases hv : v.toValue host with
    | error e' =>
      rw [hv] at h
      cases h
      obtain ⟨key, rfl, hunknown, rfl⟩ := eq_object_of_toValue hv
      exact ⟨name, key, List.mem_cons_self, hunknown, rfl⟩
    | ok value =>
      cases hrest : restoredValues host rest with
      | error e' =>
        rw [hv, hrest] at h
        cases h
        exact (ih hrest).cons _
      | ok values =>
        rw [hv, hrest] at h
        cases h

/-! ## The steps of restoring -/

/-- What holds after a step that has succeeded, and what after one that has failed. -/
def Outcome (success : Prop) (failure : StoryError → Prop) : Except StoryError Unit → Prop
  | .ok _ => success
  | .error e => failure e

/-- The files are listed, after some of them and of those that they include were read. -/
def Supplied (host : Host) (files : List String) (s t : Sources) : Prop :=
  ∃ read, Reads host s read t ∧ files ⊆ t.files

/-- Files that are required one after another are read, or loading stops at or behind one of them. -/
theorem requireFiles_cases {files : List String} {r : Except StoryError Unit}
    (h : requireFiles host files s = (r, t)) :
    t = { s with sources := t.sources } ∧
      Outcome (Supplied host files s.sources t.sources)
        (fun e => ∃ read bad file, Stops host s.sources read bad e t.sources ∧
          file ∈ files ∧ file ∈ read ++ [bad]) r := by
  induction files generalizing s with
  | nil =>
    cases h
    exact ⟨rfl, [], .nil _, List.nil_subset _⟩
  | cons file rest ih =>
    rw [requireFiles, Trial.get_bind_apply] at h
    cases hrequire : s.sources.require host file with
    | mk loaded sources =>
      simp only [hrequire, Trial.set_bind_apply] at h
      cases loaded with
      | error e =>
        cases h
        obtain ⟨-, read, bad, hstops, hhead⟩ := stops_of_require hrequire
        exact ⟨rfl, read, bad, file, hstops, List.mem_cons_self, List.mem_of_head? hhead⟩
      | ok _ =>
        obtain ⟨read, hreads, hmem⟩ := reads_of_require hrequire
        obtain ⟨heq, hend⟩ := ih h
        refine ⟨heq, ?_⟩
        cases r with
        | ok _ =>
          obtain ⟨more, hmore, hrest⟩ := hend
          refine ⟨read ++ more, hreads.trans hmore, List.cons_subset.2 ⟨?_, hrest⟩⟩
          rw [hmore.files_eq]
          exact List.mem_append_left _ hmem
        | error e =>
          obtain ⟨more, bad, required, hstops, hrequired, hopened⟩ := hend
          refine ⟨read ++ more, bad, required, hstops.after hreads,
            List.mem_cons_of_mem _ hrequired, ?_⟩
          rw [List.append_assoc]
          exact List.mem_append_right _ hopened

/-- The mark of a node after the marks of saved nodes were restored one after another. -/
inductive Remarked (host : Host) (c : Content) (entries : List (String × SavedNode)) (i : NodeId)
    (before : Mark) : Mark → Prop
  /-- It is the mark of a saved node. -/
  | saved {id : String} {saved : SavedNode} {scope : List (String × Value)} :
      (id, saved) ∈ entries → c.find? id = some i →
      restoredValues host saved.params.toList = .ok scope →
      Remarked host c entries i before (restoredMark (c.node i) saved scope)
  /-- The node was not saved, and its mark is the one from before. -/
  | unsaved : (∀ entry ∈ entries, c.find? entry.1 ≠ some i) → Remarked host c entries i before before

/-- Where no entry was restored the mark is the one from before. -/
theorem remarked_nil {c : Content} {i : NodeId} (before : Mark) :
    Remarked host c [] i before before :=
  .unsaved (List.forall_mem_nil _)

/-- An entry of which another node was restored. -/
theorem Remarked.cons {c : Content} {entries : List (String × SavedNode)} {i : NodeId}
    {before m : Mark} {first : String × SavedNode} (h : Remarked host c entries i before m)
    (hfirst : c.find? first.1 ≠ some i) : Remarked host c (first :: entries) i before m := by
  cases h with
  | saved hmem hfind hscope => exact .saved (List.mem_cons_of_mem _ hmem) hfind hscope
  | unsaved hnone => exact .unsaved (List.forall_mem_cons.2 ⟨hfirst, hnone⟩)

/-- An entry of which the node itself was restored. -/
theorem Remarked.first {c : Content} {entries : List (String × SavedNode)} {i : NodeId}
    {before m : Mark} {id : String} {node : SavedNode} {scope : List (String × Value)}
    (hfind : c.find? id = some i) (hscope : restoredValues host node.params.toList = .ok scope)
    (h : Remarked host c entries i (restoredMark (c.node i) node scope) m) :
    Remarked host c ((id, node) :: entries) i before m := by
  cases h with
  | saved hmem hfind' hscope' => exact .saved (List.mem_cons_of_mem _ hmem) hfind' hscope'
  | unsaved _ => exact .saved List.mem_cons_self hfind hscope

/-- Marks are restored one after another until an object is unknown. -/
theorem restoreMarks_cases {entries : List (String × SavedNode)} {r : Except StoryError Unit}
    (h : restoreMarks host entries s = (r, t)) :
    ∃ done rest marks, entries = done ++ rest ∧
      t = { s with memory := { s.memory with marks } } ∧
      (∀ i, Remarked host s.content done i (s.memory.mark i) (marks.get i)) ∧
      (∀ entry ∈ done, (s.content.find? entry.1).isSome = true →
        ∃ scope, restoredValues host entry.2.params.toList = .ok scope) ∧
      Outcome (rest = []) (fun e => ∃ id saved after i, rest = (id, saved) :: after ∧
        s.content.find? id = some i ∧ Lacking host saved.params.toList e) r := by
  induction entries generalizing s with
  | nil =>
    cases h
    exact ⟨[], [], t.memory.marks, rfl, rfl, fun _ => remarked_nil _, List.forall_mem_nil _, rfl⟩
  | cons first entries ih =>
    obtain ⟨id, saved⟩ := first
    rw [restoreMarks, Trial.get_bind_apply] at h
    cases hfind : s.content.find? id with
    | none =>
      simp only [hfind] at h
      obtain ⟨done, rest, marks, rfl, heq, hmarks, hdone, hend⟩ := ih h
      refine ⟨(id, saved) :: done, rest, marks, rfl, heq, fun i => (hmarks i).cons ?_,
        List.forall_mem_cons.2 ⟨fun hknown => ?_, hdone⟩, hend⟩
      · rw [hfind]
        exact (Option.some_ne_none i).symm
      · rw [hfind] at hknown
        cases hknown
    | some j =>
      simp only [hfind] at h
      cases hscope : restoredValues host saved.params.toList with
      | error e =>
        simp only [hscope] at h
        cases h
        exact ⟨[], _, t.memory.marks, rfl, rfl, fun _ => remarked_nil _, List.forall_mem_nil _,
          id, saved, entries, j, rfl, hfind, lacking_of_restoredValues hscope⟩
      | ok scope =>
        simp only [hscope, Trial.set_bind_apply] at h
        obtain ⟨done, rest, marks, rfl, heq, hmarks, hdone, hend⟩ := ih h
        refine ⟨(id, saved) :: done, rest, marks, rfl, heq, fun i => ?_,
          List.forall_mem_cons.2 ⟨fun _ => ⟨scope, hscope⟩, hdone⟩, hend⟩
        have hi : Remarked host s.content done i _ _ := hmarks i
        rw [Memory.mark_modifyMark] at hi
        by_cases hij : j = i
        · subst hij
          rw [if_pos rfl] at hi
          exact hi.first hfind hscope
        · rw [if_neg hij] at hi
          refine hi.cons ?_
          rw [hfind]
          exact fun hsame => hij (Option.some.inj hsame)

/-- The cursor is restored unless its container is unknown. -/
theorem restoreCursor_cases {container : Option String} {index : Nat} {r : Except StoryError Unit}
    (h : restoreCursor container index s = (r, t)) :
    Outcome (t = { s with container := container.bind s.content.find?, index } ∧
        ∀ id, container = some id → (s.content.find? id).isSome = true)
      (fun e => t = s ∧
        ∃ id, container = some id ∧ s.content.find? id = none ∧ e = .unknownContainer id) r := by
  rw [restoreCursor, Trial.get_bind_apply] at h
  cases container with
  | none =>
    cases h
    refine ⟨rfl, ?_⟩
    rintro _ ⟨⟩
  | some id =>
    cases hfind : s.content.find? id with
    | none =>
      simp only [hfind] at h
      cases h
      exact ⟨rfl, id, rfl, hfind, rfl⟩
    | some c =>
      simp only [hfind] at h
      cases h
      refine ⟨?_, ?_⟩
      · rw [Option.bind_some, hfind]
      · rintro _ ⟨⟩
        rw [hfind]
        rfl

/-- Why an id cannot be that of a pending choice. -/
def Unoffered (c : Content) (id : String) (e : StoryError) : Prop :=
  c.find? id = none ∧ e = .unknownContainer id ∨
    ∃ i, c.find? id = some i ∧ (c.node i).isChoice = false ∧ e = .notAChoice id

/-- Where no pending choice was restored they are the ones from before. -/
theorem choices_nil (s : Story) :
    s = { s with choices := s.choices ++ [].filterMap s.content.find? } := by
  rw [List.filterMap_nil, List.append_nil]

/-- Pending choices are restored one after another until one is not a choice. -/
theorem restoreChoices_cases {ids : List String} {r : Except StoryError Unit}
    (h : restoreChoices ids s = (r, t)) :
    ∃ done rest, ids = done ++ rest ∧
      t = { s with choices := s.choices ++ done.filterMap s.content.find? } ∧
      (∀ id ∈ done, ∃ i, s.content.find? id = some i ∧ (s.node i).isChoice = true) ∧
      Outcome (rest = [])
        (fun e => ∃ id after, rest = id :: after ∧ Unoffered s.content id e) r := by
  induction ids generalizing s with
  | nil =>
    cases h
    exact ⟨[], [], rfl, choices_nil t, List.forall_mem_nil _, rfl⟩
  | cons id ids ih =>
    rw [restoreChoices, Trial.get_bind_apply] at h
    cases hfind : s.content.find? id with
    | none =>
      simp only [hfind] at h
      cases h
      exact ⟨[], _, rfl, choices_nil t, List.forall_mem_nil _, id, ids, rfl, .inl ⟨hfind, rfl⟩⟩
    | some i =>
      simp only [hfind] at h
      split at h
      · next hchoice =>
        rw [Trial.set_bind_apply] at h
        obtain ⟨done, rest, rfl, heq, hdone, hend⟩ := ih h
        refine ⟨id :: done, rest, rfl, ?_, List.forall_mem_cons.2 ⟨⟨i, hfind, hchoice⟩, hdone⟩, hend⟩
        rw [List.filterMap_cons, hfind, heq, List.append_assoc]
        rfl
      · next hother =>
        cases h
        exact ⟨[], _, rfl, choices_nil t, List.forall_mem_nil _, id, ids, rfl,
          .inr ⟨i, hfind, Bool.eq_false_iff.2 hother, rfl⟩⟩

/-- Global variables are restored one after another until an object is unknown. -/
theorem restoreGlobals_cases {entries : List (String × SavedValue)} {r : Except StoryError Unit}
    (h : restoreGlobals host entries s = (r, t)) :
    ∃ done rest values, entries = done ++ rest ∧ restoredValues host done = .ok values ∧
      t = { s with memory := { s.memory with
        globals := values.foldl (fun m e => m.insert e.1 e.2) s.memory.globals } } ∧
      Outcome (rest = []) (fun e => ∃ name key after, rest = (name, .object key) :: after ∧
        host.hasObject key = false ∧ e = .unknownObject key) r := by
  induction entries generalizing s with
  | nil =>
    cases h
    exact ⟨[], [], [], rfl, rfl, rfl, rfl⟩
  | cons first entries ih =>
    obtain ⟨name, v⟩ := first
    rw [restoreGlobals] at h
    cases hv : v.toValue host with
    | error e =>
      simp only [hv] at h
      cases h
      obtain ⟨key, rfl, hunknown, rfl⟩ := eq_object_of_toValue hv
      exact ⟨[], _, [], rfl, rfl, rfl, name, key, entries, rfl, hunknown, rfl⟩
    | ok value =>
      simp only [hv, Trial.modify_bind_apply] at h
      obtain ⟨done, rest, values, rfl, hvalues, heq, hend⟩ := ih h
      refine ⟨(name, v) :: done, rest, (name, value) :: values, rfl, ?_, heq, hend⟩
      rw [restoredValues, hv, hvalues]
      rfl

/-! ## Whole saved games -/

/-- How restoring stops at something that does not fit the story `s`, in which the saved files were
read, and the story that it leaves. -/
inductive Misfit (host : Host) (g : SavedGame) (s : Story) : StoryError → Story → Prop
  /-- A parameter held an object that is unknown. The marks were cleared, and those of the nodes in
  front of it were restored. -/
  | parameter {done rest : List (String × SavedNode)} {id : String} {saved : SavedNode} {i : NodeId}
      {e : StoryError} {marks : Marks} :
      g.content.toList = done ++ (id, saved) :: rest → s.content.find? id = some i →
      Lacking host saved.params.toList e →
      (∀ j, Remarked host s.content done j {} (marks.get j)) →
      Misfit host g s e { s with memory := { s.memory with marks } }
  /-- The container is unknown. All marks were restored. -/
  | container {id : String} {marks : Marks} :
      g.container = some id → s.content.find? id = none →
      (∀ j, Remarked host s.content g.content.toList j {} (marks.get j)) →
      Misfit host g s (.unknownContainer id) { s with memory := { s.memory with marks } }
  /-- A pending choice is unknown or no choice. The cursor and the transcript were restored, and the
  pending choices gave way to those in front of it. -/
  | choice {done rest : List String} {id : String} {e : StoryError} {marks : Marks} :
      g.choices = done ++ id :: rest →
      (∀ id ∈ done, ∃ i, s.content.find? id = some i ∧ (s.node i).isChoice = true) →
      Unoffered s.content id e →
      (∀ j, Remarked host s.content g.content.toList j {} (marks.get j)) →
      Misfit host g s e { s with
        container := g.container.bind s.content.find?
        index := g.index
        transcript := g.text
        choices := done.filterMap s.content.find?
        memory := { s.memory with marks } }
  /-- A global variable held an object that is unknown. Choices, comments and background were
  restored, and the global variables gave way to those in front of it. -/
  | global {done rest : List (String × SavedValue)} {name key : String}
      {values : List (String × Value)} {marks : Marks} :
      g.globals.toList = done ++ (name, .object key) :: rest →
      restoredValues host done = .ok values → host.hasObject key = false →
      (∀ j, Remarked host s.content g.content.toList j {} (marks.get j)) →
      Misfit host g s (.unknownObject key) { s with
        container := g.container.bind s.content.find?
        index := g.index
        transcript := g.text
        choices := g.choices.filterMap s.content.find?
        comments := g.comments.filterMap s.content.find?
        background := g.image
        memory := { s.memory with globals := .ofList values, marks } }

/-- How restoring fails, and the story that it leaves. -/
inductive Torn (host : Host) (g : SavedGame) (s : Story) : StoryError → Story → Prop
  /-- A source cannot be read. Only sources were added. -/
  | source {read : List String} {bad file : String} {e : StoryError} {sources : Sources} :
      Stops host s.sources read bad e sources → file ∈ g.files → file ∈ read ++ [bad] →
      Torn host g s e { s with sources }
  /-- The files were read, and something else does not fit. -/
  | misfit {sources : Sources} {e : StoryError} {t : Story} :
      Supplied host g.files s.sources sources → Misfit host g { s with sources } e t →
      Torn host g s e t

/-- Once the saved files were read, restoring fails at a misfit only. -/
theorem misfit_of_restore {g : SavedGame} {x : Story}
    (hfiles : requireFiles host g.files s = (.ok (), x))
    (h : restore host g s = (.error e, t)) : Misfit host g x e t := by
  change restoring host g s = _ at h
  rw [restoring, Trial.bind_of_ok hfiles, Trial.modify_bind_apply] at h
  obtain hmarks | ⟨_, s₂, hmarks, h⟩ := Trial.bind_eq_error.1 h
  · obtain ⟨done, rest, marks, hentries, rfl, hremarked, -, hstop⟩ := restoreMarks_cases hmarks
    obtain ⟨id, saved, after, i, rfl, hfind, hlacking⟩ := hstop
    exact .parameter hentries hfind hlacking hremarked
  obtain ⟨done, rest, marks, hentries, rfl, hremarked, -, rfl⟩ := restoreMarks_cases hmarks
  rw [List.append_nil] at hentries
  subst hentries
  obtain hcursor | ⟨_, s₃, hcursor, h⟩ := Trial.bind_eq_error.1 h
  · obtain ⟨rfl, id, hid, hfind, rfl⟩ := restoreCursor_cases hcursor
    exact .container hid hfind hremarked
  obtain ⟨rfl, -⟩ := restoreCursor_cases hcursor
  rw [Trial.modify_bind_apply] at h
  obtain hchoices | ⟨_, s₄, hchoices, h⟩ := Trial.bind_eq_error.1 h
  · obtain ⟨done, rest, hids, rfl, hdone, hstop⟩ := restoreChoices_cases hchoices
    obtain ⟨id, after, rfl, hunoffered⟩ := hstop
    exact .choice hids hdone hunoffered hremarked
  obtain ⟨done, rest, hids, rfl, -, rfl⟩ := restoreChoices_cases hchoices
  rw [List.append_nil] at hids
  subst hids
  rw [Trial.modify_bind_apply] at h
  dsimp only [content, List.nil_append] at h
  obtain hglobals | ⟨_, s₅, hglobals, h⟩ := Trial.bind_eq_error.1 h
  · obtain ⟨done', rest, values, hentries', hvalues, rfl, hstop⟩ := restoreGlobals_cases hglobals
    obtain ⟨name, key, after, rfl, hunknown, rfl⟩ := hstop
    exact .global hentries' hvalues hunknown hremarked
  · have hok : (Except.ok () : Except StoryError Unit) = .error e := congrArg Prod.fst h
    cases hok

/-- Restoring fails in one of these ways. -/
theorem torn_of_restore {g : SavedGame} (h : restore host g s = (.error e, t)) :
    Torn host g s e t := by
  cases hfiles : requireFiles host g.files s with
  | mk r x =>
    obtain ⟨heq, hend⟩ := requireFiles_cases hfiles
    cases r with
    | error e' =>
      change restoring host g s = _ at h
      rw [restoring, Trial.bind_apply, hfiles] at h
      cases h
      obtain ⟨read, bad, file, hstops, hfile, hopened⟩ := hend
      rw [heq]
      exact .source hstops hfile hopened
    | ok _ =>
      have hmisfit := misfit_of_restore hfiles h
      rw [heq] at hmisfit
      exact .misfit hend hmisfit

/-- Whether a saved game fits content in which its files were read. -/
structure Fits (host : Host) (c : Content) (g : SavedGame) : Prop where
  /-- The objects in the parameters of known nodes are known. -/
  params {id : String} {saved : SavedNode} {e : StoryError} : (id, saved) ∈ g.content.toList →
    (c.find? id).isSome = true → ¬Lacking host saved.params.toList e
  /-- The container is known. -/
  container {id : String} : g.container = some id → (c.find? id).isSome = true
  /-- The pending choices are known, and choices. -/
  choices {id : String} : id ∈ g.choices → ∃ i, c.find? id = some i ∧ (c.node i).isChoice = true
  /-- The objects in the global variables are known. -/
  globals {e : StoryError} : ¬Lacking host g.globals.toList e

/-- A saved game that was restored fits. -/
theorem fits_of_restore {g : SavedGame} (h : restore host g s = (.ok (), t)) :
    ∃ x, requireFiles host g.files s = (.ok (), x) ∧ Fits host x.content g := by
  change restoring host g s = _ at h
  rw [restoring] at h
  obtain ⟨_, x, hfiles, h⟩ := Trial.bind_eq_ok.1 h
  rw [Trial.modify_bind_apply] at h
  obtain ⟨_, s₂, hmarks, h⟩ := Trial.bind_eq_ok.1 h
  obtain ⟨done, rest, marks, hentries, rfl, -, hscopes, rfl⟩ := restoreMarks_cases hmarks
  rw [List.append_nil] at hentries
  obtain ⟨_, s₃, hcursor, h⟩ := Trial.bind_eq_ok.1 h
  obtain ⟨rfl, hcontainer⟩ := restoreCursor_cases hcursor
  rw [Trial.modify_bind_apply] at h
  obtain ⟨_, s₄, hchoices, h⟩ := Trial.bind_eq_ok.1 h
  obtain ⟨ids, rest, hids, rfl, hpending, rfl⟩ := restoreChoices_cases hchoices
  rw [List.append_nil] at hids
  rw [Trial.modify_bind_apply] at h
  obtain ⟨_, s₅, hglobals, -⟩ := Trial.bind_eq_ok.1 h
  obtain ⟨saved, rest, values, hsaved, hvalues, -, rfl⟩ := restoreGlobals_cases hglobals
  rw [List.append_nil] at hsaved
  refine ⟨x, hfiles, fun {id saved e} hmem hknown => ?_, fun {id} hid => hcontainer id hid,
    fun {id} hid => hpending id (hids ▸ hid), fun {e} => ?_⟩
  · obtain ⟨scope, hscope⟩ := hscopes (id, saved) (hentries ▸ hmem) hknown
    exact not_lacking_of_restoredValues hscope
  · rw [hsaved]
    exact not_lacking_of_restoredValues hvalues

/-- A saved game that fits is restored. -/
theorem restore_of_fits {g : SavedGame} {x : Story}
    (hfiles : requireFiles host g.files s = (.ok (), x)) (hfits : Fits host x.content g) :
    ∃ u, restore host g s = (.ok (), u) := by
  cases hrestore : restore host g s with
  | mk r u =>
    cases r with
    | ok _ => exact ⟨u, rfl⟩
    | error e =>
      exfalso
      cases misfit_of_restore hfiles hrestore with
      | @parameter _ _ id saved _ _ _ hentries hfind hlacking =>
        have hmem : (id, saved) ∈ g.content.toList := by
          rw [hentries]
          exact List.mem_append_right _ List.mem_cons_self
        exact hfits.params hmem (by rw [hfind]; rfl) hlacking
      | container hid hfind =>
        have hknown := hfits.container hid
        rw [hfind] at hknown
        cases hknown
      | @choice done rest id _ _ hids _ hunoffered =>
        have hmem : id ∈ g.choices := by
          rw [hids]
          exact List.mem_append_right _ List.mem_cons_self
        obtain ⟨i, hfind, hchoice⟩ := hfits.choices hmem
        obtain ⟨hnone, -⟩ | ⟨j, hfind', hother, -⟩ := hunoffered
        · rw [hfind] at hnone
          cases hnone
        · rw [hfind] at hfind'
          cases hfind'
          rw [hchoice] at hother
          cases hother
      | @global _ _ name key _ _ hentries _ hunknown =>
        refine hfits.globals ⟨name, key, ?_, hunknown, rfl⟩
        rw [hentries]
        exact List.mem_append_right _ List.mem_cons_self

/-- A saved game is restored if and only if its files can be read and it fits what is there then. -/
theorem restores_iff {g : SavedGame} : (∃ u, restore host g s = (.ok (), u)) ↔
    ∃ x, requireFiles host g.files s = (.ok (), x) ∧ Fits host x.content g :=
  ⟨fun ⟨_, h⟩ => fits_of_restore h, fun ⟨_, hfiles, hfits⟩ => restore_of_fits hfiles hfits⟩

namespace Torn

variable {g : SavedGame}

/-- Whatever does not fit, files were read to their end and listed, and what was there stays. -/
theorem widened (h : Torn host g s e t) (hs : s.content.Grown) :
    t.content.Extends s.content ∧ ∃ read, t.sources.files = s.sources.files ++ read := by
  cases h with
  | source hstops => exact ⟨(hstops.grown hs).2, _, hstops.files_eq⟩
  | @misfit sources _ _ hsupplied hmisfit =>
    obtain ⟨read, hreads, -⟩ := hsupplied
    have hwidened : sources.content.Extends s.content ∧
        ∃ read, sources.files = s.sources.files ++ read :=
      ⟨(hreads.grown hs).2, read, hreads.files_eq⟩
    cases hmisfit with
    | parameter | container | choice | global => exact hwidened

/-- Interrupts, flags and dice are as before. -/
theorem unchanged (h : Torn host g s e t) :
    t.interrupts = s.interrupts ∧ t.running = s.running ∧ t.processing = s.processing ∧
      t.memory.dice = s.memory.dice := by
  cases h with
  | source => exact ⟨rfl, rfl, rfl, rfl⟩
  | misfit _ hmisfit =>
    cases hmisfit with
    | parameter | container | choice | global => exact ⟨rfl, rfl, rfl, rfl⟩

/-- What would have been saved of the story from before fits the story that is left. -/
theorem mended (h : Torn host g s e t) (hs : s.Sound) (hvalues : s.Restorable host) :
    restore host s.save t = (.ok (), { s with sources := t.sources }) := by
  obtain ⟨hextends, read, hfiles⟩ := h.widened hs.content
  obtain ⟨hinterrupts, -, -, hdice⟩ := h.unchanged
  have hsubset : s.sources.files ⊆ t.sources.files := by
    rw [hfiles]
    exact List.subset_append_left _ _
  rw [restore_save_extended hs hextends hsubset hvalues, hinterrupts, hdice]

end Torn

/-- A saved game that does not fit leaves the story torn at the first thing that does not fit: what
comes before it is replaced, and what comes behind it is as before. Nodes and files are never lost,
interrupts, flags and dice are never touched, and what would have been saved before restores the
story from before, beside the sources that were read. -/
theorem restore_error_mendable {origin : Host} {main : String} {permitted : Action → Prop}
    {g : SavedGame} (hs : Reachable origin main permitted s)
    (h : restore host g s = (.error e, t)) :
    Torn host g s e t ∧ t.content.Extends s.content ∧
      (∃ read, t.sources.files = s.sources.files ++ read) ∧
      (t.interrupts = s.interrupts ∧ t.running = s.running ∧ t.processing = s.processing ∧
        t.memory.dice = s.memory.dice) ∧
      (s.Restorable host → restore host s.save t = (.ok (), { s with sources := t.sources })) := by
  have htorn := torn_of_restore h
  obtain ⟨hextends, hfiles⟩ := htorn.widened hs.sound.content
  exact ⟨htorn, hextends, hfiles, htorn.unchanged, htorn.mended hs.sound⟩

/-- A saved game with a text among its pending choices is refused, and what was saved before mends
the story. -/
theorem restore_error_mendable_shed : ∃ (s t : Story) (e : StoryError),
    played? shedWorld "main" 0 [.advance] = some s ∧ s.Restorable shedWorld.host ∧
    restore shedWorld.host { s.save with choices := ["start.0"] } s = (.error e, t) ∧ t ≠ s ∧
    Torn shedWorld.host { s.save with choices := ["start.0"] } s e t ∧
    t.content.Extends s.content ∧ (∃ read, t.sources.files = s.sources.files ++ read) ∧
    (t.interrupts = s.interrupts ∧ t.running = s.running ∧ t.processing = s.processing ∧
      t.memory.dice = s.memory.dice) ∧
    (s.Restorable shedWorld.host →
      restore shedWorld.host s.save t = (.ok (), { s with sources := t.sources })) := by
  have hplayed : (played? shedWorld "main" 0 [.advance]).any (fun s =>
      s.Restorable shedWorld.host ∧
      (restore shedWorld.host { s.save with choices := ["start.0"] } s).1 =
        .error (.notAChoice "start.0") ∧
      (restore shedWorld.host { s.save with choices := ["start.0"] } s).2 ≠ s) = true := by
    decide +kernel
  obtain ⟨s, hs, hplayed⟩ := (Option.any_eq_true _ _).1 hplayed
  obtain ⟨hvalues, herror, hchanged⟩ := of_decide_eq_true hplayed
  have hrestore : restore shedWorld.host { s.save with choices := ["start.0"] } s =
    (.error _, _) := Prod.ext herror rfl
  have hreachable : Reachable shedWorld.host "main" (fun _ => True) s :=
    reachable_of_played? (fun _ _ => trivial) hs
  exact ⟨s, _, _, hs, hvalues, hrestore, hchanged, restore_error_mendable hreachable hrestore⟩

/-- The pending choices are lost when one of the saved ones is a text, and a node stays when one of
the saved files has a fault. -/
theorem restore_error_leaves_torn : ∃ s t u : Story,
    played? shedWorld "main" 0 [.advance] = some s ∧ s.ids s.choices = ["start.1"] ∧
    s.content.find? "shed" = none ∧
    restore shedWorld.host { s.save with choices := ["start.0"] } s =
      (.error (.notAChoice "start.0"), t) ∧ t.choices = [] ∧
    restore shedWorld.host { s.save with files := ["main", "shed"] } s =
      (.error (.parse ⟨"shed", 3, .duplicateId "start"⟩), u) ∧
    (u.content.find? "shed").isSome = true := by
  have hplayed : (played? shedWorld "main" 0 [.advance]).any (fun s =>
      s.ids s.choices = ["start.1"] ∧ s.content.find? "shed" = none ∧
      (restore shedWorld.host { s.save with choices := ["start.0"] } s).1 =
        .error (.notAChoice "start.0") ∧
      (restore shedWorld.host { s.save with choices := ["start.0"] } s).2.choices = [] ∧
      (restore shedWorld.host { s.save with files := ["main", "shed"] } s).1 =
        .error (.parse ⟨"shed", 3, .duplicateId "start"⟩) ∧
      ((restore shedWorld.host { s.save with files := ["main", "shed"] } s).2.content.find?
        "shed").isSome = true) = true := by
    decide +kernel
  obtain ⟨s, hs, hplayed⟩ := (Option.any_eq_true _ _).1 hplayed
  obtain ⟨hchoices, hfree, hchoice, hlost, hsource, htaken⟩ := of_decide_eq_true hplayed
  exact ⟨s, _, _, hs, hchoices, hfree, Prod.ext hchoice rfl, hlost, Prod.ext hsource rfl, htaken⟩

end Story

end Narrative
