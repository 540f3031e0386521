import Narrative.Proofs.Source.Including
import Narrative.Proofs.Source.Stopping

/-!
# Includes are loaded depth first

Loading keeps the files that are still to be read on a stack. It does what the recursive traversal
does, which reads a file that is not listed yet, lists it, and traverses the files that it includes
before it goes on. The files that are read are those that can be reached from the first one along
files that were not listed before. These are all that are reachable and not listed, when the listed
files include listed ones only. A load that fails leaves files that are listed before what they
include was read, and later loads pass over them.
-/

namespace Narrative

open Relation

/-- A file is written in the source of another. -/
def Host.Includes (host : Host) (file other : String) : Prop :=
  ∃ text, host.sources.get? file = some text ∧ other ∈ includedFiles text.toList

namespace Sources

variable {host : Host} {main file : String} {s t u : Sources} {r : Except StoryError Unit}
  {files rest : List String}

/-! ## The recursive traversal -/

/-- Reads a file that is not listed, and lists it. The result is what its source includes. -/
def visit (host : Host) (s : Sources) (file : String) : Except StoryError (List String) × Sources :=
  match host.sources.get? file with
  | none => (.error (.source file (host.refusal file)), s)
  | some text =>
    match s.content.read file text.toList with
    | (.error e, content) => (.error (.parse e), { s with content })
    | (.ok _, content) =>
      (.ok (includedFiles text.toList), { content, files := s.files ++ [file] })

/-- A file that is visited is listed, and its source names what it includes. -/
theorem visit_eq_ok {includes : List String} (h : s.visit host file = (.ok includes, t)) :
    ∃ text, host.sources.get? file = some text ∧ includes = includedFiles text.toList ∧
      t.files = s.files ++ [file] := by
  unfold visit at h
  split at h
  · cases h
  · next text hopen =>
    split at h
    · cases h
    · cases h
      exact ⟨text, hopen, rfl, rfl⟩

/-- The traversal of files in order, with its result and the sources that it leaves. A file is
visited, and then the files that it includes are traversed before the rest. -/
inductive Traverses (host : Host) :
    Sources → List String → Except StoryError Unit → Sources → Prop
  /-- Nothing is left. -/
  | nil (s : Sources) : Traverses host s [] (.ok ()) s
  /-- A file that is listed is passed over. -/
  | listed {s t : Sources} {file : String} {rest : List String} {r : Except StoryError Unit} :
      file ∈ s.files → Traverses host s rest r t → Traverses host s (file :: rest) r t
  /-- The file cannot be opened or read. -/
  | failed {s t : Sources} {file : String} {rest : List String} {e : StoryError} :
      file ∉ s.files → s.visit host file = (.error e, t) →
      Traverses host s (file :: rest) (.error e) t
  /-- The file and what it includes are read, and the traversal goes on with the rest. -/
  | visited {s t u v : Sources} {file : String} {includes rest : List String}
      {r : Except StoryError Unit} :
      file ∉ s.files → s.visit host file = (.ok includes, t) →
      Traverses host t includes (.ok ()) u → Traverses host u rest r v →
      Traverses host s (file :: rest) r v
  /-- The file is read, and the traversal stops in what it includes. -/
  | stopped {s t u : Sources} {file : String} {includes rest : List String} {e : StoryError} :
      file ∉ s.files → s.visit host file = (.ok includes, t) →
      Traverses host t includes (.error e) u → Traverses host s (file :: rest) (.error e) u

namespace Traverses

/-- A traversal goes through the first files to their end, or stops in them. -/
theorem split (h : Traverses host s (files ++ rest) r u) :
    (∃ t, Traverses host s files (.ok ()) t ∧ Traverses host t rest r u) ∨
      ∃ e, r = .error e ∧ Traverses host s files (.error e) u := by
  induction files generalizing s with
  | nil => exact .inl ⟨s, .nil s, h⟩
  | cons file files ih =>
    cases h with
    | listed hmem htail =>
      rcases ih htail with ⟨t, hfirst, hlast⟩ | ⟨e, rfl, hfirst⟩
      · exact .inl ⟨t, .listed hmem hfirst, hlast⟩
      · exact .inr ⟨e, rfl, .listed hmem hfirst⟩
    | failed hnew hvisit => exact .inr ⟨_, rfl, .failed hnew hvisit⟩
    | visited hnew hvisit hinner htail =>
      rcases ih htail with ⟨t, hfirst, hlast⟩ | ⟨e, rfl, hfirst⟩
      · exact .inl ⟨t, .visited hnew hvisit hinner hfirst, hlast⟩
      · exact .inr ⟨e, rfl, .visited hnew hvisit hinner hfirst⟩
    | stopped hnew hvisit hinner => exact .inr ⟨_, rfl, .stopped hnew hvisit hinner⟩

/-- Files that are listed may be left out in front. -/
theorem of_dropWhile (h : Traverses host s (files.dropWhile s.files.contains) r t) :
    Traverses host s files r t := by
  induction files with
  | nil => exact h
  | cons file files ih =>
    rw [List.dropWhile_cons] at h
    split at h
    · next hmem => exact .listed (List.contains_iff_mem.1 hmem) (ih h)
    · exact h

/-- There is one traversal. -/
theorem unique {r' : Except StoryError Unit} {t' : Sources} (h : Traverses host s files r t)
    (h' : Traverses host s files r' t') : r = r' ∧ t = t' := by
  induction h generalizing r' t' with
  | nil s =>
    cases h'
    exact ⟨rfl, rfl⟩
  | listed hmem _ ih =>
    cases h' with
    | listed _ htail => exact ih htail
    | failed hnew _ => exact absurd hmem hnew
    | visited hnew _ _ _ => exact absurd hmem hnew
    | stopped hnew _ _ => exact absurd hmem hnew
  | failed hnew hvisit =>
    cases h' with
    | listed hmem _ => exact absurd hmem hnew
    | failed _ hvisit' =>
      cases hvisit.symm.trans hvisit'
      exact ⟨rfl, rfl⟩
    | visited _ hvisit' _ _ => cases hvisit.symm.trans hvisit'
    | stopped _ hvisit' _ => cases hvisit.symm.trans hvisit'
  | visited hnew hvisit _ _ ihinner ihtail =>
    cases h' with
    | listed hmem _ => exact absurd hmem hnew
    | failed _ hvisit' => cases hvisit.symm.trans hvisit'
    | visited _ hvisit' hinner htail =>
      cases hvisit.symm.trans hvisit'
      obtain ⟨-, rfl⟩ := ihinner hinner
      exact ihtail htail
    | stopped _ hvisit' hinner =>
      cases hvisit.symm.trans hvisit'
      cases (ihinner hinner).1
  | stopped hnew hvisit _ ih =>
    cases h' with
    | listed hmem _ => exact absurd hmem hnew
    | failed _ hvisit' => cases hvisit.symm.trans hvisit'
    | visited _ hvisit' hinner _ =>
      cases hvisit.symm.trans hvisit'
      cases (ih hinner).1
    | stopped _ hvisit' hinner =>
      cases hvisit.symm.trans hvisit'
      exact ih hinner

end Traverses

/-! ## The stack of pending files -/

/-- A result that only says whether there was an error. -/
def outcome {α : Type} (r : Except StoryError α) : Except StoryError Unit :=
  r.map fun _ => ()

/-- Loading the pending files is traversing them. -/
theorem traverses_loadPending {budget : Nat} {pending : List String} {start : Option NodeId}
    {r : Except StoryError (Option NodeId)} (hbudget : s.Affords host budget)
    (hload : loadPending host main budget pending start s = (r, t)) :
    Traverses host s pending (outcome r) t := by
  fun_induction loadPending host main budget pending start s with
  | case1 budget pending start s hnone =>
    cases hload
    apply Traverses.of_dropWhile
    rw [hnone]
    exact .nil _
  | case2 pending start s f rest hpending budget text hopen e content hread =>
    cases hload
    apply Traverses.of_dropWhile
    rw [hpending]
    apply Traverses.failed (not_mem_of_dropWhile hpending)
    simp only [visit, hopen, hread]
  | case3 pending start s f rest hpending budget text hopen source content hread ih =>
    have hnew := not_mem_of_dropWhile hpending
    have hvisit : s.visit host f =
        (.ok (includedFiles text.toList), { content, files := s.files ++ [f] }) := by
      simp only [visit, hopen, hread]
    have hrest := ih (hbudget.spend hnew hopen content) hload
    rw [Content.includes_read hread] at hrest
    apply Traverses.of_dropWhile
    rw [hpending]
    rcases hrest.split with ⟨u, hinner, htail⟩ | ⟨e, he, hinner⟩
    · exact .visited hnew hvisit hinner htail
    · rw [he]
      exact .stopped hnew hvisit hinner
  | case4 budget pending start s f rest hpending hclosed =>
    cases hload
    have hnew := not_mem_of_dropWhile hpending
    apply Traverses.of_dropWhile
    rw [hpending]
    apply Traverses.failed hnew
    simp only [visit, hbudget.refused hnew hclosed]

/-- Allowing more rounds than there are files to open changes nothing. -/
theorem loadPending_of_le {budget more : Nat} {pending : List String} {start : Option NodeId}
    (hbudget : s.Affords host budget) (hle : budget ≤ more) :
    loadPending host main more pending start s = loadPending host main budget pending start s := by
  fun_induction loadPending host main budget pending start s generalizing more with
  | case1 budget pending start s hnone => rw [loadPending, hnone]
  | case2 pending start s f rest hpending budget text hopen e content hread =>
    obtain ⟨more, rfl⟩ := Nat.exists_eq_add_of_lt (Nat.lt_of_succ_le hle)
    rw [loadPending, hpending]
    simp only [hopen, hread]
  | case3 pending start s f rest hpending budget text hopen source content hread ih =>
    obtain ⟨more, rfl⟩ := Nat.exists_eq_add_of_lt (Nat.lt_of_succ_le hle)
    have hnew := not_mem_of_dropWhile hpending
    rw [loadPending, hpending]
    simp only [hopen, hread]
    exact ih (hbudget.spend hnew hopen content) (by omega)
  | case4 budget pending start s f rest hpending hclosed =>
    have hnone := hbudget.refused (not_mem_of_dropWhile hpending) hclosed
    rw [loadPending, hpending]
    simp only [hnone]

/-! ## The start of a file -/

/-- The start of a file that is listed is not looked for. -/
theorem start_of_mem {budget : Nat} {pending : List String} {start i : Option NodeId}
    (hmem : main ∈ s.files) (hload : loadPending host main budget pending start s = (.ok i, t)) :
    i = start := by
  fun_induction loadPending host main budget pending start s with
  | case1 =>
    cases hload
    rfl
  | case2 => cases hload
  | case3 pending start s f rest hpending budget text hopen source content hread ih =>
    have hne : f ≠ main := by
      rintro rfl
      exact not_mem_of_dropWhile hpending hmem
    rw [if_neg hne] at ih hload
    exact ih (List.mem_append_left _ hmem) hload
  | case4 => cases hload

/-- A file that is listed is passed over. -/
theorem load_of_mem (hmem : file ∈ s.files) : s.load host file = (.ok none, s) := by
  have hpending : [file].dropWhile s.files.contains = [] :=
    List.dropWhile_cons_of_pos (List.contains_iff_mem.2 hmem)
  rw [load, loadPending, hpending]

/-- The start of a file that is not listed is that of its source. -/
theorem start_of_load {i : Option NodeId} (hnew : file ∉ s.files)
    (h : s.load host file = (.ok i, t)) :
    ∃ text source content, host.sources.get? file = some text ∧
      s.content.read file text.toList = (.ok source, content) ∧ i = source.start := by
  have hpending : [file].dropWhile s.files.contains = [file] :=
    List.dropWhile_cons_of_neg (by rwa [List.contains_iff_mem])
  rw [load, loadPending, hpending] at h
  dsimp only at h
  split at h
  · next budget text _ hopen =>
    split at h
    · cases h
    · next source content hread =>
      rw [if_pos rfl] at h
      refine ⟨text, source, content, hopen, hread, start_of_mem ?_ h⟩
      exact List.mem_append_right _ (List.mem_singleton_self _)
  · cases h

end Sources

/-! ## The order of the files -/

section Order

variable {host : Host} {listed files order : List String} {file f : String}

/-- The files that a traversal reads, in the order in which it visits them, when the files in
`listed` are passed over. -/
inductive Host.VisitOrder (host : Host) : (listed files order : List String) → Prop
  /-- Nothing is left. -/
  | nil (listed : List String) : Host.VisitOrder host listed [] []
  /-- A file that is listed is passed over. -/
  | listed {listed rest order : List String} {file : String} :
      file ∈ listed → Host.VisitOrder host listed rest order → Host.VisitOrder host listed (file :: rest) order
  /-- A file comes first, then what it includes in the order in which it is written, and then the
  rest. -/
  | visited {listed rest inner outer : List String} {file text : String} :
      file ∉ listed → host.sources.get? file = some text →
      Host.VisitOrder host (listed ++ [file]) (includedFiles text.toList) inner →
      Host.VisitOrder host (listed ++ file :: inner) rest outer →
      Host.VisitOrder host listed (file :: rest) (file :: (inner ++ outer))

/-- A file is reached from another one along files that are not in `listed`. -/
def Host.Reaches (host : Host) (listed : List String) : String → String → Prop :=
  ReflTransGen fun a b => a ∉ listed ∧ host.Includes a b

/-- What is reached around more files is reached around fewer. -/
theorem Host.Reaches.of_append {more : List String} {a b : String}
    (h : host.Reaches (listed ++ more) a b) : host.Reaches listed a b := by
  refine ReflTransGen.mono ?_ a b h
  intro c d hstep
  exact ⟨fun hmem => hstep.1 (List.mem_append_left _ hmem), hstep.2⟩

namespace Host.VisitOrder

/-- What is visited was not listed. -/
theorem not_mem (h : host.VisitOrder listed files order) (hf : f ∈ order) : f ∉ listed := by
  induction h with
  | nil => cases hf
  | listed _ _ ih => exact ih hf
  | visited hnew _ _ _ ihinner ihouter =>
    rcases List.mem_cons.1 hf with rfl | hf
    · exact hnew
    rcases List.mem_append.1 hf with hf | hf
    · exact fun hmem => ihinner hf (List.mem_append_left _ hmem)
    · exact fun hmem => ihouter hf (List.mem_append_left _ hmem)

/-- No file is visited twice. -/
theorem nodup (h : host.VisitOrder listed files order) : order.Nodup := by
  induction h with
  | nil => exact .nil
  | listed _ _ ih => exact ih
  | visited _ _ hinner houter ihinner ihouter =>
    -- what comes later passes over the file, and the rest over what the file includes
    have hlater := List.nodup_append.2 ⟨ihinner, ihouter, ?_⟩
    · apply List.nodup_cons.2
      refine ⟨?_, hlater⟩
      intro hmem
      rcases List.mem_append.1 hmem with hmem | hmem
      · exact hinner.not_mem hmem (List.mem_append_right _ (List.mem_singleton_self _))
      · exact houter.not_mem hmem (List.mem_append_right _ List.mem_cons_self)
    · rintro f hf _ hf' rfl
      exact houter.not_mem hf' (List.mem_append_right _ (List.mem_cons_of_mem _ hf))

/-- The files that are traversed are visited or were listed. -/
theorem subset (h : host.VisitOrder listed files order) : files ⊆ listed ++ order := by
  induction h with
  | nil => exact List.nil_subset _
  | listed hmem _ ih => exact List.cons_subset.2 ⟨List.mem_append_left _ hmem, ih⟩
  | visited _ _ _ _ _ ihouter =>
    apply List.cons_subset.2
    constructor
    · exact List.mem_append_right _ List.mem_cons_self
    · rwa [← List.cons_append, ← List.append_assoc]

/-- What a visited file includes is visited or was listed. -/
theorem mem_of_includes (h : host.VisitOrder listed files order) {a b : String} (ha : a ∈ order)
    (hb : host.Includes a b) : b ∈ listed ++ order := by
  induction h with
  | nil => cases ha
  | listed _ _ ih => exact ih ha
  | visited _ hopen hinner _ ihinner ihouter =>
    rw [← List.cons_append, ← List.append_assoc]
    rcases List.mem_cons.1 ha with rfl | ha
    · obtain ⟨text, hopen', hmem⟩ := hb
      cases hopen.symm.trans hopen'
      rw [List.append_cons]
      exact List.mem_append_left _ (hinner.subset hmem)
    rcases List.mem_append.1 ha with ha | ha
    · rw [List.append_cons]
      exact List.mem_append_left _ (ihinner ha)
    · exact ihouter ha

/-- What is visited is reached. -/
theorem reaches (h : host.VisitOrder listed files order) (hf : f ∈ order) :
    ∃ p ∈ files, host.Reaches listed p f := by
  induction h with
  | nil => cases hf
  | listed _ _ ih =>
    obtain ⟨p, hp, hreaches⟩ := ih hf
    exact ⟨p, List.mem_cons_of_mem _ hp, hreaches⟩
  | @visited listed rest inner outer file text hnew hopen _ _ ihinner ihouter =>
    rcases List.mem_cons.1 hf with rfl | hf
    · exact ⟨f, List.mem_cons_self, .refl⟩
    rcases List.mem_append.1 hf with hf | hf
    · obtain ⟨p, hp, hreaches⟩ := ihinner hf
      exact ⟨file, List.mem_cons_self, .head ⟨hnew, text, hopen, hp⟩ hreaches.of_append⟩
    · obtain ⟨p, hp, hreaches⟩ := ihouter hf
      exact ⟨p, List.mem_cons_of_mem _ hp, hreaches.of_append⟩

/-- Exactly what is reached and not listed is visited. -/
theorem mem_iff (h : host.VisitOrder listed [file] order) :
    f ∈ order ↔ f ∉ listed ∧ host.Reaches listed file f := by
  constructor
  · intro hf
    obtain ⟨p, hp, hreaches⟩ := h.reaches hf
    rw [List.mem_singleton.1 hp] at hreaches
    exact ⟨h.not_mem hf, hreaches⟩
  · rintro ⟨hnew, hreaches⟩
    have hmem : f ∈ listed ++ order := by
      clear hnew
      induction hreaches with
      | refl => exact h.subset (List.mem_singleton_self _)
      | tail _ hstep ih =>
        exact h.mem_of_includes ((List.mem_append.1 ih).resolve_left hstep.1) hstep.2
    exact (List.mem_append.1 hmem).resolve_left hnew

end Host.VisitOrder

/-- The listed files include listed ones only. -/
def Host.Closed (host : Host) (listed : List String) : Prop :=
  ∀ a ∈ listed, ∀ b, host.Includes a b → b ∈ listed

/-- Nothing that is listed is on the way to a file that is not. -/
theorem Host.Closed.reaches_iff (h : host.Closed listed) (hf : f ∉ listed) :
    host.Reaches listed file f ↔ ReflTransGen host.Includes file f := by
  constructor
  · exact ReflTransGen.mono (fun _ _ hstep => hstep.2) file f
  · intro hreaches
    induction hreaches with
    | refl => exact .refl
    | tail _ hstep ih =>
      have hsource := mt (fun hmem => h _ hmem _ hstep) hf
      exact .tail (ih hsource) ⟨hsource, hstep⟩

/-- What is visited closes the listed files again. -/
theorem Host.VisitOrder.closed (h : host.VisitOrder listed files order) (hlisted : host.Closed listed) :
    host.Closed (listed ++ order) := by
  intro a ha b hb
  rcases List.mem_append.1 ha with ha | ha
  · exact List.mem_append_left _ (hlisted a ha b hb)
  · exact h.mem_of_includes ha hb

end Order

namespace Sources

variable {host : Host} {file : String} {s t : Sources} {files : List String}

/-- A traversal without an error lists the files that it visits, in order. -/
theorem Traverses.visitOrder (h : Traverses host s files (.ok ()) t) :
    ∃ order, host.VisitOrder s.files files order ∧ t.files = s.files ++ order := by
  generalize hr : (.ok () : Except StoryError Unit) = r at h
  induction h with
  | nil s => exact ⟨[], .nil _, (List.append_nil _).symm⟩
  | listed hmem _ ih =>
    obtain ⟨order, horder, hfiles⟩ := ih hr
    exact ⟨order, .listed hmem horder, hfiles⟩
  | failed => cases hr
  | visited hnew hvisit _ _ ihinner ihtail =>
    obtain ⟨text, hopen, rfl, hlisted⟩ := visit_eq_ok hvisit
    obtain ⟨inner, hinner, hfirst⟩ := ihinner rfl
    obtain ⟨outer, houter, hlast⟩ := ihtail hr
    rw [hlisted] at hinner hfirst
    rw [hfirst, ← List.append_cons] at houter hlast
    refine ⟨_, .visited hnew hopen hinner houter, ?_⟩
    rw [hlast, List.append_assoc, List.cons_append]
  | stopped => cases hr

/-- The traversal of a file is what loading it does. -/
theorem traverses_iff {r : Except StoryError Unit} :
    Traverses host s [file] r t ↔
      outcome (s.load host file).1 = r ∧ (s.load host file).2 = t := by
  have hload : Traverses host s [file] (outcome (s.load host file).1) (s.load host file).2 :=
    traverses_loadPending s.affords_all rfl
  constructor
  · intro h
    exact hload.unique h
  · rintro ⟨rfl, rfl⟩
    exact hload

/-- A load without an error lists the files that the traversal visits, in order. -/
theorem visitOrder_of_load {i : Option NodeId} (h : s.load host file = (.ok i, t)) :
    ∃ order, host.VisitOrder s.files [file] order ∧ t.files = s.files ++ order := by
  have htraverses : Traverses host s [file] (.ok ()) t := by
    rw [traverses_iff, h]
    exact ⟨rfl, rfl⟩
  exact htraverses.visitOrder

/-- What loading a file promises. -/
structure LoadsDepthFirst (host : Host) (s : Sources) (file : String) : Prop where
  /-- It ends by itself: more rounds than the host has sources change nothing. -/
  ends (budget : Nat) : host.sources.entries.length ≤ budget →
    loadPending host file budget [file] none s = s.load host file
  /-- It is the recursive traversal, which meets its first error, if it meets one. -/
  traversal (r : Except StoryError Unit) (t : Sources) :
    Traverses host s [file] r t ↔ outcome (s.load host file).1 = r ∧ (s.load host file).2 = t
  /-- Without an error the files that the traversal visits are listed behind the others. -/
  order (i : Option NodeId) (t : Sources) : s.load host file = (.ok i, t) →
    ∃ order, host.VisitOrder s.files [file] order ∧ t.files = s.files ++ order
  /-- No file is visited twice. -/
  once (order : List String) : host.VisitOrder s.files [file] order → order.Nodup
  /-- Exactly the files that are not listed and are reached along such files are visited. -/
  reached (order : List String) (f : String) : host.VisitOrder s.files [file] order →
    (f ∈ order ↔ f ∉ s.files ∧ host.Reaches s.files file f)
  /-- These are all that are reachable and not listed, when the listed files include listed ones
  only. -/
  reachable (order : List String) (f : String) : host.VisitOrder s.files [file] order →
    host.Closed s.files → (f ∈ order ↔ f ∉ s.files ∧ ReflTransGen host.Includes file f)
  /-- The listed files include listed ones only when nothing was loaded, and when all that was
  loaded was loaded without an error. -/
  closed : host.Closed [] ∧ ∀ i t, s.load host file = (.ok i, t) → host.Closed s.files →
    host.Closed t.files
  /-- The start is that of the file. -/
  start (i : Option NodeId) (t : Sources) : file ∉ s.files → s.load host file = (.ok i, t) →
    ∃ text source content, host.sources.get? file = some text ∧
      s.content.read file text.toList = (.ok source, content) ∧ i = source.start
  /-- A file that is listed is passed over. -/
  listed : file ∈ s.files → s.load host file = (.ok none, s)

/-- Loading a file goes depth first. -/
theorem loadsDepthFirst (host : Host) (s : Sources) (file : String) :
    LoadsDepthFirst host s file where
  ends _ hle := loadPending_of_le s.affords_all hle
  traversal _ _ := traverses_iff
  order _ _ h := visitOrder_of_load h
  once _ h := h.nodup
  reached _ _ h := h.mem_iff
  reachable order f h hclosed := by
    rw [h.mem_iff]
    exact and_congr_right fun hf => hclosed.reaches_iff hf
  closed := by
    constructor
    · exact nofun
    · intro i t h hclosed
      obtain ⟨order, horder, hfiles⟩ := visitOrder_of_load h
      rw [hfiles]
      exact horder.closed hclosed
  start _ _ hnew h := start_of_load hnew h
  listed := load_of_mem

/-- A host with a tower that includes a source that is missing, and then a moat. A gate includes the
tower. -/
def towerHost : Host :=
  .ofSources
    (.ofList [("main", "== start\nHi.\n"), ("tower", "INCLUDE fog\nINCLUDE moat\n== tower\nA.\n"),
      ("moat", "== moat\nB.\n"), ("gate", "INCLUDE tower\n== gate\nC.\n")])
    fun file => "no source named " ++ file

/-- Loading the tower fails at the missing source and leaves the tower listed. Loading the gate then
passes over the tower and succeeds, although neither the missing source nor the moat was read. -/
theorem load_passes_over_torn_file : ∃ (s t u : Sources) (i j : Option NodeId),
    ({} : Sources).load towerHost "main" = (.ok i, s) ∧
    s.load towerHost "tower" = (.error (.source "fog" "no source named fog"), t) ∧
    t.load towerHost "gate" = (.ok j, u) ∧ u.files = ["main", "tower", "gate"] ∧
    ReflTransGen towerHost.Includes "gate" "fog" ∧
    ReflTransGen towerHost.Includes "gate" "moat" := by
  have hloads :
      let s := (({} : Sources).load towerHost "main").2
      let t := (s.load towerHost "tower").2
      let u := (t.load towerHost "gate").2
      ({} : Sources).load towerHost "main" = (.ok (some 0), s) ∧
        s.load towerHost "tower" = (.error (.source "fog" "no source named fog"), t) ∧
        t.load towerHost "gate" = (.ok (some 4), u) ∧ u.files = ["main", "tower", "gate"] := by
    decide +kernel
  obtain ⟨hmain, htower, hgate, hfiles⟩ := hloads
  have hgateTower : towerHost.Includes "gate" "tower" := ⟨_, rfl, by decide⟩
  have htowerFog : towerHost.Includes "tower" "fog" := ⟨_, rfl, by decide⟩
  have htowerMoat : towerHost.Includes "tower" "moat" := ⟨_, rfl, by decide⟩
  refine ⟨_, _, _, _, _, hmain, htower, hgate, hfiles, ?_, ?_⟩
  · exact .tail (.single hgateTower) htowerFog
  · exact .tail (.single hgateTower) htowerMoat

end Sources

end Narrative
