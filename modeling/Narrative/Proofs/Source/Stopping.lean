import Mathlib.Data.List.TakeWhile
import Narrative.Proofs.NameMap
import Narrative.Proofs.Source.Loading

/-!
# Where loading stops

Loading opens one source after another and stops at the first that is refused by the host or has a
fault. The sources before it were read to their end and are listed. The one at which loading stops is
not listed, but the nodes in front of its fault stay.
-/

namespace Narrative

namespace Sources

variable {host : Host} {main file : String} {s t u : Sources} {read : List String}

/-- The files in `read` are opened and read to their end, one after another. -/
inductive Reads (host : Host) : Sources → List String → Sources → Prop
  /-- Nothing is read. -/
  | nil (s : Sources) : Reads host s [] s
  /-- A file that was not read before comes first. -/
  | cons {s t : Sources} {file text : String} {source : Source} {content : Content}
      {rest : List String} :
      file ∉ s.files → host.sources.get? file = some text →
      s.content.read file text.toList = (.ok source, content) →
      Reads host { content, files := s.files ++ [file] } rest t → Reads host s (file :: rest) t

/-- Why loading stops at a file after the files in `read`, and what it leaves. -/
inductive Stops (host : Host) (s : Sources) (read : List String) (file : String) :
    StoryError → Sources → Prop
  /-- The host refuses the file, and nothing more is left. -/
  | refused {t : Sources} :
      Reads host s read t → file ∉ t.files → host.sources.get? file = none →
      Stops host s read file (.source file (host.refusal file)) t
  /-- The file has a fault, and the nodes in front of it are left. -/
  | faulty {t : Sources} {text : String} {e : SourceError} {content : Content} :
      Reads host s read t → file ∉ t.files → host.sources.get? file = some text →
      t.content.read file text.toList = (.error e, content) →
      Stops host s read file (.parse e) { t with content }

namespace Reads

/-- What was read is listed behind what had been read before. -/
theorem files_eq (h : Reads host s read t) : t.files = s.files ++ read := by
  induction h with
  | nil => rw [List.append_nil]
  | cons _ _ _ _ ih => rw [ih, List.append_assoc, List.singleton_append]

/-- More files are read after those in `read`. -/
theorem trans {more : List String} (h : Reads host s read t) (h' : Reads host t more u) :
    Reads host s (read ++ more) u := by
  induction h with
  | nil => exact h'
  | cons hnew hopen hread _ ih => exact .cons hnew hopen hread (ih h')

/-- The nodes that were there stay. -/
theorem grown (h : Reads host s read t) (hs : s.content.Grown) :
    t.content.Grown ∧ t.content.Extends s.content := by
  induction h with
  | nil => exact ⟨hs, .refl _⟩
  | cons _ _ hread _ ih =>
    obtain ⟨hcontent, hextends, -⟩ := hs.read hread
    obtain ⟨hgrown, hextends'⟩ := ih hcontent
    exact ⟨hgrown, hextends'.trans hextends⟩

end Reads

namespace Stops

variable {e : StoryError}

/-- Files were read before those in `read`. -/
theorem after {first : List String} (h : Stops host t read file e u)
    (hreads : Reads host s first t) : Stops host s (first ++ read) file e u := by
  cases h with
  | refused hread hnew hnone => exact .refused (hreads.trans hread) hnew hnone
  | faulty hread hnew hsome hfault => exact .faulty (hreads.trans hread) hnew hsome hfault

/-- The files that were read stay listed. -/
theorem files_eq (h : Stops host s read file e t) : t.files = s.files ++ read := by
  cases h with
  | refused hreads _ _ => exact hreads.files_eq
  | faulty hreads _ _ _ => exact hreads.files_eq

/-- What was read from them stays. -/
theorem grown (h : Stops host s read file e t) (hs : s.content.Grown) :
    t.content.Grown ∧ t.content.Extends s.content := by
  cases h with
  | refused hreads _ _ => exact hreads.grown hs
  | faulty hreads _ _ hread =>
    obtain ⟨hgrown, hextends⟩ := hreads.grown hs
    obtain ⟨hcontent, hextends', -⟩ := hgrown.read hread
    exact ⟨hcontent, hextends'.trans hextends⟩

end Stops

/-- How loading ends: the pending files and others were read to their end, or it stopped at one of
them. The first file that is opened is the first pending one that was not read before. -/
def Ends (host : Host) (s : Sources) (pending : List String) :
    Except StoryError (Option NodeId) → Sources → Prop
  | .ok _, t => ∃ read, Reads host s read t ∧ pending ⊆ t.files
  | .error e, t => ∃ read file, Stops host s read file e t ∧
      (pending.dropWhile s.files.contains).head? = (read ++ [file]).head?

/-- The next file that is pending has not been read. -/
theorem not_mem_of_dropWhile {pending rest : List String}
    (h : pending.dropWhile s.files.contains = file :: rest) : file ∉ s.files := by
  have hhead := List.head?_dropWhile_not s.files.contains pending
  rw [h] at hhead
  simpa using hhead

/-- Pending files are listed, when the first that was not read before and those behind it are. -/
theorem subset_of_dropWhile {pending files : List String} (hs : s.files ⊆ files)
    (h : pending.dropWhile s.files.contains ⊆ files) : pending ⊆ files := by
  intro f hf
  rw [← List.takeWhile_append_dropWhile (p := s.files.contains) (l := pending)] at hf
  rcases List.mem_append.1 hf with hf | hf
  · exact hs (List.contains_iff_mem.1 (List.mem_takeWhile_imp hf))
  · exact h hf

/-- The budget is enough for all the files that can still be opened. -/
def Affords (host : Host) (s : Sources) (budget : Nat) : Prop :=
  ∀ files : List String, files.Nodup →
    (∀ f ∈ files, f ∉ s.files ∧ (host.sources.get? f).isSome = true) → files.length ≤ budget

/-- As many files as there are can be opened. -/
theorem affords_all (s : Sources) : s.Affords host host.sources.entries.length :=
  fun _ hnodup h => NameMap.length_le_of_forall_get? hnodup fun f hf => (h f hf).2

/-- One less is enough when another file was opened. -/
theorem Affords.spend {budget : Nat} {text : String} (h : s.Affords host (budget + 1))
    (hnew : file ∉ s.files) (hopen : host.sources.get? file = some text) (content : Content) :
    Affords host { content, files := s.files ++ [file] } budget := by
  intro files hnodup hfiles
  have hfresh : file ∉ files := by
    intro hf
    apply (hfiles file hf).1
    exact List.mem_append_right _ (List.mem_singleton_self _)
  have hle := h (file :: files) (List.nodup_cons.2 ⟨hfresh, hnodup⟩) <| by
    refine List.forall_mem_cons.2 ⟨⟨hnew, by rw [hopen]; rfl⟩, fun f hf => ⟨?_, (hfiles f hf).2⟩⟩
    exact fun hmem => (hfiles f hf).1 (List.mem_append_left _ hmem)
  rw [List.length_cons] at hle
  omega

/-- A file that is not opened is refused, as it is never the budget that is used up. -/
theorem Affords.refused {budget : Nat} (h : s.Affords host budget) (hnew : file ∉ s.files)
    (hclosed : ∀ left text, budget = left + 1 → host.sources.get? file = some text → False) :
    host.sources.get? file = none := by
  cases hget : host.sources.get? file with
  | none => rfl
  | some text =>
    have hle := h [file] (List.nodup_singleton file) (by simp [hnew, hget])
    rw [List.length_singleton] at hle
    exact (hclosed (budget - 1) text (by omega) hget).elim

/-- Loading files ends in one of these ways. -/
theorem ends_loadPending {budget : Nat} {pending : List String} {start : Option NodeId}
    {r : Except StoryError (Option NodeId)} (hbudget : s.Affords host budget)
    (hload : loadPending host main budget pending start s = (r, t)) :
    Ends host s pending r t := by
  fun_induction loadPending host main budget pending start s with
  | case1 budget pending start s hnone =>
    cases hload
    refine ⟨[], .nil _, subset_of_dropWhile (List.Subset.refl _) ?_⟩
    rw [hnone]
    exact List.nil_subset _
  | case2 pending start s f rest hpending budget text hopen e content hread =>
    cases hload
    have hnew := not_mem_of_dropWhile hpending
    exact ⟨[], f, .faulty (.nil s) hnew hopen hread, by rw [hpending]; rfl⟩
  | case3 pending start s f rest hpending budget text hopen source content hread ih =>
    have hnew := not_mem_of_dropWhile hpending
    have hends := ih (hbudget.spend hnew hopen content) hload
    cases r with
    | ok i =>
      obtain ⟨read, hreads, hpend⟩ := hends
      have hfiles := hreads.files_eq
      refine ⟨f :: read, .cons hnew hopen hread hreads, subset_of_dropWhile (s := s) ?_ ?_⟩
      · rw [hfiles, List.append_assoc]
        exact List.subset_append_left _ _
      · rw [hpending]
        refine List.cons_subset.2 ⟨?_, fun g hg => hpend (List.mem_append_right _ hg)⟩
        rw [hfiles]
        exact List.mem_append_left _ (List.mem_append_right _ (List.mem_singleton_self _))
    | error e =>
      obtain ⟨read, bad, hstops, -⟩ := hends
      have hfirst : Reads host s [f] _ := .cons hnew hopen hread (.nil _)
      exact ⟨f :: read, bad, hstops.after hfirst, by rw [hpending]; rfl⟩
  | case4 budget pending start s f rest hpending hclosed =>
    cases hload
    have hnew := not_mem_of_dropWhile hpending
    exact ⟨[], f, .refused (.nil _) hnew (hbudget.refused hnew hclosed), by rw [hpending]; rfl⟩

/-- Loading a file ends in one of these ways. -/
theorem ends_load {r : Except StoryError (Option NodeId)} (h : s.load host file = (r, t)) :
    Ends host s [file] r t :=
  ends_loadPending s.affords_all h

/-- A file that is required and its includes are read, or one of them is where loading stops. -/
theorem stops_of_require {e : StoryError} (h : s.require host file = (.error e, t)) :
    file ∉ s.files ∧ ∃ read bad, Stops host s read bad e t ∧ (read ++ [bad]).head? = some file := by
  unfold require at h
  split at h
  · cases h
  · next hnew =>
    rw [List.contains_iff_mem] at hnew
    cases hload : s.load host file with
    | mk r u =>
      have hends := ends_load hload
      rw [hload] at h
      cases r with
      | ok i => cases h
      | error e' =>
        cases h
        obtain ⟨read, bad, hstops, hhead⟩ := hends
        refine ⟨hnew, read, bad, hstops, ?_⟩
        rw [← hhead, List.dropWhile_cons_of_neg (by simpa using hnew)]
        rfl

/-- A file that is required is listed when it was read. -/
theorem reads_of_require (h : s.require host file = (.ok (), t)) :
    ∃ read, Reads host s read t ∧ file ∈ t.files := by
  unfold require at h
  split at h
  · next hmem =>
    cases h
    exact ⟨[], .nil _, List.contains_iff_mem.1 hmem⟩
  · cases hload : s.load host file with
    | mk r u =>
      have hends := ends_load hload
      rw [hload] at h
      cases r with
      | ok i =>
        cases h
        obtain ⟨read, hreads, hpend⟩ := hends
        exact ⟨read, hreads, hpend List.mem_cons_self⟩
      | error e => cases h

/-- A file with a fault stops the loading at once when it is required. -/
theorem require_of_faulty {text : String} {e : SourceError} {content : Content}
    (hnew : file ∉ s.files) (hopen : host.sources.get? file = some text)
    (hread : s.content.read file text.toList = (.error e, content)) :
    s.require host file = (.error (.parse e), { s with content }) := by
  have hcontains : ¬s.files.contains file = true := by rwa [List.contains_iff_mem]
  have hpending : [file].dropWhile s.files.contains = [file] :=
    List.dropWhile_cons_of_neg hcontains
  have hbudget : 1 ≤ host.sources.entries.length :=
    NameMap.length_le_of_forall_get? (List.nodup_singleton file) (by simp [hopen])
  obtain ⟨budget, hlength⟩ := Nat.exists_eq_add_of_le' hbudget
  rw [require, if_neg hcontains, load, hlength, loadPending, hpending]
  simp only [hopen, hread]

end Sources

end Narrative
