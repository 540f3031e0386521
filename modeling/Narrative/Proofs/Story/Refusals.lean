import Narrative.Proofs.Source.Rereading
import Narrative.Proofs.Source.Stopping
import Narrative.Proofs.Story.Reachable

/-!
# Interrupts that are refused

Adding an interrupt reads the source that it needs, and then its choice. When that fails, play goes
on as before and no interrupt is added, but what was read stays: files that were read to their end
are listed, and the nodes in front of the fault are part of the story. This decides how the same
interrupt fares when it is added again.
-/

namespace Narrative

open Sources

/-- Why an interrupt is refused after the files in `read` were read to their end, and the sources
that are left. -/
inductive Interrupt.Refused (host : Host) (i : Interrupt) (s : Sources) (read : List String) :
    StoryError → Sources → Prop
  /-- Loading stops at the file that it needs, or at one of the files behind it. -/
  | source {file bad : String} {e : StoryError} {t : Sources} :
      i.file = some file → file ∉ s.files → (read ++ [bad]).head? = some file →
      Stops host s read bad e t → Refused host i s read e t
  /-- What it needs was read, and its choice has a fault. -/
  | choice {t : Sources} {e : SourceError} {content : Content} :
      Reads host s read t → (∀ file, i.file = some file → file ∈ t.files) →
      (i.file = none → read = []) → i.kind = .choice → t.content.find? i.id = none →
      t.content.readDetached i.text.toList i.id (i.file.getD "interrupt") = (.error e, content) →
      Refused host i s read (.parse e) { t with content }

namespace Story

variable {host : Host} {i : Interrupt} {s t u : Story} {e : StoryError}

/-- How an interrupt fares when it is added again to a story that kept something of the attempt at
which `host` refused it. -/
inductive Retries (host : Host) (i : Interrupt) (t : Story) : Prop
  /-- The file that it needs counts as read, so neither this file nor those that it includes are
  opened again. -/
  | passedOver {file : String} :
      i.file = some file → file ∈ t.sources.files →
      (∀ host', addInterrupt host' i t = overlay i t) → Retries host i t
  /-- The file that it needs is refused at its first header, however it goes on behind it. -/
  | blocked {file text : String} (line : Nat) (name : String) :
      i.file = some file → host.sources.get? file = some text →
      (∀ (host' : Host) (text' : String), host'.sources.get? file = some text' →
        (Text.lines text'.toList).take (line + 1) = (Text.lines text.toList).take (line + 1) →
        addInterrupt host' i t = (.error (.parse ⟨file, line + 1, .duplicateId name⟩), t)) →
      Retries host i t
  /-- It is accepted with the part of its choice that was read. -/
  | accepted :
      (t.content.find? i.id).isSome = true →
      (∀ host', addInterrupt host' i t =
        (.ok (), { t with interrupts := t.interrupts ++ [i] })) → Retries host i t

/-- An interrupt whose choice is refused leaves no node, or one with its id. -/
theorem refused_of_overlay (h : overlay i u = (.error e, t)) :
    ∃ fault content, e = .parse fault ∧ i.kind = .choice ∧ u.content.find? i.id = none ∧
      u.content.readDetached i.text.toList i.id (i.file.getD "interrupt") =
        (.error fault, content) ∧
      t = { u with sources := { u.sources with content } } ∧
      (content = u.content ∨ (content.find? i.id).isSome = true) := by
  unfold overlay at h
  split at h
  · next hchoice =>
    obtain ⟨hkind, hfree⟩ := hchoice
    split at h
    · next fault content hread =>
      cases h
      refine ⟨fault, content, rfl, hkind, Option.isNone_iff_eq_none.1 hfree, hread, rfl, ?_⟩
      obtain hsame | ⟨n, inserted, d, -, -, hid, hinsert, hcontent, hgrows⟩ :=
        Content.grows_of_readDetached hread
      · exact .inl hsame
      · refine .inr ?_
        rw [← hcontent]
        exact hgrows.taken (Content.taken_of_insert? hinsert (.inr hid.symm))
    · cases h
  · cases h

/-- An interrupt whose id is taken reads nothing. -/
theorem overlay_of_taken (h : (t.content.find? i.id).isSome = true) :
    overlay i t = (.ok (), { t with interrupts := t.interrupts ++ [i] }) := by
  rw [overlay, if_neg]
  rintro ⟨-, hfree⟩
  rw [Option.isNone_iff_eq_none.1 hfree] at h
  cases h

/-- An interrupt that needs no file, or one that counts as read, opens none. -/
theorem addInterrupt_of_supplied (h : ∀ file, i.file = some file → file ∈ t.sources.files) :
    addInterrupt host i t = overlay i t := by
  unfold addInterrupt
  split
  · rfl
  · next file hfile => rw [require_of_mem (h file hfile)]

/-- An interrupt whose file cannot be loaded. -/
theorem refused_of_require {file : String} {sources : Sources} (hfile : i.file = some file)
    (h : s.sources.require host file = (.error e, sources)) :
    ∃ read, i.Refused host s.sources read e sources ∧
      (sources = s.sources ∨ Retries host i { s with sources }) := by
  obtain ⟨hnew, read, bad, hstops, hhead⟩ := stops_of_require h
  refine ⟨read, .source hfile hnew hhead hstops, ?_⟩
  cases read with
  | cons first rest =>
    -- the file itself was read, and one that it includes is bad
    obtain rfl : first = file := Option.some.inj hhead
    have hmem : first ∈ sources.files := by
      rw [hstops.files_eq]
      exact List.mem_append_right _ List.mem_cons_self
    refine .inr (.passedOver hfile hmem fun host' => addInterrupt_of_supplied ?_)
    intro file' hfile'
    rw [hfile, Option.some.injEq] at hfile'
    exact hfile' ▸ hmem
  | nil =>
    obtain rfl : bad = file := Option.some.inj hhead
    cases hstops with
    | refused hreads _ _ =>
      cases hreads
      exact .inl rfl
    | @faulty _ text fault content hreads _ hopen hread =>
      cases hreads
      by_cases hsame : content = s.sources.content
      · exact .inl (by rw [hsame])
      · obtain ⟨line, name, htaken, hagain⟩ := Content.read_again hread hsame
        refine .inr (.blocked line name hfile hopen fun host' text' hopen' htake => ?_)
        have hfault := hagain content bad text'.toList htaken htake
        have hrequire := require_of_faulty (s := { s.sources with content }) hnew hopen' hfault
        unfold addInterrupt
        simp only [hfile, hrequire]

/-- An interrupt whose file was read, if it needs one, and whose choice has a fault. -/
theorem refused_of_choice {sources : Sources} {read : List String}
    (hreads : Reads host s.sources read sources)
    (hlisted : ∀ file, i.file = some file → file ∈ sources.files)
    (hneedless : i.file = none → read = []) (h : overlay i { s with sources } = (.error e, t)) :
    i.Refused host s.sources read e t.sources ∧ t = { s with sources := t.sources } ∧
      t.sources.files = s.sources.files ++ read ∧ (t = s ∨ Retries host i t) := by
  obtain ⟨fault, content, rfl, hkind, hfree, hread, rfl, hleft⟩ := refused_of_overlay h
  refine ⟨.choice hreads hlisted hneedless hkind hfree hread, rfl, hreads.files_eq, ?_⟩
  obtain rfl | htaken := hleft
  · -- no node of the choice was read
    cases hfile : i.file with
    | none =>
      obtain rfl := hneedless hfile
      cases hreads
      exact .inl rfl
    | some file =>
      exact .inr (.passedOver hfile (hlisted file hfile) fun _ => addInterrupt_of_supplied hlisted)
  · refine .inr (.accepted htaken fun host' => ?_)
    exact (addInterrupt_of_supplied hlisted).trans (overlay_of_taken htaken)

/-- An interrupt that is refused leaves the story at the same point of play, with the same interrupts
and with more sources: those that were read to their end are listed behind the others, and the nodes
that were read are behind the others. Either nothing was read at all, or what was read decides how
the interrupt fares when it is added again. -/
theorem addInterrupt_refused {origin : Host} {main : String} {permitted : Action → Prop}
    (hs : Reachable origin main permitted s) (h : addInterrupt host i s = (.error e, t)) :
    ∃ read, i.Refused host s.sources read e t.sources ∧
      t = { s with sources := t.sources } ∧ t.content.Extends s.content ∧
      t.sources.files = s.sources.files ++ read ∧ (t = s ∨ Retries host i t) := by
  have hextends := (widens_addInterrupt hs.sound.content h).extends_content
  cases hfile : i.file with
  | none =>
    have hneeds (file : String) (hneeds : i.file = some file) : file ∈ s.sources.files := by
      rw [hfile] at hneeds
      cases hneeds
    rw [addInterrupt_of_supplied hneeds] at h
    obtain ⟨hrefused, heq, hfiles, hagain⟩ := refused_of_choice (.nil _) hneeds (fun _ => rfl) h
    exact ⟨[], hrefused, heq, hextends, hfiles, hagain⟩
  | some file =>
    unfold addInterrupt at h
    simp only [hfile] at h
    split at h
    · next e' sources hrequire =>
      cases h
      obtain ⟨read, hrefused, hagain⟩ := refused_of_require hfile hrequire
      refine ⟨read, hrefused, rfl, hextends, ?_, hagain.imp_left fun hsame => ?_⟩
      · cases hrefused with
        | source _ _ _ hstops => exact hstops.files_eq
        | choice hreads => exact hreads.files_eq
      · rw [hsame]
    · next sources hrequire =>
      obtain ⟨read, hreads, hmem⟩ := reads_of_require hrequire
      have hlisted (file' : String) (hfile' : i.file = some file') : file' ∈ sources.files := by
        rw [hfile, Option.some.injEq] at hfile'
        exact hfile' ▸ hmem
      obtain ⟨hrefused, heq, hfiles, hagain⟩ := refused_of_choice hreads hlisted
        (fun hnone => by rw [hfile] at hnone; cases hnone) h
      exact ⟨read, hrefused, heq, hextends, hfiles, hagain⟩

/-! ## A shed with a second start -/

/-- A host with a main source and a source for an interrupt, whose text is given. -/
def shedHost (shed : String) : Host :=
  .ofSources (.ofList [("main", "== start\nHi.\n* [Go]\n"), ("shed", shed)]) fun _ => ""

/-- A world in which the source of the interrupt has a knot, and then one with the name of another.
-/
def shedWorld : World := ⟨shedHost "== shed\nA shed.\n== start\n", 4, 40⟩

/-- An interrupt that needs the source. -/
def shedInterrupt : Interrupt :=
  { id := "ev", kind := .choice, text := "* [Shed] -> shed", file := some "shed" }

/-- The interrupt is refused at the second knot of its source, and keeps the first. -/
theorem addInterrupt_refused_shed : ∃ (s t : Story) (e : StoryError),
    played? shedWorld "main" 0 [] = some s ∧
    addInterrupt shedWorld.host shedInterrupt s = (.error e, t) ∧ t ≠ s ∧
    ∃ read, shedInterrupt.Refused shedWorld.host s.sources read e t.sources ∧
      t = { s with sources := t.sources } ∧ t.content.Extends s.content ∧
      t.sources.files = s.sources.files ++ read ∧
      (t = s ∨ Retries shedWorld.host shedInterrupt t) := by
  have hplayed : (played? shedWorld "main" 0 []).any (fun s =>
      (addInterrupt shedWorld.host shedInterrupt s).1 =
        .error (.parse ⟨"shed", 3, .duplicateId "start"⟩) ∧
      (addInterrupt shedWorld.host shedInterrupt s).2 ≠ s) = true := by
    decide +kernel
  obtain ⟨s, hs, hplayed⟩ := (Option.any_eq_true _ _).1 hplayed
  obtain ⟨herror, hchanged⟩ := of_decide_eq_true hplayed
  have hadd : addInterrupt shedWorld.host shedInterrupt s = (.error _, _) := Prod.ext herror rfl
  have hreachable : Reachable shedWorld.host "main" (fun _ => True) s :=
    reachable_of_played? (fun _ _ => trivial) hs
  exact ⟨s, _, _, hs, hadd, hchanged, addInterrupt_refused hreachable hadd⟩

/-- The knot in front of the fault stays in the story, and it refuses the source from then on, also
when the fault is mended; the story from before the attempt accepts it. -/
theorem refused_source_leaves_node : ∃ s t : Story,
    played? shedWorld "main" 0 [] = some s ∧
    addInterrupt shedWorld.host shedInterrupt s =
      (.error (.parse ⟨"shed", 3, .duplicateId "start"⟩), t) ∧
    s.content.find? "shed" = none ∧ (t.content.find? "shed").isSome = true ∧
    (addInterrupt (shedHost "== shed\nA shed.\n") shedInterrupt t).1 =
      .error (.parse ⟨"shed", 1, .duplicateId "shed"⟩) ∧
    (addInterrupt (shedHost "== shed\nA shed.\n") shedInterrupt s).1 = .ok () := by
  have hplayed : (played? shedWorld "main" 0 []).any (fun s =>
      (addInterrupt shedWorld.host shedInterrupt s).1 =
        .error (.parse ⟨"shed", 3, .duplicateId "start"⟩) ∧
      s.content.find? "shed" = none ∧
      ((addInterrupt shedWorld.host shedInterrupt s).2.content.find? "shed").isSome = true ∧
      (addInterrupt (shedHost "== shed\nA shed.\n") shedInterrupt
          (addInterrupt shedWorld.host shedInterrupt s).2).1 =
        .error (.parse ⟨"shed", 1, .duplicateId "shed"⟩) ∧
      (addInterrupt (shedHost "== shed\nA shed.\n") shedInterrupt s).1 = .ok ()) = true := by
    decide +kernel
  obtain ⟨s, hs, hplayed⟩ := (Option.any_eq_true _ _).1 hplayed
  obtain ⟨herror, hfree, htaken, hblocked, haccepted⟩ := of_decide_eq_true hplayed
  exact ⟨s, _, hs, Prod.ext herror rfl, hfree, htaken, hblocked, haccepted⟩

end Story

end Narrative
