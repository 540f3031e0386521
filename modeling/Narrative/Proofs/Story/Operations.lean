import Narrative.Proofs.Source.Arena
import Narrative.Proofs.Story.Reachable
import Narrative.SavedGame.Restore

/-!
# What play does to content

A story is loaded into content that is read piece by piece. Whatever is done with the story after
that, its nodes stay what they were: only an interrupt and a saved game have more read, and what
they have read is filed behind the nodes that were there.
-/

namespace Narrative

/-! ## Content that is filled further -/

namespace Content

variable {c d e : Content}

/-- Content that was made from other content by further readings. -/
def Fills (c d : Content) : Prop :=
  ∃ more, d = c.fill more

/-- Content is made from itself by no reading. -/
theorem Fills.refl (c : Content) : c.Fills c := ⟨[], rfl⟩

/-- Readings follow each other. -/
theorem Fills.trans (h : c.Fills d) (h' : d.Fills e) : c.Fills e := by
  obtain ⟨more, rfl⟩ := h
  obtain ⟨rest, rfl⟩ := h'
  exact ⟨more ++ rest, (fill_append c more rest).symm⟩

/-- One reading fills content further. -/
theorem fills_after (c : Content) (r : Reading) : c.Fills (c.after r) := ⟨[r], rfl⟩

/-- A reading leaves the nodes that were there alone. -/
theorem extends_after {choices : List NodeId} (h : c.Filed choices) (r : Reading) :
    (c.after r).Extends c := by
  cases r with
  | source file text => exact (h.grown.read (r := (c.read file text).1) rfl).2.1
  | choice line id file => exact (h.grown.readDetached (r := (c.readDetached line id file).1) rfl).2

/-- Further readings leave the nodes that were there alone. -/
theorem extends_fill {choices : List NodeId} (h : c.Filed choices) (more : List Reading) :
    (c.fill more).Extends c := by
  induction more generalizing c choices with
  | nil => exact .refl c
  | cons r rest ih => exact (ih (h.after r)).trans (extends_after h r)

end Content

namespace Sources

variable {host : Host} {main file : String} {s : Sources}

/-- Loading files fills the content further. -/
theorem fills_loadPending (budget : Nat) (pending : List String) (start : Option NodeId) :
    s.content.Fills (loadPending host main budget pending start s).2.content := by
  fun_induction loadPending host main budget pending start s with
  | case1 => exact .refl _
  | case2 pending start s file rest _ budget text _ e content hread =>
    have h := s.content.fills_after (.source file text.toList)
    rwa [Content.after, hread] at h
  | case3 pending start s file rest _ budget text _ source content hread ih =>
    have h := s.content.fills_after (.source file text.toList)
    rw [Content.after, hread] at h
    exact h.trans ih
  | case4 => exact .refl _

/-- Loading a file with what it includes fills the content further. -/
theorem fills_load : s.content.Fills (s.load host file).2.content :=
  fills_loadPending ..

/-- Asking for a file, which may be there already, fills the content further. -/
theorem fills_require : s.content.Fills (s.require host file).2.content := by
  have h : s.content.Fills (s.load host file).2.content := fills_load
  unfold require
  split
  · exact .refl _
  · split
    · next hload => rwa [hload] at h
    · next hload => rwa [hload] at h

/-- The content of a loaded story was made from none. -/
theorem fills_ofMain {start : NodeId} (h : ofMain host main = .ok (start, s)) :
    ({} : Content).Fills s.content := by
  have hload : ({} : Content).Fills (({} : Sources).load host main).2.content :=
    fills_load (s := {})
  unfold ofMain at h
  split at h
  · cases h
  · cases h
  · next heq =>
    cases h
    rwa [heq] at hload

end Sources

/-! ## What is done with a story -/

/-- What can be done with a story that was loaded. -/
inductive Operation where
  /-- To do what a host asks for. -/
  | perform (action : Action)
  /-- To play up to the next choice or the end. -/
  | advanceAll
  /-- To show a pending choice. -/
  | pendingText (index : Nat)
  /-- To evaluate an expression. -/
  | evaluate (source : String)
  /-- To start the dice again. -/
  | reseed (seed : Nat)
  /-- To restore a saved game. -/
  | restore (g : SavedGame)

/-- Whether an operation may read sources or choices. -/
def Operation.reads : Operation → Bool
  | perform action => !action.isUndisturbed
  | restore _ => true
  | _ => false

namespace Story

/-- The story after an operation, also when it failed. -/
def operate (w : World) : Operation → Story → Option Story
  | .perform action, s => (perform w action s).map (·.2)
  | .advanceAll, s => (advanceAll w s).map (·.2)
  | .pendingText index, s => (pendingText? w index s).map (·.2)
  | .evaluate source, s => (evaluate w source s).map (·.2)
  | .reseed seed, s => some (s.reseed seed)
  | .restore g, s => some (restore w.host g s).2

variable {w : World} {s t : Story}

/-- What a host asked for was performed with some answer. -/
theorem perform_of_operate {action : Action} (h : operate w (.perform action) s = some t) :
    ∃ answer, perform w action s = some (answer, t) := by
  obtain ⟨⟨answer, u⟩, hperform, rfl⟩ := Option.map_eq_some_iff.1 h
  exact ⟨answer, hperform⟩

/-- Telling a text leaves the content. -/
theorem content_record (s : Story) (text : String) : (s.record text).content = s.content := by
  rw [record_eq]
  rfl

/-- An advance leaves the content. -/
theorem content_eq_of_advance {r : Except StoryError String} (h : advance w s = some (r, t)) :
    t.content = s.content := by
  have hled : s.Led anywhere w .advance := led_anywhere w .advance s
  obtain ⟨u, hmoves, rfl | ⟨text, rfl⟩⟩ := moves_of_advance hled h
  · exact hmoves.content_eq
  · rw [content_record, hmoves.content_eq]

/-- What advancing does once, playing on does step after step. -/
theorem related_of_advanceWithin {R : Story → Story → Prop} (hrefl : ∀ s, R s s)
    (htrans : ∀ {s t u}, R s t → R t u → R s u)
    (hadvance : ∀ {s t r}, advance w s = some (r, t) → R s t) {steps : Nat}
    {r : Except StoryError (List String)} (h : advanceWithin w steps s = some (r, t)) : R s t := by
  induction steps generalizing s r with
  | zero => cases h
  | succ steps ih =>
    rw [advanceWithin, Attempt.get_bind_apply] at h
    split at h
    · cases r with
      | error e =>
        obtain hfirst | ⟨text, u, hfirst, hrest⟩ := Attempt.bind_eq_error.1 h
        · exact hadvance hfirst
        · obtain hrest | ⟨_, _, _, hend⟩ := Attempt.bind_eq_error.1 hrest
          · exact htrans (hadvance hfirst) (ih hrest)
          · cases hend
      | ok texts =>
        obtain ⟨text, u, hfirst, hrest⟩ := Attempt.bind_eq_ok.1 h
        obtain ⟨rest, v, hrest, hend⟩ := Attempt.bind_eq_ok.1 hrest
        cases hend
        exact htrans (hadvance hfirst) (ih hrest)
    · cases h
      exact hrefl _

/-- Several advances leave the content. -/
theorem content_eq_of_advanceWithin {steps : Nat} {r : Except StoryError (List String)}
    (h : advanceWithin w steps s = some (r, t)) : t.content = s.content :=
  related_of_advanceWithin (R := fun s t => t.content = s.content) (fun _ => rfl)
    (fun h h' => h'.trans h) content_eq_of_advance h

/-- Asking for an action reads nothing unless it adds an interrupt. -/
theorem content_eq_of_perform {action : Action} {answer : Answer}
    (hreads : action.isUndisturbed = true) (h : perform w action s = some (answer, t)) :
    t.content = s.content := by
  obtain ⟨r, -, -, hadvance⟩ | ⟨index, r, -, -, hchoose⟩ | ⟨i, r, rfl, -, -⟩ | ⟨hthinks, -⟩ :=
    perform_eq_some h
  · exact content_eq_of_advance hadvance
  · have hmoves : s.Moves anywhere t := plays_choose (fun _ _ => trivial) _ _ hchoose
    exact hmoves.content_eq
  · cases hreads
  · exact hthinks.content_eq

/-- Showing a pending choice is thinking. -/
theorem thinks_of_pendingText? {index : Nat} {r : Option String}
    (h : pendingText? w index s = some (r, t)) : s.Thinks t := by
  rw [pendingText?, Run.get_bind_apply] at h
  cases hchoice : s.choices[index]? with
  | none =>
    simp only [hchoice] at h
    cases h
    exact .refl
  | some i =>
    simp only [hchoice] at h
    obtain ⟨text, u, hshown, hend⟩ := Run.bind_eq_some.1 h
    cases hend
    exact plays_shownText w _ s _ _ hshown

/-- An operation that reads nothing leaves the content. -/
theorem content_eq_of_operate {o : Operation} (hreads : o.reads = false)
    (h : operate w o s = some t) : t.content = s.content := by
  cases o with
  | perform action =>
    obtain ⟨answer, hperform⟩ := perform_of_operate h
    exact content_eq_of_perform (by simpa [Operation.reads] using hreads) hperform
  | advanceAll =>
    obtain ⟨⟨r, u⟩, hadvance, rfl⟩ := Option.map_eq_some_iff.1 h
    exact content_eq_of_advanceWithin hadvance
  | pendingText index =>
    obtain ⟨⟨r, u⟩, hshown, rfl⟩ := Option.map_eq_some_iff.1 h
    exact (thinks_of_pendingText? hshown).content_eq
  | evaluate source =>
    obtain ⟨⟨r, u⟩, hvalue, rfl⟩ := Option.map_eq_some_iff.1 h
    have hthinks : s.Thinks u := plays_evaluate w source s _ _ hvalue
    exact hthinks.content_eq
  | reseed seed =>
    rw [← Option.some.inj h, reseed, content, content]
  | restore g => cases hreads

/-! ## Operations that read -/

/-- Putting an interrupt over the story fills the content further. -/
theorem fills_overlay (i : Interrupt) (s : Story) : s.content.Fills (overlay i s).2.content := by
  have h := s.content.fills_after (.choice i.text.toList i.id (i.file.getD "interrupt"))
  rw [Content.after] at h
  unfold overlay
  split
  · split <;> next hread => rwa [hread] at h
  · exact .refl _

/-- Adding an interrupt fills the content further, also when it is refused. -/
theorem fills_addInterrupt (host : Host) (i : Interrupt) (s : Story) :
    s.content.Fills (addInterrupt host i s).2.content := by
  unfold addInterrupt
  split
  · exact fills_overlay i s
  · next file _ =>
    have h : s.content.Fills (s.sources.require host file).2.content := Sources.fills_require
    split
    · next hrequire => rwa [hrequire] at h
    · next hrequire =>
      rw [hrequire] at h
      exact h.trans (fills_overlay i _)

/-- Wherever restoring ends, the content was filled further. -/
def FillsBy {α : Type} (x : Restoring α) (s : Story) : Prop :=
  s.content.Fills (x s).2.content

section Rules

variable {α β : Type} {x : Restoring α} {f : α → Restoring β}

/-- An error leaves the content. -/
theorem fillsBy_throw (e : StoryError) (s : Story) : FillsBy (throw e : Restoring α) s :=
  .refl _

/-- Two parts of restoring fill the content further. -/
theorem FillsBy.bind (hx : FillsBy x s) (hf : ∀ a t, FillsBy (f a) t) : FillsBy (x >>= f) s := by
  unfold FillsBy at hx
  rw [FillsBy, Trial.bind_apply]
  cases hrun : x s with
  | mk r t =>
    rw [hrun] at hx
    cases r with
    | error e => exact hx
    | ok a => exact hx.trans (hf a t)

/-- Restoring may look at the story first. -/
theorem fillsBy_get {k : Story → Restoring β} (hk : FillsBy (k s) s) : FillsBy (get >>= k) s := hk

/-- The story may be exchanged for one whose content was filled further. -/
theorem fillsBy_set {k : PUnit → Restoring β} (ht : s.content.Fills t.content)
    (hk : FillsBy (k ⟨⟩) t) : FillsBy (set t >>= k) s :=
  ht.trans hk

/-- The story may be changed where its content stays. -/
theorem fillsBy_modify {g : Story → Story} {k : Unit → Restoring β}
    (hg : (g s).content = s.content) (hk : FillsBy (k ()) (g s)) :
    FillsBy (modify g >>= k) s :=
  fillsBy_set (hg ▸ .refl _) hk

end Rules

/-- The files of a saved game fill the content further. -/
theorem fillsBy_requireFiles (host : Host) (files : List String) (s : Story) :
    FillsBy (requireFiles host files) s := by
  induction files generalizing s with
  | nil => exact .refl _
  | cons file rest ih =>
    refine fillsBy_get (fillsBy_set (t := { s with sources := _ }) Sources.fills_require ?_)
    split
    · exact ih _
    · exact fillsBy_throw _ _

/-- Restoring the marks leaves the content as it is. -/
theorem fillsBy_restoreMarks (host : Host) (entries : List (String × SavedNode)) (s : Story) :
    FillsBy (restoreMarks host entries) s := by
  induction entries generalizing s with
  | nil => exact .refl _
  | cons e rest ih =>
    refine fillsBy_get ?_
    split
    · exact ih s
    · split
      · exact fillsBy_throw _ s
      · exact fillsBy_set (.refl _) (ih _)

/-- Restoring the cursor does, too. -/
theorem fillsBy_restoreCursor (container : Option String) (index : Nat) (s : Story) :
    FillsBy (restoreCursor container index) s := by
  refine fillsBy_get ?_
  split
  · exact .refl _
  · split <;> exact .refl _

/-- Restoring the choices does, too. -/
theorem fillsBy_restoreChoices (ids : List String) (s : Story) :
    FillsBy (restoreChoices ids) s := by
  induction ids generalizing s with
  | nil => exact .refl _
  | cons id rest ih =>
    refine fillsBy_get ?_
    split
    · exact fillsBy_throw _ s
    · split
      · exact fillsBy_set (.refl _) (ih _)
      · exact fillsBy_throw _ s

/-- Restoring the variables does, too. -/
theorem fillsBy_restoreGlobals (host : Host) (entries : List (String × SavedValue)) (s : Story) :
    FillsBy (restoreGlobals host entries) s := by
  induction entries generalizing s with
  | nil => exact .refl _
  | cons e rest ih =>
    rw [restoreGlobals]
    split
    · exact fillsBy_throw _ s
    · exact fillsBy_modify rfl (ih _)

/-- Restoring a saved game reads the sources that are missing and nothing else. -/
theorem fills_restore (host : Host) (g : SavedGame) (s : Story) :
    s.content.Fills (restore host g s).2.content := by
  refine FillsBy.bind (fillsBy_requireFiles host g.files s) fun _ s => fillsBy_modify rfl ?_
  refine FillsBy.bind (fillsBy_restoreMarks host _ _) fun _ s => ?_
  refine FillsBy.bind (fillsBy_restoreCursor _ _ s) fun _ s => fillsBy_modify rfl ?_
  refine FillsBy.bind (fillsBy_restoreChoices _ _) fun _ s => fillsBy_modify rfl ?_
  exact FillsBy.bind (fillsBy_restoreGlobals host _ _) fun _ s => .refl _

/-- Every operation fills the content further, if it changes it at all. -/
theorem fills_operate {o : Operation} (h : operate w o s = some t) :
    s.content.Fills t.content := by
  cases hreads : o.reads with
  | false => exact content_eq_of_operate hreads h ▸ .refl _
  | true =>
    cases o with
    | perform action =>
      obtain ⟨answer, hperform⟩ := perform_of_operate h
      cases action with
      | addInterrupt i =>
        cases hperform
        exact fills_addInterrupt w.host i s
      | _ => cases hreads
    | restore g =>
      cases h
      exact fills_restore w.host g s
    | _ => cases hreads

/-- A story that was loaded has content that was read piece by piece. -/
theorem filled_of_load {main : String} {seed : Nat} (h : load w main seed = some (.ok s)) :
    ∃ readings, s.content = Content.filled readings := by
  obtain ⟨start, sources, hmain, hsettle⟩ := settle_of_load h
  have hmoves : Moves anywhere _ _ := plays_settle _ _ _ _ hsettle
  obtain ⟨readings, hfilled⟩ := Sources.fills_ofMain hmain
  exact ⟨readings, hmoves.content_eq.trans hfilled⟩

/-- Whatever is read piece by piece makes an arena, also where reading fails. Loaded stories have
such content, and no operation changes a node of it: most operations leave the content as it is, and
those that read file what they read behind the nodes that are there. -/
theorem arena_filled_and_node_operate :
    (∀ readings, (Content.filled readings).Arena (({} : Content).detached readings)) ∧
    (∀ (w : World) (main : String) (seed : Nat) (s : Story), load w main seed = some (.ok s) →
      ∃ readings, s.content = Content.filled readings) ∧
    ∀ (w : World) (o : Operation) (s t : Story) (readings : List Reading),
      s.content = Content.filled readings → operate w o s = some t →
        (o.reads = false → t.content = s.content) ∧
        (∃ more, t.content = Content.filled (readings ++ more)) ∧
        ∀ i : Nat, i < s.content.size → t.node i = s.node i := by
  refine ⟨fun readings => (Content.filed_filled readings).arena,
    fun w main seed s => filled_of_load, fun w o s t readings hs h => ?_⟩
  refine ⟨fun hreads => content_eq_of_operate hreads h, ?_⟩
  obtain ⟨more, hmore⟩ := fills_operate h
  rw [hs] at hmore
  refine ⟨⟨more, hmore.trans (Content.fill_append _ readings more).symm⟩, fun i hi => ?_⟩
  have hextends := Content.extends_fill (Content.filed_filled readings) more
  rw [← hmore, ← hs] at hextends
  exact hextends.node_eq hi

/-- A world with one source, in which a choice holds a block and a gather. -/
def quayWorld : World :=
  ⟨.ofSources (.ofList [("quay", "== quay\nA quay.\n* [Wait]\n" ++
    "\x7b 1:\nFog.\n- else:\nSun.\n\x7d\n- - A boat comes.\n")]) fun _ => "", 4, 40⟩

/-- Offers a choice at the quay. -/
def offerSwim : Operation :=
  .perform (.addInterrupt { id := "swim", kind := .choice, text := "* [Swim] Cold." })

/-- A choice is added to the story of the quay, whose nodes stay what they were. -/
theorem arena_filled_and_node_operate_quay : ∃ (s t : Story) (readings : List Reading),
    load quayWorld "quay" 0 = some (.ok s) ∧ operate quayWorld offerSwim s = some t ∧
    s.content.size = 8 ∧ t.content.size = 10 ∧ s.content = Content.filled readings ∧
    (Content.filled readings).Arena (({} : Content).detached readings) ∧
    (∃ more, t.content = Content.filled (readings ++ more)) ∧
    ∀ i : Nat, i < s.content.size → t.node i = s.node i := by
  have hrun : ((load quayWorld "quay" 0).bind (·.toOption)).any (fun s => s.content.size = 8 ∧
      (operate quayWorld offerSwim s).any fun t => t.content.size = 10) = true := by
    decide +kernel
  obtain ⟨s, hload, hrun⟩ := (Option.any_eq_true _ _).1 hrun
  simp only [Bool.decide_and, Bool.and_eq_true, decide_eq_true_eq] at hrun
  obtain ⟨hsize, hrun⟩ := hrun
  obtain ⟨t, hoperate, hsize'⟩ := (Option.any_eq_true _ _).1 hrun
  obtain ⟨_ | s', hload, hok⟩ := Option.bind_eq_some_iff.1 hload
  · cases hok
  · cases hok
    obtain ⟨readings, hs⟩ := arena_filled_and_node_operate.2.1 quayWorld "quay" 0 s hload
    obtain ⟨-, hmore, hnode⟩ :=
      arena_filled_and_node_operate.2.2 quayWorld offerSwim s t readings hs hoperate
    exact ⟨s, t, readings, hload, hoperate, hsize, of_decide_eq_true hsize', hs,
      arena_filled_and_node_operate.1 readings, hmore, hnode⟩

end Story

end Narrative
