import Narrative.Proofs.Story.Events
import Narrative.Proofs.Story.Operations

/-!
# Asking does not disturb play

Expressions, texts and conditions are evaluated while a story is played and whenever a host asks. They
may call functions, which change variables, parameters and visits. Play itself is not disturbed: all
that can change is the memory, and there nothing but what is in the bodies of functions that were
called.
-/

namespace Narrative

/-- What can be asked about a story, with the kind of the answer. -/
inductive Inquiry : Type → Type where
  /-- What the value of an expression is. -/
  | value (source : String) : Inquiry (Except ExprError Value)
  /-- How a text reads on the visit with the given number of earlier ones. -/
  | text (count : Nat) (source : String) : Inquiry (List Char)
  /-- Whether all conditions hold. -/
  | guards (conditions : List String) : Inquiry Bool
  /-- Which option of a block would be played. -/
  | option (mode : BlockMode) (options : List BlockOption) (count : Nat) : Inquiry Nat
  /-- Whether a choice would be offered. -/
  | available (i : NodeId) : Inquiry Bool
  /-- How a pending choice reads. -/
  | pendingText (index : Nat) : Inquiry (Option String)
  /-- How the pending choices read. -/
  | pendingTexts : Inquiry (List String)

namespace Story

variable {α : Type} {w : World}

/-- Answers what is asked about a story. -/
def inquire (w : World) : {α : Type} → Inquiry α → Run Story α
  | _, .value source => evaluate w source
  | _, .text count source => think w fun _ ctx => Directive.expand ctx count source.toList
  | _, .guards conditions => think w fun _ ctx => ctx.allHold conditions
  | _, .option mode options count => think w fun _ ctx => ctx.chooseOption mode options count
  | _, .available i => isAvailable w i
  | _, .pendingText index => pendingText? w index
  | _, .pendingTexts => Story.pendingTexts w

/-! ## What asking does -/

/-- A story that differs by what events in the bodies of called functions make of the memory. -/
def Muses (w : World) (s t : Story) : Prop :=
  ∃ log m, Unfolds w.host s.content none s.memory log m ∧ t = { s with memory := m }

/-- Nothing need happen. -/
theorem Muses.refl (w : World) (s : Story) : s.Muses w s :=
  ⟨[], s.memory, .start, rfl⟩

/-- Events follow each other. -/
theorem Muses.trans {s t u : Story} (h : s.Muses w t) (h' : t.Muses w u) : s.Muses w u := by
  obtain ⟨log, m, hfirst, rfl⟩ := h
  obtain ⟨more, m', hrest, rfl⟩ := h'
  exact ⟨log ++ more, m', hfirst.trans hrest, rfl⟩

/-- The computations that do nothing to a story but what events make of its memory. -/
def musing (w : World) : Discipline Story :=
  .along (Muses w) (Muses.refl w) fun _ _ _ => Muses.trans

/-- Whatever is asked of the context for expressions leaves the story but for events. -/
theorem musing_think {f : Stage → Context Memory → Run Memory α}
    (hf : ∀ (s : Story) (ctx : Context Memory),
      ctx.Obeys (unfolding w.host s.content none) →
        (unfolding w.host s.content none).Allows (f (s.stage w.host) ctx)) :
    (musing w).Allows (think w f) := by
  intro s a t h
  obtain ⟨m, hrun, rfl⟩ := think_eq_some h
  obtain ⟨log, hlog⟩ := hf s _ (unfolding_context (s.stage w.host) w.depth none) _ _ _ hrun
  exact ⟨log, m, hlog, rfl⟩

/-- Reading the story is musing. -/
theorem musing_get {k : Story → Run Story α} (hk : ∀ s, (musing w).Allows (k s)) :
    (musing w).Allows (do k (← get)) :=
  Discipline.consult (g := id) (Discipline.along_reads id) (fun _ _ h => congrArg k h) hk

/-- Finding out whether a choice is available is musing. -/
theorem musing_isAvailable (w : World) (i : NodeId) : (musing w).Allows (isAvailable w i) := by
  refine musing_get fun s => ?_
  split
  · split
    · exact (musing w).pure _
    · exact musing_think fun _ _ hctx => hctx.allHold _
  · exact (musing w).pure _

/-- Finding the text of a node is musing. -/
theorem musing_shownText (w : World) (i : NodeId) : (musing w).Allows (shownText w i) :=
  musing_get fun _ => Discipline.returning (musing_think fun _ _ hctx => hctx.expand _ _) _

/-- Finding the texts of choices is musing. -/
theorem musing_choiceTexts (w : World) (is : List NodeId) :
    (musing w).Allows (choiceTexts w is) := by
  induction is with
  | nil => exact (musing w).pure _
  | cons i rest ih =>
    exact (musing w).bind (musing_shownText w i) fun _ => Discipline.returning ih _

/-- Whatever is asked, answering is musing. -/
theorem musing_inquire (w : World) (q : Inquiry α) : (musing w).Allows (inquire w q) := by
  cases q with
  | value source =>
    exact musing_think (f := fun _ ctx => (ctx.evalText source.toList).run)
      fun _ _ hctx => hctx.evalText _
  | text count source =>
    exact musing_think (f := fun _ ctx => Directive.expand ctx count source.toList)
      fun _ _ hctx => hctx.expand _ _
  | guards conditions =>
    exact musing_think (f := fun _ ctx => ctx.allHold conditions) fun _ _ hctx => hctx.allHold _
  | option mode options count =>
    exact musing_think (f := fun _ ctx => ctx.chooseOption mode options count)
      fun _ _ hctx => hctx.chooseOption _ _ _
  | available i => exact musing_isAvailable w i
  | pendingText index =>
    refine musing_get fun s => ?_
    split
    · exact (musing w).pure _
    · exact Discipline.returning (musing_shownText w _) _
  | pendingTexts => exact musing_get fun s => musing_choiceTexts w s.choices

/-- What is asked changes only the marks of nodes in the bodies of functions, and these functions have
been called. Parameters change only where they belong to such a function, and options only in blocks.
-/
theorem Muses.called_of_mark_ne {s t : Story} (hs : s.content.Tree) (h : s.Muses w t) {i : NodeId}
    (hi : t.memory.mark i ≠ s.memory.mark i) :
    (∃ f ∈ s.content.lineage i, (s.node f).isFunction = true ∧
      (s.memory.mark f).visits < (t.memory.mark f).visits) ∧
    ((s.node i).isFunction = false → (t.memory.mark i).scope = (s.memory.mark i).scope) ∧
    ((s.node i).isBlock = false → (t.memory.mark i).selection = (s.memory.mark i).selection) := by
  obtain ⟨log, m, hlog, rfl⟩ := h
  rw [hlog.mark_eq hs] at hi ⊢
  refine ⟨?_, fun hplain => Event.foldl_remark_congr
    (fun e he => Event.scope_remark (hlog.fits he) hplain) _, fun hplain =>
      Event.foldl_remark_congr (fun e he => Event.selection_remark (hlog.fits he) hplain) _⟩
  obtain ⟨e, he, rfl⟩ := Event.exists_of_foldl_remark_ne hi
  obtain ⟨f, hbody, -⟩ | ⟨f, args, hcall, hmem⟩ := hlog.inside hs he
  · cases hbody
  · refine ⟨f, hmem, (hlog.fits hcall).1, ?_⟩
    rw [hlog.visits_eq]
    exact Nat.lt_add_of_pos_right (List.countP_pos_iff.2 ⟨_, hcall, beq_self_eq_true f⟩)

/-! ## Stories that are reached -/

/-- A story that was loaded from a file of a host and then played, asked, restored or otherwise
operated on, each time perhaps in vain, or that is in the midst of being played. -/
inductive Attained (host : Host) (main : String) : Story → Prop
  /-- It has just been loaded. -/
  | load {w : World} {seed : Nat} {s : Story} :
      w.host = host → load w main seed = some (.ok s) → Attained host main s
  /-- Something was done with it. -/
  | operate {w : World} {o : Operation} {s t : Story} :
      Attained host main s → w.host = host → operate w o s = some t → Attained host main t
  /-- It is in the midst of being played. -/
  | move {s t : Story} : Attained host main s → s.Move anywhere t → Attained host main t

/-- The content of a story that was attained was read piece by piece. -/
theorem Attained.filled {host : Host} {main : String} {s : Story} (h : Attained host main s) :
    ∃ readings, s.content = Content.filled readings := by
  induction h with
  | load _ hload => exact filled_of_load hload
  | operate _ _ hoperate ih =>
    obtain ⟨readings, hs⟩ := ih
    obtain ⟨more, hmore⟩ := fills_operate hoperate
    rw [hs] at hmore
    exact ⟨readings ++ more, hmore.trans (Content.fill_append _ readings more).symm⟩
  | move _ hmove ih => exact (Moves.content_eq (.single hmove)).symm ▸ ih

/-- The content of a story that was attained is a tree. -/
theorem Attained.tree {host : Host} {main : String} {s : Story} (h : Attained host main s) :
    s.content.Tree := by
  obtain ⟨readings, hs⟩ := h.filled
  exact hs ▸ (Content.filed_filled readings).grown.tree

/-- Whatever is asked about a story, and whether it can be answered or not, everything but the memory
stays as it is: the cursor, the pending choices, the comments, the transcript, the background, the
flags, the interrupts and the content with its files. In the memory only marks in the bodies of
functions that were called change, where parameters change for such functions only and options for
blocks only. -/
theorem Attained.play_unchanged {host : Host} {main : String} {s t : Story}
    (h : Attained host main s) {q : Inquiry α} {a : α} (hask : inquire w q s = some (a, t)) :
    t = { s with memory := t.memory } ∧
    ∀ i, t.memory.mark i ≠ s.memory.mark i →
      (∃ f ∈ s.content.lineage i, (s.node f).isFunction = true ∧
        (s.memory.mark f).visits < (t.memory.mark f).visits) ∧
      ((s.node i).isFunction = false → (t.memory.mark i).scope = (s.memory.mark i).scope) ∧
      ((s.node i).isBlock = false →
        (t.memory.mark i).selection = (s.memory.mark i).selection) := by
  have hmuses : s.Muses w t := musing_inquire w q s a t hask
  refine ⟨?_, fun i => hmuses.called_of_mark_ne h.tree⟩
  obtain ⟨log, m, -, rfl⟩ := hmuses
  rfl

/-- A world with a source in which a function changes a variable and its parameter and then says
something. -/
def fairWorld : World :=
  ⟨.ofSources (.ofList [("fair", "== start\nVAR seen = 0\nHi \x7bnote(1)\x7d.\n* [Go] Gone.\n" ++
    "== function note(n)\n\x7b\n- n > 0:\n~ seen = seen + n\n~ n = n + 1\n" ++
    "Noted \x7bn\x7d.\n\x7d\n")]) fun _ => "", 4, 40⟩

/-- An expression that calls this function and fails then leaves a text in it visited and nothing else
in play changed. -/
theorem play_unchanged_fair : ∃ (s t : Story) (e : ExprError) (i : NodeId),
    Attained fairWorld.host "fair" s ∧
    inquire fairWorld (.value "note(1) * 2") s = some (.error e, t) ∧
    s.content.find? "note.0.0.2" = some i ∧ t.memory.mark i ≠ s.memory.mark i ∧
    t = { s with memory := t.memory } ∧ ∃ f ∈ s.content.lineage i, (s.node f).isFunction = true ∧
      (s.memory.mark f).visits < (t.memory.mark f).visits := by
  have hplayed : ((load fairWorld "fair" 0).bind (·.toOption)).any (fun s =>
      (operate fairWorld (.perform .advance) s).any fun s =>
        (s.content.find? "note.0.0.2").any fun i =>
          (inquire fairWorld (.value "note(1) * 2") s).any fun r =>
            r.1.toOption = none ∧ r.2.memory.mark i ≠ s.memory.mark i) = true := by
    decide +kernel
  obtain ⟨s₀, hload, hplayed⟩ := (Option.any_eq_true _ _).1 hplayed
  obtain ⟨s, hadvance, hplayed⟩ := (Option.any_eq_true _ _).1 hplayed
  obtain ⟨i, hi, hplayed⟩ := (Option.any_eq_true _ _).1 hplayed
  obtain ⟨⟨r, t⟩, hask, hplayed⟩ := (Option.any_eq_true _ _).1 hplayed
  obtain ⟨hfails, hchanged⟩ := of_decide_eq_true hplayed
  obtain ⟨_ | s₁, hload, hok⟩ := Option.bind_eq_some_iff.1 hload
  · cases hok
  cases hok
  cases r with
  | ok v => cases hfails
  | error e =>
    have hs : Attained fairWorld.host "fair" s := .operate (.load rfl hload) rfl hadvance
    obtain ⟨heq, hmarks⟩ := Attained.play_unchanged hs hask
    exact ⟨s, t, e, i, hs, hask, hi, hchanged, heq, (hmarks i hchanged).1⟩

end Story

end Narrative
