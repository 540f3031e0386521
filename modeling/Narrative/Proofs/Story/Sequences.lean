import Narrative.Proofs.SavedGame.Carrying
import Narrative.Proofs.Story.Counts
import Narrative.Proofs.Story.Showings

/-!
# Sequences in whole runs

In a run a story is loaded, is asked for things one after another, and may be saved and restored, also
into a story that was loaded or played since. A line of text and a block are followed through a run by
their id. What they show is written down, and since a saved game carries the visits over, each visit
is given the number of all those before it.
-/

namespace Narrative

open Showing

namespace Operation

/-- Whether an operation restores a saved game. -/
def restores : Operation → Bool
  | restore _ => true
  | _ => false

/-- Apart from restoring a saved game only adding an interrupt reads more. -/
theorem reads_or_addInterrupt {o : Operation} (h : o.restores = false) :
    o.reads = false ∨ ∃ k, o = perform (.addInterrupt k) := by
  cases o with
  | perform action =>
    cases action with
    | addInterrupt k => exact .inr ⟨k, rfl⟩
    | _ => exact .inl rfl
  | restore g => cases h
  | _ => exact .inl rfl

end Operation

namespace Content

/-- Whether what has the id, if anything, is a block, or else a line of text. -/
def Sequential (c : Content) (id : String) (block : Bool) : Prop :=
  ∀ i ∈ c.find? id, (c.node i).isSequential = true ∧ (c.node i).isBlock = block

/-- What the node with an id shows while one memory becomes another. -/
def Tells (c : Content) (id : String) (m : Memory) (log : List Showing) (m' : Memory) : Prop :=
  match c.find? id with
  | none => log = []
  | some i => m.Shows c i log m'

variable {c : Content} {id : String} {block : Bool} {m m' : Memory} {log : List Showing}

/-- What a node shows is what is shown at its id. -/
theorem tells_iff {i : NodeId} (hi : c.find? id = some i) :
    c.Tells id m log m' ↔ m.Shows c i log m' := by
  rw [Tells, hi]

/-- Nothing is shown where the marks of the node stay. -/
theorem tells_nil (h : ∀ i, Memory.Keeps i m m') : c.Tells id m [] m' := by
  unfold Tells
  cases c.find? id with
  | none => rfl
  | some i => exact .quiet (h i)

/-- What happens meanwhile to lines and blocks is told of the one with the id. -/
theorem exists_tells (hid : c.Sequential id block)
    (h : ∀ i, (c.node i).isSequential = true → ∃ log, m.Shows c i log m') :
    ∃ log, c.Tells id m log m' := by
  unfold Tells
  cases hfind : c.find? id with
  | none => exact ⟨[], rfl⟩
  | some i => exact h i (hid i hfind).1

end Content

namespace Story

variable {w : World} {host : Host} {s t u : Story} {i j : NodeId} {id : String} {block : Bool}
  {log more : List Showing}

/-! ## Play shows -/

/-- A story that came from another one with the same nodes while a line or block has shown
something. -/
def Unfolds (s : Story) (i : NodeId) (t : Story) : Prop :=
  t.content = s.content ∧
    ((s.node i).isSequential = true → ∃ log, s.memory.Shows s.content i log t.memory)

/-- Entering a container shows what its block shows. -/
theorem shows_of_enter {a : Unit} (hi : (s.node i).isSequential = true)
    (hj : j = i → (s.node i).isBlock = true) (h : enter w j s = some (a, t)) :
    ∃ log, s.memory.Shows s.content i log t.memory := by
  obtain ⟨_, u, hselect, hmove⟩ := Run.bind_eq_some.1 h
  cases hmove
  obtain ⟨m, hrun, rfl⟩ := think_eq_some hselect
  exact Memory.shows_of_selectOption rfl (Memory.showing_context hi rfl _) hj hrun

/-- A sequence that is no block is a text. -/
theorem kind_eq_text {n : Node} (hn : n.isSequential = true) (hblock : n.isBlock = false) :
    n.kind = .text := by
  unfold Node.isSequential at hn
  unfold Node.isBlock at hblock
  cases hkind : n.kind <;> simp_all

/-- Whatever play does, lines and blocks show something meanwhile. -/
theorem tracks_unfolds (w : World) (i : NodeId) : Tracks w fun s t => s.Unfolds i t where
  refl _ := ⟨rfl, fun _ => ⟨[], .quiet ⟨rfl, rfl⟩⟩⟩
  trans {s t u} h h' := by
    refine ⟨h'.1.trans h.1, fun hi => ?_⟩
    obtain ⟨log, hlog⟩ := h.2 hi
    obtain ⟨more, hmore⟩ := h'.2 (by rw [node, h.1]; exact hi)
    exact ⟨log ++ more, hlog.seq (h.1 ▸ hmore)⟩
  still hsources _ hmemory := by
    refine ⟨congrArg Sources.content hsources, fun _ => ⟨[], .quiet ?_⟩⟩
    exact Memory.keeps_of_marks (congrArg Memory.marks hmemory)
  remember hspares := ⟨rfl, fun hi => ⟨[], .quiet (hspares.keeps hi)⟩⟩
  think hf h := by
    obtain ⟨m, hrun, rfl⟩ := think_eq_some h
    refine ⟨rfl, fun hi => ?_⟩
    exact hf (Memory.showing _ i) _ _ (Memory.showing_executes _)
      (Memory.showing_context hi rfl _) _ _ _ hrun
  enter {j s t a} hj h := by
    constructor
    · obtain ⟨_, _, -, -, rfl⟩ := enter_eq_some h
      rfl
    · intro hi
      refine shows_of_enter hi (fun hji => ?_) h
      subst hji
      by_contra hblock
      have htext := kind_eq_text hi (Bool.eq_false_iff.2 hblock)
      rw [Node.isContainer, htext] at hj
      cases hj
  stray {j name s t u a} hj hreferred hcontent h henter := by
    have hu : u.content = t.content := by
      obtain ⟨_, _, -, -, rfl⟩ := enter_eq_some henter
      rfl
    refine ⟨hu.trans hcontent, fun hi => ?_⟩
    obtain ⟨log, hlog⟩ := h.2 hi
    have hblock : (s.node j).isBlock = false := by
      by_contra hblock
      rw [Node.isContainer_of_isBlock (Bool.not_eq_false _ ▸ hblock)] at hj
      cases hj
    by_cases hji : j = i
    · subst hji
      rw [enter_of_not_block (by rw [node, hcontent]; exact hblock)] at henter
      cases henter
      exact ⟨_, .enter rfl (kind_eq_text hi hblock) hreferred hlog⟩
    · have hi' : (t.node i).isSequential = true := by
        rw [node, hcontent]
        exact hi
      obtain ⟨more, hmore⟩ := shows_of_enter hi' (fun h => absurd h hji) henter
      exact ⟨log ++ more, hlog.seq (hcontent ▸ hmore)⟩
  utter {j s t r} hkind h := by
    by_cases hdivert : (s.node j).isDivert = true
    · rw [resolve_of_isDivert hdivert] at h
      cases h
      exact ⟨rfl, fun _ => ⟨[], .quiet ⟨rfl, rfl⟩⟩⟩
    · rw [resolve_of_text hkind (Bool.eq_false_iff.2 hdivert)] at h
      obtain ⟨⟨text, u⟩, hthink, heq⟩ := Option.map_eq_some_iff.1 h
      obtain ⟨m, hexpand, rfl⟩ := think_eq_some hthink
      cases heq
      refine ⟨rfl, fun hi => ?_⟩
      obtain ⟨inner, hinner⟩ := (Memory.showing_context hi rfl _).expand _ _ _ _ _ hexpand
      by_cases hji : j = i
      · subst hji
        exact ⟨_, .play hkind hexpand hinner⟩
      · exact ⟨_, hinner.seq (.quiet (Memory.keeps_visit hji))⟩

/-- A story in the midst of being played, as the pieces of play have left it one after another. -/
inductive Midst (w : World) (s : Story) : Story → Prop
  /-- Nothing was played yet. -/
  | start : Midst w s s
  /-- A choice is taken. -/
  | take {i : NodeId} : i ∈ s.choices → Midst w s (s.take i)
  /-- The cursor makes a move toward rest, which may enter blocks, gathers and choices. -/
  | settle {t u : Story} {again : Bool} :
      Midst w s t → settleOnce w t = some (again, u) → Midst w s u
  /-- A node is played. -/
  | play {t u : Story} {i : NodeId} {r : Except StoryError (List Char)} :
      Midst w s t → resolve w i t = some (r, u) → Midst w s u
  /-- The cursor moves past the node. -/
  | pass {t : Story} (i : NodeId) : Midst w s t → Midst w s (t.pass i)
  /-- A divert is looked up, and its arguments are evaluated. -/
  | redirect {t u : Story} {n : Node} {r : Except StoryError (Option (NodeId × List Value))} :
      Midst w s t → takeDivert w n t = some (r, u) → Midst w s u
  /-- A divert is followed, and its target entered. -/
  | divert {t u v : Story} {n : Node} {i : NodeId} {args : List Value}
      {r : Except StoryError Unit} : Midst w s t →
      takeDivert w n t = some (.ok (some (i, args)), u) → enterWith w i args u = some (r, v) →
      Midst w s v
  /-- The pending choices are dropped. -/
  | drop {t : Story} : Midst w s t → Midst w s { t with choices := [] }

/-- Collecting comments shows nothing. -/
theorem unfolds_comments (i : NodeId) (s : Story) (comments : List NodeId) :
    s.Unfolds i { s with comments } :=
  ⟨rfl, fun _ => ⟨[], .quiet ⟨rfl, rfl⟩⟩⟩

/-- In the midst of being played, too, lines and blocks have shown something meanwhile. -/
theorem Midst.unfolds (h : Midst w s t) (hchoices : ∀ j ∈ s.choices, (s.node j).isChoice = true)
    (i : NodeId) : s.Unfolds i t := by
  have htracks := tracks_unfolds w i
  induction h with
  | start => exact htracks.refl _
  | @take j hj =>
    have hvisit : s.Unfolds i { s with memory := s.memory.visit j } :=
      htracks.remember (.visit_choice (hchoices j hj))
    exact htracks.trans hvisit (htracks.still rfl rfl rfl)
  | settle _ hsettle ih => exact htracks.trans ih (htracks.tracking_settleOnce _ _ _ hsettle)
  | @play t u j r _ hresolve ih =>
    refine htracks.trans ih ?_
    cases hj : (t.node j).isComment with
    | false => exact htracks.of_resolve hj hresolve
    | true =>
      rw [resolve_of_isComment hj] at hresolve
      cases hresolve
      rw [addComment_eq]
      exact unfolds_comments i t _
  | @pass t j _ ih =>
    refine htracks.trans ih ?_
    unfold Story.pass
    split <;> exact htracks.still rfl rfl rfl
  | redirect _ htake ih => exact htracks.trans ih (htracks.tracking_takeDivert _ _ _ _ htake)
  | divert _ htake henter ih => exact htracks.trans ih (htracks.of_divert htake henter)
  | drop _ ih => exact htracks.trans ih (htracks.still rfl rfl rfl)

/-! ## Runs -/

/-- A story stays sound whatever is done with it, apart from restoring a saved game of which nothing
is known. -/
theorem Sound.operate {o : Operation} (hs : s.Sound) (hgame : o.restores = false)
    (h : operate w o s = some t) : t.Sound := by
  have hadvance {s t : Story} {r : Except StoryError String} (h : advance w s = some (r, t))
      (hs : s.Sound) : t.Sound := by
    have hperform : perform w .advance s = some (.text r, t) := Run.bind_eq_some.2 ⟨r, t, h, rfl⟩
    exact (kept_sound anywhere).perform hs (led_anywhere _ _ _) hperform
  have hthought {u : Story} (h : s.Thinks u) : u.Sound :=
    (kept_sound anywhere).moves hs h.moves
  cases o with
  | perform action =>
    obtain ⟨answer, hperform⟩ := perform_of_operate h
    exact (kept_sound anywhere).perform hs (led_anywhere _ _ _) hperform
  | advanceAll =>
    obtain ⟨⟨r, u⟩, hrun, rfl⟩ := Option.map_eq_some_iff.1 h
    exact related_of_advanceWithin (R := fun s t => s.Sound → t.Sound) (fun _ hs => hs)
      (fun h h' hs => h' (h hs)) hadvance hrun hs
  | pendingText index =>
    obtain ⟨⟨r, u⟩, hshown, rfl⟩ := Option.map_eq_some_iff.1 h
    exact hthought (thinks_of_pendingText? hshown)
  | evaluate source =>
    obtain ⟨⟨r, u⟩, hvalue, rfl⟩ := Option.map_eq_some_iff.1 h
    exact hthought (plays_evaluate w source s _ _ hvalue)
  | reseed seed =>
    cases h
    exact hs.think (hs.memory.of_marks rfl)
  | restore g => cases hgame

/-- Whatever is done with a story, apart from restoring a saved game, its nodes stay. -/
theorem extends_of_operate {o : Operation} (hs : s.Sound) (hgame : o.restores = false)
    (h : operate w o s = some t) : t.content.Extends s.content := by
  obtain hreads | ⟨k, rfl⟩ := Operation.reads_or_addInterrupt hgame
  · exact content_eq_of_operate hreads h ▸ .refl _
  · obtain ⟨answer, hperform⟩ := perform_of_operate h
    exact (later_of_perform hs hperform).extends_content

/-- Whatever is done with a story, apart from restoring a saved game, lines and blocks show
something meanwhile. -/
theorem shows_of_operate {o : Operation} (hs : s.Sound) (hgame : o.restores = false)
    (h : operate w o s = some t) (hi : (t.node i).isSequential = true) :
    ∃ log, s.memory.Shows t.content i log t.memory := by
  obtain hreads | ⟨k, rfl⟩ := Operation.reads_or_addInterrupt hgame
  · have hsame : t.content = s.content := content_eq_of_operate hreads h
    have hunfolds := (tracks_unfolds w i).of_operate (unfolds_comments i) hreads
      (fun _ => hs.choices) h
    rw [hsame]
    exact hunfolds.2 (by rw [node, ← hsame]; exact hi)
  · obtain ⟨answer, hperform⟩ := perform_of_operate h
    obtain ⟨r, -, hadd⟩ := addInterrupt_of_perform hperform
    have hmemory : t.memory = s.memory := by rw [addInterrupt_eq hadd]
    exact ⟨[], .quiet (Memory.keeps_of_marks (congrArg Memory.marks hmemory))⟩

/-- A run, and what the line or the block with an id has shown in it. -/
inductive Tale (id : String) (block : Bool) : List Showing → Story → Prop
  /-- A story was read and is at its start. -/
  | start {host : Host} {main : String} {start : Nat} {sources : Sources} (seed : Nat) :
      Sources.ofMain host main = .ok (start, sources) → sources.content.Sequential id block →
      Tale id block [] (atStart sources start seed)
  /-- A story is loaded and comes to rest. -/
  | load {w : World} {main : String} {seed : Nat} {log : List Showing} {s : Story} :
      load w main seed = some (.ok s) → s.content.Sequential id block →
      s.content.Tells id {} log s.memory → Tale id block log s
  /-- Something is done with the story. -/
  | operate {w : World} {o : Operation} {log more : List Showing} {s t : Story} :
      Tale id block log s → o.restores = false → operate w o s = some t →
      t.content.Sequential id block → t.content.Tells id s.memory more t.memory →
      Tale id block (log ++ more) t
  /-- The story is saved, and the saved game is restored into a story of this or of another run. What
  that has shown is as if it had not been; what the saved story has shown is lost where nothing has
  the id. -/
  | restore {host : Host} {log other : List Showing} {s t u : Story} :
      Tale id block log s → Tale id block other t → restore host s.save t = (.ok (), u) →
      u.content.Sequential id block →
      Tale id block (if (u.content.find? id).isSome then log else []) u

/-- The story of a tale is sound. -/
theorem Tale.sound (h : Tale id block log s) : s.Sound := by
  induction h with
  | start seed hmain _ =>
    obtain ⟨hgrown, hstart, -⟩ := Sources.grown_ofMain hmain
    exact sound_atStart hgrown hstart seed
  | @load w main _ _ s hload _ _ =>
    have hreached : Reachable w.host main (fun _ => True) s := .load rfl hload
    exact hreached.sound
  | operate _ hgame hoperate _ _ ih => exact ih.operate hgame hoperate
  | restore _ _ hrestore _ _ iht => exact iht.restored hrestore

/-- The node of a tale is a sequence. -/
theorem Tale.sequential (h : Tale id block log s) : s.content.Sequential id block := by
  cases h with
  | start _ _ hid => exact hid
  | load _ hid _ => exact hid
  | operate _ _ _ hid _ => exact hid
  | restore _ _ _ hid => exact hid

/-- Every story that is loaded has a tale. -/
theorem exists_tale_of_load {main : String} {seed : Nat} (h : load w main seed = some (.ok s))
    (hid : s.content.Sequential id block) : ∃ log, Tale id block log s := by
  obtain ⟨start, sources, -, hsettle⟩ := settle_of_load h
  have hshows (i : NodeId) (hi : (s.node i).isSequential = true) :
      ∃ log, Memory.Shows s.content i {} log s.memory := by
    have hunfolds := (tracks_unfolds w i).tracking_settle _ _ _ hsettle
    have hsame : s.content = (atStart sources start seed).content := hunfolds.1
    obtain ⟨log, hlog⟩ := hunfolds.2 (by rw [node, ← hsame]; exact hi)
    rw [hsame]
    have hstart : Memory.Shows (atStart sources start seed).content i {} []
        (atStart sources start seed).memory := .quiet (Memory.keeps_of_marks rfl)
    exact ⟨_, hstart.seq hlog⟩
  obtain ⟨log, hlog⟩ := Content.exists_tells hid hshows
  exact ⟨log, .load h hid hlog⟩

/-- Every tale goes on whatever is done with the story. -/
theorem Tale.exists_operate {o : Operation} (hs : Tale id block log s)
    (hgame : o.restores = false) (h : Story.operate w o s = some t)
    (hid : t.content.Sequential id block) : ∃ more, Tale id block (log ++ more) t := by
  obtain ⟨more, hmore⟩ := Content.exists_tells hid
    fun i hi => shows_of_operate hs.sound hgame h hi
  exact ⟨more, hs.operate hgame h hid hmore⟩

/-! ## What a run remembers of its tale -/

/-- Whether what was written down in a run is what the story remembers. -/
structure Recalls (id : String) (block : Bool) (log : List Showing) (s : Story) : Prop where
  /-- Every visit has shown what its number asks for. -/
  inTurn : AllInTurn 0 log
  /-- Options are chosen by blocks and by nothing else. -/
  isChosen {e : Showing} : e ∈ log → e.isChosen = block
  /-- Every visit is counted once. -/
  count {i : NodeId} : s.content.find? id = some i →
    (s.memory.mark i).count = log.length % Mark.counterRange
  /-- What is not there has shown nothing. -/
  absent : s.content.find? id = none → log = []

/-- What is shown goes on with the numbers of what was written down before. -/
theorem recalls_append {m : Memory} (hid : t.content.Sequential id block)
    (hinTurn : AllInTurn 0 log) (hchosen : ∀ e ∈ log, e.isChosen = block)
    (hmark : ∀ i, t.content.find? id = some i →
      (m.mark i).count = log.length % Mark.counterRange)
    (habsent : t.content.find? id = none → log = [])
    (htells : t.content.Tells id m more t.memory) : Recalls id block (log ++ more) t := by
  unfold Content.Tells at htells
  cases hfind : t.content.find? id with
  | none =>
    simp only [hfind] at htells
    subst htells
    rw [habsent hfind]
    exact ⟨trivial, nofun, by simp [hfind], fun _ => rfl⟩
  | some i =>
    simp only [hfind] at htells
    have hcount := hmark i hfind
    constructor
    case inTurn =>
      refine allInTurn_append.2 ⟨hinTurn, ?_⟩
      rw [Nat.zero_add]
      exact (allInTurn_congr hcount).1 htells.allInTurn
    case isChosen =>
      intro e he
      obtain he | he := List.mem_append.1 he
      · exact hchosen e he
      · exact (htells.isChosen_eq he).trans (hid i hfind).2
    case count =>
      intro j hj
      rw [hfind, Option.some.injEq] at hj
      rw [← hj, Mark.count_add htells.visits_eq, hcount, Nat.mod_add_mod, List.length_append]
    case absent =>
      intro hnone
      rw [hfind] at hnone
      cases hnone

/-- A node that was not there before has not been visited. -/
theorem mark_of_new (hs : s.Sound) (hextends : t.content.Extends s.content)
    (hold : s.content.find? id = none) (hnew : t.content.find? id = some i) :
    s.memory.mark i = {} := by
  apply hs.memory.outside
  by_contra hlt
  have hsize : i < s.content.size := Nat.lt_of_not_le hlt
  apply Content.find?_eq_none hold hsize
  rw [← hextends.node_eq hsize]
  exact (Content.find?_eq_some hnew).2

/-- Whatever is done but restoring adds to what is recalled. -/
theorem Recalls.operate {o : Operation} (h : Recalls id block log s) (hs : s.Sound)
    (hgame : o.restores = false) (hoperate : Story.operate w o s = some t)
    (hid : t.content.Sequential id block) (htells : t.content.Tells id s.memory more t.memory) :
    Recalls id block (log ++ more) t := by
  have hextends := extends_of_operate hs hgame hoperate
  refine recalls_append hid h.inTurn (fun _ => h.isChosen) (fun i hi => ?_) (fun hnone => ?_) htells
  · cases hold : s.content.find? id with
    | none =>
      rw [mark_of_new hs hextends hold hi, h.absent hold]
      rfl
    | some j =>
      rw [hextends.find?_eq_some hold, Option.some.injEq] at hi
      rw [← hi]
      exact h.count hold
  · cases hold : s.content.find? id with
    | none => exact h.absent hold
    | some j =>
      rw [hextends.find?_eq_some hold] at hnone
      cases hnone

/-- A restored game recalls what had been shown when it was saved. -/
theorem Recalls.restore (h : Recalls id block log s) (hs : s.Sound)
    (hrestore : Story.restore host s.save t = (.ok (), u))
    (hid : u.content.Sequential id block) :
    Recalls id block (if (u.content.find? id).isSome then log else []) u := by
  cases hfind : u.content.find? id with
  | none => exact ⟨trivial, nofun, by simp [hfind], fun _ => rfl⟩
  | some i =>
    have hmark : (u.memory.mark i).count = log.length % Mark.counterRange := by
      obtain ⟨hsaved, hunsaved⟩ := count_of_restored hs hrestore hfind
      cases hold : s.content.find? id with
      | none =>
        rw [hunsaved hold, h.absent hold]
        rfl
      | some j => exact (hsaved j hold).trans (h.count hold)
    have htells : u.content.Tells id u.memory [] u.memory :=
      Content.tells_nil fun _ => ⟨rfl, rfl⟩
    have hrecalls := recalls_append hid h.inTurn (fun _ => h.isChosen)
      (fun j hj => by
        rw [hfind, Option.some.injEq] at hj
        rw [← hj]
        exact hmark)
      (fun hnone => by
        rw [hfind] at hnone
        cases hnone)
      htells
    rw [List.append_nil] at hrecalls
    exact hrecalls

/-- A story remembers of its run what was written down. -/
theorem Tale.recalls (h : Tale id block log s) : Recalls id block log s := by
  have hnone : AllInTurn 0 [] := trivial
  induction h with
  | @start host main start sources seed hmain hid =>
    replace hid : (atStart sources start seed).content.Sequential id block := hid
    have htells : (atStart sources start seed).content.Tells id {} []
        (atStart sources start seed).memory :=
      Content.tells_nil fun _ => Memory.keeps_of_marks rfl
    exact recalls_append hid hnone nofun (fun i _ => rfl) (fun _ => rfl) htells
  | load _ hid htells =>
    exact recalls_append hid hnone nofun (fun i _ => rfl) (fun _ => rfl) htells
  | operate hs hgame hoperate hid htells ih => exact ih.operate hs.sound hgame hoperate hid htells
  | restore hs _ hrestore hid ih _ => exact ih.restore hs.sound hrestore hid

/-- In the midst of being played a story remembers of its run what was written down and what it has
shown since. -/
theorem Tale.exists_midst (h : Tale id block log s) (hmidst : Midst w s t) :
    ∃ more, s.content.Tells id s.memory more t.memory ∧ Recalls id block (log ++ more) t := by
  have hunfolds := hmidst.unfolds fun _ => h.sound.choices
  have hsame : t.content = s.content := (hunfolds 0).1
  obtain ⟨more, hmore⟩ := Content.exists_tells h.sequential fun i => (hunfolds i).2
  have hrecalls := h.recalls
  refine ⟨more, hmore, ?_⟩
  rw [← hsame] at hmore
  exact recalls_append (hsame ▸ h.sequential) hrecalls.inTurn (fun _ => hrecalls.isChosen)
    (fun i hi => hrecalls.count (hsame ▸ hi))
    (fun hnone => hrecalls.absent (hsame ▸ hnone)) hmore

/-! ## The next visit -/

/-- Whether a node does at its next visit what is in turn where the counter is at `k`, where play comes to it and
where it is played in the body of a function: a line with a sequence shows the option whose turn it
is, and a block with the mode of a sequence chooses it, or none when nothing is left. -/
structure ActsInTurn (s : Story) (i : NodeId) (k : Nat) : Prop where
  /-- The line is shown in the story, and visited. -/
  shown (w : World) {q : Sequence} : (s.node i).kind = .text → (s.node i).isDivert = false →
    (s.node i).text.toList = q.written →
    resolve w i s = some (.ok (q.shown k), { s with memory := s.memory.visit i })
  /-- The line gives the value of a function, and is visited. -/
  given {stage : Stage} (ctx : Context Memory) (play : NodeId → Act (Option Value)) {m : Memory}
    {q : Sequence} : stage.content = s.content → (m.mark i).count = k → (s.node i).kind = .text →
    (s.node i).text.toList = q.written →
    stage.playLine ctx play i m =
      some (.ok (some (.str (String.ofList (Text.cleanUp (q.shown k))))), m.visit i)
  /-- The option of the block is chosen, and the block is visited: play is in the option then, or in
  nothing when nothing is left. -/
  entered (w : World) {r : Recurrence} {options : List BlockOption} :
    (s.node i).kind = .block r.blockMode options → 0 < options.length →
    ∃ t, enter w i s = some ((), t) ∧ t.container = some i ∧ t.index = 0 ∧
      t.memory =
        (s.memory.select i ((r.turn options.length k).getD options.length)).visit i ∧
      t.children i = (r.turn options.length k).elim [] fun o => (options.getD o default).lines
  /-- The option of the block is chosen, and the block is visited and played. -/
  played {stage : Stage} (ctx : Context Memory) (play : NodeId → Act (Option Value)) {m : Memory}
    {r : Recurrence} {options : List BlockOption} : stage.content = s.content →
    (m.mark i).count = k → (s.node i).kind = .block r.blockMode options → 0 < options.length →
    stage.playLine ctx play i m =
      play i ((m.select i ((r.turn options.length k).getD options.length)).visit i)

/-- The option of a block whose mode is that of a sequence is the one whose turn it is. -/
theorem selectOption_of_recurrence {stage : Stage} (ctx : Context Memory) (m : Memory)
    {r : Recurrence} {options : List BlockOption}
    (hi : (stage.content.node i).kind = .block r.blockMode options) (hoptions : 0 < options.length) :
    stage.selectOption ctx i m =
      some ((), m.select i ((r.turn options.length (m.mark i).count).getD options.length)) := by
  rw [Stage.selectOption]
  simp only [hi]
  rw [Run.get_bind_apply, r.chooseOption_blockMode ctx hoptions]
  rfl

/-- In a block in which the option was chosen whose turn it is, there are the nodes of that option, or
none when nothing is left. -/
theorem childrenAt_of_turn {n : Node} {r : Recurrence} {options : List BlockOption} {k : Nat}
    (hn : n.kind = .block r.blockMode options) (hoptions : 0 < options.length) :
    n.childrenAt ((r.turn options.length k).getD options.length) =
      (r.turn options.length k).elim [] fun o => (options.getD o default).lines := by
  rw [Node.childrenAt, hn]
  cases hturn : r.turn options.length k with
  | none =>
    have hbeyond : options[options.length]? = none := List.getElem?_eq_none (Nat.le_refl _)
    simp only [Option.getD_none, hbeyond]
    rfl
  | some o =>
    have ho : o < options.length := Recurrence.lt_of_turn hoptions hturn
    simp only [Option.getD_some, List.getElem?_eq_getElem ho, Option.elim_some,
      List.getD_eq_getElem?_getD]
    rfl

/-- What is in turn at the next visit of a node is what is in turn after the visits that are
counted. -/
theorem actsInTurn (s : Story) (i : NodeId) : s.ActsInTurn i (s.memory.mark i).count where
  shown w q hi hdivert hwritten := by
    rw [resolve_of_text hi hdivert, hwritten, think]
    simp only [q.expand_written]
    rfl
  given {stage} ctx play m q hcontent hcount hi hwritten := by
    have hnode : stage.content.node i = s.node i := by rw [hcontent, node]
    rw [Stage.playLine, ← hcount]
    simp only [hnode, hi, hwritten, q.expand_written]
    rfl
  entered w r options hi hoptions := by
    generalize hselection :
      (r.turn options.length (s.memory.mark i).count).getD options.length = selection
    have henter : enter w i s =
        some ((), { s with memory := s.memory.select i selection }.moveInto i) := by
      have hselect := @selectOption_of_recurrence i (s.stage w.host)
        ((s.stage w.host).context w.depth) s.memory r options hi hoptions
      rw [hselection] at hselect
      rw [enter, Run.bind_apply, think]
      simp only [hselect]
      rfl
    have hmark : (((s.memory.select i selection).visit i).mark i).selection = selection := by
      rw [Memory.mark_visit, if_pos rfl, Memory.select, Memory.mark_modifyMark, if_pos rfl]
    refine ⟨_, henter, rfl, rfl, rfl, ?_⟩
    change (s.node i).childrenAt (((s.memory.select i selection).visit i).mark i).selection = _
    rw [hmark, ← hselection]
    exact childrenAt_of_turn hi hoptions
  played {stage} ctx play m r options hcontent hcount hi hoptions := by
    have hkind : (stage.content.node i).kind = .block r.blockMode options := by
      rw [hcontent]
      exact hi
    have hselect := selectOption_of_recurrence ctx m hkind hoptions
    rw [Stage.playLine, ← hcount]
    simp only [hkind]
    change ((ExceptT.lift (stage.selectOption ctx i) : Act Unit) >>= fun _ => _) m = _
    rw [Attempt.bind_apply, Attempt.lift_apply, hselect]
    rfl

/-! ## Sequences are in turn -/

/-- A world with a ride that goes round and a wheel beside it. -/
def rideWorld : World :=
  ⟨.ofSources (.ofList [("ride", "== ride\nThe wheel says \x7b&one|two|three\x7d.\n" ++
    "\x7b cycle:\n    - One lap.\n    - Two laps.\n    - Three laps.\n\x7d\n" ++
    "+ [Again] -> ride\n")]) fun _ => "", 4, 60⟩

/-- What the wheel says. -/
def wheel : Sequence where
  recurrence := .cycle
  lead := "The wheel says ".toList
  options := ["one".toList, "two".toList, "three".toList]
  behind := ".".toList
  two_le := by decide
  plain := by
    have h : ∀ o ∈ ["one".toList, "two".toList, "three".toList],
        Directive.Braceless o ∧ '|' ∉ o ∧ ':' ∉ o := by decide
    exact fun {o} ho => h o ho
  unsigned := nofun
  alone := by decide

/-- Content with the wheel and the laps of the ride. -/
structure HasRide (c : Content) : Prop where
  /-- The wheel has an id. -/
  find_wheel : c.find? "ride.0" = some 1
  /-- The wheel is a line of text. -/
  kind_wheel : (c.node 1).kind = .text
  /-- The wheel leads nowhere. -/
  plain_wheel : (c.node 1).isDivert = false
  /-- The wheel is a sequence. -/
  text_wheel : (c.node 1).text.toList = wheel.written
  /-- The laps have an id. -/
  find_laps : c.find? "ride.1" = some 2
  /-- The laps are a block. -/
  kind_laps : (c.node 2).kind =
    .block Recurrence.cycle.blockMode [⟨none, [3]⟩, ⟨none, [4]⟩, ⟨none, [5]⟩]

namespace HasRide

instance (c : Content) : Decidable (HasRide c) :=
  decidable_of_iff
    (c.find? "ride.0" = some 1 ∧ (c.node 1).kind = .text ∧ (c.node 1).isDivert = false ∧
      (c.node 1).text.toList = wheel.written ∧ c.find? "ride.1" = some 2 ∧ (c.node 2).kind =
        .block Recurrence.cycle.blockMode [⟨none, [3]⟩, ⟨none, [4]⟩, ⟨none, [5]⟩])
    ⟨fun ⟨h₁, h₂, h₃, h₄, h₅, h₆⟩ => ⟨h₁, h₂, h₃, h₄, h₅, h₆⟩,
      fun ⟨h₁, h₂, h₃, h₄, h₅, h₆⟩ => ⟨h₁, h₂, h₃, h₄, h₅, h₆⟩⟩

variable {c : Content} (h : HasRide c) {m m' : Memory}

include h

/-- The wheel is a sequence in a text. -/
theorem sequential_wheel : c.Sequential "ride.0" false := by
  intro i hi
  cases h.find_wheel.symm.trans hi
  rw [Node.isSequential, Node.isBlock, h.kind_wheel]
  exact ⟨rfl, rfl⟩

/-- The laps are a sequence in a block. -/
theorem sequential_laps : c.Sequential "ride.1" true := by
  intro i hi
  cases h.find_laps.symm.trans hi
  rw [Node.isSequential, Node.isBlock, h.kind_laps]
  exact ⟨rfl, rfl⟩

/-- The wheel speaks when it is visited. -/
theorem tells_wheel {text : List Char} (ctx : Context Memory)
    (htext : text = wheel.shown (m.mark 1).count) (hvisit : Memory.Keeps 1 (m.visit 1) m') :
    c.Tells "ride.0" m [.shown wheel.written text] m' := by
  have hexpand : Directive.expand ctx (m.mark 1).count (c.node 1).text.toList m =
      some (text, m) := by
    rw [h.text_wheel, wheel.expand_written, htext]
    rfl
  have hshows := Memory.Shows.play h.kind_wheel hexpand (.quiet ⟨rfl, rfl⟩)
  rw [h.text_wheel] at hshows
  exact (Content.tells_iff h.find_wheel).2 (hshows.seq (.quiet hvisit))

/-- The ride goes on to the next lap when it is visited. -/
theorem tells_laps {selection : Nat} (ctx : Context Memory)
    (hselection : selection = (m.mark 2).count % 3)
    (hvisit : Memory.Keeps 2 ((m.select 2 selection).visit 2) m') :
    c.Tells "ride.1" m [.chosen .cycle 3 selection] m' := by
  have hchoose : ctx.chooseOption .cycle [⟨none, [3]⟩, ⟨none, [4]⟩, ⟨none, [5]⟩]
      (m.mark 2).count m = some (selection, m) := by
    rw [hselection]
    rfl
  have hshows := Memory.Shows.choose h.kind_laps hchoose (.quiet ⟨rfl, rfl⟩)
  exact (Content.tells_iff h.find_laps).2 (hshows.seq (.quiet hvisit))

end HasRide

/-- After one round the ride is saved and restored at its start, where another round follows. -/
structure TwoRounds (s t u v x : Story) : Prop where
  /-- The story is loaded. -/
  load : load rideWorld "ride" 0 = some (.ok s)
  /-- It is played up to the choice. -/
  first : operate rideWorld .advanceAll s = some t
  /-- It is saved, and the saved game is restored at the start. -/
  restore : restore rideWorld.host t.save s = (.ok (), u)
  /-- The choice is taken. -/
  choose : operate rideWorld (.perform (.choose 0)) u = some v
  /-- It is played up to the choice again. -/
  second : operate rideWorld .advanceAll v = some x
  /-- The ride is there. -/
  ride : HasRide s.content
  /-- The ride is there after the saved game was restored. -/
  restored : HasRide u.content

namespace TwoRounds

/-- The wheel is visited once in each round, and each time another lap is chosen. -/
theorem exists_rounds : ∃ s t u v x : Story, TwoRounds s t u v x ∧
    (Memory.Keeps 1 {} s.memory ∧ Memory.Keeps 1 (s.memory.visit 1) t.memory ∧
      Memory.Keeps 1 u.memory v.memory ∧ Memory.Keeps 1 (v.memory.visit 1) x.memory) ∧
    Memory.Keeps 2 {} s.memory ∧ Memory.Keeps 2 ((s.memory.select 2 0).visit 2) t.memory ∧
      Memory.Keeps 2 u.memory v.memory ∧
      Memory.Keeps 2 ((v.memory.select 2 1).visit 2) x.memory := by
  have hrun : ((Story.load rideWorld "ride" 0).bind (·.toOption)).any (fun s =>
      (operate rideWorld .advanceAll s).any fun t =>
        (Story.restore rideWorld.host t.save s).1.toOption = some () ∧
        (operate rideWorld (.perform (.choose 0))
            (Story.restore rideWorld.host t.save s).2).any fun v =>
          (operate rideWorld .advanceAll v).any fun x =>
            (HasRide s.content ∧ HasRide (Story.restore rideWorld.host t.save s).2.content) ∧
            (Memory.Keeps 1 {} s.memory ∧ Memory.Keeps 1 (s.memory.visit 1) t.memory ∧
              Memory.Keeps 1 (Story.restore rideWorld.host t.save s).2.memory v.memory ∧
              Memory.Keeps 1 (v.memory.visit 1) x.memory) ∧
            Memory.Keeps 2 {} s.memory ∧ Memory.Keeps 2 ((s.memory.select 2 0).visit 2) t.memory ∧
              Memory.Keeps 2 (Story.restore rideWorld.host t.save s).2.memory v.memory ∧
              Memory.Keeps 2 ((v.memory.select 2 1).visit 2) x.memory) = true := by
    decide +kernel
  obtain ⟨s, hload, hrun⟩ := (Option.any_eq_true _ _).1 hrun
  obtain ⟨r, hload, hok⟩ := Option.bind_eq_some_iff.1 hload
  obtain _ | s' := r
  · cases hok
  cases hok
  obtain ⟨t, hfirst, hrun⟩ := (Option.any_eq_true _ _).1 hrun
  obtain ⟨hdone, hrun⟩ := of_decide_eq_true hrun
  generalize hrestore : Story.restore rideWorld.host t.save s = restored at hdone hrun
  obtain ⟨_ | _, u⟩ := restored
  · cases hdone
  obtain ⟨v, hchoose, hrun⟩ := (Option.any_eq_true _ _).1 hrun
  obtain ⟨x, hsecond, hrun⟩ := (Option.any_eq_true _ _).1 hrun
  obtain ⟨⟨hride, hrestored⟩, hkeeps⟩ := of_decide_eq_true hrun
  exact ⟨s, t, u, v, x, ⟨hload, hfirst, hrestore, hchoose, hsecond, hride, hrestored⟩, hkeeps⟩

variable {s t u v x : Story} (r : TwoRounds s t u v x)

include r

/-- Something that shows itself once in each round. -/
theorem tale {id : String} {block : Bool} {i : NodeId} {e e' : Showing}
    (hs : s.content.Sequential id block) (hu : u.content.Sequential id block)
    (hsi : s.content.find? id = some i) (hui : u.content.find? id = some i)
    (hstart : Memory.Keeps i {} s.memory)
    (hfirst : (s.memory.mark i).count = 0 → s.content.Tells id s.memory [e] t.memory)
    (hkept : Memory.Keeps i u.memory v.memory)
    (hsecond : (v.memory.mark i).count = 1 → u.content.Tells id v.memory [e'] x.memory) :
    Tale id block [e, e'] x := by
  have hct : t.content = s.content := content_eq_of_operate rfl r.first
  have hcv : v.content = u.content := content_eq_of_operate rfl r.choose
  have hcx : x.content = u.content := (content_eq_of_operate rfl r.second).trans hcv
  have hts : Tale id block [] s := .load r.load hs ((Content.tells_iff hsi).2 (.quiet hstart))
  have htt : Tale id block [e] t :=
    hts.operate rfl r.first (hct ▸ hs) (hct ▸ hfirst (hts.recalls.count hsi))
  have htu : Tale id block [e] u := by
    have hresumed := htt.restore hts r.restore hu
    rwa [hui] at hresumed
  have htv : Tale id block [e] v :=
    htu.operate rfl r.choose (hcv ▸ hu) (hcv ▸ (Content.tells_iff hui).2 (.quiet hkept))
  have hcount : (v.memory.mark i).count = 1 := htv.recalls.count (hcv ▸ hui)
  exact htv.operate rfl r.second (hcx ▸ hu) (hcx ▸ hsecond hcount)

end TwoRounds

end Story

end Narrative
