import Narrative.Proofs.Directive.Expansion
import Narrative.Proofs.Source.Versions
import Narrative.Proofs.Story.Retelling

/-!
# Versions of a story

Comments for the author do not change the story. Two versions of its sources that are the same without
such comments tell the player the same, whichever choices are taken, where no comment stands at a
place at which it is missed: reading the sources looks for what begins a block and for what there is
in the first knot, and play looks for a stitch at the beginning of a knot and for glue behind a text.
-/

namespace Narrative

/-! ## Names in flat texts -/

namespace Directive

variable {Q : List Char → Prop}

/-- The search for an opening brace goes past a text without one. -/
theorem asksBefore_append {cs : List Char} (h : '\x7b' ∉ cs) (left right : List Char) :
    AsksBefore Q (cs.reverse ++ left) right ↔ AsksBefore Q left (cs ++ right) := by
  induction cs generalizing left with
  | nil => exact .rfl
  | cons c cs ih =>
    obtain ⟨hc, hcs⟩ := not_or.1 (mt List.mem_cons.2 h)
    rw [List.reverse_cons, List.append_assoc, ih hcs, List.singleton_append, AsksBefore,
      if_neg (Ne.symm hc)]
    rfl

/-- What is asked for in front of some pieces is asked for by all of them. -/
theorem asksBefore_of_joined {pieces : List (List Char × List Char)}
    (h : ∀ p ∈ pieces, Braceless p.1 ∧ Braceless p.2 ∧ ∀ source ∈ (ofChars p.1).source?, Q source)
    {lead : List Char} (hlead : '\x7b' ∉ lead) (left right : List Char)
    (hleft : ∀ right, AsksBefore Q left right) :
    AsksBefore Q ((joined lead (pieces.map fun p => (braced p.1, p.2))).reverse ++ left) right := by
  induction pieces generalizing lead left with
  | nil =>
    rw [List.map_nil, joined_nil, asksBefore_append hlead]
    exact hleft _
  | cons p pieces ih =>
    obtain ⟨⟨⟨hopen, hclose⟩, hbehind, hasks⟩, hpieces⟩ := List.forall_mem_cons.1 h
    rw [List.map_cons, joined_cons, List.reverse_append, List.append_assoc]
    refine ih hpieces hbehind.1 _ fun right => ?_
    have hskip : '\x7b' ∉ p.1 ++ ['\x7d'] := by
      rw [List.mem_append]
      exact not_or.2 ⟨hopen, by decide⟩
    rw [List.reverse_append, List.append_assoc, braced, List.reverse_cons, List.append_assoc,
      asksBefore_append hskip, List.singleton_append, AsksBefore, if_pos rfl, List.append_assoc,
      List.singleton_append, Text.cut?_append hclose]
    refine ⟨hasks, fun shown _ => ?_⟩
    rw [asksBefore_append hlead]
    exact hleft _

/-- A flat text asks what its directives ask. -/
theorem asks_joined {lead : List Char} {pieces : List (List Char × List Char)}
    (hlead : Braceless lead)
    (hpieces : ∀ p ∈ pieces, Braceless p.1 ∧ Braceless p.2 ∧
      ∀ source ∈ (ofChars p.1).source?, Q source) :
    Asks Q (joined lead (pieces.map fun p => (braced p.1, p.2))) := by
  have hasks := asksBefore_of_joined hpieces hlead.1 [] [] fun _ => trivial
  rwa [List.append_nil] at hasks

/-- A text without braces asks for nothing. -/
theorem asks_of_braceless {text : List Char} (h : Braceless text) : Asks Q text := by
  have hnone := asksBefore_of_joined (Q := Q) (List.forall_mem_nil _) h.1 [] [] fun _ => trivial
  rwa [List.map_nil, joined_nil, List.append_nil] at hnone

end Directive

/-! ## Versions -/

/-- What is read from sources with comments for the author, where none of these is missed. -/
structure Sources.Annotated (w : World) (main : String) (start : NodeId) (sources : Sources) :
    Prop where
  /-- The sources are read. -/
  read : ofMain w.host main = .ok (start, sources)
  /-- No name that is declared in them is a position. -/
  proper : ∀ x ∈ ({} : Content).declarationsIn (sources.files.map w.host.sourceOf), IsProper x.name
  /-- No comment begins an option of a block. -/
  discreet : ({} : Content).areDiscreetIn (sources.files.map w.host.sourceOf) = true
  /-- The knot at which the story starts has more than comments in it, or nothing at all. -/
  opens : (sources.content.node start).children.all sources.content.isComment = true →
    (sources.content.node start).children = []
  /-- Every position comes before the one beyond all. -/
  bounded : sources.content.size < beyondAll
  /-- Play misses no comment. -/
  omissible : sources.content.Omissible sources.content.isComment

namespace Sources.Annotated

open Story

variable {w : World} {main : String} {seed start start₀ : Nat} {sources plain : Sources}
  {indices : List Nat} {stops : List Stop} {p q : Story}

/-- What is read with the comments holds a copy of what is read without them. -/
theorem copies (h : sources.Annotated w main start)
    (hplain : ofMain w.uncommented.host main = .ok (start₀, plain)) :
    (sources.without sources.content.isComment).content.Copies sources.content.kept plain.content ∧
      start = sources.content.kept start₀ := by
  obtain ⟨hannotates, hstart, -⟩ :=
    annotates_ofMain h.read hplain h.proper h.discreet h.opens
  have hgrown := (grown_ofMain h.read).1
  have hgrown' := (grown_ofMain hplain).1
  exact ⟨hannotates.copies hgrown.sound hgrown.tree hgrown'.sound hgrown'.tree, hstart⟩

/-- Played from one choice to the next, a story tells the player with its comments what it tells
without them. -/
theorem playThrough (h : sources.Annotated w main start)
    (hload : Story.load w.uncommented main seed = some (.ok p)) (hportable : p.content.IsPortable)
    (hrun : Story.playThrough w.uncommented indices p = some (stops, q)) :
    ∃ s t told n, Story.load w main seed = some (.ok s) ∧
      (∀ steps ≥ n, Story.playThrough (w.within steps) indices s = some (told, t)) ∧
      List.Forall₂ Stop.Agrees stops told ∧ t.memory.globals = q.memory.globals ∧
      t.background = q.background := by
  obtain ⟨start₀, plain, hplain, hsettle⟩ := settle_of_load hload
  obtain ⟨hcopies, rfl⟩ := h.copies hplain
  have hmoves : (atStart plain start₀ seed).Moves anywhere p := plays_settle _ _ _ _ hsettle
  have hcontent : p.content = plain.content := hmoves.content_eq
  have hretelling : Retelling sources.content.kept w w.uncommented
      (sources.without sources.content.isComment).content plain.content :=
    ⟨hcopies, hcontent ▸ hportable, rfl, rfl, rfl, rfl⟩
  obtain ⟨_, s', hstart, -, hs'⟩ := hretelling.repeats_settle _ _
    (Retelling.retells_atStart hcopies start₀ seed) _ _ hsettle
  obtain ⟨told, t', hplay, hagrees, ht'⟩ := hretelling.repeats_playThrough indices _ _ hs' _ _ hrun
  obtain ⟨s, t, n, hloaded, hplays, j, transcript, -, -, rfl⟩ :=
    playThrough_without h.read h.bounded h.omissible hstart hplay
  exact ⟨s, t, told, n, hloaded, hplays, hagrees, ht'.memory.globals, ht'.background⟩

end Sources.Annotated

namespace Story

variable {w w' : World} {main : String} {seed start start' : Nat} {sources sources' : Sources}
  {indices : List Nat} {stops told told' : List Stop}
  {p q : Story}

/-- Players who meet the same as a third one meet the same. -/
theorem agrees_of_agrees (h : List.Forall₂ Stop.Agrees stops told)
    (h' : List.Forall₂ Stop.Agrees stops told') : List.Forall₂ Stop.Agrees told told' := by
  induction h generalizing told' with
  | nil =>
    cases h'
    exact .nil
  | cons hstop _ ih =>
    cases h' with
    | cons hstop' hrest =>
      exact .cons ⟨hstop.outcome.symm.trans hstop'.outcome,
        hstop.transcript.symm.trans hstop'.transcript, hstop.choices.symm.trans hstop'.choices,
        hstop.isEnded.symm.trans hstop'.isEnded⟩ (ih hrest)

/-- Two versions of a story that differ in their comments for the author tell the player the same,
whichever choices are taken: the texts shown, the texts of the pending choices and the end are the
same at each choice, and so are the variables and the background behind the last one. No expression
and no divert names a position, no comment is missed where the sources are read or played, and
without the comments play comes to the last choice. -/
theorem playThrough_versions (hversions : w.uncommented = w'.uncommented)
    (h : sources.Annotated w main start) (h' : sources'.Annotated w' main start')
    (hload : load w.uncommented main seed = some (.ok p)) (hportable : p.content.IsPortable)
    (hrun : playThrough w.uncommented indices p = some (stops, q)) :
    ∃ s s' t t' told told' n,
      load w main seed = some (.ok s) ∧ load w' main seed = some (.ok s') ∧
      (∀ steps ≥ n, playThrough (w.within steps) indices s = some (told, t) ∧
        playThrough (w'.within steps) indices s' = some (told', t')) ∧
      List.Forall₂ Stop.Agrees told told' ∧ t.memory.globals = t'.memory.globals ∧
      t.background = t'.background := by
  obtain ⟨s, t, told, n, hs, ht, hagrees, hglobals, hbackground⟩ :=
    h.playThrough hload hportable hrun
  rw [hversions] at hload hrun
  obtain ⟨s', t', told', n', hs', ht', hagrees', hglobals', hbackground'⟩ :=
    h'.playThrough hload hportable hrun
  refine ⟨s, s', t, t', told, told', max n n', hs, hs', fun steps hsteps => ?_,
    agrees_of_agrees hagrees hagrees', hglobals.trans hglobals'.symm,
    hbackground.trans hbackground'.symm⟩
  exact ⟨ht steps (by omega), ht' steps (by omega)⟩

/-- A world with one source. -/
def remarkWorld (talk : String) : World where
  host := .ofSources (.ofList [("talk", talk)]) fun _ => ""
  depth := 4
  steps := 40

/-- A talk with comments after some of its lines. -/
def remarkedTalk : String :=
  "== start\nVAR n = 1 // @+ one\n\x7bn\x7d: hi. // @* hi\n* \x7bn\x7d [Go] // @+ go\n" ++
    "On. <> // @* on\nAnd on.\n- -> END\n"

/-- The talk with comments after other lines. -/
def otherTalk : String :=
  "== start // @* begin\nVAR n = 1\n\x7bn\x7d: hi.\n* \x7bn\x7d [Go]\nOn. <>\n" ++
    "And on. // @* on\n- -> END\n"

/-- What is read from a talk has some number of comments, none of which is missed. -/
theorem annotated_talk (talk : String) (n : Nat) (h :
    (Sources.ofMain (remarkWorld talk).host "talk").toOption.any (fun (start, sources) =>
      (List.range sources.content.size).countP sources.content.isComment = n ∧
      (∀ x ∈ ({} : Content).declarationsIn (sources.files.map (remarkWorld talk).host.sourceOf),
        IsProper x.name) ∧
      ({} : Content).areDiscreetIn (sources.files.map (remarkWorld talk).host.sourceOf) = true ∧
      (sources.content.node start).children.all sources.content.isComment = false ∧
      sources.content.size < beyondAll ∧
      ∀ i < sources.content.size,
        (sources.content.isComment i = true → (sources.content.node i).parent.all
          (fun b => !(sources.content.node b).isBlock) = true) ∧
        ((sources.content.node i).isKnot = true →
          ((sources.content.node i).children.filter (!sources.content.isComment ·)).head?.all
            (fun j => !(sources.content.node j).isStitch ||
              (sources.content.node i).children.head? == some j) = true) ∧
        startsWithGlue (sources.content.node i).text = false) = true) :
    ∃ (start : NodeId) (sources : Sources), sources.Annotated (remarkWorld talk) "talk" start ∧
      (List.range sources.content.size).countP sources.content.isComment = n := by
  obtain ⟨⟨start, sources⟩, hsources, hchecked⟩ := (Option.any_eq_true _ _).1 h
  obtain ⟨hcomments, hproper, hdiscreet, hopens, hbounded, hmissed⟩ := of_decide_eq_true hchecked
  refine ⟨start, sources, ⟨?_, hproper, hdiscreet, fun hall => ?_, hbounded,
    omissible_isComment hmissed⟩, hcomments⟩
  · cases hofMain : Sources.ofMain (remarkWorld talk).host "talk" with
    | error e => rw [hofMain] at hsources; cases hsources
    | ok r => rw [hofMain] at hsources; cases hsources; rfl
  · rw [hopens] at hall
    cases hall

/-- A choice is taken in a talk with four comments as in the talk with two others. -/
theorem playThrough_versions_talk : ∃ (start start' : NodeId) (sources sources' : Sources)
    (p q : Story) (stops : List Stop),
    (remarkWorld remarkedTalk).uncommented = (remarkWorld otherTalk).uncommented ∧
    sources.Annotated (remarkWorld remarkedTalk) "talk" start ∧
    (List.range sources.content.size).countP sources.content.isComment = 4 ∧
    sources'.Annotated (remarkWorld otherTalk) "talk" start' ∧
    (List.range sources'.content.size).countP sources'.content.isComment = 2 ∧
    load (remarkWorld remarkedTalk).uncommented "talk" 0 = some (.ok p) ∧ p.content.IsPortable ∧
    playThrough (remarkWorld remarkedTalk).uncommented [0] p = some (stops, q) ∧
    q.transcript = ["1: hi.", "On. And on."] ∧
    ∃ s s' t t' told told' n,
      load (remarkWorld remarkedTalk) "talk" 0 = some (.ok s) ∧
      load (remarkWorld otherTalk) "talk" 0 = some (.ok s') ∧
      (∀ steps ≥ n, playThrough ((remarkWorld remarkedTalk).within steps) [0] s = some (told, t) ∧
        playThrough ((remarkWorld otherTalk).within steps) [0] s' = some (told', t')) ∧
      List.Forall₂ Stop.Agrees told told' ∧ t.memory.globals = t'.memory.globals ∧
      t.background = t'.background := by
  have hversions : (remarkWorld remarkedTalk).uncommented = (remarkWorld otherTalk).uncommented := by
    have hsources : (remarkWorld remarkedTalk).uncommented.host.sources =
        (remarkWorld otherTalk).uncommented.host.sources := by
      decide +kernel
    exact congrArg (fun sources : NameMap String =>
      ({ host := .ofSources sources fun _ => "", depth := 4, steps := 40 } : World)) hsources
  obtain ⟨start, sources, hannotated, hfour⟩ :=
    annotated_talk remarkedTalk 4 (by decide +kernel)
  obtain ⟨start', sources', hannotated', htwo⟩ :=
    annotated_talk otherTalk 2 (by decide +kernel)
  have hplayed : (load (remarkWorld remarkedTalk).uncommented "talk" 0).any (fun r =>
      r.toOption.any fun p =>
        (∀ i < p.content.size,
          (Directive.Braceless (p.content.node i).text.toList ∨
            (p.content.node i).text = "\x7bn\x7d: hi.") ∧
          (p.content.node i).kind.IsPortable p.content ∧
          ∀ target ∈ (p.content.node i).divertTarget?,
            Unnumbered (String.ofList (splitCall target).1) ∧
              ∀ arg ∈ (splitCall target).2, Token.Mentions Placeless arg) ∧
        (playThrough (remarkWorld remarkedTalk).uncommented [0] p).any fun (_, q) =>
          q.transcript = ["1: hi.", "On. And on."]) = true := by
    decide +kernel
  obtain ⟨r, hload, hr⟩ := (Option.any_eq_true _ _).1 hplayed
  obtain ⟨p, hp, hchecked⟩ := (Option.any_eq_true _ _).1 hr
  obtain ⟨hportable, hplays⟩ := of_decide_eq_true hchecked
  obtain ⟨⟨stops, q⟩, hrun, htranscript⟩ := (Option.any_eq_true _ _).1 hplays
  have hloaded : load (remarkWorld remarkedTalk).uncommented "talk" 0 = some (.ok p) := by
    cases r with
    | error e => cases hp
    | ok p' =>
      cases hp
      exact hload
  have hasks : Directive.Asks (Token.Mentions Placeless) (Directive.joined []
      ([("n".toList, ": hi.".toList)].map fun p => (Directive.braced p.1, p.2))) :=
    Directive.asks_joined (by decide) (by decide +kernel)
  have hnames : p.content.IsPortable := fun i hi => by
    obtain ⟨htext, hkind, hdivert⟩ := hportable i hi
    refine ⟨?_, hkind, hdivert⟩
    obtain hplain | htext := htext
    · exact Directive.asks_of_braceless hplain
    · rw [htext]
      exact hasks
  exact ⟨start, start', sources, sources', p, q, stops, hversions, hannotated, hfour, hannotated',
    htwo, hloaded, hnames, hrun, of_decide_eq_true htranscript,
    playThrough_versions hversions hannotated hannotated' hloaded hnames hrun⟩

/-- A comment after a line keeps the text before it from being joined to the glue behind it. -/
theorem comment_parts_text :
    let told (talk : String) := (load (remarkWorld talk) "talk" 0).bind fun r =>
      r.toOption.bind fun s => (playThrough (remarkWorld talk) [] s).map fun r =>
        r.1.map (·.transcript)
    told "== start\nHello // @* note\n<> world.\n" = some [["Hello", "world."]] ∧
      told "== start\nHello\n<> world.\n" = some [["Hello world."]] := by
  decide +kernel

end Story

end Narrative
