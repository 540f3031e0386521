import Narrative.Proofs.Story.Commentary
import Narrative.Proofs.Story.Operations

/-!
# Playing through with and without comments

A story is played from one choice to the next. What the player meets there is the same without those
comments that play does not miss; but a comment may keep text from being joined to what follows it.
-/

namespace Narrative

/-- What the player meets where play stops. -/
structure Stop where
  /-- The error at which it stopped, if there was one. -/
  outcome : Except StoryError Unit
  /-- The texts shown so far. -/
  transcript : List String
  /-- The texts of the pending choices. -/
  choices : List String
  /-- Whether the story is over. -/
  isEnded : Bool

/-- The sources without the omitted nodes. -/
def Sources.without (omitted : NodeId → Bool) (sources : Sources) : Sources :=
  { sources with content := sources.content.without omitted }

variable {omitted : NodeId → Bool}

/-- What is read from a file hangs under containers. -/
theorem Sources.housed_ofMain {host : Host} {main : String} {start : NodeId} {sources : Sources}
    (h : ofMain host main = .ok (start, sources)) : sources.content.Housed := by
  obtain ⟨readings, hreadings⟩ := fills_ofMain h
  rw [hreadings]
  exact Content.housed_filled readings

namespace Story

/-! ## Stories that interrupts do not disturb -/

section Undisturbed

variable {w : World} {s t : Story} {r : Except StoryError Unit} {m : Telling}

/-- A story to which no interrupt was added, and in which choices are pending only while it was not
led to its end. -/
structure Undisturbed (s : Story) : Prop where
  /-- No interrupt was added. -/
  interrupts : s.interrupts = []
  /-- No choice is pending after the end. -/
  running : s.choices ≠ [] → s.running = true

/-- A move adds no interrupt. -/
theorem Undisturbed.move (h : s.Undisturbed) (hmove : s.Move anywhere t) : t.Undisturbed := by
  cases hmove with
  | thought hthought =>
    cases hthought with
    | fire position i =>
      exact ⟨by simp [Story.fire, h.interrupts], h.running⟩
    | note _ =>
      rw [addComment_eq]
      exact ⟨h.interrupts, h.running⟩
    | _ => exact ⟨h.interrupts, h.running⟩
  | leave _ _ _ =>
    unfold leaveBlock
    split <;> exact ⟨h.interrupts, h.running⟩
  | offer hmore _ _ _ _ _ =>
    rw [hasMore, Bool.and_eq_true_iff, Bool.and_eq_true_iff] at hmore
    unfold Story.pass
    split <;> exact ⟨h.interrupts, fun _ => hmore.1.2⟩
  | finish _ _ => exact ⟨h.interrupts, fun hpending => absurd rfl hpending⟩
  | divert _ _ _ _ _ => exact ⟨h.interrupts, fun hpending => absurd rfl hpending⟩
  | take _ _ => exact ⟨by simp [Story.take, h.interrupts], fun hpending => absurd rfl hpending⟩
  | interpose _ hk _ _ _ _ _ _ =>
    rw [h.interrupts] at hk
    cases hk
  | _ => exact ⟨h.interrupts, h.running⟩

/-- Moves add no interrupt. -/
theorem Undisturbed.moves (h : s.Undisturbed) (hmoves : s.Moves anywhere t) : t.Undisturbed := by
  induction hmoves with
  | refl => exact h
  | tail _ hmove ih => exact ih.move hmove

/-- Telling a text adds no interrupt. -/
theorem Undisturbed.record (h : s.Undisturbed) (text : String) : (s.record text).Undisturbed := by
  rw [record_eq]
  exact ⟨h.interrupts, h.running⟩

/-- Telling a story does not disturb it. -/
theorem Undisturbed.tells (h : s.Undisturbed) (htells : Tells w m s r t) : t.Undisturbed := by
  have hplay {s t : Story} {i : NodeId} {played : Except StoryError (List Char)}
      (hi : s.cursor? = some i) (hmore : s.hasMore = true)
      (hrun : playNode w i s = some (played, t)) : s.Moves anywhere t :=
    plays_playNode hmore hi (fun _ _ => trivial) _ _ hrun
  induction htells with
  | rest _ => exact h
  | begin _ _ ih => exact ih h
  | play hi hmore hrun _ ih => exact ih (h.moves (hplay hi hmore hrun))
  | fail hi hmore hrun => exact h.moves (hplay hi hmore hrun)
  | goOn _ _ ih => exact ih h
  | close _ hcloses _ ih =>
    obtain rfl := (closes_iff h.interrupts).1 hcloses
    exact ih (h.record _)

end Undisturbed

/-! ## From choice to choice -/

/-- Plays all units of text up to the next choice or the end. -/
def playOn (w : World) : Run Story Stop := do
  let outcome ← (advanceAll w).run
  let choices ← pendingTexts w
  let s ← get
  return ⟨outcome.map fun _ => (), s.transcript, choices, s.isEnded⟩

/-- Plays on from one choice to the next, where these are taken in turn. One that is not pending is
passed over. -/
def playThrough (w : World) : List Nat → Run Story (List Stop)
  | [] => do return [← playOn w]
  | index :: rest => do
    let stop ← playOn w
    let _ ← (choose w index).run
    return stop :: (← playThrough w rest)

section PlayThrough

variable {w : World} {s s' t' : Story} {n : Nat}

/-- The choices have the same texts. -/
theorem follows_choiceTexts {k : Nat} {transcript : List String} (h : s.Aligned omitted k)
    (is : List NodeId) :
    Follows omitted transcript (choiceTexts w is) (choiceTexts w is) s k := by
  induction is generalizing s k with
  | nil => exact follows_pure h _
  | cons i rest ih =>
    have hshown : Follows omitted transcript (shownText w i) (shownText w i) s k := by
      refine follows_get ?_
      rw [node_without, Node.text_without]
      exact (follows_expand h _ _).bind fun _ _ _ _ ht => follows_pure ht _
    exact hshown.bind fun _ _ _ _ ht => (ih ht).bind fun _ _ _ _ hu => follows_pure hu _

/-- The pending choices are shown as they are without the comments. -/
theorem Abreast.pendingTexts {texts : List String} (h : s.Abreast omitted s')
    (hrun : pendingTexts w s' = some (texts, t')) :
    ∃ t, pendingTexts w s = some (texts, t) ∧ t.Abreast omitted t' ∧
      t.transcript = s.transcript ∧ t'.transcript = s'.transcript := by
  obtain ⟨j, transcript, hs, haligned, rfl⟩ := h
  obtain ⟨t, l, hshown, rfl, ht⟩ := follows_choiceTexts haligned s.choices texts t' hrun
  have hthinks : s.Thinks t := plays_pendingTexts w s _ _ hshown
  exact ⟨t, hshown, ⟨l, transcript, haligned.not_atOmitted_of_thinks hs hthinks, ht, rfl⟩,
    by rw [hthinks.eq], rfl⟩

/-- Going on to a stop is to advance as far as it goes and to ask for the texts of the choices. -/
theorem playOn_eq_some {stop : Stop} {t : Story} : playOn w s = some (stop, t) ↔
    ∃ texts u choices, advanceAll w s = some (texts, u) ∧ pendingTexts w u = some (choices, t) ∧
      stop = ⟨texts.map fun _ => (), t.transcript, choices, t.isEnded⟩ := by
  constructor
  · intro h
    obtain ⟨texts, u, hadvance, h⟩ := Run.bind_eq_some.1 h
    obtain ⟨choices, v, hpending, h⟩ := Run.bind_eq_some.1 h
    cases h
    exact ⟨texts, u, choices, hadvance, hpending, rfl⟩
  · rintro ⟨texts, u, choices, hadvance, hpending, rfl⟩
    exact Run.bind_eq_some.2 ⟨texts, u, hadvance,
      Run.bind_eq_some.2 ⟨choices, t, hpending, rfl⟩⟩

/-- Play goes on to the same stop with the comments, with any number of steps that is large enough.
-/
theorem Trails.playOn {stop : Stop} (h : Trails omitted w n s s') (hs : s.Undisturbed)
    (htranscript : s.transcript = s'.transcript) (hrun : playOn w s' = some (stop, t')) :
    ∃ t m, (∀ steps ≥ m, playOn (w.within steps) s = some (stop, t)) ∧ t.Abreast omitted t' ∧
      t.Undisturbed ∧ t.transcript = t'.transcript := by
  obtain ⟨texts, u', choices, hadvance, hpending, rfl⟩ := playOn_eq_some.1 hrun
  obtain ⟨u, htells, hu, hsame⟩ :=
    (Keeps.between h htranscript).tells (tells_of_advanceWithin hadvance)
  obtain ⟨m, hm⟩ := htells.within
  obtain ⟨t, hshown, ht, hkept, hkept'⟩ := hu.pendingTexts hpending
  have hsame' : t.transcript = t'.transcript := hkept.trans (hsame.trans hkept'.symm)
  have hthinks : u.Thinks t := plays_pendingTexts w u _ _ hshown
  refine ⟨t, m, fun steps hsteps => ?_, ht, (hs.tells htells).moves hthinks.moves, hsame'⟩
  obtain ⟨texts', hadvance', houtcome⟩ := hm steps hsteps steps hsteps steps hsteps
  refine playOn_eq_some.2 ⟨texts', u, choices, hadvance', ?_, ?_⟩
  · rw [pendingTexts_within]
    exact hshown
  · obtain ⟨j, transcript, -, -, rfl⟩ := ht
    rw [hsame', houtcome]
    rfl

/-- Taking a choice enters the same choice. -/
theorem take_without {k : Nat} {transcript : List String} (s : Story) (choice : NodeId) :
    (s.without omitted k transcript).take choice =
      (s.take choice).without omitted 0 transcript := by
  rw [take, node_without, Node.id_without]
  rfl

/-- A choice that is not pending cannot be taken. -/
theorem choose_of_not_pending {index : Nat} (h : s.choices[index]? = none) :
    choose w index s = some (.error (s.noSuchChoice index), s) := by
  rw [choose, Attempt.get_bind_apply]
  simp only [h]
  rfl

/-- A choice that is pending is taken, and play comes to rest. -/
theorem choose_of_pending {index : Nat} {choice : NodeId} {t : Story}
    (h : s.choices[index]? = some choice) (hsettle : settle w (s.take choice) = some ((), t)) :
    choose w index s = some (.ok (), t) := by
  rw [choose, Attempt.get_bind_apply]
  simp only [h]
  rw [Attempt.modify_bind_apply]
  change (ExceptT.lift (settle w) : Play Unit) (s.take choice) = _
  rw [Attempt.lift_apply, hsettle]
  rfl

/-- The same choice is taken with the comments and without them. -/
theorem Abreast.choose {index : Nat} {r' : Except StoryError Unit} (h : s.Abreast omitted s')
    (hs : s.Undisturbed) (htranscript : s.transcript = s'.transcript)
    (hrun : choose w index s' = some (r', t')) :
    ∃ r t n, choose w index s = some (r, t) ∧ Trails omitted w n t t' ∧
      t.transcript = t'.transcript := by
  have hmoves {x y : Story} {r : Except StoryError Unit}
      (hrun : Story.choose w index x = some (r, y)) : y.transcript = x.transcript := by
    have hmoves : x.Moves anywhere y := plays_choose (fun _ _ => trivial) _ _ hrun
    exact hmoves.steady.transcript
  have hsame := hmoves hrun
  obtain ⟨hnone, -, rfl⟩ | ⟨choice, hchoice, -, hsettle'⟩ := choose_eq_some hrun
  · have hnone' : s.choices[index]? = none := by
      obtain ⟨j, transcript, -, -, rfl⟩ := h
      exact hnone
    exact ⟨_, s, 0, choose_of_not_pending hnone', .level h, htranscript⟩
  · obtain ⟨j, transcript, -, haligned, rfl⟩ := h
    have hchoice' : s.choices[index]? = some choice := hchoice
    have hpending : s.choices ≠ [] := List.ne_nil_of_mem (List.mem_of_getElem? hchoice')
    have htaken : (s.take choice).Aligned omitted 0 :=
      haligned.enter rfl (by simp [take, haligned.interrupts]) rfl
    rw [take_without] at hsettle'
    obtain ⟨t, n, hsettle, htrails⟩ :=
      trails_of_settle htaken (hs.running hpending) rfl hsettle'
    have hchoose := choose_of_pending hchoice' hsettle
    exact ⟨_, t, n, hchoose, htrails, (hmoves hchoose).trans (htranscript.trans hsame.symm)⟩

/-- What the player meets is the same with the comments. -/
theorem Trails.playThrough {indices : List Nat} {stops : List Stop} (h : Trails omitted w n s s')
    (hs : s.Undisturbed) (htranscript : s.transcript = s'.transcript)
    (hrun : playThrough w indices s' = some (stops, t')) :
    ∃ t m, (∀ steps ≥ m, playThrough (w.within steps) indices s = some (stops, t)) ∧
      t.Abreast omitted t' := by
  induction indices generalizing n s s' stops with
  | nil =>
    obtain ⟨stop, u', hplay, hend⟩ := Run.bind_eq_some.1 hrun
    cases hend
    obtain ⟨t, m, hm, habreast, -, -⟩ := h.playOn hs htranscript hplay
    exact ⟨t, m, fun steps hsteps => Run.bind_eq_some.2 ⟨stop, t, hm steps hsteps, rfl⟩, habreast⟩
  | cons index rest ih =>
    obtain ⟨stop, u', hplay, hrun⟩ := Run.bind_eq_some.1 hrun
    obtain ⟨r', v', hchoose, hrun⟩ := Run.bind_eq_some.1 hrun
    obtain ⟨stops, x', hrest, hend⟩ := Run.bind_eq_some.1 hrun
    cases hend
    obtain ⟨u, m, hm, habreast, hu, hsame⟩ := h.playOn hs htranscript hplay
    obtain ⟨r, v, l, hchoose', htrails, hsame⟩ := habreast.choose hu hsame hchoose
    have hv : v.Undisturbed := hu.moves (plays_choose (fun _ _ => trivial) _ _ hchoose')
    obtain ⟨t, m', hm', habreast'⟩ := ih htrails hv hsame hrest
    refine ⟨t, max m m', fun steps hsteps => ?_, habreast'⟩
    refine Run.bind_eq_some.2 ⟨stop, u, hm steps (by omega), Run.bind_eq_some.2 ⟨r, v, ?_, ?_⟩⟩
    · rw [choose_within]
      exact hchoose'
    · exact Run.bind_eq_some.2 ⟨stops, t, hm' steps (by omega), rfl⟩

end PlayThrough

/-! ## From the start -/

section Start

variable {w : World} {main : String} {seed start : Nat} {sources : Sources}

/-- Stories without the omitted comments begin where those with them do. -/
theorem atStart_without (h : sources.content.Separable omitted) :
    atStart (sources.without omitted) start seed =
      (atStart sources start seed).without omitted 0 [] := by
  let s : Story := { sources, container := some start }
  have hs : s.Aligned omitted 0 :=
    ⟨h, rfl, fun _ => (positionWithout_zero omitted _).symm⟩
  have hwithout : ({ sources := sources.without omitted, container := some start } : Story) =
      s.without omitted 0 [] := rfl
  simp only [atStart, hwithout, descend_without hs, node_without, Node.background_without]
  rfl

/-- Played from one choice to the next, whichever choices are taken, a story is the same without the
omitted comments: so are the texts shown, the choices that are pending, its end and the errors where
play stops. Only the comments that were collected differ. -/
theorem playThrough_without {indices : List Nat} {stops : List Stop} {s' t' : Story}
    (hsources : Sources.ofMain w.host main = .ok (start, sources))
    (hbounded : sources.content.size < beyondAll)
    (homissible : sources.content.Omissible omitted)
    (hstart : settle w (atStart (sources.without omitted) start seed) = some ((), s'))
    (hrun : playThrough w indices s' = some (stops, t')) :
    ∃ s t n, load w main seed = some (.ok s) ∧
      (∀ steps ≥ n, playThrough (w.within steps) indices s = some (stops, t)) ∧
      t.Abreast omitted t' := by
  have hseparable : sources.content.Separable omitted :=
    ⟨(Sources.grown_ofMain hsources).1.tree, Sources.housed_ofMain hsources, hbounded, homissible⟩
  rw [atStart_without hseparable] at hstart
  have haligned : (atStart sources start seed).Aligned omitted 0 :=
    ⟨hseparable, rfl, fun _ => (positionWithout_zero omitted _).symm⟩
  obtain ⟨s, m, hsettle, htrails⟩ := trails_of_settle haligned rfl rfl hstart
  have htranscripts {x y : Story} (hrun : settle w x = some ((), y)) :
      y.transcript = x.transcript := by
    have hmoves : x.Moves anywhere y := plays_settle w _ _ _ hrun
    exact hmoves.steady.transcript
  have hundisturbed : s.Undisturbed := by
    have hstarted : (atStart sources start seed).Undisturbed := ⟨rfl, fun _ => rfl⟩
    exact hstarted.moves (plays_settle w _ _ _ hsettle)
  obtain ⟨t, n, hn, habreast⟩ := htrails.playThrough hundisturbed
    ((htranscripts hsettle).trans (htranscripts hstart).symm) hrun
  refine ⟨s, t, n, ?_, hn, habreast⟩
  rw [load, hsources]
  simp only [hsettle]
  rfl

end Start

/-- All comments can be omitted where none is in a block or in front of a stitch with which a knot
begins, and no text begins with glue. -/
theorem omissible_isComment {c : Content} (h : ∀ i < c.size,
    (c.isComment i = true → (c.node i).parent.all (fun b => !(c.node b).isBlock) = true) ∧
    ((c.node i).isKnot = true → ((c.node i).children.filter (!c.isComment ·)).head?.all
      (fun j => !(c.node j).isStitch || (c.node i).children.head? == some j) = true) ∧
    startsWithGlue (c.node i).text = false) : c.Omissible c.isComment := by
  refine ⟨id, fun {i b} hi hb hblock _ => ?_, fun {k i} hk hi hstitch => ?_, fun i => ?_⟩
  · have hall := (h i (Content.lt_size_of_parent hb)).1 hi
    rw [hb, Option.all_some, hblock] at hall
    cases hall
  · have hlt : k < c.size := by
      by_contra hle
      rw [Content.node_eq_default (Nat.le_of_not_lt hle)] at hi
      cases hi
    have hall := (h k hlt).2.1 hk
    rw [hi, Option.all_some, hstitch] at hall
    simpa using hall
  · by_cases hi : i < c.size
    · exact (h i hi).2.2
    · rw [Content.node_eq_default (Nat.le_of_not_lt hi)]
      decide

end Story

end Narrative
