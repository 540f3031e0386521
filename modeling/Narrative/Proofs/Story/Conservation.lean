import Narrative.Proofs.Directive.Expansion
import Narrative.Proofs.Story.Playing
import Narrative.Proofs.Text.Words

/-!
# No word is lost

The texts of the nodes that are played are put together without anything between them. A unit goes
on with a node only where its text cannot run into what was played before, so the words of a unit
are those of its nodes, in order.
-/

namespace Narrative

open Text (Parted words unglued Tidy)

/-! ## Texts that begin with glue -/

/-- A text that starts with glue begins with the mark. -/
theorem startsWithGlue_iff {text : String} : startsWithGlue text = true ↔ glue <+: text.toList := by
  have hafter (mark cs : List Char) : (Text.after? mark cs).isSome = true ↔ mark <+: cs := by
    induction mark generalizing cs with
    | nil => simp [Text.after?]
    | cons m mark ih =>
      cases cs with
      | nil => simp [Text.after?]
      | cons c cs =>
        rw [Text.after?, List.cons_prefix_cons]
        split
        · next hm => simp [ih, hm]
        · next hm => simp [hm]
  exact hafter glue text.toList

namespace Directive

variable {σ : Type} {ctx : Context σ} {count : Nat}

/-- A text without an opening brace stays as it is. -/
theorem expandBefore_of_plain {left : List Char} (h : '\x7b' ∉ left) (right : List Char) (m : σ) :
    expandBefore ctx count left right m = some (left.reverse ++ right, m) := by
  have hback : '\x7b' ∉ left.reverse := fun hmem => h (List.mem_reverse.1 hmem)
  have hpast := @expandBefore_append σ ctx count left.reverse hback [] right
  rw [List.reverse_reverse, List.append_nil] at hpast
  rw [hpast]
  rfl

/-- What stands before the first opening brace stays as it is. -/
theorem prefix_of_expandBefore {front : List Char} (hfront : '\x7b' ∉ front)
    {left right out : List Char} {m m' : σ}
    (h : expandBefore ctx count (left ++ front.reverse) right m = some (out, m')) :
    front <+: out := by
  induction left generalizing right m with
  | nil =>
    rw [List.nil_append, expandBefore_of_plain (fun hmem => hfront (List.mem_reverse.1 hmem)),
      List.reverse_reverse] at h
    cases h
    exact List.prefix_append _ _
  | cons c left ih =>
    rw [List.cons_append, expandBefore] at h
    by_cases hc : c = '\x7b'
    · rw [if_pos hc] at h
      cases hcut : Text.cut? '\x7d' right with
      | none =>
        simp only [hcut] at h
        cases h
        rw [List.reverse_append, List.reverse_reverse, List.append_assoc]
        exact List.prefix_append _ _
      | some cut =>
        simp only [hcut] at h
        obtain ⟨resolved, m₁, -, hrest⟩ := Run.bind_eq_some.1 h
        exact ih hrest
    · rw [if_neg hc] at h
      exact ih h

/-- What stands in front of the first brace is shown as it is. -/
theorem prefix_of_expand {front text out : List Char} (hfront : '\x7b' ∉ front)
    (htext : front <+: text) {m m' : σ} (h : expand ctx count text m = some (out, m')) :
    front <+: out := by
  obtain ⟨rest, rfl⟩ := htext
  rw [expand, List.reverse_append] at h
  exact prefix_of_expandBefore hfront h

end Directive

namespace Story

variable {w : World} {i : NodeId} {s t : Story} {fragment : List Char}

/-! ## The texts of nodes -/

/-- Only lines of text add to a unit. -/
theorem fragment_of_not_text (hi : (s.node i).kind ≠ .text)
    (h : resolve w i s = some (.ok fragment, t)) : fragment = [] := by
  by_cases hchoice : (s.node i).isChoice = true
  · rw [resolve_of_isChoice hchoice] at h
    obtain ⟨_, -, heq⟩ := Option.map_eq_some_iff.1 h
    cases heq
    rfl
  · rw [resolve, Attempt.get_bind_apply] at h
    cases hkind : (s.node i).kind with
    | text => exact absurd hkind hi
    | choice repeatable conditions =>
      rw [Node.isChoice, hkind] at hchoice
      exact absurd rfl hchoice
    | statement t =>
      simp only [hkind] at h
      obtain ⟨_, u, -, hrest⟩ := Attempt.bind_eq_ok.1 h
      cases hrest
      rfl
    | _ =>
      simp only [hkind] at h
      cases h
      rfl

/-- A line that begins with glue adds a text that does. -/
theorem glue_prefix_of_resolve (hi : (s.node i).kind = .text)
    (hglue : startsWithGlue (s.node i).text = true)
    (h : resolve w i s = some (.ok fragment, t)) : glue <+: fragment := by
  by_cases hdivert : (s.node i).isDivert = true
  · rw [resolve_of_isDivert hdivert] at h
    cases h
    exact List.prefix_refl _
  · rw [resolve, Attempt.get_bind_apply] at h
    simp only [hi, hdivert] at h
    obtain ⟨text, u, hlift, hrest⟩ := Attempt.bind_eq_ok.1 h
    cases hrest
    rw [Attempt.lift_apply] at hlift
    obtain ⟨⟨text, u⟩, hthink, heq⟩ := Option.map_eq_some_iff.1 hlift
    cases heq
    obtain ⟨m, hexpand, -⟩ := think_eq_some hthink
    exact Directive.prefix_of_expand (by decide) (startsWithGlue_iff.1 hglue) hexpand

/-- Only a divert leads somewhere. -/
theorem isDivert_of_peekDivert {host : Host} {n : Node} {target : Option NodeId}
    (h : s.peekDivert host n = some target) : n.isDivert = true := by
  obtain ⟨name, hname, -⟩ := Option.bind_eq_some_iff.1 h
  rw [Node.isDivert, hname]
  rfl

/-- A unit goes on only with a node whose text cannot run into what was played before. -/
theorem parted_of_continuesInto {host : Host} {backwards : List Char}
    (hon : s.continuesInto host i backwards = true)
    (h : resolve w i s = some (.ok fragment, t)) : Parted backwards.reverse fragment := by
  by_cases htext : (s.node i).kind = .text
  · unfold continuesInto at hon
    simp only at hon
    split at hon
    · next hborder =>
      simp only [Bool.or_eq_true] at hborder
      obtain (hbegins | hends) | hblank := hborder
      · exact .inr (.inr (.inr (glue_prefix_of_resolve htext hbegins h)))
      · refine .inr (.inr (.inl ?_))
        rw [← List.reverse_prefix, List.reverse_reverse]
        exact List.isPrefixOf_iff_prefix.1 hends
      · refine .inl ?_
        rw [List.all_reverse]
        exact hblank
    · split at hon
      · next hsilent =>
        simp [Node.isChoice, Node.isStitch, htext] at hsilent
      · have hdivert : (s.node i).isDivert = true := by
          split at hon
          · cases hon
          · next hpeek => exact isDivert_of_peekDivert hpeek
          · next hpeek => exact isDivert_of_peekDivert hpeek
        rw [resolve_of_isDivert hdivert] at h
        cases h
        exact .inr (.inr (.inr (List.prefix_refl _)))
  · exact .inr (.inl (fragment_of_not_text htext h))

/-- What a node adds is what its effect adds. -/
theorem resolve_of_playNode (h : playNode w i s = some (.ok fragment, t)) :
    ∃ u, resolve w i s = some (.ok fragment, u) := by
  obtain ⟨text, u, hresolve, hrest⟩ := Attempt.bind_eq_ok.1 h
  obtain ⟨_, v, -, hend⟩ := Attempt.bind_eq_ok.1 hrest
  cases hend
  exact ⟨u, hresolve⟩

/-! ## The words of a unit -/

/-- The words of a unit are those of what had been played before and of the texts of its nodes. -/
theorem words_of_playUnit {steps : Nat} {backwards unit : List Char}
    (hparted : ∀ i fragment u, s.current? = some i → resolve w i s = some (.ok fragment, u) →
      Parted backwards.reverse fragment)
    (h : playUnit w steps backwards s = some (.ok unit, t)) :
    words (unglued unit) = words (unglued backwards.reverse) ++
      (visitsWithin w steps backwards s).flatMap fun v => words (unglued v.fragment) := by
  induction steps generalizing backwards s with
  | zero => cases h
  | succ steps ih =>
    cases hcurrent : s.current? with
    | none =>
      rw [playUnit, Attempt.get_bind_apply] at h
      simp only [hcurrent] at h
      cases h
      rw [visitsWithin]
      simp [hcurrent]
    | some i =>
      obtain ⟨e, herror, -⟩ | ⟨fragment, u, hplayed, hrest⟩ := playUnit_succ hcurrent h
      · cases herror
      · obtain ⟨v, hresolve⟩ := resolve_of_playNode hplayed
        have hjoined : words (unglued (fragment.reverse ++ backwards).reverse) =
            words (unglued backwards.reverse) ++ words (unglued fragment) := by
          rw [List.reverse_append, List.reverse_reverse]
          exact Text.words_unglued_append (hparted i fragment v hcurrent hresolve)
        rw [visitsWithin]
        simp only [hcurrent, hplayed, List.flatMap_cons]
        rw [← List.append_assoc, ← hjoined]
        obtain ⟨hon, hrest⟩ | ⟨hoff, hend, rfl⟩ := hrest
        · rw [if_pos hon]
          refine ih (fun j next u' hnext hresolve' => ?_) hrest
          rw [goesOn, hnext, Option.any_some, Bool.and_eq_true_iff] at hon
          exact parted_of_continuesInto hon.2 hresolve'
        · cases hend
          rw [if_neg (by rw [hoff]; exact Bool.false_ne_true)]
          exact (List.append_nil _).symm

/-- A text is recorded unless it is empty. -/
theorem transcript_record (s : Story) (text : String) :
    (s.record text).transcript =
      if text = "" then s.transcript else s.transcript ++ [text] := by
  rw [record]
  split
  · next hempty => rw [if_pos (String.isEmpty_iff.1 hempty)]
  · next hempty => rw [if_neg (mt String.isEmpty_iff.2 hempty)]

/-- An advance that succeeds tells the tidied text of the nodes it has played, and records it. -/
theorem told_of_advance {text : String} (h : advance w s = some (.ok text, t)) :
    ∃ unit : List Char, text = String.ofList (Text.cleanUp unit) ∧
      words text.toList = (visits w s).flatMap (fun v => words (unglued v.fragment)) ∧
      t.transcript = if text = "" then s.transcript else s.transcript ++ [text] := by
  obtain ⟨-, herror, -⟩ | ⟨hmore, hplayed⟩ := advance_eq_some h
  · cases herror
  · obtain ⟨e, herror, -⟩ | ⟨unit, u, v, hunit, hend, htext, rfl⟩ := hplayed
    · cases herror
    · cases htext
      have hwords := words_of_playUnit (fun _ _ _ _ _ => .inl rfl) hunit
      have htranscript : v.transcript = s.transcript := by
        have hunit' : s.Moves anywhere u := plays_playUnit hmore (fun _ _ _ _ => trivial) _ _ hunit
        have hend' : u.Moves anywhere v := moves_of_overlay hmore hunit hend
        exact (hunit'.steady.trans hend'.steady).transcript
      refine ⟨unit, rfl, ?_, ?_⟩
      · rw [visits, if_pos hmore, String.toList_ofList, Text.words_cleanUp, hwords]
        rfl
      · rw [transcript_record, htranscript]

/-- Advancing a story conserves its words: those of the text are the words of the nodes that were
played, in order, where glue counts as a space. The text is tidy, and it is recorded unless it is
empty. -/
theorem advance_conserves {text : String} (h : advance w s = some (.ok text, t)) :
    words text.toList = (visits w s).flatMap (fun v => words (unglued v.fragment)) ∧
      Tidy text.toList ∧
      t.transcript = if text = "" then s.transcript else s.transcript ++ [text] := by
  obtain ⟨unit, htext, hwords, htranscript⟩ := told_of_advance h
  refine ⟨hwords, ?_, htranscript⟩
  rw [htext, String.toList_ofList]
  exact Text.tidy_cleanUp unit

/-- A host with a source whose first unit has glue, a divert, a directive, a conditional line and a
choice. -/
def streetHost : Host :=
  .ofSources (.ofList [("street", "== street\nA tram <>\n-> corner\n== corner\n" ++
    "stops at  the \x7bcorner\x7d. corner<>\n\x7b\n- corner:\n   <>for you.\n\x7d\n* [Ride]\n")])
    fun _ => ""

/-- A world with that host. -/
def streetWorld : World := ⟨streetHost, 4, 40⟩

/-- The texts of five nodes become one unit. -/
theorem advance_conserves_street : ∃ s t : Story,
    advance streetWorld s = some (.ok "A tram stops at the 1. corner for you.", t) ∧
    (visits streetWorld s).map (fun v => String.ofList v.fragment) =
      ["A tram <>", "<>", "stops at  the 1. corner<>", "<>for you.", ""] ∧
    words "A tram stops at the 1. corner for you.".toList =
      (visits streetWorld s).flatMap (fun v => words (unglued v.fragment)) ∧
    Tidy "A tram stops at the 1. corner for you.".toList ∧
    t.transcript = s.transcript ++ ["A tram stops at the 1. corner for you."] := by
  have hplayed : ((load streetWorld "street" 0).bind (·.toOption)).any (fun s =>
      (visits streetWorld s).map (fun v => String.ofList v.fragment) =
        ["A tram <>", "<>", "stops at  the 1. corner<>", "<>for you.", ""] ∧
      (advance streetWorld s).any (fun r =>
        r.1.toOption = some "A tram stops at the 1. corner for you.") = true) = true := by
    decide +kernel
  obtain ⟨s, -, hs⟩ := (Option.any_eq_true _ _).1 hplayed
  simp only [Bool.decide_and, Bool.and_eq_true, decide_eq_true_eq] at hs
  obtain ⟨hvisits, hadvance⟩ := hs
  obtain ⟨⟨r, t⟩, hrun, htext⟩ := (Option.any_eq_true _ _).1 hadvance
  cases r with
  | error e => cases of_decide_eq_true htext
  | ok text =>
    cases of_decide_eq_true htext
    obtain ⟨hwords, htidy, htranscript⟩ := advance_conserves hrun
    exact ⟨s, t, hrun, hvisits, hwords, htidy, htranscript⟩

end Story

end Narrative
