import Narrative.Proofs.Source.Growth

/-!
# What loading keeps

Loading reads one source after another into common content, so the content that was loaded is a
sound tree behind the content that was there before, also when a source could not be opened or read.
-/

namespace Narrative.Sources

open Content

variable {host : Host} {main file : String} {s s' : Sources}

/-- Sources are read into grown content. A start that is found is a knot. -/
theorem grown_loadPending {budget : Nat} {pending : List String} {start : Option NodeId}
    {r : Except StoryError (Option NodeId)} (hs : s.content.Grown)
    (hstart : ∀ i : Nat, start = some i → i < s.content.size ∧ (s.content.node i).isKnot = true)
    (hload : loadPending host main budget pending start s = (r, s')) :
    s'.content.Grown ∧ s'.content.Extends s.content ∧ ∀ i : Nat, r = .ok (some i) →
      i < s'.content.size ∧ (s'.content.node i).isKnot = true := by
  fun_induction loadPending host main budget pending start s with
  | case1 budget start s _ =>
    cases hload
    refine ⟨hs, .refl _, ?_⟩
    rintro i ⟨⟩
    exact hstart i rfl
  | case2 pending start s file rest _ budget text _ e content hread =>
    cases hload
    obtain ⟨hcontent, hextends, -⟩ := hs.read hread
    exact ⟨hcontent, hextends, fun _ h => by cases h⟩
  | case3 pending start s file rest _ budget text _ source content hread ih =>
    obtain ⟨hcontent, hextends, hsource⟩ := hs.read hread
    have hstart' (i : Nat) (hi : (if file = main then source.start else start) = some i) :
        i < content.size ∧ (content.node i).isKnot = true := by
      split at hi
      · exact hsource source i rfl hi
      · obtain ⟨hlt, hknot⟩ := hstart i hi
        rw [hextends.node_eq hlt]
        exact ⟨Nat.lt_of_lt_of_le hlt hextends.size_le, hknot⟩
    obtain ⟨hs', hextends', hresult⟩ := ih hcontent hstart' hload
    exact ⟨hs', hextends'.trans hextends, hresult⟩
  | case4 =>
    cases hload
    exact ⟨hs, .refl _, fun _ h => by cases h⟩

/-- Loading a file leaves the content well grown, and a source starts at a knot. -/
theorem grown_load {r : Except StoryError (Option NodeId)} (hs : s.content.Grown)
    (hload : s.load host file = (r, s')) :
    s'.content.Grown ∧ s'.content.Extends s.content ∧ ∀ i : Nat, r = .ok (some i) →
      i < s'.content.size ∧ (s'.content.node i).isKnot = true :=
  grown_loadPending hs (fun _ h => by cases h) hload

/-- Asking for a file leaves the content well grown. -/
theorem grown_require {r : Except StoryError Unit} (hs : s.content.Grown)
    (hrequire : s.require host file = (r, s')) :
    s'.content.Grown ∧ s'.content.Extends s.content := by
  unfold require at hrequire
  split at hrequire
  · cases hrequire
    exact ⟨hs, .refl _⟩
  · cases hload : s.load host file with
    | mk r' s'' =>
      obtain ⟨hs'', hextends, -⟩ := grown_load hs hload
      rw [hload] at hrequire
      cases r' <;> cases hrequire <;> exact ⟨hs'', hextends⟩

/-- A source that was read is not read again. -/
theorem require_of_mem (hfile : file ∈ s.files) : s.require host file = (.ok (), s) := by
  rw [require, if_pos (List.contains_iff_mem.2 hfile)]

/-- The content of a story is grown, and the story starts at a knot. -/
theorem grown_ofMain {start : Nat} (hmain : ofMain host main = .ok (start, s)) :
    s.content.Grown ∧ start < s.content.size ∧ (s.content.node start).isKnot = true := by
  unfold ofMain at hmain
  cases hload : ({} : Sources).load host main with
  | mk r s' =>
    obtain ⟨hs', -, hstart⟩ := grown_load (s := {}) grown_empty hload
    rw [hload] at hmain
    cases r with
    | error e => cases hmain
    | ok i =>
      cases i with
      | none => cases hmain
      | some i =>
        cases hmain
        exact ⟨hs', hstart start rfl⟩

end Narrative.Sources
