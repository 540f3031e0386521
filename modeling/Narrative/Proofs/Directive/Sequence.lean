import Narrative.Proofs.Directive.Expansion
import Narrative.Proofs.Text.Words

/-!
# Sequences in texts and blocks

A sequence shows another one of its options on each visit. It stands in braces in a line of text, or
it is a block of the story. What comes after the last option is decided in the same three ways, and
both are given the number of earlier visits, so the same visit has the same option in both.
-/

namespace Narrative

/-- How a sequence goes on after its last option. -/
inductive Recurrence where
  /-- The last option stays. -/
  | stopping
  /-- The options come round again. -/
  | cycle
  /-- Nothing is left. -/
  | once
deriving DecidableEq, Repr

namespace Recurrence

/-- The mode of the blocks that go on like this. -/
def blockMode : Recurrence → BlockMode
  | stopping => .stopping
  | cycle => .cycle
  | once => .once

/-- The directive that goes on like this. -/
def directive (options : List (List Char)) : Recurrence → Directive
  | stopping => .stopping options
  | cycle => .cycle options
  | once => .once options

/-- What stands in front of the options in braces. -/
def sign : Recurrence → List Char
  | stopping => []
  | cycle => ['&']
  | once => ['!']

/-- The option, one of `n`, whose turn it is after `k` visits; none when nothing is left. -/
def turn (n k : Nat) : Recurrence → Option Nat
  | stopping => some (min k (n - 1))
  | cycle => some (k % n)
  | once => if k < n then some k else none

variable {n k : Nat}

/-- It can only be the turn of an option that there is. -/
theorem lt_of_turn {r : Recurrence} (hn : 0 < n) {i : Nat} (h : r.turn n k = some i) : i < n := by
  cases r with
  | stopping =>
    cases h
    omega
  | cycle =>
    cases h
    exact Nat.mod_lt k hn
  | once =>
    obtain ⟨hk, heq⟩ := Option.ite_none_right_eq_some.1 h
    cases heq
    exact hk

/-- A directive stands for the option whose turn it is, or for nothing when nothing is left. -/
theorem resolve_directive {σ : Type} (ctx : Context σ) (r : Recurrence)
    (options : List (List Char)) (k : Nat) : (r.directive options).resolve ctx k =
      pure ((r.turn options.length k).elim [] (options.getD · [])) := by
  cases r with
  | stopping | cycle => rfl
  | once =>
    rw [turn]
    split
    · rfl
    · next hk =>
      rw [directive, Directive.resolve, List.getD_eq_getElem?_getD,
        List.getElem?_eq_none (Nat.le_of_not_lt hk)]
      rfl

/-- A block is left empty when nothing is left: the number of its options stands for none of them. -/
theorem chooseOption_blockMode {σ : Type} (ctx : Context σ) (r : Recurrence)
    {options : List BlockOption} (hoptions : 0 < options.length) (k : Nat) :
    ctx.chooseOption r.blockMode options k =
      pure ((r.turn options.length k).getD options.length) := by
  cases r with
  | stopping => rfl
  | cycle =>
    have hmax : max 1 options.length = options.length := by omega
    simp only [blockMode, Context.chooseOption, turn, hmax, Option.getD_some]
  | once =>
    have hmin : min k options.length = (turn options.length k .once).getD options.length := by
      rw [turn]
      split
      · exact Nat.min_eq_left (by omega)
      · exact Nat.min_eq_right (by omega)
    rw [← hmin]
    rfl

end Recurrence

namespace Text

variable {separator c : Char}

/-- What stands in joined pieces is the separator or stands in a piece. -/
theorem eq_or_mem_of_mem_intercalate {pieces : List (List Char)}
    (h : c ∈ [separator].intercalate pieces) : c = separator ∨ ∃ piece ∈ pieces, c ∈ piece := by
  induction pieces with
  | nil => cases h
  | cons piece pieces ih =>
    by_cases hpieces : pieces = []
    · subst hpieces
      rw [List.intercalate_singleton] at h
      exact .inr ⟨piece, List.mem_cons_self, h⟩
    · rw [List.intercalate_cons_of_ne_nil hpieces, List.mem_append, List.mem_append,
        List.mem_singleton] at h
      obtain (hpiece | heq) | hrest := h
      · exact .inr ⟨piece, List.mem_cons_self, hpiece⟩
      · exact .inl heq
      · exact (ih hrest).imp_right fun ⟨p, hp, hc⟩ => ⟨p, List.mem_cons_of_mem _ hp, hc⟩

end Text

/-- A line of text with a sequence in braces. -/
structure Sequence where
  /-- How the sequence goes on after its last option. -/
  recurrence : Recurrence
  /-- The text in front of the braces. -/
  lead : List Char
  /-- The options. -/
  options : List (List Char)
  /-- The text behind the braces. -/
  behind : List Char
  /-- There are several options. -/
  two_le : 2 ≤ options.length
  /-- Options have no braces, bars or colons. -/
  plain {o : List Char} : o ∈ options → Directive.Braceless o ∧ '|' ∉ o ∧ ':' ∉ o
  /-- Where no sign stands in front of the options, the first one does not begin with one. -/
  unsigned {c : Char} :
    recurrence = .stopping → c ∈ options.head?.bind List.head? → c ∉ ['&', '!', '~']
  /-- There are no braces around the sequence. -/
  alone : Directive.Braceless lead ∧ Directive.Braceless behind

namespace Sequence

open Directive

variable (q : Sequence)

/-- What stands between the braces. -/
def inner : List Char :=
  q.recurrence.sign ++ ['|'].intercalate q.options

/-- The line as it is written. -/
def written : List Char :=
  joined q.lead [(braced q.inner, q.behind)]

/-- The line as it is shown after `k` visits. -/
def shown (k : Nat) : List Char :=
  joined q.lead [((q.recurrence.turn q.options.length k).elim [] (q.options.getD · []), q.behind)]

/-- A sequence has options. -/
theorem options_ne_nil : q.options ≠ [] := by
  intro hnone
  have := q.two_le
  rw [hnone] at this
  cases this

/-- The options are found again between the bars. -/
theorem splitOn_options : Directive.options (['|'].intercalate q.options) = q.options := by
  rw [Directive.options, Text.splitOn_eq]
  exact List.splitOn_intercalate '|' (fun o ho => (q.plain ho).2.1) q.options_ne_nil

/-- Between the braces there is no character but those of the options, bars and the sign. -/
theorem not_mem_inner {c : Char} (hsign : c ∉ q.recurrence.sign) (hbar : c ≠ '|')
    (hoptions : ∀ o ∈ q.options, c ∉ o) : c ∉ q.inner := by
  rw [inner, List.mem_append]
  rintro (hc | hc)
  · exact hsign hc
  · obtain heq | ⟨o, ho, hc⟩ := Text.eq_or_mem_of_mem_intercalate hc
    · exact hbar heq
    · exact hoptions o ho hc

/-- There are no braces in a sequence. -/
theorem braceless_inner : Braceless q.inner := by
  constructor
  · refine q.not_mem_inner ?_ (by decide) fun o ho => (q.plain ho).1.1
    cases q.recurrence <;> decide
  · refine q.not_mem_inner ?_ (by decide) fun o ho => (q.plain ho).1.2
    cases q.recurrence <;> decide

/-- Without a sign in front the options stop at the last one. -/
theorem unguarded_eq_stopping {cs : List Char} (hbar : '|' ∈ cs)
    (hsign : ∀ c ∈ cs.head?, c ∉ ['&', '!', '~']) : unguarded cs = .stopping (Directive.options cs) := by
  unfold unguarded
  split
  · exact absurd List.mem_cons_self (hsign '&' rfl)
  · exact absurd (by decide) (hsign '!' rfl)
  · exact absurd (by decide) (hsign '~' rfl)
  · rw [if_pos (List.contains_iff_mem.2 hbar)]

/-- A sequence is read as its directive. -/
theorem ofChars_inner : ofChars q.inner = q.recurrence.directive q.options := by
  have hcolon : ':' ∉ q.inner := by
    refine q.not_mem_inner ?_ (by decide) fun o ho => (q.plain ho).2.2
    cases q.recurrence <;> decide
  rw [ofChars, Text.cut?_eq_none hcolon]
  have hsplit := q.splitOn_options
  cases hr : q.recurrence with
  | stopping =>
    have hinner : q.inner = ['|'].intercalate q.options := by
      rw [inner, hr]
      rfl
    obtain ⟨first, second, rest, hoptions⟩ : ∃ first second rest,
        q.options = first :: second :: rest := by
      have htwo := q.two_le
      match hoptions : q.options with
      | first :: second :: rest => exact ⟨first, second, rest, rfl⟩
      | [_] | [] =>
        rw [hoptions] at htwo
        contradiction
    have hstart : q.inner = first ++ '|' :: ['|'].intercalate (second :: rest) := by
      rw [hinner, hoptions, List.intercalate_cons_cons, List.append_assoc]
      rfl
    have hsign : ∀ c ∈ q.inner.head?, c ∉ ['&', '!', '~'] := by
      intro c hc
      rw [hstart] at hc
      cases first with
      | nil =>
        cases hc
        decide
      | cons d first =>
        apply q.unsigned hr
        rw [hoptions]
        exact hc
    rw [unguarded_eq_stopping (by simp [hstart]) hsign, hinner, hsplit]
    rfl
  | cycle =>
    rw [inner, hr]
    exact congrArg Directive.cycle hsplit
  | once =>
    rw [inner, hr]
    exact congrArg Directive.once hsplit

/-- Expanding the line shows the option whose turn it is and asks nothing of the context. -/
theorem expand_written {σ : Type} (ctx : Context σ) (k : Nat) :
    Directive.expand ctx k q.written = pure (q.shown k) := by
  have hpieces : ∀ p ∈ [(q.inner, q.behind)], Braceless p.1 ∧ Braceless p.2 := by
    intro p hp
    rw [List.mem_singleton.1 hp]
    exact ⟨q.braceless_inner, q.alone.2⟩
  have hflat := @expand_flat σ ctx k [(q.inner, q.behind)] hpieces q.lead q.alone.1
  simp only [List.map_cons, List.map_nil] at hflat
  rw [written, hflat]
  simp [ofChars_inner, Recurrence.resolve_directive, shown]

end Sequence

end Narrative
