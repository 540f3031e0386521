import Narrative.Proofs.Computation
import Narrative.Proofs.Text
import Narrative.Story.Play

/-!
# Expanding flat texts

A text is flat when its directives stand side by side, none inside another. The search for an
opening brace runs to the left and never comes back to what has been put in place of a directive,
and the search for a closing brace ends at the one that was written: what a directive stands for is
copied, whatever stands in it.
-/

namespace Narrative.Directive

variable {σ : Type} {ctx : Context σ} {count : Nat}

/-- A text without braces. -/
def Braceless (cs : List Char) : Prop :=
  '\x7b' ∉ cs ∧ '\x7d' ∉ cs

instance (cs : List Char) : Decidable (Braceless cs) :=
  inferInstanceAs (Decidable (_ ∧ _))

/-- A directive as it is written. -/
def braced (inner : List Char) : List Char :=
  '\x7b' :: (inner ++ ['\x7d'])

/-- A text put together from its lead and pieces that each have a text behind them. -/
def joined (lead : List Char) (pieces : List (List Char × List Char)) : List Char :=
  lead ++ pieces.flatMap fun (piece, behind) => piece ++ behind

/-- Without pieces the lead is all there is. -/
@[simp] theorem joined_nil (lead : List Char) : joined lead [] = lead :=
  List.append_nil lead

/-- A piece stands between the lead and what follows it. -/
theorem joined_cons (lead piece behind : List Char) (pieces : List (List Char × List Char)) :
    joined lead ((piece, behind) :: pieces) = lead ++ piece ++ joined behind pieces := by
  simp [joined]

/-! ## One step of the search -/

/-- The search for an opening brace goes past a text without one. -/
theorem expandBefore_append {cs : List Char} (h : '\x7b' ∉ cs) (left right : List Char) :
    expandBefore ctx count (cs.reverse ++ left) right = expandBefore ctx count left (cs ++ right) := by
  induction cs generalizing left with
  | nil => rfl
  | cons c cs ih =>
    obtain ⟨hc, hcs⟩ := not_or.1 (mt List.mem_cons.2 h)
    rw [List.reverse_cons, List.append_assoc, ih hcs, List.singleton_append, expandBefore,
      if_neg (Ne.symm hc)]
    rfl

/-- An opening brace that is not closed ends the expansion. -/
theorem expandBefore_unclosed {right : List Char} (h : '\x7d' ∉ right) (left : List Char) :
    expandBefore ctx count ('\x7b' :: left) right = pure (left.reverse ++ '\x7b' :: right) := by
  rw [expandBefore, if_pos rfl, Text.cut?_eq_none h]

/-- What stands between an opening brace and the next closing one is a directive. -/
theorem expandBefore_closed {inner : List Char} (h : '\x7d' ∉ inner) (left after : List Char) :
    expandBefore ctx count ('\x7b' :: left) (inner ++ '\x7d' :: after) = (do
      let resolved ← (ofChars inner).resolve ctx count
      expandBefore ctx count left (resolved ++ after)) := by
  rw [expandBefore, if_pos rfl, Text.cut?_append h]

/-- A directive is resolved, and the search goes on in front of what it stands for. -/
theorem expandBefore_braced {inner : List Char} (h : Braceless inner) (left right : List Char) :
    expandBefore ctx count ((braced inner).reverse ++ left) right = (do
      let resolved ← (ofChars inner).resolve ctx count
      expandBefore ctx count left (resolved ++ right)) := by
  obtain ⟨hopen, hclose⟩ := h
  have hskip : '\x7b' ∉ inner ++ ['\x7d'] := by
    rw [List.mem_append]
    exact not_or.2 ⟨hopen, by decide⟩
  rw [braced, List.reverse_cons, List.append_assoc, expandBefore_append hskip, List.append_assoc]
  exact expandBefore_closed hclose left right

/-- Directives side by side are resolved from the last one to the first. -/
theorem expandBefore_joined {pieces : List (List Char × List Char)}
    (h : ∀ p ∈ pieces, Braceless p.1 ∧ Braceless p.2) {lead : List Char} (hlead : '\x7b' ∉ lead)
    (left right : List Char) :
    expandBefore ctx count
        ((joined lead (pieces.map fun p => (braced p.1, p.2))).reverse ++ left) right = (do
      let results ← pieces.reverse.mapM fun p => do
        return (← (ofChars p.1).resolve ctx count, p.2)
      expandBefore ctx count left (joined lead results.reverse ++ right)) := by
  induction pieces generalizing lead left with
  | nil => simp [expandBefore_append hlead]
  | cons p pieces ih =>
    obtain ⟨⟨hinner, hbehind⟩, hpieces⟩ := List.forall_mem_cons.1 h
    rw [List.map_cons, joined_cons, List.reverse_append, List.append_assoc,
      ih hpieces hbehind.1, List.reverse_cons, List.mapM_append]
    simp only [List.reverse_append, List.append_assoc, expandBefore_braced hinner,
      expandBefore_append hlead, List.mapM_cons, List.mapM_nil, bind_assoc, pure_bind]
    refine bind_congr fun results => bind_congr fun resolved => ?_
    rw [List.reverse_singleton, List.singleton_append, joined_cons, List.append_assoc,
      List.append_assoc]

/-! ## Flat texts -/

/-- A directive that stands alone is replaced by what it stands for. -/
theorem expand_braced {inner : List Char} (h : Braceless inner) :
    expand ctx count (braced inner) = (ofChars inner).resolve ctx count := by
  have halone := @expandBefore_braced σ ctx count inner h [] []
  simpa only [expand, List.append_nil, expandBefore, bind_pure] using halone

/-- Expanding a flat text resolves its directives from the last one to the first. -/
theorem expand_flat {pieces : List (List Char × List Char)}
    (h : ∀ p ∈ pieces, Braceless p.1 ∧ Braceless p.2) {lead : List Char} (hlead : Braceless lead) :
    expand ctx count (joined lead (pieces.map fun p => (braced p.1, p.2))) = (do
      let results ← pieces.reverse.mapM fun p => do
        return (← (ofChars p.1).resolve ctx count, p.2)
      return joined lead results.reverse) := by
  have hall := @expandBefore_joined σ ctx count pieces h lead hlead.1 [] []
  simpa only [expand, List.append_nil, expandBefore] using hall

/-- The directives of a flat text are resolved once each, from the last one to the first, as each of
them would be alone. The texts around them and what they stand for are copied. -/
theorem expand_joined (ctx : Context σ) (count : Nat) {lead : List Char}
    {pieces : List (List Char × List Char)} (hlead : Braceless lead)
    (hpieces : ∀ p ∈ pieces, Braceless p.1 ∧ Braceless p.2) :
    expand ctx count (joined lead (pieces.map fun p => (braced p.1, p.2))) = (do
      let results ← pieces.reverse.mapM fun p => do
        return (← (ofChars p.1).resolve ctx count, p.2)
      return joined lead results.reverse) ∧
    ∀ p ∈ pieces, expand ctx count (braced p.1) = (ofChars p.1).resolve ctx count :=
  ⟨expand_flat hpieces hlead, fun p hp => expand_braced (hpieces p hp).1⟩

/-- A function that counts its calls. -/
def tollStage : Stage where
  host := .ofSources .empty fun _ => ""
  content := ((Sources.ofMain (.ofSources (.ofList
    [("toll", "== start\nPay.\n== function toll()\n~ paid = paid + 1\n~ return paid\n")])
    fun _ => "") "toll").toOption.map (·.2.content)).getD default
  here := none

/-- A memory in which nothing was paid and a sign has directives on it. -/
def tollMemory : Memory where
  globals := .ofList [("paid", .int 0), ("sign", .str "\x7b&x|y\x7d: \x7bz")]

/-- The last call comes first, and the directives on the sign are not resolved. -/
theorem expand_joined_toll : ∃ m : Memory,
    expand (tollStage.context 4) 5
      "Toll \x7btoll()\x7d \x7bsign\x7d\x7b&a|b|c\x7d, toll \x7btoll()\x7d!".toList tollMemory =
        some ("Toll 2 \x7b&x|y\x7d: \x7bzc, toll 1!".toList, m) ∧
    m.globals.get? "paid" = some (.int 2) := by
  let pieces : List (List Char × List Char) := [("toll()".toList, " ".toList),
    ("sign".toList, []), ("&a|b|c".toList, ", toll ".toList), ("toll()".toList, "!".toList)]
  have hresolved : ((pieces.reverse.mapM fun p => (do
      return (← (ofChars p.1).resolve (tollStage.context 4) 5, p.2) :
        Run Memory (List Char × List Char))) tollMemory).any (fun r =>
      joined "Toll ".toList r.1.reverse =
        "Toll 2 \x7b&x|y\x7d: \x7bzc, toll 1!".toList ∧
      r.2.globals.get? "paid" = some (.int 2)) = true := by
    decide +kernel
  obtain ⟨⟨results, m⟩, hrun, hresolved⟩ := (Option.any_eq_true _ _).1 hresolved
  obtain ⟨hshown, hpaid⟩ := of_decide_eq_true hresolved
  refine ⟨m, ?_, hpaid⟩
  have hlead : Braceless "Toll ".toList := by decide
  have hflat := (expand_joined (tollStage.context 4) 5 hlead (show ∀ p ∈ pieces, _ by decide)).1
  rw [show "Toll \x7btoll()\x7d \x7bsign\x7d\x7b&a|b|c\x7d, toll \x7btoll()\x7d!".toList =
    joined "Toll ".toList (pieces.map fun p => (braced p.1, p.2)) by decide, hflat, ← hshown]
  exact Run.bind_eq_some.2 ⟨results, m, hrun, rfl⟩

end Narrative.Directive
