import Narrative.Proofs.Content.Preorder
import Narrative.Proofs.Text.Words

/-!
# Ids that do not clash

The id of a node is that of its parent with one or two more parts: its name, or the numbers of its
place, which are two under a block and one elsewhere. Names that have no dot and are no numbers can
be told from numbers, and then the parts of an id say how it came about. In particular no node has
the id that the next child without a name is going to get.
-/

namespace Narrative

open Content

/-! ## Parts of ids -/

/-- The parts of a text make the text again with the separators in between. -/
theorem Text.intercalate_splitOn (separator : Char) (cs : List Char) :
    [separator].intercalate (splitOn separator cs) = cs := by
  unfold splitOn
  induction cs with
  | nil => rfl
  | cons c cs ih =>
    rw [splitWhere_cons]
    cases hsplit : splitWhere (· == separator) cs with
    | nil => exact absurd hsplit (splitWhere_ne_nil _ cs)
    | cons piece pieces =>
      rw [hsplit] at ih
      split
      · next hc =>
        rw [List.intercalate_cons_cons, ih, eq_of_beq hc]
        rfl
      · cases pieces with
        | nil => simpa using ih
        | cons next pieces => simpa using ih

/-- The parts of an id between its dots. -/
def idParts (id : String) : List (List Char) :=
  Text.splitOn '.' id.toList

/-- An id is known by its parts. -/
theorem idParts_injective {id id' : String} (h : idParts id = idParts id') : id = id' := by
  have htext := congrArg ['.'].intercalate h
  rwa [idParts, idParts, Text.intercalate_splitOn, Text.intercalate_splitOn, String.toList_inj]
    at htext

/-- Ids joined by a dot have the parts of both. -/
theorem idParts_dot (id id' : String) : idParts (id ++ "." ++ id') = idParts id ++ idParts id' := by
  simp only [idParts, String.toList_append, List.append_assoc]
  exact Text.splitWhere_append_cons rfl id.toList id'.toList

/-- A name without dots is one part. -/
theorem idParts_ofList {part : List Char} (h : '.' ∉ part) :
    idParts (String.ofList part) = [part] := by
  rw [idParts, String.toList_ofList]
  refine Text.splitWhere_eq_singleton fun c hc => beq_eq_false_iff_ne.2 ?_
  rintro rfl
  exact h hc

/-- A number consists of digits. -/
theorem isDigit_of_mem_number {n : Nat} {c : Char} (h : c ∈ Nat.toDigits 10 n) :
    c.isDigit = true :=
  Nat.isDigit_of_mem_toDigits (by decide) (by decide) h

/-- A number is one part. -/
theorem idParts_toString (n : Nat) : idParts (toString n) = [Nat.toDigits 10 n] := by
  rw [Nat.toString_eq_ofList_toDigits]
  refine idParts_ofList fun hdot => ?_
  have hdigit := isDigit_of_mem_number hdot
  revert hdigit
  decide

/-- Numbers are known by their digits. -/
theorem toDigits_injective {m n : Nat} (h : Nat.toDigits 10 m = Nat.toDigits 10 n) : m = n := by
  have hvalue := congrArg (Nat.ofDigitChars 10 · 0) h
  simpa only [Nat.ofDigitChars_ten_toDigits] using hvalue

/-- A name that can be told from a number and is one part of an id. -/
structure IsProper (name : List Char) : Prop where
  /-- It has no dot. -/
  no_dot : '.' ∉ name
  /-- It is not all digits, and so it is not empty. -/
  not_digits : ¬ ∀ c ∈ name, c.isDigit = true

instance (name : List Char) : Decidable (IsProper name) :=
  decidable_of_iff ('.' ∉ name ∧ ¬ name.all Char.isDigit = true)
    ⟨fun h => ⟨h.1, mt List.all_eq_true.2 h.2⟩, fun h => ⟨h.1, mt List.all_eq_true.1 h.2⟩⟩

/-- A proper name is no number. -/
theorem IsProper.ne_number {name : List Char} (h : IsProper name) (n : Nat) :
    name ≠ Nat.toDigits 10 n := by
  rintro rfl
  exact h.not_digits fun _ => isDigit_of_mem_number

/-! ## Names and places -/

namespace Node

/-- The id of the child at a position in an option, when the child has no name. The option is a part
of it in blocks only. -/
def placeId (n : Node) (option position : Nat) : String :=
  if n.isBlock then n.id ++ "." ++ toString option ++ "." ++ toString position
  else n.id ++ "." ++ toString position

/-- The next child without a name gets the id of the place behind the last one. -/
theorem nextChildId_eq (n : Node) : n.nextChildId =
    n.placeId (n.options.length - 1) (n.childrenAt (n.options.length - 1)).length := by
  unfold nextChildId placeId isBlock options childrenAt
  cases n.kind with
  | block mode options =>
    dsimp only
    rw [if_pos rfl, List.getLast?_eq_getElem?]
    cases options[options.length - 1]? <;> rfl
  | _ => rfl

/-- What is no block has the same children in every option. -/
theorem childrenAt_of_not_isBlock {n : Node} (h : ¬ n.isBlock = true) (option : Nat) :
    n.childrenAt option = n.children := by
  unfold isBlock at h
  unfold childrenAt
  split
  · next hkind =>
    rw [hkind] at h
    exact absurd rfl h
  · rfl

/-- The id of a place has the parts of its node, and the numbers of the place. -/
theorem idParts_placeId (n : Node) (option position : Nat) :
    idParts (n.placeId option position) = idParts n.id ++
      if n.isBlock then [Nat.toDigits 10 option, Nat.toDigits 10 position]
      else [Nat.toDigits 10 position] := by
  unfold placeId
  split
  · rw [idParts_dot, idParts_dot, idParts_toString, idParts_toString, List.append_assoc]
    rfl
  · rw [idParts_dot, idParts_toString]

end Node

namespace Content

variable {c : Content}

/-- The id of a node with a name under a parent. -/
def fullId (c : Content) (parent : Option NodeId) (name : List Char) : String :=
  match parent with
  | none => String.ofList name
  | some p => (c.node p).id ++ "." ++ String.ofList name

/-- The full id of a name has the parts of the parent, and the name. -/
theorem idParts_fullId (parent : Option NodeId) {name : List Char} (h : '.' ∉ name) :
    idParts (c.fullId parent name) =
      (parent.map fun p => idParts (c.node p).id).getD [] ++ [name] := by
  cases parent with
  | none => exact idParts_ofList h
  | some p => exact (idParts_dot _ _).trans (congrArg _ (idParts_ofList h))

/-- Whether a node has the id of its place. -/
def IsPlaced (c : Content) (i : NodeId) : Prop :=
  ∃ p option position, (c.node i).parent = some p ∧
    ((c.node p).childrenAt option)[position]? = some i ∧
    (c.node i).id = (c.node p).placeId option position

/-- Content in which each node has the id of its place or a proper name under its parent. -/
structure Decodable (c : Content) : Prop where
  /-- Ids differ and parents are nodes. -/
  sound : c.Sound
  /-- Ids come about in one of two ways. -/
  id {i : Nat} : i < c.size → c.IsPlaced i ∨
    ∃ name, IsProper name ∧ (c.node i).id = c.fullId (c.node i).parent name

/-- The id of a place does not end like that of a named node. -/
theorem placeId_ne_fullId (n : Node) (option position : Nat) (parent : Option NodeId)
    {name : List Char} (h : IsProper name) :
    n.placeId option position ≠ c.fullId parent name := by
  intro heq
  have hparts := congrArg idParts heq
  have hlast := congrArg List.getLast? hparts
  rw [Node.idParts_placeId, idParts_fullId parent h.no_dot, List.getLast?_concat] at hlast
  refine h.ne_number position (Option.some.inj (hlast.symm.trans ?_))
  split
  · rw [List.append_cons, List.getLast?_concat]
  · rw [List.getLast?_concat]

namespace Decodable

variable (h : c.Decodable)

include h

/-- Nodes whose ids have the same parts are one. -/
theorem eq_of_idParts {i j : Nat} (hi : i < c.size) (hj : j < c.size)
    (heq : idParts (c.node i).id = idParts (c.node j).id) : i = j :=
  h.sound.distinct hi hj (idParts_injective heq)

/-- Names under parents are what their full ids say. -/
theorem fullId_injective {parent parent' : Option NodeId} {name name' : List Char}
    (hparent : ∀ p ∈ parent, p < c.size) (hparent' : ∀ p ∈ parent', p < c.size)
    (hname : IsProper name) (hname' : IsProper name')
    (heq : c.fullId parent name = c.fullId parent' name') : parent = parent' ∧ name = name' := by
  have hparts := congrArg idParts heq
  rw [idParts_fullId parent hname.no_dot, idParts_fullId parent' hname'.no_dot] at hparts
  obtain ⟨hbefore, hlast⟩ := List.append_inj' hparts rfl
  refine ⟨?_, (List.cons.inj hlast).1⟩
  have hne (p : NodeId) : idParts (c.node p).id ≠ [] := Text.splitWhere_ne_nil _ _
  cases parent with
  | none =>
    cases parent' with
    | none => rfl
    | some p' => exact absurd hbefore.symm (hne p')
  | some p =>
    cases parent' with
    | none => exact absurd hbefore (hne p)
    | some p' => rw [h.eq_of_idParts (hparent p rfl) (hparent' p' rfl) hbefore]

/-- No id is that of a block and one number: under a block there are two, and in front of them the
same would hold again. -/
theorem ne_block_number {b i : Nat} (hb : b < c.size) (hblock : (c.node b).isBlock = true)
    (hi : i < c.size) (n : Nat) :
    idParts (c.node i).id ≠ idParts (c.node b).id ++ [Nat.toDigits 10 n] := by
  intro heq
  induction hlength : (idParts (c.node i).id).length using Nat.strongRecOn generalizing i b n with
  | ind length ih =>
    rcases h.id hi with ⟨p, option, position, hparent, -, hid⟩ | ⟨name, hname, hid⟩
    · have hp := h.sound.parent hparent
      rw [hid, Node.idParts_placeId] at heq hlength
      split at heq
      · next hblock' =>
        rw [List.append_cons] at heq
        obtain ⟨hbefore, -⟩ := List.append_inj' heq rfl
        refine ih _ ?_ hp hblock' hb option hbefore.symm rfl
        rw [← hlength, if_pos hblock', ← hbefore]
        simp
      · next hother =>
        obtain ⟨hbefore, -⟩ := List.append_inj' heq rfl
        rw [h.eq_of_idParts hp hb hbefore] at hother
        exact hother hblock
    · rw [hid, idParts_fullId _ hname.no_dot] at heq
      obtain ⟨-, hlast⟩ := List.append_inj' heq rfl
      exact hname.ne_number n (List.cons.inj hlast).1

/-- The id that the next child without a name gets is free. -/
theorem find?_nextChildId {p : Nat} (hp : p < c.size) :
    c.find? (c.node p).nextChildId = none := by
  rw [Option.eq_none_iff_forall_ne_some]
  intro i hfind
  obtain ⟨hi, hid⟩ := find?_eq_some hfind
  rw [Node.nextChildId_eq] at hid
  rcases h.id hi with ⟨q, option, position, hparent, hat, hid'⟩ | ⟨name, hname, hid'⟩
  · have hq := h.sound.parent hparent
    have hparts := congrArg idParts (hid'.symm.trans hid)
    rw [Node.idParts_placeId, Node.idParts_placeId] at hparts
    -- behind the last child there is none
    have hfree (hsame : q = p) (hposition : position =
        ((c.node p).childrenAt ((c.node p).options.length - 1)).length)
        (hoption : (c.node p).childrenAt option =
          (c.node p).childrenAt ((c.node p).options.length - 1)) : False := by
      rw [hsame, hoption, hposition, List.getElem?_eq_none (Nat.le_refl _)] at hat
      cases hat
    by_cases hblock : (c.node p).isBlock = true <;>
      by_cases hblock' : (c.node q).isBlock = true
    · rw [if_pos hblock, if_pos hblock'] at hparts
      obtain ⟨hbefore, hslot⟩ := List.append_inj' hparts rfl
      simp only [List.cons.injEq, and_true] at hslot
      exact hfree (h.eq_of_idParts hq hp hbefore) (toDigits_injective hslot.2)
        (by rw [toDigits_injective hslot.1])
    · rw [if_pos hblock, if_neg hblock', List.append_cons (idParts (c.node p).id)] at hparts
      obtain ⟨hbefore, -⟩ := List.append_inj' hparts rfl
      exact h.ne_block_number hp hblock hq _ hbefore
    · rw [if_neg hblock, if_pos hblock', List.append_cons] at hparts
      obtain ⟨hbefore, -⟩ := List.append_inj' hparts rfl
      exact h.ne_block_number hq hblock' hp _ hbefore.symm
    · rw [if_neg hblock, if_neg hblock'] at hparts
      obtain ⟨hbefore, hslot⟩ := List.append_inj' hparts rfl
      refine hfree (h.eq_of_idParts hq hp hbefore) (toDigits_injective (List.cons.inj hslot).1) ?_
      rw [Node.childrenAt_of_not_isBlock hblock, Node.childrenAt_of_not_isBlock hblock]
  · exact placeId_ne_fullId _ _ _ _ hname (hid.symm.trans hid')

end Decodable

/-! ## Containers with a label -/

section Labels

variable {name id : String} {i : NodeId}

/-- Whether a node is a container whose id ends in a point and a name. -/
def Bears (c : Content) (name : String) (i : NodeId) : Prop :=
  i < c.size ∧ (c.node i).isContainer = true ∧ ∃ stem, (c.node i).id = stem ++ "." ++ name

/-- An id ends in a name behind a dot just when something stands in front of it. -/
theorem isSuffixOf_iff_exists_stem :
    ('.' :: name.toList).isSuffixOf id.toList = true ↔ ∃ stem, id = stem ++ "." ++ name := by
  rw [List.isSuffixOf_iff_suffix]
  constructor
  · rintro ⟨stem, hstem⟩
    refine ⟨String.ofList stem, String.toList_injective ?_⟩
    rw [← hstem, String.toList_append, String.toList_append, String.toList_ofList,
      List.append_assoc]
    rfl
  · rintro ⟨stem, rfl⟩
    refine ⟨stem.toList, ?_⟩
    rw [String.toList_append, String.toList_append, List.append_assoc]
    rfl

/-- The nodes with a label are those that bear it. -/
theorem mem_labelled_iff : i ∈ c.labelled name ↔ c.Bears name i := by
  rw [labelled, List.mem_filter, List.mem_range, Bool.and_eq_true, isSuffixOf_iff_exists_stem]
  rfl

/-- Each is listed once. -/
theorem nodup_labelled : (c.labelled name).Nodup :=
  List.nodup_range.filter _

/-- A list without repetitions has just one member when all its members are equal to one. -/
theorem eq_singleton_iff {l : List NodeId} (h : l.Nodup) : l = [i] ↔ i ∈ l ∧ ∀ j ∈ l, j = i := by
  rw [← List.perm_singleton, List.perm_ext_iff_of_nodup h (List.nodup_singleton i)]
  simp only [List.mem_singleton]
  constructor
  · intro hall
    exact ⟨(hall i).2 rfl, fun j => (hall j).1⟩
  · rintro ⟨hi, hall⟩ j
    exact ⟨hall j, fun hj => hj ▸ hi⟩

/-- A label leads to a container when no other container has it. -/
theorem findByLabel?_eq_some_iff :
    c.findByLabel? name = some i ↔ c.Bears name i ∧ ∀ j, c.Bears name j → j = i := by
  have hlabelled : c.findByLabel? name = some i ↔ c.labelled name = [i] := by
    unfold findByLabel?
    split
    · next hj => simp [hj]
    · next hnone =>
      simp only [reduceCtorEq, false_iff]
      exact hnone i
  simp only [hlabelled, eq_singleton_iff nodup_labelled, mem_labelled_iff]

end Labels

end Content

end Narrative
