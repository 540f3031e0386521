/-!
# Maps keyed by names

Variables, parameters and visit records are kept by name. A map is the list of its entries in the
order of their names, so two maps with the same entries are equal and every listing is sorted.
-/

namespace Narrative

/-- A finite map from names, in increasing order of the names. -/
structure NameMap (β : Type) where
  /-- The entries. -/
  entries : List (String × β)
  /-- Names increase strictly along the list. -/
  increasing : entries.Pairwise fun a b => a.1 < b.1

namespace NameMap

variable {β : Type}

instance [DecidableEq β] : DecidableEq (NameMap β) := fun a b =>
  match decEq a.entries b.entries with
  | isTrue h => isTrue (by cases a; cases b; simp_all)
  | isFalse h => isFalse fun e => h (congrArg entries e)

/-- The map without entries. -/
def empty : NameMap β := ⟨[], .nil⟩

instance : Inhabited (NameMap β) := ⟨empty⟩

/-- Maps with the same entries are equal. -/
theorem ext_entries {m n : NameMap β} (h : m.entries = n.entries) : m = n := by
  cases m
  cases n
  simp_all

/-- The value stored under a name in a list of entries. -/
def find? (name : String) : List (String × β) → Option β
  | [] => none
  | (key, value) :: rest => if key = name then some value else find? name rest

/-- The value stored under a name. -/
def get? (m : NameMap β) (name : String) : Option β :=
  find? name m.entries

/-- The empty map has no values. -/
@[simp] theorem get?_empty (name : String) : (empty : NameMap β).get? name = none := rfl

/-- Whether a name has a value. -/
def contains (m : NameMap β) (name : String) : Bool :=
  (m.get? name).isSome

/-- Whether the map has no entries. -/
def isEmpty (m : NameMap β) : Bool :=
  m.entries.isEmpty

/-- Puts an entry at its place in an ordered list, replacing one of the same name. -/
def insertEntry (name : String) (value : β) : List (String × β) → List (String × β)
  | [] => [(name, value)]
  | (key, old) :: rest =>
    if name < key then (name, value) :: (key, old) :: rest
    else if name = key then (name, value) :: rest
    else (key, old) :: insertEntry name value rest

/-- What is among the entries was inserted or was there. -/
theorem mem_insertEntry {name : String} {value : β} {entries : List (String × β)}
    {e : String × β} (h : e ∈ insertEntry name value entries) :
    e = (name, value) ∨ e ∈ entries := by
  fun_induction insertEntry name value entries with
  | case1 => simpa using h
  | case2 => simpa using h
  | case3 =>
    simp only [List.mem_cons] at h ⊢
    grind
  | case4 key old rest _ _ ih =>
    simp only [List.mem_cons] at h ⊢
    grind

/-- Inserting leaves the entries in order. -/
theorem pairwise_insertEntry {name : String} {value : β} {entries : List (String × β)}
    (h : entries.Pairwise fun a b => a.1 < b.1) :
    (insertEntry name value entries).Pairwise fun a b => a.1 < b.1 := by
  fun_induction insertEntry name value entries with
  | case1 => exact .cons (by simp) .nil
  | case2 key old rest hlt =>
    refine .cons (fun e he => ?_) h
    rcases List.mem_cons.1 he with rfl | he
    · exact hlt
    · exact String.lt_trans hlt ((List.pairwise_cons.1 h).1 e he)
  | case3 old rest _ => exact .cons (List.pairwise_cons.1 h).1 (List.pairwise_cons.1 h).2
  | case4 key old rest hlt hne ih =>
    refine .cons (fun e he => ?_) (ih (List.pairwise_cons.1 h).2)
    rcases mem_insertEntry he with rfl | he
    · exact Std.lt_of_le_of_ne (String.not_lt.1 hlt) (Ne.symm hne)
    · exact (List.pairwise_cons.1 h).1 e he

/-- The name that is inserted has the value, and the others keep theirs. -/
theorem find?_insertEntry (name : String) (value : β) (entries : List (String × β))
    (key : String) :
    find? key (insertEntry name value entries) =
      if name = key then some value else find? key entries := by
  fun_induction insertEntry name value entries with
  | case1 => simp [find?]
  | case2 => simp [find?]
  | case3 old rest _ =>
    simp only [find?]
    grind
  | case4 k old rest _ _ ih =>
    simp only [find?, ih]
    grind

/-- An entry with the greatest name goes to the end. -/
theorem insertEntry_eq_append {name : String} {value : β} {entries : List (String × β)}
    (h : ∀ e ∈ entries, e.1 < name) :
    insertEntry name value entries = entries ++ [(name, value)] := by
  fun_induction insertEntry name value entries with
  | case1 => rfl
  | case2 k old rest hlt => exact absurd hlt (String.lt_asymm (h (k, old) (by simp)))
  | case3 old rest _ => exact absurd (h (name, old) (by simp)) (String.lt_irrefl _)
  | case4 k old rest _ _ ih => rw [List.cons_append, ih fun e he => h e (by simp [he])]

/-- Stores a value under a name, replacing the one stored before. -/
def insert (m : NameMap β) (name : String) (value : β) : NameMap β :=
  ⟨insertEntry name value m.entries, pairwise_insertEntry m.increasing⟩

/-- A stored value is found under its name, and other names keep their values. -/
theorem get?_insert (m : NameMap β) (name : String) (value : β) (key : String) :
    (m.insert name value).get? key = if name = key then some value else m.get? key :=
  find?_insertEntry name value m.entries key

/-- The map with the given entries, of which the last of a name counts. -/
def ofList (entries : List (String × β)) : NameMap β :=
  entries.foldl (fun m e => m.insert e.1 e.2) empty

/-- The names and values in the order of the names. -/
def toList (m : NameMap β) : List (String × β) :=
  m.entries

/-- Entries in order are inserted as they are. -/
theorem entries_foldl_insert (m : NameMap β) (entries : List (String × β))
    (h : (m.entries ++ entries).Pairwise fun a b => a.1 < b.1) :
    (entries.foldl (fun m e => m.insert e.1 e.2) m).entries = m.entries ++ entries := by
  induction entries generalizing m with
  | nil => simp
  | cons e rest ih =>
    have happ : (m.insert e.1 e.2).entries = m.entries ++ [e] :=
      insertEntry_eq_append fun x hx => (List.pairwise_append.1 h).2.2 x hx e (by simp)
    rw [List.foldl_cons, ih _ (by rw [happ]; simpa using h), happ, List.append_assoc]
    rfl

/-- A map is rebuilt from its listing. -/
@[simp] theorem ofList_toList (m : NameMap β) : ofList m.toList = m :=
  ext_entries (entries_foldl_insert empty m.entries (by simpa [empty] using m.increasing))

end NameMap

end Narrative
