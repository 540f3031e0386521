import Mathlib.Data.List.Perm.Subperm
import Narrative.SavedGame.Restore

/-!
# Listings of maps

How the listing of a map relates to its values and to the entries from which it was built.
-/

namespace Narrative.NameMap

variable {β γ : Type}

/-- What is in a map was inserted or was there. -/
theorem mem_insert {m : NameMap β} {name : String} {value : β} {e : String × β}
    (h : e ∈ (m.insert name value).toList) : e = (name, value) ∨ e ∈ m.toList :=
  mem_insertEntry h

/-- What is in a map is one of the entries inserted, or was there. -/
theorem mem_foldl_insert {m : NameMap β} {entries : List (String × β)} {e : String × β}
    (h : e ∈ (entries.foldl (fun m e => m.insert e.1 e.2) m).toList) :
    e ∈ entries ∨ e ∈ m.toList := by
  induction entries generalizing m with
  | nil => exact .inr h
  | cons first rest ih =>
    rcases ih h with hrest | hm
    · exact .inl (List.mem_cons_of_mem _ hrest)
    · rcases mem_insert hm with rfl | hm
      · exact .inl List.mem_cons_self
      · exact .inr hm

/-- What a map built from entries lists is among the entries. -/
theorem mem_of_mem_ofList {entries : List (String × β)} {e : String × β}
    (h : e ∈ (ofList entries).toList) : e ∈ entries := by
  rcases mem_foldl_insert h with h | h
  · exact h
  · cases h

/-- What is found is an entry. -/
theorem mem_of_find? {name : String} {entries : List (String × β)} {value : β}
    (h : find? name entries = some value) : (name, value) ∈ entries := by
  induction entries with
  | nil => cases h
  | cons first rest ih =>
    rw [find?] at h
    split at h
    · next heq =>
      cases h
      subst heq
      exact List.mem_cons_self
    · exact List.mem_cons_of_mem _ (ih h)

/-- The names that are inserted have values, and so have those that were there. -/
theorem isSome_get?_foldl_insert {m : NameMap β} {entries : List (String × β)} {name : String}
    (h : (m.get? name).isSome = true ∨ name ∈ entries.map (·.1)) :
    ((entries.foldl (fun m e => m.insert e.1 e.2) m).get? name).isSome = true := by
  induction entries generalizing m with
  | nil =>
    rcases h with h | h
    · exact h
    · cases h
  | cons first rest ih =>
    refine ih ?_
    rw [get?_insert]
    rcases h with h | h
    · left
      split
      · rfl
      · exact h
    · rcases List.mem_cons.1 h with rfl | h
      · left
        rw [if_pos rfl]
        rfl
      · exact .inr h

/-- A name with a value is one of the names. -/
theorem mem_names_of_get? {m : NameMap β} {name : String} {value : β}
    (h : m.get? name = some value) : name ∈ m.toList.map (·.1) :=
  List.mem_map.2 ⟨(name, value), mem_of_find? h, rfl⟩

/-- A map built from entries lists every name that occurs in them. -/
theorem mem_names_ofList {entries : List (String × β)} {name : String}
    (h : name ∈ entries.map (·.1)) : name ∈ (ofList entries).toList.map (·.1) := by
  have hsome := isSome_get?_foldl_insert (m := empty) (.inr h)
  obtain ⟨value, hvalue⟩ := Option.isSome_iff_exists.1 hsome
  exact mem_names_of_get? hvalue

/-- A map with other values lists them under the same names. -/
@[simp] theorem toList_mapValues (f : β → γ) (m : NameMap β) :
    (m.mapValues f).toList = m.toList.map fun (name, v) => (name, f v) := by
  have hincreasing : (m.toList.map fun e => (e.1, f e.2)).Pairwise fun a b => a.1 < b.1 :=
    List.pairwise_map.2 m.increasing
  exact entries_foldl_insert empty _ hincreasing

/-- A map with other values has them under the same names. -/
theorem get?_mapValues (f : β → γ) (m : NameMap β) (name : String) :
    (m.mapValues f).get? name = (m.get? name).map f := by
  have hfind (entries : List (String × β)) :
      find? name (entries.map fun e => (e.1, f e.2)) = (find? name entries).map f := by
    induction entries with
    | nil => rfl
    | cons e entries ih =>
      rw [List.map_cons, find?, find?, ih]
      split <;> rfl
  exact (congrArg (find? name) (toList_mapValues f m)).trans (hfind m.entries)

/-- Names without repetition that all have a value are no more than the names of the map. -/
theorem length_le_of_forall_get? {m : NameMap β} {names : List String} (hnodup : names.Nodup)
    (hnames : ∀ name ∈ names, (m.get? name).isSome = true) : names.length ≤ m.entries.length := by
  have hsub : names ⊆ m.toList.map (·.1) := by
    intro name hname
    obtain ⟨value, hvalue⟩ := Option.isSome_iff_exists.1 (hnames name hname)
    exact mem_names_of_get? hvalue
  have hle := (hnodup.subperm hsub).length_le
  rwa [List.length_map] at hle

end Narrative.NameMap
