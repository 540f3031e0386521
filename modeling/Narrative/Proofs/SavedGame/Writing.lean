import Narrative.Proofs.SavedGame.Documents
import Narrative.SavedGame.Diagnosis

/-!
# Saved games are read back

A saved game is read from its written form as it was, whatever texts, values and maps it has: parts
that are left out because they are empty come back empty, and the order in which a map is written is
the order of its names. Only its numbers have to fit the words in which they are kept.
-/

namespace Narrative

namespace Json

/-! ## Lists and maps -/

/-- A list is decoded when each item of it is. -/
theorem mapM_map_eq_some {α β : Type} {encode : α → β} {decode : β → Option α} {xs : List α}
    (h : ∀ x ∈ xs, decode (encode x) = some x) : (xs.map encode).mapM decode = some xs := by
  induction xs with
  | nil => rfl
  | cons x xs ih =>
    have hx := h x List.mem_cons_self
    have hxs := ih fun y hy => h y (List.mem_cons_of_mem _ hy)
    rw [List.map_cons, List.mapM_cons, hx, hxs]
    rfl

/-- A number within its bound is read back. -/
theorem nat?_ofNat {n bound : Nat} (h : n ≤ bound) : (ofNat n).nat? bound = some n := by
  have hvalue : (Nat.toDigits 10 n).foldl (fun n c => 10 * n + (c.toNat - '0'.toNat)) 0 = n := by
    have hdigits := Decimal.natOfDigits_toDigits_append n 0
    rw [List.replicate_zero, List.append_nil] at hdigits
    exact hdigits.trans (Nat.mul_one n)
  have hall : (Nat.toDigits 10 n).all Char.isDigit = true :=
    List.all_eq_true.2 fun _ hc => isDigit_of_mem_toDigits hc
  simp only [ofNat, nat?, hvalue, hall, h, and_self, if_true]

/-- Texts are read back. -/
theorem strings?_ofStrings (ss : List String) : (ofStrings ss).strings? = some ss :=
  mapM_map_eq_some fun _ _ => rfl

/-- A text that may be absent is read back. -/
theorem nullable?_ofString? (s : Option String) : nullable? string? (ofString? s) = some s := by
  cases s <;> rfl

/-- A map is decoded when each value in it is. -/
theorem map?_ofMap {β : Type} {encode : β → Json} {decode : Json → Option β} {m : NameMap β}
    (h : ∀ e ∈ m.toList, decode (encode e.2) = some e.2) :
    (ofMap encode m).map? decode = some m := by
  have hentries : (m.toList.map fun e => (some e.1, encode e.2)).mapM
      (fun e => do return (← e.1, ← decode e.2)) = some m.toList := by
    refine mapM_map_eq_some fun e he => ?_
    rw [h e he]
    rfl
  rw [ofMap, map?, hentries]
  exact congrArg some m.ofList_toList

/-- The document of some texts is legible. -/
theorem legible_ofStrings (ss : List String) : (ofStrings ss).Legible := by
  refine legible_array fun j hj => ?_
  obtain ⟨s, -, rfl⟩ := List.mem_map.1 hj
  exact legible_ofString s

/-- The document of a text that may be absent is legible. -/
theorem legible_ofString? (s : Option String) : (ofString? s).Legible := by
  cases s with
  | none => exact legible_null
  | some s => exact legible_ofString s

/-- A map is read back when each value in it is. -/
theorem legible_ofMap {β : Type} {encode : β → Json} {m : NameMap β}
    (h : ∀ e ∈ m.toList, (encode e.2).Legible) : (ofMap encode m).Legible := by
  have hmembers : ofMap encode m =
      object (ofMembers (m.toList.map fun e => (e.1, encode e.2))) := by
    rw [ofMembers, List.map_map]
    rfl
  rw [hmembers]
  refine legible_object fun member hmember => ?_
  obtain ⟨e, he, rfl⟩ := List.mem_map.1 hmember
  exact h e he

end Json

/-! ## Values -/

namespace SavedValue

/-- A value of each kind is decoded from its document. -/
theorem ofJson?_toJson (v : SavedValue) : ofJson? v.toJson = some v := by
  cases v <;> rfl

/-- The document of a value with its type is legible. -/
theorem legible_tagged (type : String) {content : Json} (h : content.Legible) :
    (tagged type content).Legible := by
  have hmembers : ∀ m ∈ [("type", Json.ofString type), ("value", content)], m.2.Legible := by
    simp [h, Json.legible_ofString]
  exact Json.legible_object hmembers

/-- The document of a value is legible. -/
theorem legible_toJson (v : SavedValue) : v.toJson.Legible := by
  cases v with
  | bool b => exact legible_tagged _ (Json.legible_bool b)
  | null =>
    have hmembers : ∀ m ∈ [("type", Json.ofString "null")], m.2.Legible := by
      simp [Json.legible_ofString]
    exact Json.legible_object hmembers
  | number text => exact legible_tagged _ (Json.legible_ofString text)
  | str s => exact legible_tagged _ (Json.legible_ofString s)
  | divert id => exact legible_tagged _ (Json.legible_ofString id)
  | object key => exact legible_tagged _ (Json.legible_ofString key)

end SavedValue

/-! ## Nodes -/

namespace SavedNode

/-- Whether the numbers of a node fit the words in which they are kept. -/
structure Fits (n : SavedNode) : Prop where
  /-- The number of visits fits. -/
  count : n.count ≤ maxCount
  /-- The chosen option fits, if there is one. -/
  selection : ∀ i ∈ n.selection, i ≤ maxIndex

instance (n : SavedNode) : Decidable n.Fits :=
  decidable_of_iff (n.count ≤ maxCount ∧ ∀ i ∈ n.selection, i ≤ maxIndex)
    ⟨fun h => ⟨h.1, h.2⟩, fun h => ⟨h.count, h.selection⟩⟩

/-- A node is decoded from its document, with or without parameters and a chosen option. -/
theorem ofJson?_toJson {n : SavedNode} (h : n.Fits) : ofJson? n.toJson = some n := by
  obtain ⟨count, params, selection⟩ := n
  have hfields : (toJson ⟨count, params, selection⟩).fields? ["count", "variables", "selection"] =
      some [some (.ofNat count),
        if params.isEmpty then none else some (.ofMap SavedValue.toJson params),
        selection.map .ofNat] := by
    cases hparams : params.isEmpty <;> cases selection <;> simp only [toJson, hparams] <;> rfl
  have hcount := Json.nat?_ofNat h.count
  have hparams : Json.optional? .empty (Json.map? SavedValue.ofJson?)
      (if params.isEmpty then none else some (.ofMap SavedValue.toJson params)) = some params := by
    split
    · next hempty =>
      have hentries : params.entries = [] := List.isEmpty_iff.1 hempty
      exact congrArg some (NameMap.ext_entries hentries.symm)
    · exact Json.map?_ofMap fun e _ => e.2.ofJson?_toJson
  have hselection : Json.optional? none (Json.nullable? (Json.nat? maxIndex))
      (selection.map .ofNat) = some selection := by
    cases selection with
    | none => rfl
    | some i => exact congrArg (Option.map some) (Json.nat?_ofNat (h.selection i rfl))
  unfold ofJson?
  simp only [hfields, Option.bind_eq_bind, Option.bind_some, Json.required?, hcount, hparams,
    hselection, Option.pure_def]

/-- The document of a node is legible. -/
theorem legible_toJson (n : SavedNode) : n.toJson.Legible := by
  have hmembers : ∀ m ∈ [("count", Json.ofNat n.count)] ++
      (if n.params.isEmpty then [] else [("variables", .ofMap SavedValue.toJson n.params)]) ++
      (n.selection.map fun i => ("selection", Json.ofNat i)).toList, m.2.Legible := by
    intro m hm
    obtain (hcount | hparams) | hselection := (List.mem_append.1 hm).imp_left List.mem_append.1
    · rw [List.mem_singleton.1 hcount]
      exact Json.legible_ofNat n.count
    · split at hparams
      · cases hparams
      · rw [List.mem_singleton.1 hparams]
        exact Json.legible_ofMap fun e _ => e.2.legible_toJson
    · obtain ⟨i, -, rfl⟩ := Option.map_eq_some_iff.1 (Option.mem_toList.1 hselection)
      exact Json.legible_ofNat i
  have hlegible := Json.legible_object hmembers
  obtain ⟨count, params, selection⟩ := n
  cases hparams : params.isEmpty <;> cases selection
  all_goals
    simp only [toJson, hparams] at hlegible ⊢
    exact hlegible

end SavedNode

/-! ## Saved games -/

namespace SavedGame

/-- Whether the numbers of a saved game fit the words in which they are kept. -/
structure Fits (g : SavedGame) : Prop where
  /-- The position in the container fits. -/
  index : g.index ≤ SavedNode.maxIndex
  /-- The numbers of the nodes fit. -/
  content : ∀ e ∈ g.content.toList, e.2.Fits

instance (g : SavedGame) : Decidable g.Fits :=
  decidable_of_iff (g.index ≤ SavedNode.maxIndex ∧ ∀ e ∈ g.content.toList, e.2.Fits)
    ⟨fun h => ⟨h.1, h.2⟩, fun h => ⟨h.index, h.content⟩⟩

/-- A saved game is decoded from its document. -/
theorem ofJson?_toJson {g : SavedGame} (h : g.Fits) : ofJson? g.toJson = some g := by
  have hfields : g.toJson.fields? fieldNames = some
      [some (.ofStrings g.files), some (.ofMap SavedNode.toJson g.content),
        some (.ofString? g.container), some (.ofNat g.index), some (.ofStrings g.text),
        some (.ofStrings g.choices), some (.ofStrings g.comments), some (.ofString? g.image),
        some (.ofMap SavedValue.toJson g.globals), some (.bool g.running),
        some (.bool g.processing)] := rfl
  have hcontent : (Json.ofMap SavedNode.toJson g.content).map? SavedNode.ofJson? =
      some g.content :=
    Json.map?_ofMap fun e he => SavedNode.ofJson?_toJson (h.content e he)
  have hglobals : (Json.ofMap SavedValue.toJson g.globals).map? SavedValue.ofJson? =
      some g.globals :=
    Json.map?_ofMap fun e _ => e.2.ofJson?_toJson
  unfold ofJson?
  simp only [hfields, Option.bind_eq_bind, Option.bind_some, Json.required?, Json.optional?,
    Json.strings?_ofStrings, Json.nullable?_ofString?, Json.nat?_ofNat h.index, hcontent, hglobals,
    Json.bool?, Option.pure_def]

/-- The document of a saved game is legible. -/
theorem legible_toJson (g : SavedGame) : g.toJson.Legible := by
  have hmembers : ∀ m ∈ [("files", Json.ofStrings g.files),
      ("content", .ofMap SavedNode.toJson g.content), ("container", .ofString? g.container),
      ("index", .ofNat g.index), ("text", .ofStrings g.text), ("choices", .ofStrings g.choices),
      ("comments", .ofStrings g.comments), ("image", .ofString? g.image),
      ("variables", .ofMap SavedValue.toJson g.globals), ("running", .bool g.running),
      ("processing", .bool g.processing)], m.2.Legible := by
    have hcontent := Json.legible_ofMap (m := g.content) fun e _ => e.2.legible_toJson
    have hglobals := Json.legible_ofMap (m := g.globals) fun e _ => e.2.legible_toJson
    simp [Json.legible_ofStrings, Json.legible_ofString?, Json.legible_ofNat, Json.legible_bool,
      hcontent, hglobals]
  exact Json.legible_object hmembers

/-- A saved game is read from its written form as it was. -/
theorem read_write {g : SavedGame} (h : g.Fits) : read (String.ofList g.write) = .ok g := by
  have hparse : Json.parse? g.write = some g.toJson := g.legible_toJson.parse?_render
  have hread : read? g.write = some g := by
    rw [read?, hparse, Option.bind_some, ofJson?_toJson h]
  rw [read, String.toList_ofList, hread]

/-- A saved game with texts that are escaped, the greatest numbers and a value of each kind. -/
def quayGame : SavedGame where
  files := ["quay.ink", ""]
  content := .ofList [("quay", { count := SavedNode.maxCount, params := .ofList [("who", .null)] }),
    ("quay.0", { count := 1, selection := some SavedNode.maxIndex }), ("\"\\", { count := 0 })]
  container := some "quay"
  index := SavedNode.maxIndex
  text := ["\"Ahoy\" \\ \n\r\t\x00\x08\x0c\x1f\x7f", "\u00e9\ud7ff\ue000\uffff 😀"]
  choices := ["quay.1"]
  globals := .ofList [("b", .bool true), ("c", .divert "quay"), ("n", .number "-2.5"),
    ("o", .object "boat"), ("s", .str "null"), ("z", .null)]
  running := true

/-- Such a game is read back. -/
theorem read_write_quay :
    quayGame.Fits ∧ read (String.ofList quayGame.write) = .ok quayGame := by
  have hfits : quayGame.Fits := by decide +kernel
  exact ⟨hfits, read_write hfits⟩

end SavedGame

end Narrative
