import Narrative.Proofs.Content.Ids
import Narrative.Proofs.Story.Redirection
import Narrative.Proofs.Story.References

/-!
# Labels in any order

The ids of a story are the keys of a table, and nothing says in which order its entries lie. An id
is looked up as a key. A label is looked up by going through the entries: the first container with
the label is kept, and the search is given up at a second one. Here the table is a list of its
entries in any order, and it is shown that the order has no part in where a name leads.
-/

namespace Narrative

namespace Content

variable {c : Content} {name id : String} {entries entries' : List (String × NodeId)} {i j : NodeId}

/-! ## The table of ids -/

/-- A list of the entries of the table of ids, in whatever order they are gone through. -/
structure Lists (c : Content) (entries : List (String × NodeId)) : Prop where
  /-- Every node stands in it under its id, and nothing else does. -/
  mem_iff {id : String} {i : NodeId} : (id, i) ∈ entries ↔ i < c.size ∧ (c.node i).id = id
  /-- No id stands in it twice. -/
  nodup : (entries.map (·.1)).Nodup

/-- The entries in the order in which the nodes were read. -/
def index (c : Content) : List (String × NodeId) :=
  (List.range c.size).map fun i => ((c.node i).id, i)

/-- Where the ids of the nodes differ there is such a list. -/
theorem Sound.lists_index (h : c.Sound) : c.Lists c.index where
  mem_iff := by
    intro id i
    simp only [index, List.mem_map, List.mem_range, Prod.mk.injEq]
    constructor
    · rintro ⟨j, hj, hid, rfl⟩
      exact ⟨hj, hid⟩
    · rintro ⟨hi, hid⟩
      exact ⟨_, hi, hid, rfl⟩
  nodup := by
    rw [index, List.map_map, List.nodup_map_iff_inj_on List.nodup_range]
    intro i hi j hj hid
    exact h.distinct (List.mem_range.1 hi) (List.mem_range.1 hj) hid

namespace Lists

/-- The entries may be listed in any other order. -/
theorem perm (h : c.Lists entries) (hperm : entries'.Perm entries) : c.Lists entries' where
  mem_iff := hperm.mem_iff.trans h.mem_iff
  nodup := (hperm.map _).nodup_iff.2 h.nodup

/-- The table leads from an id to one node only. -/
theorem eq_of_mem (h : c.Lists entries) (hi : (id, i) ∈ entries) (hj : (id, j) ∈ entries) : i = j :=
  congrArg Prod.snd (List.inj_on_of_nodup_map h.nodup hi hj rfl)

/-- What is looked up in the table under an id is the node with that id. -/
theorem lookup_eq (h : c.Lists entries) (id : String) : entries.lookup id = c.find? id := by
  cases hfind : c.find? id with
  | none =>
    refine List.lookup_eq_none_iff.2 fun ⟨key, i⟩ hmem => bne_iff_ne.2 ?_
    rintro rfl
    obtain ⟨hi, hid⟩ := h.mem_iff.1 hmem
    exact find?_eq_none hfind hi hid
  | some i =>
    have hi : (id, i) ∈ entries := h.mem_iff.2 (find?_eq_some hfind)
    cases hlookup : entries.lookup id with
    | none => simpa using List.lookup_eq_none_iff.1 hlookup _ hi
    | some j =>
      obtain ⟨before, behind, rfl, -⟩ := List.lookup_eq_some_iff.1 hlookup
      rw [h.eq_of_mem hi (List.mem_append_right before List.mem_cons_self)]

/-- A node stands in the table once. -/
theorem nodup_nodes (h : c.Lists entries) : (entries.map (·.2)).Nodup := by
  have hids := List.pairwise_map.1 h.nodup
  refine List.pairwise_map.2 (hids.imp_of_mem fun ha hb hne hnode => hne ?_)
  rw [← (h.mem_iff.1 ha).2, ← (h.mem_iff.1 hb).2, hnode]

end Lists

/-! ## Going through the table -/

/-- Whether an entry is that of a container whose id ends in a point and a name. -/
def hasLabel (c : Content) (name : String) (entry : String × NodeId) : Bool :=
  ('.' :: name.toList).isSuffixOf entry.1.toList && (c.node entry.2).isContainer

/-- Goes through entries for the container with a label, where `found` is the one met before. The
search is given up at a second one. -/
def searchLabel? (c : Content) (name : String) :
    (found : Option NodeId) → List (String × NodeId) → Option NodeId
  | found, [] => found
  | found, entry :: rest =>
    if c.hasLabel name entry then
      if found.isSome then none else searchLabel? c name (some entry.2) rest
    else searchLabel? c name found rest

/-- The containers with a label among some entries. -/
def labelledAmong (c : Content) (name : String) (entries : List (String × NodeId)) : List NodeId :=
  (entries.filter (c.hasLabel name)).map (·.2)

/-- An entry is found in front of the rest, or not. -/
theorem labelledAmong_cons (entry : String × NodeId) (rest : List (String × NodeId)) :
    c.labelledAmong name (entry :: rest) =
      if c.hasLabel name entry then entry.2 :: c.labelledAmong name rest
      else c.labelledAmong name rest := by
  rw [labelledAmong, List.filter_cons]
  split <;> rfl

/-- The search ends with a container when it is the only one met, before and from here on. -/
theorem searchLabel?_eq_some_iff {found : Option NodeId} :
    c.searchLabel? name found entries = some i ↔
      found.toList ++ c.labelledAmong name entries = [i] := by
  induction entries generalizing found with
  | nil => cases found <;> simp [searchLabel?, labelledAmong]
  | cons entry rest ih =>
    rw [searchLabel?, labelledAmong_cons]
    by_cases hlabel : c.hasLabel name entry = true
    · rw [if_pos hlabel, if_pos hlabel]
      cases found with
      | none => exact ih
      | some j => simp
    · rw [if_neg hlabel, if_neg hlabel]
      exact ih

namespace Lists

/-- The nodes with a label are those that bear it. -/
theorem mem_labelledAmong_iff (h : c.Lists entries) :
    i ∈ c.labelledAmong name entries ↔ c.Bears name i := by
  simp only [labelledAmong, List.mem_map, List.mem_filter, hasLabel, Bool.and_eq_true,
    isSuffixOf_iff_exists_stem]
  constructor
  · rintro ⟨⟨key, j⟩, ⟨hmem, hstem, hcontainer⟩, rfl⟩
    obtain ⟨hi, rfl⟩ := h.mem_iff.1 hmem
    exact ⟨hi, hcontainer, hstem⟩
  · rintro ⟨hi, hcontainer, hstem⟩
    exact ⟨((c.node i).id, i), ⟨h.mem_iff.2 ⟨hi, rfl⟩, hstem, hcontainer⟩, rfl⟩

/-- Each is found once. -/
theorem nodup_labelledAmong (h : c.Lists entries) : (c.labelledAmong name entries).Nodup :=
  h.nodup_nodes.sublist (List.filter_sublist.map _)

/-- Going through all entries finds a container when no other container has the label. -/
theorem searchLabel?_eq_some_iff (h : c.Lists entries) :
    c.searchLabel? name none entries = some i ↔
      c.Bears name i ∧ ∀ j, c.Bears name j → j = i := by
  rw [Content.searchLabel?_eq_some_iff, Option.toList_none, List.nil_append,
    eq_singleton_iff h.nodup_labelledAmong]
  simp only [h.mem_labelledAmong_iff]

/-- The search in the table finds what the label stands for. -/
theorem searchLabel?_eq (h : c.Lists entries) :
    c.searchLabel? name none entries = c.findByLabel? name :=
  Option.ext fun _ => h.searchLabel?_eq_some_iff.trans findByLabel?_eq_some_iff.symm

end Lists

end Content

namespace Stage

variable {s : Stage} {m : Memory} {name : String} {entries : List (String × NodeId)}

/-- The node a divert to a name leads to, for any way to look up ids and labels. -/
def targetBy? (s : Stage) (find label : String → Option NodeId) (m : Memory) (name : String) :
    Option NodeId :=
  let parent := (s.here.bind fun i => (s.content.node i).parent).toList
  (find name).filter s.isTarget <|>
    (parent ++ s.sections).findSome? (fun i =>
      (find ((s.content.node i).id ++ "." ++ name)).filter s.isTarget) <|>
    label name <|>
    match m.globals.get? name with
    | some (.container id) => find id
    | _ => none

/-- A divert looks for ids and labels in this way. -/
theorem target?_eq_targetBy? :
    s.target? m name = s.targetBy? s.content.find? s.content.findByLabel? m name := rfl

/-- The node a divert to a name leads to, with ids and labels looked up among entries. -/
def targetAmong? (s : Stage) (entries : List (String × NodeId)) (m : Memory) (name : String) :
    Option NodeId :=
  s.targetBy? (entries.lookup ·) (s.content.searchLabel? · none entries) m name

/-- In whatever order the table is gone through, a divert leads to the same node. -/
theorem targetAmong?_eq (h : s.content.Lists entries) (m : Memory) (name : String) :
    s.targetAmong? entries m name = s.target? m name := by
  have hfind : (entries.lookup ·) = s.content.find? := funext h.lookup_eq
  have hlabel : (s.content.searchLabel? · none entries) = s.content.findByLabel? :=
    funext fun _ => h.searchLabel?_eq
  rw [targetAmong?, hfind, hlabel, target?_eq_targetBy?]

end Stage

namespace Story

variable {w : World} {s : Story} {n : Node} {entries : List (String × NodeId)}

/-- Where a divert node leads, for any way to look up the node that its name leads to. -/
def takeDivertBy (target? : Stage → Memory → String → Option NodeId) (w : World) (n : Node) :
    Play (Option (NodeId × List Value)) := do
  let (name, args) := splitCall (n.divertTarget?.getD [])
  if name = endName then return none
  let name ← redirectBy w name 0 (← get).interrupts
  if name = endName then return none
  let s ← get
  let stage := s.stage w.host
  let name := String.ofList name
  match target? stage s.memory name with
  | none => throw (.unknownDivert name (stage.qualified name) n.line)
  | some i => return some (s.descend i, ← evaluateArguments w n.line args)

/-- Taking a divert is taking it by the nodes it leads to. -/
theorem takeDivert_eq_takeDivertBy : takeDivert w n = takeDivertBy Stage.target? w n := rfl

/-- Looking for an interrupt leaves the content. -/
theorem content_of_redirectBy {name led : List Char} {position : Nat} {interrupts : List Interrupt}
    {u : Story} (h : redirectBy w name position interrupts s = some (led, u)) :
    u.content = s.content := by
  obtain ⟨m, -, ⟨-, rfl⟩ | ⟨_, _, -, -, -, rfl⟩⟩ := redirectBy_eq_some h
  · rfl
  · rfl

/-- A divert leads alike by two ways to look names up that agree on the content of the story. -/
theorem takeDivertBy_congr {f g : Stage → Memory → String → Option NodeId}
    (h : ∀ stage : Stage, stage.content = s.content → f stage = g stage) :
    takeDivertBy f w n s = takeDivertBy g w n s := by
  unfold takeDivertBy
  obtain ⟨name, args⟩ := splitCall (n.divertTarget?.getD [])
  by_cases hname : name = endName
  · simp only [if_pos hname]
  · simp only [if_neg hname]
    rw [Attempt.get_bind_apply, Attempt.get_bind_apply, Attempt.bind_apply, Attempt.bind_apply]
    change ((ExceptT.lift (redirectBy w name 0 s.interrupts) : Play _) s).bind _ =
      ((ExceptT.lift (redirectBy w name 0 s.interrupts) : Play _) s).bind _
    rw [Attempt.lift_apply]
    cases hredirect : redirectBy w name 0 s.interrupts s with
    | none => rfl
    | some result =>
      obtain ⟨led, u⟩ := result
      -- the conditions of interrupts change the memory only
      have hstage : f (u.stage w.host) = g (u.stage w.host) :=
        h _ (content_of_redirectBy hredirect)
      simp only [Option.map_some, Option.bind_some]
      split
      · rfl
      · rw [Attempt.get_bind_apply, Attempt.get_bind_apply, hstage]

/-- Where a divert node leads, with its name looked up among entries. -/
def takeDivertAmong (entries : List (String × NodeId)) (w : World) (n : Node) :
    Play (Option (NodeId × List Value)) :=
  takeDivertBy (·.targetAmong? entries) w n

/-- In whatever order the table is gone through, a divert is taken alike. -/
theorem takeDivertAmong_eq (h : s.content.Lists entries) :
    takeDivertAmong entries w n s = takeDivert w n s := by
  rw [takeDivertAmong, takeDivert_eq_takeDivertBy]
  refine takeDivertBy_congr fun stage hstage => ?_
  rw [← hstage] at h
  exact funext fun m => funext fun name => Stage.targetAmong?_eq h m name

/-- In whatever order the entries are gone through, a container is found under a label just when no
other container has the label. So at every place a name leads to the same node in each order, and
where a divert leads depends on nothing but the sources and the state of the story. -/
theorem label_in_any_order {c : Content} {entries : List (String × NodeId)} (h : c.Lists entries)
    (name : String) :
    (∀ i, c.searchLabel? name none entries = some i ↔
        c.Bears name i ∧ ∀ j, c.Bears name j → j = i) ∧
      (c.searchLabel? name none entries = none ↔ ¬ ∃! i, c.Bears name i) ∧
      c.searchLabel? name none entries = c.findByLabel? name ∧
      (∀ (s : Stage) (m : Memory), s.content = c →
        s.targetAmong? entries m name = s.target? m name) ∧
      ∀ (w : World) (n : Node) (s : Story), s.content = c →
        takeDivertAmong entries w n s = takeDivert w n s := by
  refine ⟨fun i => h.searchLabel?_eq_some_iff, ?_, h.searchLabel?_eq, ?_, ?_⟩
  · simp only [Option.eq_none_iff_forall_ne_some, ne_eq, h.searchLabel?_eq_some_iff]
    exact not_exists.symm
  · rintro s m rfl
    exact Stage.targetAmong?_eq h m name
  · rintro w n s rfl
    exact takeDivertAmong_eq h

/-- A world in which a divert leads to a label in another knot. -/
def ferryWorld : World :=
  ⟨.ofSources (.ofList [("main",
    "== start\nThe ferry puts in.\n-> ashore\n== harbour\n* [Land] You land.\n" ++
    "- (ashore) You stand on the quay.\n")]) fun _ => "", 4, 40⟩

/-- The divert leads ashore also when the entries are gone through backwards. -/
theorem label_in_any_order_ferry : ∃ (s : Story) (n : Node) (i : NodeId),
    Reachable ferryWorld.host "main" (fun _ => True) s ∧ s.current?.map s.node = some n ∧
    n.divertTarget? = some "ashore".toList ∧ (s.node i).id = "harbour.ashore" ∧
    s.content.Lists s.content.index.reverse ∧
    s.content.searchLabel? "ashore" none s.content.index.reverse = some i ∧
    takeDivertAmong s.content.index.reverse ferryWorld n s = some (.ok (some (i, [])), s) := by
  have hplayed : (played? ferryWorld "main" 0 [.advance]).any (fun s =>
      (s.content.findByLabel? "ashore").any (fun i => (s.node i).id = "harbour.ashore" ∧
        (s.current?.map s.node).any (fun n => n.divertTarget? = some "ashore".toList ∧
          (takeDivert ferryWorld n s).any (fun a =>
            a.1.toOption = some (some (i, [])) ∧ a.2 = s) = true) = true) = true) = true := by
    decide +kernel
  obtain ⟨s, hs, hplays⟩ := (Option.any_eq_true _ _).1 hplayed
  obtain ⟨i, hi, hlabel⟩ := (Option.any_eq_true _ _).1 (of_decide_eq_true hplays)
  obtain ⟨hid, hdivert⟩ := of_decide_eq_true hlabel
  obtain ⟨n, hn, htakes⟩ := (Option.any_eq_true _ _).1 hdivert
  obtain ⟨htarget, htaken⟩ := of_decide_eq_true htakes
  obtain ⟨⟨r, t⟩, htake, hled⟩ := (Option.any_eq_true _ _).1 htaken
  obtain ⟨hok, rfl⟩ : r.toOption = some (some (i, [])) ∧ t = s := of_decide_eq_true hled
  have hreached : Reachable ferryWorld.host "main" (fun _ => True) t :=
    reachable_of_played? (fun _ _ => trivial) hs
  have hlists : t.content.Lists t.content.index.reverse :=
    hreached.sound.content.sound.lists_index.perm (List.reverse_perm _)
  obtain ⟨-, -, hsearch, -, htakeAmong⟩ := label_in_any_order hlists "ashore"
  refine ⟨t, n, i, hreached, hn, htarget, hid, hlists, hsearch.trans hi, ?_⟩
  rw [htakeAmong ferryWorld n t rfl, htake]
  cases r with
  | error e => cases hok
  | ok target =>
    cases hok
    rfl

end Story

end Narrative
