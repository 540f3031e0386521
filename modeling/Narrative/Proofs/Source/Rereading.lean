import Narrative.Proofs.Source.Reading

/-!
# Reading a source again

In front of its first header a source has nothing that makes a node. So the first node that is read
from a source is that of a header, and content that has this node already refuses the source there,
whatever follows the header.
-/

namespace Narrative

namespace Content

variable {c d : Content}

/-- An id is taken just when a node has it. -/
theorem isSome_find?_iff {id : String} :
    (c.find? id).isSome = true ↔ ∃ i, i < c.size ∧ (c.node i).id = id := by
  constructor
  · intro h
    obtain ⟨i, hi⟩ := Option.isSome_iff_exists.1 h
    exact ⟨i, find?_eq_some hi⟩
  · rintro ⟨i, hi, hid⟩
    refine Option.isSome_iff_ne_none.2 fun hnone => ?_
    exact find?_eq_none hnone hi hid

/-- The id of a node that was added is taken, and so are those that were taken before. -/
theorem taken_of_insert? {n : Node} (h : c.insert? n = some d) {id : String}
    (hid : (c.find? id).isSome = true ∨ id = n.id) : (d.find? id).isSome = true := by
  have hsize := size_of_insert? h
  rw [isSome_find?_iff]
  rcases hid with hid | rfl
  · obtain ⟨i, hi, hid⟩ := isSome_find?_iff.1 hid
    refine ⟨i, by omega, ?_⟩
    rw [node_of_insert? h, if_neg (Nat.ne_of_lt hi)]
    exact hid
  · exact ⟨c.size, by omega, by rw [node_of_insert? h, if_pos rfl]⟩

/-- An id stays taken when nodes are changed that keep their ids. -/
theorem taken_modify {id : String} (hid : (c.find? id).isSome = true) (i : NodeId)
    {f : Node → Node} (hf : ∀ n, (f n).id = n.id) : ((c.modify i f).find? id).isSome = true := by
  obtain ⟨j, hj, hid⟩ := isSome_find?_iff.1 hid
  refine isSome_find?_iff.2 ⟨j, by rwa [size_modify], ?_⟩
  rw [node_modify]
  split
  · rw [hf]
    exact hid
  · exact hid

/-- An id stays taken when a node is hung. -/
theorem taken_of_hang? {p : NodeId} {n : Node} (h : c.hang? p n = some d) {id : String}
    (hid : (c.find? id).isSome = true) : (d.find? id).isSome = true := by
  obtain ⟨inserted, hinsert, rfl⟩ := Option.map_eq_some_iff.1 h
  have htaken := taken_of_insert? hinsert (.inl hid)
  have hchild : ((inserted.modify c.size fun m => { m with parent := some p }).find? id).isSome =
      true := taken_modify htaken _ fun _ => rfl
  exact taken_modify hchild _ fun m => addChild_id m _

end Content

namespace Draft

variable {d d' x : Draft} {name : String}

/-! ## Ids that are taken -/

/-- An id that is taken stays taken. -/
theorem Grow.taken (hgrow : d.Grow d') (h : (d.content.find? name).isSome = true) :
    (d'.content.find? name).isSome = true := by
  cases hgrow with
  | note | close => exact h
  | root _ _ _ hinsert _ => exact Content.taken_of_insert? hinsert (.inl h)
  | leaf _ _ _ hhang | branch _ _ _ _ hhang | opening _ _ _ hhang =>
    exact Content.taken_of_hang? hhang h
  | option guard _ => exact Content.taken_modify h _ fun n => Content.addOption_id n guard
  | background _ _ => exact Content.taken_modify h _ fun _ => rfl

/-- Reading on leaves it taken. -/
theorem Grows.taken (hgrows : d.Grows d') (h : (d.content.find? name).isSome = true) :
    (d'.content.find? name).isSome = true := by
  induction hgrows with
  | refl => exact h
  | tail _ hgrow ih => exact hgrow.taken ih

/-! ## In front of the first header -/

/-- Nothing has been read of a source that a line could belong to. -/
structure Blank (d : Draft) : Prop where
  /-- There is no current container. -/
  current : d.current = none
  /-- No block is open. -/
  blocks : d.blocks = []

/-- What a reader does in front of the first header: it makes no node, it finds a fault, or it reads
the header of a section, whose name has to be free. -/
inductive Opens (b : Build Unit) : Prop
  /-- At most a file to be included is noted. -/
  | silent (includes : List String) :
      (∀ d : Draft, d.Blank → b d = (.ok (), { d with includes := d.includes ++ includes })) →
      Opens b
  /-- There is a fault. -/
  | fault (e : SourceFault) : (∀ d : Draft, d.Blank → b d = (.error e, d)) → Opens b
  /-- There is the header of a section. -/
  | header (name : String) :
      (∀ d : Draft, d.Blank → (d.content.find? name).isSome = true →
        b d = (.error (.duplicateId name), d)) →
      (∀ d : Draft, d.Blank → d.content.find? name = none →
        ((b d).2.content.find? name).isSome = true) →
      Opens b

/-- A reader may do nothing there. -/
theorem Opens.nothing {b : Build Unit} (h : ∀ d : Draft, d.Blank → b d = (.ok (), d)) : Opens b :=
  .silent [] fun d hd => by rw [h d hd, List.append_nil]

/-- A node whose id is taken is refused. -/
theorem add_of_taken {n : Node} (h : (d.content.find? n.id).isSome = true) :
    add n d = (.error (.duplicateId n.id), d) := by
  have hinsert : d.content.insert? n = none := if_pos h
  rw [add, Trial.get_bind_apply, hinsert]
  rfl

/-- A node with a free id is added, and what follows keeps it. -/
theorem taken_of_add_bind {n : Node} {k : NodeId → Build Unit}
    (hfree : d.content.find? n.id = none) (hk : ∀ i x, (k i x).2.content = x.content) :
    (((add n >>= k) d).2.content.find? n.id).isSome = true := by
  have hinsert : d.content.insert? n = some ⟨d.content.nodes.push n⟩ := by
    rw [Content.insert?, hfree]
    rfl
  have hadd : add n d =
      (.ok d.content.size, { d with content := ⟨d.content.nodes.push n⟩ }) := by
    rw [add, Trial.get_bind_apply, hinsert]
    rfl
  rw [Trial.bind_of_ok hadd, hk]
  exact Content.taken_of_insert? hinsert (.inr rfl)

/-- No block is open in a blank draft. -/
theorem checkClosed_of_blank (h : d.Blank) : checkClosed d = (.ok (), d) := by
  rw [checkClosed, Trial.get_bind_apply, h.blocks]
  rfl

/-- No container is the nearest one with a property. -/
theorem nearest?_of_blank (h : d.Blank) (p : Node → Bool) : d.nearest? p = none := by
  rw [nearest?, h.current, Option.bind_none]

/-- The header of a knot in front of all others is one, or a fault. -/
theorem opens_readKnot (line : List Char) : Opens (readKnot line) := by
  cases hheader : SectionHeader.read (((Text.after? "function ".toList
      (SectionHeader.body line)).map Text.trim).getD (SectionHeader.body line)) with
  | error e =>
    refine .fault e fun d hd => ?_
    rw [readKnot, Trial.bind_of_ok (checkClosed_of_blank hd)]
    simp only [hheader]
    rfl
  | ok header =>
    have hresult (d : Draft) : result (Except.ok header) d = (.ok header, d) := rfl
    by_cases hempty : header.name.isEmpty = true
    · refine .fault .namelessKnot fun d hd => ?_
      rw [readKnot, Trial.bind_of_ok (checkClosed_of_blank hd)]
      simp only [hheader, Trial.bind_of_ok (hresult d), hempty, if_true]
      rfl
    · refine .header (String.ofList header.name) (fun d hd htaken => ?_) fun d hd hfree => ?_
      · rw [readKnot, Trial.bind_of_ok (checkClosed_of_blank hd)]
        simp only [hheader, Trial.bind_of_ok (hresult d), hempty]
        rw [if_neg (by simp), Trial.get_bind_apply, Trial.bind_apply, add_of_taken htaken]
        rfl
      · rw [readKnot, Trial.bind_of_ok (checkClosed_of_blank hd)]
        simp only [hheader, Trial.bind_of_ok (hresult d), hempty]
        rw [if_neg (by simp), Trial.get_bind_apply]
        exact taken_of_add_bind hfree fun _ _ => rfl

/-- The header of a stitch is a fault there. -/
theorem opens_readStitch (line : List Char) : Opens (readStitch line) := by
  cases hheader : SectionHeader.read (SectionHeader.body line) with
  | error e =>
    refine .fault e fun d hd => ?_
    rw [readStitch, Trial.bind_of_ok (checkClosed_of_blank hd), hheader]
    rfl
  | ok header =>
    have hresult (d : Draft) : result (Except.ok header) d = (.ok header, d) := rfl
    refine .fault .orphanStitch fun d hd => ?_
    rw [readStitch, Trial.bind_of_ok (checkClosed_of_blank hd), hheader,
      Trial.bind_of_ok (hresult d)]
    dsimp only
    rw [Trial.get_bind_apply, nearest?_of_blank hd]
    rfl

/-- A choice there is in one of these cases. -/
theorem opens_readChoice (marker : Char) (line : List Char) : Opens (readChoice marker line) := by
  refine .fault .orphanChoice fun d hd => ?_
  unfold readChoice
  dsimp only
  rw [Trial.get_bind_apply, weaveParent?, nearest?_of_blank hd]
  rfl

/-- A gather in front of all headers is in one of these cases. -/
theorem opens_readGather (line : List Char) : Opens (readGather line) := by
  refine .fault .orphanGather fun d hd => ?_
  unfold readGather
  dsimp only
  rw [Trial.get_bind_apply, weaveParent?, nearest?_of_blank hd]
  rfl

/-- The header of a block there is in one of these cases. -/
theorem opens_openBlock (header : List Char) : Opens (openBlock header) := by
  refine .fault .orphanBlock fun d hd => ?_
  rw [openBlock, Trial.get_bind_apply, hd.current]
  rfl

/-- A statement there is in one of these cases. -/
theorem opens_readStatement (line : List Char) : Opens (readStatement line) := by
  refine .fault .orphanStatement fun d hd => ?_
  rw [readStatement, Trial.get_bind_apply, hd.current]
  rfl

/-- A line outside of the blocks is in one of these cases. -/
theorem opens_readPlain (line : List Char) : Opens (readPlain line) := by
  unfold readPlain
  split
  · exact opens_readKnot _
  · exact opens_readStitch _
  · exact opens_readChoice _ _
  · exact opens_readChoice _ _
  · split
    · exact opens_readGather _
    · split
      · exact opens_openBlock _
      · split
        · exact opens_readStatement _
        · refine .nothing fun d hd => ?_
          rw [Trial.get_bind_apply, hd.current]
          rfl

/-- No block is open that the line could close or belong to. -/
theorem readCode_of_blank (hd : d.Blank) {c : Char} {rest : List Char} :
    readCode (c :: rest) d = readPlain (c :: rest) d := by
  rw [readCode, Trial.get_bind_apply, hd.blocks]

/-- A line without its comment is in one of these cases. -/
theorem opens_readCode (line : List Char) : Opens (readCode line) := by
  cases line with
  | nil =>
    refine .nothing fun d _ => ?_
    rw [readCode]
    rfl
  | cons c rest =>
    cases opens_readPlain (c :: rest) with
    | silent includes h =>
      exact .silent includes fun d hd => (readCode_of_blank hd).trans (h d hd)
    | fault e h => exact .fault e fun d hd => (readCode_of_blank hd).trans (h d hd)
    | header name htaken hfree =>
      refine .header name (fun d hd h => (readCode_of_blank hd).trans (htaken d hd h)) ?_
      intro d hd h
      rw [readCode_of_blank hd]
      exact hfree d hd h

/-- What is read behind a line keeps the ids that are taken. -/
theorem taken_of_reads {b : Build Unit} {Q : Unit → Draft → Prop} (hreads : Reads d b d Q)
    (h : (d.content.find? name).isSome = true) : ((b d).2.content.find? name).isSome = true :=
  (hreads _ _ rfl).1.taken h

/-- A comment says nothing in front of the first header. -/
theorem readComment_of_blank (hd : d.Blank) (comment : List Char) :
    readComment comment d = (.ok (), d) := by
  rw [readComment, Trial.get_bind_apply, hd.current]
  rfl

/-- The comment behind a line is read last. -/
theorem Opens.andThen {b : Build Unit} (h : Opens b) {k : Unit → Build Unit}
    (hblank : ∀ d : Draft, d.Blank → k () d = (.ok (), d))
    (hreads : ∀ d, Reads d (k ()) d trivially) : Opens (b >>= k) := by
  cases h with
  | silent includes h =>
    refine .silent includes fun d hd => ?_
    rw [Trial.bind_of_ok (h d hd)]
    exact hblank _ ⟨hd.current, hd.blocks⟩
  | fault e h =>
    refine .fault e fun d hd => ?_
    rw [Trial.bind_apply, h d hd]
  | header name htaken hfree =>
    refine .header name (fun d hd h => ?_) fun d hd h => ?_
    · rw [Trial.bind_apply, htaken d hd h]
    · have hname := hfree d hd h
      rw [Trial.bind_apply]
      cases hrun : b d with
      | mk r d' =>
        rw [hrun] at hname
        cases r with
        | error e => exact hname
        | ok _ => exact taken_of_reads (hreads d') hname

/-- Every line is in one of these cases. -/
theorem opens_readLine (raw : List Char) : Opens (readLine raw) := by
  unfold readLine
  split
  next code comment _ =>
  split
  · next file _ =>
    exact .silent [file] fun d _ => rfl
  · refine (opens_readCode code).andThen (fun d hd => ?_) fun d => ?_
    · split
      · exact readComment_of_blank hd _
      · rfl
    · split
      · exact reads_readComment d _
      · exact reads_pure .refl trivial

/-! ## The first header -/

/-- Lines that begin alike begin with the same line. -/
theorem eq_cons_of_take {raw : List Char} {lines others : List (List Char)} {k : Nat}
    (h : others.take (k + 1) = (raw :: lines).take (k + 1)) :
    ∃ rest, others = raw :: rest ∧ rest.take k = lines.take k := by
  cases others with
  | nil => simp at h
  | cons first rest =>
    rw [List.take_succ_cons, List.take_succ_cons, List.cons.injEq] at h
    exact ⟨rest, by rw [h.1], h.2⟩

/-- Lines either make no node, or one of them is the first header: every source that has the same
lines up to it is refused there once its name is taken. -/
theorem first_header (lines : List (List Char)) (hd : d.Blank) :
    (readLines lines d).2.content = d.content ∨
      ∃ (k : Nat) (name : String),
        ((readLines lines d).2.content.find? name).isSome = true ∧
        ∀ (x : Draft) (others : List (List Char)), x.Blank →
          (x.content.find? name).isSome = true → others.take (k + 1) = lines.take (k + 1) →
          ∃ includes, readLines others x = (.error (.duplicateId name),
            { x with line := x.line + (k + 1), includes }) := by
  induction lines generalizing d with
  | nil =>
    left
    rw [readLines, checkClosed_of_blank hd]
  | cons raw rest ih =>
    have hnext (x : Draft) (hx : x.Blank) : ({ x with line := x.line + 1 } : Draft).Blank :=
      ⟨hx.current, hx.blocks⟩
    have hrun (x : Draft) (lines : List (List Char)) : readLines (raw :: lines) x =
        (readLine raw >>= fun _ => readLines lines) { x with line := x.line + 1 } := rfl
    cases opens_readLine raw with
    | silent includes h =>
      have hsilent (x : Draft) (hx : x.Blank) (lines : List (List Char)) :
          readLines (raw :: lines) x = readLines lines
            { x with line := x.line + 1, includes := x.includes ++ includes } := by
        rw [hrun, Trial.bind_of_ok (h _ (hnext x hx))]
      have hblank (x : Draft) (hx : x.Blank) : ({ x with
          line := x.line + 1, includes := x.includes ++ includes } : Draft).Blank :=
        ⟨hx.current, hx.blocks⟩
      rw [hsilent d hd]
      obtain hsame | ⟨k, name, htaken, hagain⟩ := ih (hblank d hd)
      · exact .inl hsame
      · refine .inr ⟨k + 1, name, htaken, ?_⟩
        intro x others hx hname htake
        obtain ⟨rest', rfl, hrest⟩ := eq_cons_of_take htake
        obtain ⟨noted, hothers⟩ := hagain _ rest' (hblank x hx) hname hrest
        refine ⟨noted, ?_⟩
        rw [hsilent x hx, hothers, Nat.add_assoc, Nat.add_comm 1]
    | fault e h =>
      left
      rw [hrun, Trial.bind_apply, h _ (hnext d hd)]
    | header name htaken hfree =>
      cases hfind : d.content.find? name with
      | some i =>
        left
        rw [hrun, Trial.bind_apply, htaken _ (hnext d hd) (Option.isSome_iff_exists.2 ⟨i, hfind⟩)]
      | none =>
        right
        refine ⟨0, name, ?_, ?_⟩
        · have hname := hfree _ (hnext d hd) hfind
          rw [hrun, Trial.bind_apply]
          cases hline : readLine raw { d with line := d.line + 1 } with
          | mk r d' =>
            rw [hline] at hname
            cases r with
            | error e => exact hname
            | ok _ => exact taken_of_reads (reads_readLines d' rest) hname
        · intro x others hx hname htake
          obtain ⟨rest', rfl, -⟩ := eq_cons_of_take htake
          refine ⟨x.includes, ?_⟩
          rw [hrun, Trial.bind_apply, htaken _ (hnext x hx) hname]

end Draft

namespace Content

open Draft

/-- When reading a source has made nodes, its first header is taken. From then on, every source that
has the same lines up to that header is refused at it and makes nothing. -/
theorem read_again {c c' : Content} {file : String} {text : List Char}
    {r : Except SourceError Source} (hread : c.read file text = (r, c')) (hnew : c' ≠ c) :
    ∃ (k : Nat) (name : String), (c'.find? name).isSome = true ∧
      ∀ (x : Content) (again : String) (others : List Char), (x.find? name).isSome = true →
        (Text.lines others).take (k + 1) = (Text.lines text).take (k + 1) →
        x.read again others = (.error ⟨again, k + 1, .duplicateId name⟩, x) := by
  have hblank : Blank { content := c, file } := ⟨rfl, rfl⟩
  have hcontent : (readLines (Text.lines text) { content := c, file }).2.content = c' := by
    unfold Content.read locate at hread
    cases hrun : readLines (Text.lines text) { content := c, file } with
    | mk r' d =>
      simp only [ExceptT.run, hrun] at hread
      cases r' <;> cases hread <;> rfl
  obtain hsame | ⟨k, name, htaken, hagain⟩ := first_header (Text.lines text) hblank
  · exact absurd (hcontent.symm.trans hsame) hnew
  · refine ⟨k, name, hcontent ▸ htaken, ?_⟩
    intro x again others hname htake
    obtain ⟨includes, hothers⟩ :=
      hagain { content := x, file := again } (Text.lines others) ⟨rfl, rfl⟩ hname htake
    unfold Content.read locate
    simp only [ExceptT.run, hothers, Nat.zero_add]

end Content

end Narrative
