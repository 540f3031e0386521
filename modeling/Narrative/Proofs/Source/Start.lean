import Narrative.Proofs.Source.Arena
import Narrative.Proofs.Source.Authoring

/-!
# Where a source starts

At each knot the reader decides whether the source starts there: it does when nothing hangs under
the knot at which it would start otherwise. Things hang only under the last knot that was read, so
that in the end the source starts at its first knot under which something hangs, or at its last one.
-/

namespace Narrative

open Relation

namespace Content

variable {c d : Content} {base : Nat}

/-! ## The first knot with something under it -/

/-- The knots behind the first `base` nodes, in order. -/
def knotsFrom (c : Content) (base : Nat) : List NodeId :=
  (List.range' base (c.size - base)).filter fun i => (c.node i).isKnot

/-- Whether something hangs under a node that is not a block. -/
def isFilled (c : Content) (i : NodeId) : Bool :=
  !(c.node i).children.isEmpty

/-- The first of some nodes under which something hangs, or else the last of them. -/
def firstFilled (c : Content) (nodes : List NodeId) : Option NodeId :=
  (nodes.find? c.isFilled).or nodes.getLast?

/-- There is no first one just when there are no nodes. -/
theorem firstFilled_eq_none_iff {nodes : List NodeId} :
    c.firstFilled nodes = none ↔ nodes = [] := by
  unfold firstFilled
  rw [Option.or_eq_none_iff, List.getLast?_eq_none_iff, and_iff_right_iff_imp]
  rintro rfl
  rfl

/-- Whether something hangs under the last of the nodes does not matter. -/
theorem firstFilled_concat (nodes : List NodeId) (last : NodeId) :
    c.firstFilled (nodes ++ [last]) = (nodes.find? c.isFilled).or (some last) := by
  rw [firstFilled, List.find?_append, List.getLast?_concat, Option.or_assoc, List.find?_singleton]
  split <;> rfl

/-- The first one depends on what hangs under all nodes but the last. -/
theorem firstFilled_congr {nodes : List NodeId}
    (h : ∀ i ∈ nodes.dropLast, d.isFilled i = c.isFilled i) :
    d.firstFilled nodes = c.firstFilled nodes := by
  rcases List.eq_nil_or_concat nodes with rfl | ⟨before, last, rfl⟩
  · rfl
  · rw [List.concat_eq_append, List.dropLast_concat] at h
    rw [List.concat_eq_append, firstFilled_concat, firstFilled_concat, List.find?_congr h]

/-- A further node takes the place of one under which nothing hangs. -/
theorem firstFilled_further (nodes : List NodeId) (last : NodeId) :
    c.firstFilled (nodes ++ [last]) =
      if (c.firstFilled nodes).all (fun i => (c.node i).children.isEmpty) = true then some last
      else c.firstFilled nodes := by
  rw [firstFilled_concat, firstFilled]
  cases hfind : nodes.find? c.isFilled with
  | some i =>
    have hfilled := List.find?_some hfind
    rw [isFilled, Bool.not_eq_true'] at hfilled
    rw [Option.some_or, Option.some_or, Option.all_some, hfilled, if_neg Bool.false_ne_true]
  | none =>
    rw [Option.none_or, Option.none_or, if_pos]
    refine (Option.all_eq_true _ _).2 fun i hi => ?_
    simpa [isFilled] using List.find?_eq_none.1 hfind i (List.mem_of_getLast? hi)

/-- Content with no more nodes, which are of the kinds they were, has the same knots. -/
theorem Retains.knotsFrom_eq (h : d.Retains c) (hsize : d.size = c.size) :
    d.knotsFrom base = c.knotsFrom base := by
  unfold knotsFrom
  rw [hsize]
  refine List.filter_congr fun i hi => ?_
  have hrange := List.mem_range'_1.1 hi
  exact (h.alike (by omega)).isKnot_eq

/-- Content with one more node has this one as a further knot, or the same knots. -/
theorem Retains.knotsFrom_succ (h : d.Retains c) (hbase : base ≤ c.size)
    (hsize : d.size = c.size + 1) : d.knotsFrom base =
      c.knotsFrom base ++ if (d.node c.size).isKnot = true then [c.size] else [] := by
  unfold knotsFrom
  rw [hsize, Nat.sub_add_comm hbase, List.range'_1_concat, List.filter_append,
    Nat.add_sub_of_le hbase, List.filter_singleton]
  refine congrArg₂ _ (List.filter_congr fun i hi => ?_) ?_
  · have hrange := List.mem_range'_1.1 hi
    exact (h.alike (by omega)).isKnot_eq
  · cases (d.node c.size).isKnot <;> rfl

/-- What hangs under the node that was read last, or under one above it, hangs under no knot but the
last one. -/
theorem Arranged.not_mem_dropLast (h : c.Arranged) (htree : c.Tree) {p : NodeId}
    (hp : p ∈ c.lineage (c.size - 1)) : p ∉ (c.knotsFrom base).dropLast := by
  intro hmem
  have hne : c.knotsFrom base ≠ [] := by
    intro hnil
    rw [hnil] at hmem
    cases hmem
  have hsplit := List.dropLast_append_getLast hne
  have hknot := List.getLast_mem hne
  have hsorted : (c.knotsFrom base).Pairwise (· < ·) := (List.pairwise_lt_range' ..).filter _
  generalize (c.knotsFrom base).getLast hne = last at hsplit hknot
  rw [← hsplit] at hsorted
  have hlt : p < last := (List.pairwise_append.1 hsorted).2.2 p hmem last List.mem_cons_self
  obtain ⟨hrange, hknot⟩ := List.mem_filter.1 hknot
  have hroot := htree.top (i := last) (by rw [Node.isTop, hknot, Bool.true_or])
  have hlast := List.mem_range'_1.1 hrange
  have habove := h.mem_lineage_of_between htree.descends hp (Nat.le_of_lt hlt) (by omega)
  rw [lineage_of_root hroot, List.mem_singleton] at habove
  exact absurd habove (Nat.ne_of_lt hlt)

end Content

namespace Draft

open Content

variable {named : Option Weave.Naming} {first base : NodeId} {d d' : Draft} {m : Weave}

/-! ## Reading knots -/

/-- The reading of a source into `base` nodes, and where the source starts so far. -/
structure Starts (base : Nat) (d : Draft) : Prop where
  /-- The draft is grown. -/
  grown : d.Grown
  /-- The nodes are in pre-order. -/
  arranged : d.content.Arranged
  /-- The first nodes were there before. -/
  base_le : base ≤ d.content.size
  /-- The start is the first knot under which something hangs, or else the last one. -/
  start : d.start = d.content.firstFilled (d.content.knotsFrom base)

/-- A step that makes no knot leaves the start where it was. -/
theorem Step.start_eq (h : Step named first d d')
    (hknot : d.content.size < d'.content.size → (d'.content.node d.content.size).isKnot = false) :
    d'.start = d.start := by
  rw [h.start, if_neg]
  rintro ⟨hlt, hnew, -⟩
  rw [hknot hlt] at hnew
  cases hnew

/-- Every step of reading keeps the start where it has to be. -/
theorem Starts.step (h : d.Starts base) (hstep : Step named first d d') : d'.Starts base := by
  have hgrown := h.grown.grow hstep.grow
  obtain hsame | hedit := hstep.grow.edit h.grown
  · refine ⟨hgrown, hsame ▸ h.arranged, hsame ▸ h.base_le, ?_⟩
    rw [hstep.start_eq fun hlt => absurd (hsame ▸ hlt) (Nat.lt_irrefl _), hsame]
    exact h.start
  · have hretains := hedit.retains
    have harranged := h.arranged.edit h.grown.tree hedit
    refine ⟨hgrown, harranged, Nat.le_trans h.base_le hretains.size_le, ?_⟩
    generalize hcontent : d'.content = c at *
    have hold {i : Nat} (hi : i ∈ (d.content.knotsFrom base).dropLast) : i < d.content.size := by
      have hmem := (List.mem_filter.1 (List.dropLast_subset _ hi)).1
      have hrange := List.mem_range'_1.1 hmem
      omega
    cases hedit with
    | @root n _ hbare htop hinsert =>
      have hsize := size_of_insert? hinsert
      have hnode (i : NodeId) : c.node i = if i = d.content.size then n else d.content.node i :=
        node_of_insert? hinsert i
      have hbefore : c.firstFilled (d.content.knotsFrom base) = d.start := by
        rw [h.start]
        refine firstFilled_congr fun i hi => ?_
        rw [isFilled, isFilled, hnode, if_neg (Nat.ne_of_lt (hold hi))]
      have hlt : d.content.size < c.size := by omega
      rw [hstep.start, hcontent, hretains.knotsFrom_succ h.base_le hsize]
      by_cases hknot : (c.node d.content.size).isKnot = true
      · simp only [hknot, hlt, true_and, if_true, firstFilled_further, hbefore]
      · rw [if_neg fun hnew => hknot hnew.2.1, if_neg hknot, List.append_nil, hbefore]
    | @hung n p _ hbare htop hp hlast hhang =>
      have hsize := size_of_hang? hhang
      have hnode := node_of_hang? hhang hp
      have hknot : (c.node d.content.size).isKnot = false := by
        rw [hnode, if_pos rfl]
        exact (Bool.or_eq_false_iff.1 htop).1
      rw [hstep.start_eq fun _ => hcontent ▸ hknot, h.start,
        hretains.knotsFrom_succ h.base_le hsize, if_neg (by rw [hknot]; exact Bool.false_ne_true),
        List.append_nil]
      refine (firstFilled_congr fun i hi => ?_).symm
      have hother : i ≠ p := fun heq =>
        h.arranged.not_mem_dropLast h.grown.tree hlast (heq ▸ hi)
      rw [isFilled, isFilled, hnode, if_neg (Nat.ne_of_lt (hold hi)), if_neg hother]
    | @changed i f hf =>
      have hsize := size_modify d.content i f
      rw [hstep.start_eq fun hlt => absurd hlt (by rw [hcontent, hsize]; exact Nat.lt_irrefl _),
        h.start, hretains.knotsFrom_eq hsize]
      refine (firstFilled_congr fun j _ => ?_).symm
      rw [isFilled, isFilled, children_modify hf]

/-- Reading on leaves where the source starts. -/
theorem Starts.steps (h : d.Starts base) (hsteps : Steps named first d d') : d'.Starts base := by
  induction hsteps with
  | refl => exact h
  | tail _ hstep ih => exact ih.step hstep

/-- Reading lines keeps the start where it has to be. -/
theorem Starts.readLines (h : d.Starts base) {origin : NodeId} (hfollows : Weave.Follows origin m d)
    (lines : List (List Char)) :
    Ends (readLines lines) d fun _ d' => d'.Starts base := by
  induction lines generalizing d m with
  | nil =>
    intro a d' hrun
    obtain ⟨rfl, -⟩ := Weave.ends_checkClosed d a d' hrun
    exact h
  | cons raw rest ih =>
    have hfollows' := hfollows.note (d.line + 1) d.includes
    have hnote : Starts base { d with line := d.line + 1 } :=
      ⟨hfollows'.grown, h.arranged, h.base_le, h.start⟩
    refine ends_modify_bind (Ends.bind (R := fun _ d' =>
      Weave.Follows origin (m.readLine raw) d' ∧ d'.Starts base) ?_ fun _ d' hd' => ih hd'.2 hd'.1)
    intro a d' hrun
    refine ⟨hfollows'.ends_readLine raw a d' hrun, ?_⟩
    exact hnote.steps (takes_readLine hfollows' raw _ d' hrun).1

end Draft

namespace Content

open Draft

/-- A source that is read starts at the first of its filled knots. -/
theorem start_eq_firstFilled (readings : List Reading) {file : String} {text : List Char}
    {source : Source} {c : Content} (hread : (filled readings).read file text = (.ok source, c)) :
    source.start = c.firstFilled (c.knotsFrom (filled readings).size) := by
  have hfiled := filed_filled readings
  generalize filled readings = base at hread hfiled
  have hfollows := hfiled.grown.follows file
  have hstarts : ({ content := base, file } : Draft).Starts base.size := by
    refine ⟨hfollows.grown, hfiled.arranged, Nat.le_refl _, ?_⟩
    rw [knotsFrom, Nat.sub_self]
    rfl
  obtain ⟨d, rfl, rfl, hend⟩ :=
    exists_draft_of_read hread (hstarts.readLines hfollows (Text.lines text))
  exact hend.start

/-- A source starts nowhere exactly when it has no knot that is not a function; otherwise it starts
at the first of its knots under which something hangs, or at its last knot when nothing hangs under
any of them. -/
theorem start_of_read (readings : List Reading) {file : String} {text : List Char} {source : Source}
    {c : Content} (hread : (filled readings).read file text = (.ok source, c)) :
    let knots := c.knotsFrom (filled readings).size
    (source.start = none ↔ knots = []) ∧
      source.start = (knots.find? fun i => !(c.node i).children.isEmpty).or knots.getLast? := by
  have hstart := start_eq_firstFilled readings hread
  refine ⟨?_, hstart⟩
  rw [hstart]
  exact firstFilled_eq_none_iff

/-- A source with an empty knot, a function, and a knot with a stitch. -/
def gatehouse : List Char :=
  ("== prologue\n=== function toll(n)\n~ return n\n== gate\n= arch\nA draught.\n" ++
    "== yard\nCobbles.\n").toList

/-- The knot with the stitch is the start. -/
theorem start_of_read_gatehouse : ∃ (source : Source) (c : Content),
    (filled []).read "gatehouse" gatehouse = (.ok source, c) ∧ source.start = some 3 ∧
    (c.node 3).id = "gate" := by
  have hread : ((filled []).read "gatehouse" gatehouse).1.toOption.isSome = true ∧
      (((filled []).read "gatehouse" gatehouse).2.node 3).id = "gate" ∧
      let c := ((filled []).read "gatehouse" gatehouse).2
      let knots := c.knotsFrom (filled []).size
      (knots.find? fun i => !(c.node i).children.isEmpty).or knots.getLast? = some 3 := by
    decide +kernel
  cases hrun : (filled []).read "gatehouse" gatehouse with
  | mk r c =>
    rw [hrun] at hread
    obtain ⟨hok, hid, hstart⟩ := hread
    cases r with
    | error e => cases hok
    | ok source => exact ⟨source, c, rfl, (start_of_read [] hrun).2.trans hstart, hid⟩

end Content

end Narrative
