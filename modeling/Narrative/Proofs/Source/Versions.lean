import Narrative.Proofs.Source.Remarks
import Narrative.Proofs.Source.Start
import Narrative.Proofs.Source.Traversal

/-!
# Versions of a source

Sources can be written with comments for the author and without them. What is loaded from a version
with comments is what is loaded without them, and comments in between: the same files are read in
the same order, and the story starts at the same knot.
-/

namespace Narrative

open Weave

/-- The text of a source without its comments for the author. -/
def uncommentedText (text : List Char) : List Char :=
  (Text.lines text).flatMap fun raw => uncommented raw ++ ['\n']

/-- The host whose sources have no comments for the author. -/
def Host.uncommented (host : Host) : Host :=
  { host with
    sources := host.sources.mapValues fun text => String.ofList (uncommentedText text.toList) }

/-- The world with that host. -/
def World.uncommented (w : World) : World :=
  { w with host := w.host.uncommented }

/-! ## Lines -/

namespace Text

/-- A line without blanks around it does not end in a carriage return. -/
theorem dropReturn_eq_self {line : List Char} (h : trim line = line) : dropReturn line = line := by
  unfold dropReturn
  split
  · next rest hreverse =>
    -- a line that ends in a carriage return has something to trim
    have hline : line = rest.reverse ++ ['\r'] := by
      rw [← List.reverse_reverse line, hreverse, List.reverse_cons]
    rw [hline, trim_append_of_blank fun c hc => List.mem_singleton.1 hc ▸ by decide] at h
    have hlength := length_trim_le rest.reverse
    rw [h, List.length_append, List.length_singleton] at hlength
    omega
  · rfl

/-- Lines that are ended by line feeds are the lines of their text. -/
theorem lines_flatMap (ls : List (List Char)) (h : ∀ l ∈ ls, '\n' ∉ l ∧ dropReturn l = l) :
    lines (ls.flatMap (· ++ ['\n'])) = ls := by
  have hsplit : splitOn '\n' (ls.flatMap (· ++ ['\n'])) = ls ++ [[]] := by
    induction ls with
    | nil => rfl
    | cons l ls ih =>
      have hl : ∀ c ∈ l, (c == '\n') = false := fun c hc =>
        beq_eq_false_iff_ne.2 fun heq => (h l List.mem_cons_self).1 (heq ▸ hc)
      have hrest := ih fun l hl => h l (List.mem_cons_of_mem _ hl)
      rw [splitOn] at hrest ⊢
      rw [List.flatMap_cons, List.append_assoc, List.singleton_append,
        splitWhere_append_cons (p := (· == '\n')) rfl, hrest, splitWhere_eq_singleton hl]
      rfl
  rw [lines, hsplit, List.dropLast_concat, List.getLast?_concat]
  simp only [Option.getD_some, List.isEmpty_nil, if_true, List.append_nil]
  rw [List.map_congr_left fun l hl => (h l hl).2, List.map_id']

/-- A line is one line. -/
theorem not_mem_lines {text l : List Char} (h : l ∈ lines text) : '\n' ∉ l := by
  have hpiece {piece : List Char} (hpiece : piece ∈ splitOn '\n' text) : '\n' ∉ piece := by
    intro hmem
    have hall := ((splitWhere_parts text).1 piece hpiece).1 _ hmem
    rw [beq_self_eq_true] at hall
    cases hall
  rcases List.mem_append.1 h with h | h
  · obtain ⟨piece, hmem, rfl⟩ := List.mem_map.1 h
    intro hl
    refine hpiece (List.dropLast_subset _ hmem) ?_
    unfold dropReturn at hl
    split at hl
    · next rest hreverse =>
      rw [← List.mem_reverse, hreverse]
      exact List.mem_cons_of_mem _ (List.mem_reverse.1 hl)
    · exact hl
  · split at h
    · cases h
    · obtain rfl := List.mem_singleton.1 h
      cases hlast : (splitOn '\n' text).getLast? with
      | none => exact List.not_mem_nil
      | some last => exact hpiece (List.mem_of_getLast? hlast)

end Text

/-- A line without its comment has no blanks around it. -/
theorem trim_uncommented (raw : List Char) : Text.trim (uncommented raw) = uncommented raw := by
  unfold uncommented splitComment
  dsimp only
  split
  · next code comment hsplit =>
    split at hsplit
    · cases hsplit
      split <;> exact Text.trim_trim _
    · cases hsplit
  · next code hsplit =>
    split at hsplit
    · cases hsplit
    · cases hsplit
      exact Text.trim_trim _

/-- A line without its comment is a part of the line. -/
theorem isInfix_uncommented (raw : List Char) : uncommented raw <:+: raw := by
  have htrim := Text.trim_infix raw
  unfold uncommented splitComment
  dsimp only
  split
  · next code comment hsplit =>
    split at hsplit
    · next before after hcut =>
      cases hsplit
      split
      · have hbefore := (Text.prefix_of_cutAt? (by simp) hcut).1
        exact (Text.trim_infix before).trans (hbefore.isInfix.trans htrim)
      · exact htrim
    · cases hsplit
  · next code hsplit =>
    split at hsplit
    · cases hsplit
    · cases hsplit
      exact htrim

/-- The lines of a text without comments are those of the text, each without its comment. -/
theorem lines_uncommentedText (text : List Char) :
    Text.lines (uncommentedText text) = (Text.lines text).map uncommented := by
  have hlines := Text.lines_flatMap ((Text.lines text).map uncommented) fun l hl => by
    obtain ⟨raw, hraw, rfl⟩ := List.mem_map.1 hl
    exact ⟨fun hmem => Text.not_mem_lines hraw ((isInfix_uncommented raw).subset hmem),
      Text.dropReturn_eq_self (trim_uncommented raw)⟩
  rwa [List.flatMap_map] at hlines

/-- Without comments a source includes the same files. -/
theorem includedFiles_uncommentedText (text : List Char) :
    includedFiles (uncommentedText text) = includedFiles text := by
  rw [includedFiles, includedFiles, lines_uncommentedText, List.filterMap_map]
  refine congrArg (List.filterMap · _) (funext fun raw => ?_)
  rw [Function.comp_apply, splitComment_uncommented]

/-! ## Sources -/

namespace Content

open Draft

/-- Whether no comment in some sources begins an option of a block, when they are read into content,
one after another. -/
def areDiscreetIn (c : Content) : List (String × List Char) → Bool
  | [] => true
  | (file, text) :: rest =>
    ({ next := c.size } : Weave).areDiscreet (Text.lines text) &&
      (c.after (.source file text)).areDiscreetIn rest

variable {c d c' d' : Content}

/-- A source is read with its comments and without them. -/
theorem Annotates.read (h : c.Annotates d) (hc : c.Grown) (hd : d.Grown) {file : String}
    {text : List Char} {source source' : Source} (hread : c.read file text = (.ok source, c'))
    (hread' : d.read file (uncommentedText text) = (.ok source', d'))
    (hproper : ∀ x ∈ c.declaredBy file text, IsProper x.name)
    (hdiscreet : ({ next := c.size } : Weave).areDiscreet (Text.lines text) = true) :
    c'.Annotates d' := by
  have hdraft : ({ content := c, file } : Draft).Annotates { content := d, file } :=
    ⟨h, rfl, rfl, rfl⟩
  have htogether := hdraft.together_readLines (grown_draft hd.sound hd.tree file 0)
    (hc.follows file) hproper hdiscreet
  rw [← lines_uncommentedText] at htogether
  unfold Content.read Draft.locate at hread hread'
  cases hrun : Draft.readLines (Text.lines text) { content := c, file } with
  | mk r e =>
    cases hrun' : Draft.readLines (Text.lines (uncommentedText text)) { content := d, file } with
    | mk r' e' =>
      simp only [ExceptT.run, hrun] at hread
      simp only [ExceptT.run, hrun'] at hread'
      cases r with
      | error fault => cases hread
      | ok a =>
        cases r' with
        | error fault => cases hread'
        | ok a' =>
          cases hread
          cases hread'
          exact (htogether _ _ _ _ hrun hrun').content

end Content

namespace Host

variable {host : Host} {listed files order order' : List String}

/-- The files without their comments have the same names. -/
theorem get?_uncommented (file : String) : host.uncommented.sources.get? file =
    (host.sources.get? file).map fun text => String.ofList (uncommentedText text.toList) :=
  NameMap.get?_mapValues _ _ _

/-- Without comments files are visited in the same order. -/
theorem VisitOrder.uncommented (h : host.VisitOrder listed files order) :
    host.uncommented.VisitOrder listed files order := by
  induction h with
  | nil listed => exact .nil listed
  | listed hmem _ ih => exact .listed hmem ih
  | @visited listed rest inner outer file text hnew hopen _ _ ihinner ihouter =>
    have hopen' : host.uncommented.sources.get? file =
        some (String.ofList (uncommentedText text.toList)) := by
      rw [get?_uncommented, hopen]
      rfl
    refine .visited hnew hopen' ?_ ihouter
    rwa [String.toList_ofList, includedFiles_uncommentedText]

/-- There is one order. -/
theorem VisitOrder.unique (h : host.VisitOrder listed files order)
    (h' : host.VisitOrder listed files order') : order' = order := by
  induction h generalizing order' with
  | nil =>
    cases h'
    rfl
  | listed hmem _ ih =>
    cases h' with
    | listed _ hrest => exact ih hrest
    | visited hnew => exact absurd hmem hnew
  | visited hnew hopen _ _ ihinner ihouter =>
    cases h' with
    | listed hmem => exact absurd hmem hnew
    | visited _ hopen' hinner houter =>
      cases hopen.symm.trans hopen'
      obtain rfl := ihinner hinner
      rw [ihouter houter]

end Host

namespace Content

variable {c d : Content}

/-- Without nodes there are no comments. -/
theorem annotates_empty : ({} : Content).Annotates {} where
  size := rfl
  node i := by
    rw [node_eq_default (Nat.zero_le _), node_eq_default (Nat.zero_le _)]
    exact Node.copies_default
  id hi := absurd hi (Nat.not_lt_zero _)
  comment hj := absurd (lt_size_of_isComment hj) (Nat.not_lt_zero _)

/-! ## Where a story starts -/

/-- The nodes in front that are no comments are those that stay. -/
theorem filter_range_eq_map_kept (c : Content) (n : Nat) :
    (List.range n).filter (fun j => !c.isComment j) = (List.range (c.keptBefore n)).map c.kept := by
  induction n with
  | zero => rfl
  | succ n ih =>
    have hsucc : c.keptBefore (n + 1) =
        c.keptBefore n + if c.isComment n = false then 1 else 0 := Nat.count_succ _ n
    rw [List.range_succ, List.filter_append, ih, hsucc]
    cases hn : c.isComment n with
    | true =>
      rw [List.filter_cons_of_neg (by simp [hn]), List.filter_nil, List.append_nil, if_neg (by simp)]
      rfl
    | false =>
      rw [List.filter_cons_of_pos (by simp [hn]), List.filter_nil, if_pos rfl, List.range_succ,
        List.map_append]
      exact congrArg (_ ++ [·]) (kept_keptBefore hn).symm

/-- The start is a knot. -/
theorem lt_size_of_firstFilled {start : Nat}
    (h : c.firstFilled (c.knotsFrom 0) = some start) :
    start < c.size ∧ (c.node start).isKnot = true := by
  have hmem : start ∈ c.knotsFrom 0 := by
    obtain hfind | ⟨-, hlast⟩ := Option.or_eq_some_iff.1 h
    · exact List.mem_of_find?_eq_some hfind
    · exact List.mem_of_getLast? hlast
  obtain ⟨hrange, hknot⟩ := List.mem_filter.1 hmem
  have hlt := List.mem_range'_1.1 hrange
  exact ⟨by omega, hknot⟩

namespace Annotates

variable (h : c.Annotates d)

include h

/-- The knots are the same. -/
theorem knotsFrom_eq : c.knotsFrom 0 = (d.knotsFrom 0).map c.kept := by
  have hknot (i : NodeId) : (c.node (c.kept i)).isKnot = (d.node i).isKnot := by
    rw [← (h.node i).isKnot, Node.isKnot_without]
  have hfilter : (List.range c.size).filter (fun j => (c.node j).isKnot) =
      ((List.range c.size).filter fun j => !c.isComment j).filter fun j => (c.node j).isKnot := by
    rw [List.filter_filter]
    refine List.filter_congr fun j _ => ?_
    cases hj : (c.node j).isKnot with
    | false => rfl
    | true =>
      unfold Node.isKnot at hj
      unfold isComment Node.isComment
      cases hkind : (c.node j).kind <;> simp [hkind] at hj ⊢
  rw [knotsFrom, knotsFrom, Nat.sub_zero, Nat.sub_zero, ← List.range_eq_range', ←
    List.range_eq_range', hfilter, filter_range_eq_map_kept, ← h.size, List.filter_map]
  exact congrArg (List.map c.kept) (List.filter_congr fun i _ => hknot i)

/-- Something hangs under a node without the comments where something besides comments hangs under
it. -/
theorem isFilled_iff {i : NodeId} (hi : (d.node i).isBlock = false) :
    d.isFilled i = true ↔ (c.node (c.kept i)).children.all c.isComment = false := by
  have hchildren : (c.node (c.kept i)).children.filter (!c.isComment ·) =
      (d.node i).children.map c.kept := (h.node i).children hi
  rw [isFilled, Bool.not_eq_true', ← List.isEmpty_map (f := c.kept), ← hchildren]
  simp [List.filter_eq_nil_iff]

/-- The story starts at the same knot, unless only comments hang under the one at which it starts
with them. -/
theorem firstFilled_eq {start : NodeId} (hstart : c.firstFilled (c.knotsFrom 0) = some start)
    (hopen : (c.node start).children.all c.isComment = true → (c.node start).children = []) :
    ∃ start', d.firstFilled (d.knotsFrom 0) = some start' ∧ start = c.kept start' := by
  have hknots := h.knotsFrom_eq
  have hblock {i : NodeId} (hi : i ∈ d.knotsFrom 0) : (d.node i).isBlock = false :=
    Node.isBlock_of_isKnot (List.mem_filter.1 hi).2
  have hfilled {i : NodeId} (hi : i ∈ d.knotsFrom 0) (hd : d.isFilled i = true) :
      c.isFilled (c.kept i) = true := by
    have hall := (h.isFilled_iff (hblock hi)).1 hd
    rw [isFilled]
    cases hchildren : (c.node (c.kept i)).children with
    | nil => rw [hchildren] at hall; cases hall
    | cons j js => rfl
  rw [firstFilled, hknots, List.find?_map, List.getLast?_map] at hstart
  cases hfind : (d.knotsFrom 0).find? (c.isFilled ∘ c.kept) with
  | none =>
    -- nothing hangs under any of them
    rw [hfind] at hstart
    obtain ⟨start', hlast, rfl⟩ := Option.map_eq_some_iff.1 hstart
    refine ⟨start', ?_, rfl⟩
    rw [firstFilled, List.find?_eq_none.2 fun i hi hd =>
      List.find?_eq_none.1 hfind i hi (hfilled hi hd)]
    exact hlast
  | some start' =>
    rw [hfind] at hstart
    cases hstart
    refine ⟨start', ?_, rfl⟩
    have hmem := List.mem_of_find?_eq_some hfind
    have hstart := List.find?_some hfind
    rw [Function.comp_apply, isFilled, Bool.not_eq_true'] at hstart
    have hd : d.isFilled start' = true := by
      rw [h.isFilled_iff (hblock hmem), ← Bool.not_eq_true]
      intro hall
      rw [hopen hall] at hstart
      cases hstart
    obtain ⟨-, before, after, hsplit, hbefore⟩ := List.find?_eq_some_iff_append.1 hfind
    have hfirst : (d.knotsFrom 0).find? d.isFilled = some start' := by
      refine List.find?_eq_some_iff_append.2 ⟨hd, before, after, hsplit, fun i hi => ?_⟩
      have hlisted : i ∈ d.knotsFrom 0 := hsplit ▸ List.mem_append_left _ hi
      rw [Bool.not_eq_true', ← Bool.not_eq_true]
      intro hfill
      have hnot := hbefore i hi
      rw [Function.comp_apply, hfilled hlisted hfill] at hnot
      cases hnot
    rw [firstFilled, hfirst]
    rfl

end Annotates

end Content

namespace Sources

open Content

variable {host : Host} {main : String} {s t s' t' : Sources} {read : List String}

/-- Files are read with their comments and without them. -/
theorem Reads.annotates (h : Reads host s read s') (h' : Reads host.uncommented t read t')
    (hst : s.content.Annotates t.content) (hs : s.content.Grown) (ht : t.content.Grown)
    (hproper : ∀ x ∈ s.content.declarationsIn (read.map host.sourceOf), IsProper x.name)
    (hdiscreet : s.content.areDiscreetIn (read.map host.sourceOf) = true) :
    s'.content.Annotates t'.content := by
  induction h generalizing t with
  | nil =>
    cases h'
    exact hst
  | @cons s s' file text source content rest hnew hopen hread _ ih =>
    cases h' with
    | @cons _ _ _ text' source' content' _ _ hopen' hread' hrest' =>
      have hsource : host.sourceOf file = (file, text.toList) := by
        rw [Host.sourceOf, hopen]
        rfl
      rw [List.map_cons, hsource] at hproper hdiscreet
      rw [declarationsIn, List.forall_mem_append] at hproper
      rw [areDiscreetIn, Bool.and_eq_true] at hdiscreet
      have hafter : s.content.after (.source file text.toList) = content := by
        rw [after, hread]
      rw [hafter] at hproper hdiscreet
      rw [Host.get?_uncommented, hopen, Option.map_some] at hopen'
      cases hopen'
      rw [String.toList_ofList] at hread'
      have hcontent := hst.read hs ht hread hread' hproper.1 hdiscreet.1
      exact ih hrest' hcontent (hs.read hread).1 (ht.read hread').1 hproper.2 hdiscreet.2

/-- Sources are read from the main file by loading it. -/
theorem load_of_ofMain {start : NodeId} (h : ofMain host main = .ok (start, s)) :
    ({} : Sources).load host main = (.ok (some start), s) := by
  unfold ofMain at h
  split at h
  · cases h
  · cases h
  · next hload =>
    cases h
    exact hload

/-- The main source is read first, and the story starts where it does. -/
theorem exists_main_of_ofMain {start : NodeId} (h : ofMain host main = .ok (start, s)) :
    ∃ text source c, host.sources.get? main = some text ∧
      ({} : Content).read main text.toList = (.ok source, c) ∧
      c.firstFilled (c.knotsFrom 0) = some start := by
  obtain ⟨text, source, c, hsome, hread, hsource⟩ :=
    start_of_load List.not_mem_nil (load_of_ofMain h)
  exact ⟨text, source, c, hsome, hread, (start_eq_firstFilled [] hread).symm.trans hsource.symm⟩

/-- The same files are read with the comments and without them, the main file first. -/
theorem exists_reads_of_ofMain {start start' : NodeId} (h : ofMain host main = .ok (start, s))
    (h' : ofMain host.uncommented main = .ok (start', t)) :
    ∃ rest, Reads host {} (main :: rest) s ∧ Reads host.uncommented {} (main :: rest) t := by
  obtain ⟨order, horder, hfiles⟩ := visitOrder_of_load (load_of_ofMain h)
  obtain ⟨order', horder', hfiles'⟩ := visitOrder_of_load (load_of_ofMain h')
  rw [horder.uncommented.unique horder'] at hfiles'
  obtain ⟨read, hreads, -⟩ := ends_load (load_of_ofMain h)
  obtain ⟨read', hreads', -⟩ := ends_load (load_of_ofMain h')
  obtain rfl : read = order := List.append_cancel_left (hreads.files_eq.symm.trans hfiles)
  obtain rfl : read' = read := List.append_cancel_left (hreads'.files_eq.symm.trans hfiles')
  cases horder with
  | listed hmem => cases hmem
  | visited => exact ⟨_, hreads, hreads'⟩

/-- What hangs under a knot is there. -/
theorem lt_size_of_child {c : Content} {i j : NodeId} (htree : c.Tree)
    (hknot : (c.node i).isKnot = true) (hj : j ∈ (c.node i).children) : j < c.size := by
  have hlists := Node.lists_of_not_isBlock (Node.isBlock_of_isKnot hknot)
  rw [← List.flatten_singleton (l := (c.node i).children), ← hlists] at hj
  exact lt_size_of_parent (htree.parent_of_listed hj)

/-- What is loaded from sources with comments is what is loaded without them, and comments in between.
The story starts at the same knot. -/
theorem annotates_ofMain {start start' : NodeId} (h : ofMain host main = .ok (start, s))
    (h' : ofMain host.uncommented main = .ok (start', t))
    (hproper : ∀ x ∈ ({} : Content).declarationsIn (s.files.map host.sourceOf), IsProper x.name)
    (hdiscreet : ({} : Content).areDiscreetIn (s.files.map host.sourceOf) = true)
    (hopen : (s.content.node start).children.all s.content.isComment = true →
      (s.content.node start).children = []) :
    s.content.Annotates t.content ∧ start = s.content.kept start' ∧ t.files = s.files := by
  obtain ⟨rest, hreads, hreads'⟩ := exists_reads_of_ofMain h h'
  have hfiles : s.files = main :: rest := hreads.files_eq
  rw [hfiles] at hproper hdiscreet
  refine ⟨hreads.annotates hreads' annotates_empty grown_empty grown_empty hproper hdiscreet, ?_,
    hreads'.files_eq.trans hfiles.symm⟩
  obtain ⟨text, source, c, hsome, hread, hstart⟩ := exists_main_of_ofMain h
  obtain ⟨text', source', c', hsome', hread', hstart'⟩ := exists_main_of_ofMain h'
  rw [Host.get?_uncommented, hsome] at hsome'
  cases hsome'
  rw [String.toList_ofList] at hread'
  have hfile : host.sourceOf main = (main, text.toList) := by
    rw [Host.sourceOf, hsome]
    rfl
  rw [List.map_cons, hfile] at hproper hdiscreet
  have hc : c.Annotates c' := annotates_empty.read grown_empty grown_empty hread hread'
    (fun x hx => hproper x (List.mem_append_left _ hx)) (Bool.and_eq_true_iff.1 hdiscreet).1
  -- the other files come behind the main one, and what was read from it stays
  have hextends : s.content.Extends c := by
    cases hreads with
    | cons _ hsome' hread'' hrest =>
      cases hsome.symm.trans hsome'
      cases hread.symm.trans hread''
      exact (hrest.grown (grown_empty.read hread).1).2
  have hsame {j : Nat} (hj : j < c.size) : s.content.isComment j = c.isComment j :=
    congrArg Node.isComment (hextends.node_eq hj)
  obtain ⟨hlt, hknot⟩ := lt_size_of_firstFilled hstart
  rw [hextends.node_eq hlt] at hopen
  have htree : c.Tree := (grown_empty.read hread).1.tree
  obtain ⟨i, hi, rfl⟩ := hc.firstFilled_eq hstart fun hall => hopen <| List.all_eq_true.2 fun j hj =>
    (hsame (lt_size_of_child htree hknot hj)).trans (List.all_eq_true.1 hall j hj)
  rw [hstart'] at hi
  cases hi
  exact (kept_congr (fun j hj => hsame hj) hlt).symm

end Sources

end Narrative
