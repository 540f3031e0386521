import Narrative.Proofs.Source.Arena
import Narrative.Proofs.Source.Authoring
import Narrative.Proofs.Source.Stopping

/-!
# Duplicate ids

Every node that is read from sources has the id of its place or the full id of a name that its line
gives. When all names are proper, the ids of places are free whenever they are needed, so that an id
that is refused is that of a name which was given before under the same node.
-/

namespace Narrative

open Relation Weave

/-! ## Content that goes on -/

namespace Node

/-- The node `m` is the node `n`, perhaps with more behind what hangs under it. -/
structure Prolongs (m n : Node) : Prop where
  /-- It has its id. -/
  id : m.id = n.id
  /-- It hangs where it hung. -/
  parent : m.parent = n.parent
  /-- It is from the same file. -/
  file : m.file = n.file
  /-- It is from the same line. -/
  line : m.line = n.line
  /-- Blocks stay blocks. -/
  isBlock : m.isBlock = n.isBlock
  /-- What is in an option stands where it stood. -/
  childrenAt (option : Nat) : n.childrenAt option <+: m.childrenAt option

/-- A node is itself. -/
theorem Prolongs.refl (n : Node) : n.Prolongs n :=
  ⟨rfl, rfl, rfl, rfl, rfl, fun _ => List.prefix_refl _⟩

/-- More may come behind more. -/
theorem Prolongs.trans {k m n : Node} (h : k.Prolongs m) (h' : m.Prolongs n) : k.Prolongs n where
  id := h.id.trans h'.id
  parent := h.parent.trans h'.parent
  file := h.file.trans h'.file
  line := h.line.trans h'.line
  isBlock := h.isBlock.trans h'.isBlock
  childrenAt option := (h'.childrenAt option).trans (h.childrenAt option)

/-- A node with one more child. -/
theorem prolongs_addChild (n : Node) (child : NodeId) : (n.addChild child).Prolongs n where
  id := Content.addChild_id n child
  parent := Content.addChild_parent n child
  file := by
    unfold addChild
    split <;> rfl
  line := by
    unfold addChild
    split <;> rfl
  isBlock := (alike_addChild n child).isBlock_eq
  childrenAt := n.childrenAt_prefix_addChild child

/-- A block with one more option. -/
theorem prolongs_addOption (n : Node) (guard : Option String) : (n.addOption guard).Prolongs n where
  id := Content.addOption_id n guard
  parent := Content.addOption_parent n guard
  file := by
    unfold addOption
    split <;> rfl
  line := by
    unfold addOption
    split <;> rfl
  isBlock := (alike_addOption n guard).isBlock_eq
  childrenAt := n.childrenAt_prefix_addOption guard

/-- A further child goes to the place whose id is the next one. -/
theorem childrenAt_addChild (n : Node) (child : NodeId) :
    (n.addChild child).childrenAt (n.options.length - 1) =
      n.childrenAt (n.options.length - 1) ++ [child] := by
  unfold childrenAt addChild options
  cases hkind : n.kind with
  | block mode options =>
    rcases List.eq_nil_or_concat options with rfl | ⟨before, last, rfl⟩
    · rfl
    · simp
  | _ => rfl

/-- The ids of the places under a node do not depend on what comes behind. -/
theorem Prolongs.placeId_eq {m n : Node} (h : m.Prolongs n) (option position : Nat) :
    m.placeId option position = n.placeId option position := by
  rw [placeId, placeId, h.id, h.isBlock]

end Node

namespace Content

variable {c d : Content}

/-- The content `d` has the nodes of `c`, perhaps with more behind what hangs under them. -/
structure Prolongs (d c : Content) : Prop where
  /-- There are no fewer nodes. -/
  size_le : c.size ≤ d.size
  /-- The nodes are those that were there. -/
  node {i : Nat} : i < c.size → (d.node i).Prolongs (c.node i)

namespace Prolongs

/-- Content prolongs itself. -/
theorem refl (c : Content) : c.Prolongs c :=
  ⟨Nat.le_refl _, fun _ => .refl _⟩

/-- More may come behind more. -/
theorem trans {e : Content} (h : e.Prolongs d) (h' : d.Prolongs c) : e.Prolongs c :=
  ⟨Nat.le_trans h'.size_le h.size_le, fun hi =>
    (h.node (Nat.lt_of_lt_of_le hi h'.size_le)).trans (h'.node hi)⟩

/-- A node is added behind all others. -/
theorem insert? {n : Node} (hinsert : c.insert? n = some d) : d.Prolongs c := by
  refine ⟨by rw [size_of_insert? hinsert]; exact Nat.le_succ _, fun hi => ?_⟩
  rw [node_of_insert? hinsert, if_neg (Nat.ne_of_lt hi)]
  exact .refl _

/-- A node is hung behind what hangs under its parent. -/
theorem hang? {p : NodeId} {n : Node} (hp : p < c.size) (hhang : c.hang? p n = some d) :
    d.Prolongs c := by
  refine ⟨by rw [size_of_hang? hhang]; exact Nat.le_succ _, fun hi => ?_⟩
  rw [node_of_hang? hhang hp, if_neg (Nat.ne_of_lt hi)]
  split
  · next hip =>
    rw [hip]
    exact Node.prolongs_addChild _ _
  · exact .refl _

/-- A node is changed behind what hangs under it. -/
theorem modify (c : Content) (i : NodeId) {f : Node → Node} (hf : ∀ n, (f n).Prolongs n) :
    (c.modify i f).Prolongs c := by
  refine ⟨Nat.le_of_eq (size_modify c i f).symm, fun {j} _ => ?_⟩
  obtain hnew | hold := c.node_modify_cases i f j
  · rw [hnew]
    exact hf _
  · rw [hold]
    exact .refl _

variable (h : d.Prolongs c)

include h

/-- The full id of a name does not depend on what comes behind. -/
theorem fullId_eq {parent : Option NodeId} (hparent : ∀ p ∈ parent, p < c.size)
    (name : List Char) : d.fullId parent name = c.fullId parent name := by
  cases parent with
  | none => rfl
  | some p => rw [fullId, fullId, (h.node (hparent p rfl)).id]

/-- The id of a place is right as long as the content goes on. -/
theorem isPlaced (hc : c.Sound) {i : Nat} (hi : i < c.size) (hplaced : c.IsPlaced i) :
    d.IsPlaced i := by
  obtain ⟨p, option, position, hparent, hat, hid⟩ := hplaced
  have hp := h.node (hc.parent hparent)
  refine ⟨p, option, position, (h.node hi).parent.trans hparent, ?_, ?_⟩
  · obtain ⟨more, hmore⟩ := hp.childrenAt option
    rw [← hmore, List.getElem?_append_left (List.getElem?_eq_some_iff.1 hat).1]
    exact hat
  · rw [(h.node hi).id, hid, hp.placeId_eq]

end Prolongs

/-! ## Where ids come from -/

/-- Every node of the content has the id of its place or the full id of a name that was given in its
line, and under its parent. -/
structure Traced (c : Content) (declared : List Declaration) : Prop where
  /-- Ids differ and parents are nodes. -/
  sound : c.Sound
  /-- Ids come from places and from names. -/
  id {i : Nat} : i < c.size → c.IsPlaced i ∨ ∃ x ∈ declared, x.file = (c.node i).file ∧
    x.line = (c.node i).line ∧ x.parent = (c.node i).parent ∧
    (c.node i).id = c.fullId x.parent x.name

namespace Traced

variable {declared more : List Declaration}

/-- Content is traced when its new nodes are. -/
theorem prolong (h : c.Traced declared) (hd : d.Sound) (hprolongs : d.Prolongs c)
    (hmore : declared ⊆ more)
    (hnew : ∀ i : Nat, c.size ≤ i → i < d.size → d.IsPlaced i ∨ ∃ x ∈ more,
      x.file = (d.node i).file ∧ x.line = (d.node i).line ∧ x.parent = (d.node i).parent ∧
      (d.node i).id = d.fullId x.parent x.name) : d.Traced more where
  sound := hd
  id := by
    intro i hi
    rcases Nat.lt_or_ge i c.size with hold | hge
    · have hnode := hprolongs.node hold
      obtain hplaced | ⟨x, hx, hfile, hline, hparent, hid⟩ := h.id hold
      · exact .inl (hprolongs.isPlaced h.sound hold hplaced)
      · refine .inr ⟨x, hmore hx, hfile.trans hnode.file.symm, hline.trans hnode.line.symm,
          hparent.trans hnode.parent.symm, ?_⟩
        rw [hnode.id, hid, hprolongs.fullId_eq fun p hp => h.sound.parent (hparent ▸ hp)]
    · exact hnew i hge hi

/-- The nodes are traced by more names, too. -/
theorem mono (h : c.Traced declared) (hmore : declared ⊆ more) : c.Traced more :=
  h.prolong h.sound (.refl c) hmore fun _ hge hlt => absurd hlt (Nat.not_lt.2 hge)

/-- Content whose names are proper can be decoded. -/
theorem decodable (h : c.Traced declared) (hproper : ∀ x ∈ declared, IsProper x.name) :
    c.Decodable where
  sound := h.sound
  id := by
    intro i hi
    obtain hplaced | ⟨x, hx, -, -, hparent, hid⟩ := h.id hi
    · exact .inl hplaced
    · exact .inr ⟨x.name, hproper x hx, hparent ▸ hid⟩

/-- A full id that is taken belongs to a name that was given under the same parent. -/
theorem declared_of_taken (h : c.Traced declared) (hproper : ∀ x ∈ declared, IsProper x.name)
    {parent : Option NodeId} {name : List Char} {i : NodeId}
    (hparent : ∀ p ∈ parent, p < c.size) (hname : IsProper name)
    (hfind : c.find? (c.fullId parent name) = some i) : ∃ x ∈ declared, x.file = (c.node i).file ∧
      x.line = (c.node i).line ∧ x.parent = (c.node i).parent ∧ x.parent = parent ∧
      x.name = name := by
  obtain ⟨hi, hid⟩ := find?_eq_some hfind
  obtain ⟨p, option, position, -, -, hid'⟩ | ⟨x, hx, hfile, hline, hx', hid'⟩ := h.id hi
  · exact absurd (hid'.symm.trans hid) (placeId_ne_fullId _ _ _ _ hname)
  · have hxparent (p : NodeId) (hp : p ∈ x.parent) : p < c.size := h.sound.parent (hx' ▸ hp)
    obtain ⟨hsame, hsame'⟩ := (h.decodable hproper).fullId_injective hxparent hparent
      (hproper x hx) hname (hid'.symm.trans hid)
    exact ⟨x, hx, hfile, hline, hx', hsame, hsame'⟩

end Traced

/-- A node that hangs somewhere is new at the place whose id is the next one there. -/
theorem Edit.place_of_new (h : c.Edit d) {i : Nat} (hi : c.size ≤ i) (hlt : i < d.size) :
    i = c.size ∧ ∀ p : NodeId, (d.node i).parent = some p →
      ((d.node p).childrenAt ((c.node p).options.length - 1))[((c.node p).childrenAt
        ((c.node p).options.length - 1)).length]? = some i := by
  cases h with
  | root hbare _ hinsert =>
    have hlast : i = c.size := by
      have := size_of_insert? hinsert
      omega
    refine ⟨hlast, fun p hp => ?_⟩
    rw [node_of_insert? hinsert, if_pos hlast, hbare.parent] at hp
    cases hp
  | @hung n q _ _ _ hq _ hhang =>
    have hlast : i = c.size := by
      have := size_of_hang? hhang
      omega
    refine ⟨hlast, fun p hp => ?_⟩
    rw [Tree.parent_of_hang? hq hhang, if_pos hlast] at hp
    cases hp
    rw [node_of_hang? hhang hq, if_neg (Nat.ne_of_lt hq), if_pos rfl, Node.childrenAt_addChild,
      List.getElem?_concat_length, hlast]
  | changed j hf =>
    rw [size_modify] at hlt
    omega

end Content

namespace Draft

open Content

variable {named : Option Naming} {first base : NodeId} {d d' : Draft} {m : Weave}
  {declared : List Declaration}

/-- A step of reading puts more behind what was there. -/
theorem Grow.prolongs (hd : d.Grown) (hgrow : d.Grow d') :
    d'.content.Prolongs d.content := by
  cases hgrow with
  | note | close => exact .refl _
  | root _ _ _ hinsert _ => exact .insert? hinsert
  | leaf hp _ _ hhang | opening hp _ _ hhang => exact .hang? (hd.sound.current hp) hhang
  | branch hp _ _ _ hhang => exact .hang? (hd.sound.lt_of_nearest? hp) hhang
  | option guard _ => exact .modify _ _ (Node.prolongs_addOption · guard)
  | background _ _ =>
    exact .modify _ _ fun n => ⟨rfl, rfl, rfl, rfl, rfl, fun _ => List.prefix_refl _⟩

/-- A step adds a node that can be traced when the name of its line is declared. -/
theorem Step.traced (h : d.content.Traced declared) (hd : d.Grown) (hstep : Step named first d d')
    (hnamed : ∀ x ∈ named, ⟨x, d.file, d.line⟩ ∈ declared) : d'.content.Traced declared := by
  have hprolongs := hstep.grow.prolongs hd
  refine h.prolong (hd.grow hstep.grow).sound.content hprolongs (List.Subset.refl _)
    fun i hge hlt => ?_
  obtain hsame | hedit := hstep.grow.edit hd
  · rw [hsame] at hlt
    exact absurd hlt (Nat.not_lt.2 hge)
  · obtain ⟨rfl, hplace⟩ := hedit.place_of_new hge hlt
    obtain ⟨hfile, hline, hid⟩ := hstep.coined hlt
    obtain ⟨p, hp, hparent, hid⟩ | ⟨name, rfl, hparent, -, hid⟩ := hid
    · refine .inl ⟨p, _, _, hparent, hplace p hparent, ?_⟩
      rw [hid, Node.nextChildId_eq, (hprolongs.node hp).placeId_eq]
    · refine .inr ⟨_, hnamed _ rfl, hfile.symm, hline.symm, rfl, ?_⟩
      rw [hid, hprolongs.fullId_eq hparent]

/-- Steps of reading put more behind what was there. -/
theorem Steps.prolongs (hsteps : Steps named first d d') (hd : d.Grown) :
    d'.content.Prolongs d.content := by
  induction hsteps with
  | refl => exact .refl _
  | tail hsteps hstep ih => exact (hstep.grow.prolongs (Steps.grown hsteps hd)).trans ih

/-- The nodes that are made in a line are traced by the name that it gives. -/
theorem Steps.traced (h : d.content.Traced declared) (hd : d.Grown)
    (hsteps : Steps named first d d') (hnamed : ∀ x ∈ named, ⟨x, d.file, d.line⟩ ∈ declared) :
    d'.content.Traced declared := by
  induction hsteps with
  | refl => exact h
  | tail hsteps hstep ih =>
    obtain ⟨hfile, hline⟩ := Steps.place hsteps
    exact hstep.traced ih (Steps.grown hsteps hd) (by rwa [hfile, hline])

/-- What it means that an id is refused after some names were declared: it is the next one of a
place, or the full id of a further name, while no node has a name but one of the first. -/
def Clashes (d : Draft) (declared more : List Declaration) (id : String) : Prop :=
  (d.content.find? id).isSome = true ∧
    ((∃ p < d.content.size, id = (d.content.node p).nextChildId) ∨
      ∃ before x after, more = before ++ x :: after ∧ d.content.Traced (declared ++ before) ∧
        x.file = d.file ∧ x.line = d.line ∧ (∀ p ∈ x.parent, p < d.content.size) ∧
        id = d.content.fullId x.parent x.name)

/-- More names follow. -/
theorem Clashes.further {more : List Declaration} {id : String} (h : d.Clashes declared more id)
    (rest : List Declaration) : d.Clashes declared (more ++ rest) id := by
  obtain ⟨htaken, hplace | ⟨before, x, after, rfl, hx⟩⟩ := h
  · exact ⟨htaken, .inl hplace⟩
  · exact ⟨htaken, .inr ⟨before, x, after ++ rest, List.append_assoc .., hx⟩⟩

/-- More names were declared. -/
theorem Clashes.after {here more : List Declaration} {id : String}
    (h : d.Clashes (declared ++ here) more id) : d.Clashes declared (here ++ more) id := by
  obtain ⟨htaken, hplace | ⟨before, x, after, rfl, htraced, hx⟩⟩ := h
  · exact ⟨htaken, .inl hplace⟩
  · rw [List.append_assoc] at htraced
    exact ⟨htaken, .inr ⟨here ++ before, x, after, (List.append_assoc ..).symm, htraced, hx⟩⟩

/-- A line is read into traced content, also when it has a fault. -/
theorem traced_readLine (hfollows : Follows base m d) (h : d.content.Traced declared)
    {raw : List Char} {r : Except SourceFault Unit} (hrun : readLine raw d = (r, d'))
    {here : List Declaration}
    (hhere : here = ((m.lineNaming? raw).map (⟨·, d.file, d.line⟩)).toList) :
    d'.content.Traced (declared ++ here) ∧ (d'.file = d.file ∧ d'.line = d.line) ∧
      ∀ id, r = .error (.duplicateId id) → d'.Clashes declared here id := by
  subst hhere
  obtain ⟨hsteps, -, hrefused⟩ := takes_readLine hfollows raw r d' hrun
  obtain ⟨hfile, hline⟩ := Steps.place hsteps
  refine ⟨?_, ⟨hfile, hline⟩, fun id hid => ?_⟩
  · refine Steps.traced (h.mono (List.subset_append_left _ _)) hfollows.grown hsteps ?_
    intro x hx
    rw [Option.mem_def.1 hx]
    exact List.mem_append_right _ List.mem_cons_self
  · obtain ⟨htaken, parent, hplace | ⟨name, hnamed, hparent, hsize, hid⟩⟩ := hrefused id hid
    · exact ⟨htaken, .inl ⟨hplace.choose, hplace.choose_spec.1, hplace.choose_spec.2.2⟩⟩
    · refine ⟨htaken, .inr ⟨[], ⟨⟨parent, name⟩, d.file, d.line⟩, [], ?_, ?_, hfile.symm,
        hline.symm, hparent, hid⟩⟩
      · rw [hnamed]
        rfl
      · -- the line has made no node yet
        rw [List.append_nil]
        exact h.prolong (hsteps.grown hfollows.grown).sound.content
          (Steps.prolongs hsteps hfollows.grown) (List.Subset.refl _) fun i hge hlt =>
            absurd (hsize ▸ hlt) (Nat.not_lt.2 hge)

/-- Lines are read into traced content, also when a fault stops the reading. -/
theorem traced_readLines (hfollows : Follows base m d) (h : d.content.Traced declared)
    {lines : List (List Char)} {r : Except SourceFault Unit}
    (hrun : readLines lines d = (r, d')) :
    d'.content.Traced (declared ++ declarations d.file m d.line lines) ∧ d'.file = d.file ∧
      ∀ id, r = .error (.duplicateId id) →
        d'.Clashes declared (declarations d.file m d.line lines) id := by
  induction lines generalizing d m declared with
  | nil =>
    rw [readLines, checkClosed, Trial.get_bind_apply] at hrun
    rw [declarations, List.append_nil]
    split at hrun <;> cases hrun <;> exact ⟨h, rfl, nofun⟩
  | cons raw rest ih =>
    have hfollows₁ := hfollows.note (d.line + 1) d.includes
    rw [declarations]
    cases hline : readLine raw { d with line := d.line + 1 } with
    | mk r₁ d₂ =>
      obtain ⟨htraced, ⟨hfile, hcount⟩, hclashes⟩ := traced_readLine hfollows₁ h hline rfl
      dsimp only at htraced hfile hcount hclashes
      change (readLine raw >>= fun _ => readLines rest) { d with line := d.line + 1 } =
        (r, d') at hrun
      rw [Trial.bind_apply, hline] at hrun
      cases r₁ with
      | error e =>
        cases hrun
        refine ⟨htraced.mono ?_, hfile, fun id hid => ?_⟩
        · rw [← List.append_assoc]
          exact List.subset_append_left _ _
        · cases hid
          exact (hclashes id rfl).further _
      | ok a =>
        have hfollows₂ := hfollows₁.ends_readLine raw a d₂ hline
        obtain ⟨htraced', hfile', hclashes'⟩ := ih hfollows₂ htraced hrun
        rw [hfile, hcount] at htraced' hclashes'
        refine ⟨List.append_assoc _ _ _ ▸ htraced', hfile'.trans hfile, fun id hid => ?_⟩
        exact (hclashes' id hid).after

end Draft

namespace Content

open Draft

variable {c c' : Content} {declared : List Declaration}

/-! ## Sources -/

/-- The names that a source gives when it is read into content. -/
def declaredBy (c : Content) (file : String) (text : List Char) : List Declaration :=
  declarations file { next := c.size } 0 (Text.lines text)

/-- Sources are read into traced content, also when a fault stops the reading. -/
theorem Traced.read (hc : c.Grown) (h : c.Traced declared) {file : String} {text : List Char}
    {r : Except SourceError Source} (hread : c.read file text = (r, c')) :
    c'.Traced (declared ++ c.declaredBy file text) ∧
      ∀ e : SourceError, r = .error e → e.file = file ∧ ∀ id, e.fault = .duplicateId id →
        ∃ d : Draft, d.content = c' ∧ d.file = file ∧ d.line = e.line ∧
          d.Clashes declared (c.declaredBy file text) id := by
  unfold Content.read Draft.locate at hread
  cases hrun : Draft.readLines (Text.lines text) { content := c, file } with
  | mk r' d =>
    obtain ⟨htraced, hfile, hclashes⟩ := traced_readLines (hc.follows file) h hrun
    simp only [ExceptT.run, hrun] at hread
    cases r' with
    | ok _ =>
      cases hread
      exact ⟨htraced, nofun⟩
    | error fault =>
      cases hread
      refine ⟨htraced, ?_⟩
      rintro e ⟨⟩
      refine ⟨hfile, fun id hid => ⟨d, rfl, hfile, rfl, hclashes id (congrArg _ hid)⟩⟩

/-- The names that sources give when they are read into content, one after another. -/
def declarationsIn (c : Content) : List (String × List Char) → List Declaration
  | [] => []
  | (file, text) :: rest =>
    c.declaredBy file text ++ (c.after (.source file text)).declarationsIn rest

/-- The content after some sources were read into it, also when faults stopped the reading. -/
def fillWith (c : Content) (sources : List (String × List Char)) : Content :=
  c.fill (sources.map fun source => .source source.1 source.2)

/-- Sources are read one after the other. -/
theorem fillWith_append (c : Content) (sources more : List (String × List Char)) :
    c.fillWith (sources ++ more) = (c.fillWith sources).fillWith more := by
  rw [fillWith, List.map_append, fill_append]
  rfl

/-- Their names are given one after the other. -/
theorem declarationsIn_append (c : Content) (sources more : List (String × List Char)) :
    c.declarationsIn (sources ++ more) =
      c.declarationsIn sources ++ (c.fillWith sources).declarationsIn more := by
  induction sources generalizing c with
  | nil => rfl
  | cons source rest ih =>
    rw [List.cons_append, declarationsIn, declarationsIn, ih, List.append_assoc]
    rfl

/-- What is read from sources is traced by the names that they give. -/
theorem Traced.fillWith (hc : c.Grown) (h : c.Traced declared)
    (sources : List (String × List Char)) : (c.fillWith sources).Grown ∧
      (c.fillWith sources).Traced (declared ++ c.declarationsIn sources) := by
  induction sources generalizing c declared with
  | nil =>
    rw [declarationsIn, List.append_nil]
    exact ⟨hc, h⟩
  | cons source rest ih =>
    obtain ⟨file, text⟩ := source
    cases hread : c.read file text with
    | mk r c' =>
      have hafter : c.after (.source file text) = c' := congrArg Prod.snd hread
      obtain ⟨hgrown, htraced⟩ := ih (hc.read hread).1 (h.read hc hread).1
      rw [declarationsIn, hafter, ← List.append_assoc]
      rw [Content.fillWith, List.map_cons, fill, List.foldl_cons, hafter]
      exact ⟨hgrown, htraced⟩

/-- Content without nodes is traced by no name. -/
theorem traced_empty : ({} : Content).Traced [] where
  sound := sound_empty
  id hi := absurd hi (Nat.not_lt_zero _)

/-- Two names that are alike and given under one node, one after the other: the first one belongs to
the node `i`, and both have the full id `id`. -/
structure Homonyms (c : Content) (declared : List Declaration) (x y : Declaration) (i : NodeId)
    (id : String) : Prop where
  /-- Both are given. -/
  given : [x, y].Sublist declared
  /-- They are given under one node, or both to knots or functions. -/
  parent : x.parent = y.parent
  /-- They are alike. -/
  name : x.name = y.name
  /-- The id is the full one. -/
  full : id = c.fullId y.parent y.name
  /-- The node has the id. -/
  taken : c.find? id = some i
  /-- It is from the line in which the first one is given, and hangs where that one is given. -/
  node : (c.node i).file = x.file ∧ (c.node i).line = x.line ∧ (c.node i).parent = x.parent

/-- When all names are proper, the id that a source is refused for is that of two names. -/
theorem Traced.homonyms (hc : c.Grown) (h : c.Traced declared) {file : String} {text : List Char}
    {e : SourceError} {id : String} (hread : c.read file text = (.error e, c'))
    (hfault : e.fault = .duplicateId id)
    (hproper : ∀ x ∈ declared ++ c.declaredBy file text, IsProper x.name) :
    e.file = file ∧ c'.Decodable ∧ ∃ x y i,
      c'.Homonyms (declared ++ c.declaredBy file text) x y i id ∧ y.file = file ∧
        y.line = e.line := by
  obtain ⟨htraced, herror⟩ := h.read hc hread
  obtain ⟨hfile, hclashes⟩ := herror e rfl
  obtain ⟨d, rfl, hdfile, hdline, htaken, hid⟩ := hclashes id hfault
  have hdecodable := htraced.decodable hproper
  obtain ⟨i, hi⟩ := Option.isSome_iff_exists.1 htaken
  obtain ⟨p, hp, rfl⟩ | ⟨before, y, after, hmore, htraced', hyfile, hyline, hparent, rfl⟩ := hid
  · rw [hdecodable.find?_nextChildId hp] at hi
    cases hi
  · rw [hmore] at hproper ⊢
    have hbefore : declared ++ before ⊆ declared ++ (before ++ y :: after) := by
      rw [← List.append_assoc]
      exact List.subset_append_left _ _
    have hy : y ∈ declared ++ (before ++ y :: after) := by simp
    obtain ⟨x, hx, hxfile, hxline, hxparent, hsame, hname⟩ :=
      htraced'.declared_of_taken (fun x hx => hproper x (hbefore hx)) hparent (hproper y hy) hi
    refine ⟨hfile, hdecodable, x, y, i, ⟨?_, hsame, hname, rfl, hi, hxfile.symm, hxline.symm,
      hxparent.symm⟩, hyfile.trans hdfile, hyline.trans hdline⟩
    rw [← List.append_assoc]
    exact (List.singleton_sublist.2 hx).append (List.singleton_sublist.2 List.mem_cons_self)

end Content

/-- A source of a host: its file and its text. -/
def Host.sourceOf (host : Host) (file : String) : String × List Char :=
  (file, ((host.sources.get? file).getD "").toList)

namespace Sources

open Content

variable {host : Host} {s t : Sources} {read : List String}

/-- Loading reads sources of the host into the content. -/
theorem Reads.content_eq (h : Reads host s read t) :
    t.content = s.content.fillWith (read.map host.sourceOf) := by
  induction h with
  | nil => rfl
  | @cons s t file text source content rest _ hopen hread _ ih =>
    have htext : ((host.sources.get? file).getD "").toList = text.toList := by
      rw [hopen]
      rfl
    rw [ih, List.map_cons, Host.sourceOf, htext, fillWith, fillWith, List.map_cons, fill, fill,
      List.foldl_cons, after, hread]

/-- When all names in the sources are proper and loading stops at an id that is taken, this is the
full id of two names that are alike and given under one node, the second one in the line at which
loading stops. Ids of places are free everywhere. -/
theorem homonyms_of_load (sources : List (String × List Char)) {declared : List Declaration}
    {main file : String} {line : Nat} {id : String}
    (hs : s.content = ({} : Content).fillWith sources)
    (hload : s.load host main = (.error (.parse ⟨file, line, .duplicateId id⟩), t))
    (hread : t.files = s.files ++ read)
    (hdeclared : declared =
      ({} : Content).declarationsIn (sources ++ (read ++ [file]).map host.sourceOf))
    (hproper : ∀ x ∈ declared, IsProper x.name) :
    (∃ x y i, t.content.Homonyms declared x y i id ∧ y.file = file ∧ y.line = line) ∧
      ∀ p < t.content.size, t.content.find? (t.content.node p).nextChildId = none := by
  obtain ⟨read', bad, hstops, -⟩ := ends_load hload
  have hfiles := hstops.files_eq
  rw [hread, List.append_cancel_left_eq] at hfiles
  subst hfiles
  cases hstops with
  | @faulty u text _ content hreads _ hopen hfault =>
    have hcontent := hreads.content_eq
    rw [hs, ← fillWith_append] at hcontent
    obtain ⟨hgrown, htraced⟩ :=
      traced_empty.fillWith grown_empty (sources ++ read.map host.sourceOf)
    rw [← hcontent, List.nil_append] at htraced
    rw [← hcontent] at hgrown
    have hbad : file = bad := ((htraced.read hgrown hfault).2 _ rfl).1
    subst hbad
    have hall : declared = ({} : Content).declarationsIn (sources ++ read.map host.sourceOf) ++
        u.content.declaredBy file text.toList := by
      rw [hdeclared, List.map_append, ← List.append_assoc, declarationsIn_append, ← hcontent]
      simp [declarationsIn, Host.sourceOf, hopen]
    rw [hall] at hproper ⊢
    obtain ⟨-, hdecodable, hhomonyms⟩ := htraced.homonyms hgrown hfault rfl hproper
    exact ⟨hhomonyms, fun p hp => hdecodable.find?_nextChildId hp⟩

/-- A host with a gate that includes a yard. In the yard a gather and a stitch are both named
`well`. -/
def wellHost : Host :=
  .ofSources
    (.ofList [("gate", "INCLUDE yard\n== gate\n* (left) Left.\n* [Right]\n"),
      ("yard", "== yard\n\x7b stopping:\n- Dawn.\n- Dusk.\n\x7d\n- (well) Deep.\n= well\nDeeper.\n")])
    fun file => "no source named " ++ file

/-- The header of the stitch is refused. -/
theorem homonyms_of_load_well : ∃ (s : Sources) (declared : List Declaration) (x y : Declaration)
    (i : NodeId),
    ({} : Sources).load wellHost "gate" =
      (.error (.parse ⟨"yard", 7, .duplicateId "yard.well"⟩), s) ∧
    (∀ x ∈ declared, IsProper x.name) ∧
    s.content.Homonyms declared x y i "yard.well" ∧ y.file = "yard" ∧ y.line = 7 := by
  have hload : ({} : Sources).load wellHost "gate" =
      (.error (.parse ⟨"yard", 7, .duplicateId "yard.well"⟩),
        (({} : Sources).load wellHost "gate").2) ∧
      (({} : Sources).load wellHost "gate").2.files = ["gate"] ∧
      ∀ x ∈ ({} : Content).declarationsIn (["gate", "yard"].map wellHost.sourceOf),
        IsProper x.name := by decide +kernel
  obtain ⟨hload, hfiles, hproper⟩ := hload
  obtain ⟨⟨x, y, i, hhomonyms, hfile, hline⟩, -⟩ :=
    homonyms_of_load [] rfl hload hfiles rfl hproper
  exact ⟨_, _, x, y, i, hload, hproper, hhomonyms, hfile, hline⟩

end Sources

end Narrative
