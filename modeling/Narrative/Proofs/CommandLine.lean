import Mathlib.Tactic.Common
import Narrative.CommandLine

/-!
# Command lines are read back

A command line can be written in many ways. Its settings stand in any order; a flag without a value
stands alone or in front of others in a bundle; the value of a setting is attached to its letter or
is the next argument; and the story stands anywhere, behind two hyphens when it would be taken for a
bundle. However it is written, it is read back.
-/

namespace Narrative.CommandLine

/-! ## Ways of writing -/

/-- A flag without a value. -/
inductive Switch where
  /-- Banner and prompt are left out. -/
  | quiet
  /-- Everything is logged. -/
  | debug
deriving DecidableEq

/-- A setting that always has a value. -/
inductive Setting where
  /-- The seed of the dice. -/
  | seed (n : Nat)
  /-- The saved game to go on with. -/
  | load (path : String)
  /-- The file the game is saved to. -/
  | save (path : String)

/-- How a bundle ends, behind its flags without a value. -/
inductive Ending where
  /-- There is nothing else in it. -/
  | plain
  /-- With a setting and its value. -/
  | attached (s : Setting)
  /-- With the letter of a setting, whose value is the next argument. -/
  | separate (s : Setting)
  /-- With the letter of the settings file alone, so that none is read. -/
  | skip
  /-- With the letter of the settings file and its path. -/
  | file (path : String)


/-- A part of a command line. -/
inductive Part where
  /-- A bundle of flags. -/
  | bundle (switches : List Switch) (ending : Ending)
  /-- The story. -/
  | story (path : String)

/-- A way of writing a command line. -/
structure Writing where
  /-- The parts in their order. -/
  parts : List Part
  /-- The story, when it stands behind two hyphens at the end. -/
  last : Option String := none

/-- The letter of a flag. -/
def Switch.letter : Switch → Char
  | quiet => 'q'
  | debug => 'd'

namespace Setting

/-- The letter of a setting. -/
def letter : Setting → Char
  | seed _ => 's'
  | load _ => 'l'
  | save _ => 'w'

/-- The value of a setting as it is written. -/
def value : Setting → String
  | seed n => toString n
  | load path | save path => path

/-- The seed, if the setting is one. -/
def seed? : Setting → Option Nat
  | seed n => some n
  | _ => none

/-- The saved game, if the setting is one. -/
def load? : Setting → Option String
  | load path => some path
  | _ => none

/-- The file the game is saved to, if the setting is one. -/
def save? : Setting → Option String
  | save path => some path
  | _ => none

/-- Whether the value is one that the setting can have. -/
def Fits : Setting → Prop
  | seed n => n ≤ maxSeed
  | load _ | save _ => True

instance : (s : Setting) → Decidable s.Fits
  | seed n => inferInstanceAs (Decidable (n ≤ maxSeed))
  | load _ | save _ => inferInstanceAs (Decidable True)

end Setting

namespace Ending

/-- What stands in the bundle itself. -/
def chars : Ending → List Char
  | plain => []
  | attached s => s.letter :: s.value.toList
  | separate s => [s.letter]
  | skip => ['f']
  | file path => 'f' :: path.toList

/-- The argument that belongs to the bundle, if there is one. -/
def next : Ending → List String
  | separate s => [s.value]
  | _ => []

/-- The setting at the end. -/
def setting? : Ending → Option Setting
  | attached s | separate s => some s
  | _ => none

/-- The settings file that is named at the end. -/
def config? : Ending → Option SettingsFile
  | skip => some .skip
  | file path => some (.file path)
  | _ => none

/-- An attached value has characters, and the path of a settings file has some. -/
def Proper : Ending → Prop
  | attached s => s.Fits ∧ s.value ≠ ""
  | separate s => s.Fits
  | file path => path ≠ ""
  | plain | skip => True

instance : (e : Ending) → Decidable e.Proper
  | attached s => inferInstanceAs (Decidable (s.Fits ∧ s.value ≠ ""))
  | separate s => inferInstanceAs (Decidable s.Fits)
  | file path => inferInstanceAs (Decidable (path ≠ ""))
  | plain | skip => inferInstanceAs (Decidable True)

end Ending

namespace Part

/-- The arguments of a part. -/
def args : Part → List String
  | bundle switches ending =>
    String.ofList ('-' :: (switches.map Switch.letter ++ ending.chars)) :: ending.next
  | story path => [path]

/-- The flags without a value. -/
def switches : Part → List Switch
  | bundle switches _ => switches
  | story _ => []

/-- What a part says by the end of its bundle. -/
def ending : Part → Ending
  | bundle _ ending => ending
  | story _ => .plain

/-- The story that a part gives. -/
def story? : Part → Option String
  | bundle .. => none
  | story path => some path

/-- A bundle has something in it, and a story does not look like one. -/
def Proper : Part → Prop
  | bundle switches ending => ending.Proper ∧ switches.map Switch.letter ++ ending.chars ≠ []
  | story path => path.toList.head? ≠ some '-' ∨ path = "-"

instance : (p : Part) → Decidable p.Proper
  | bundle switches ending =>
    inferInstanceAs (Decidable (ending.Proper ∧ switches.map Switch.letter ++ ending.chars ≠ []))
  | story path => inferInstanceAs (Decidable (path.toList.head? ≠ some '-' ∨ path = "-"))

end Part

/-- Whether a flag without a value is set. -/
def has (c : CommandLine) : Switch → Bool
  | .quiet => c.quiet
  | .debug => c.debug

namespace Writing

/-- The arguments that are written. -/
def args (w : Writing) : List String :=
  w.parts.flatMap Part.args ++ (w.last.map (["--", ·])).getD []

/-- The settings that are written, in their order. -/
def settings (w : Writing) : List Setting :=
  w.parts.filterMap (·.ending.setting?)

/-- The stories that are written, in their order. -/
def stories (w : Writing) : List String :=
  w.parts.filterMap Part.story? ++ w.last.toList

/-- A writing says what a command line holds. Of a setting that is given more than once the last
value counts, and there is one story. -/
structure Says (w : Writing) (c : CommandLine) : Prop where
  /-- The parts are well written. -/
  proper : ∀ p ∈ w.parts, p.Proper
  /-- The settings file is the one that is named, and looked for when none is. -/
  config : c.config = (w.parts.filterMap (·.ending.config?)).getLast?.getD .search
  /-- The seed is the one that is given. -/
  seed : c.seed = (w.settings.filterMap Setting.seed?).getLast?
  /-- The saved game is the one that is given. -/
  load : c.load = (w.settings.filterMap Setting.load?).getLast?
  /-- The file for saving is the one that is given. -/
  save : c.save = (w.settings.filterMap Setting.save?).getLast?
  /-- A flag without a value is set when it is written somewhere. -/
  has : ∀ s, c.has s = w.parts.any (·.switches.contains s)
  /-- There is one story. -/
  story : w.stories = [c.story]

end Writing

/-! ## What a part changes -/

/-- The command line with a flag set. -/
def Switch.set (c : CommandLine) : Switch → CommandLine
  | quiet => { c with quiet := true }
  | debug => { c with debug := true }

/-- The command line with a setting. -/
def Setting.set (c : CommandLine) : Setting → CommandLine
  | seed n => { c with seed := some n }
  | load path => { c with load := some path }
  | save path => { c with save := some path }

/-- The command line with what the end of a bundle says. -/
def Ending.set (c : CommandLine) (e : Ending) : CommandLine :=
  match e with
  | plain => c
  | attached s | separate s => s.set c
  | skip => { c with config := .skip }
  | file path => { c with config := .file path }

/-- The command line with what a part says, the story apart. -/
def Part.set (c : CommandLine) (p : Part) : CommandLine :=
  p.ending.set (p.switches.foldl Switch.set c)

/-- A natural number within the bound is read as it is written. -/
theorem natural?_toString {bound n : Nat} (h : n ≤ bound) :
    Text.natural? bound (toString n).toList = some n := by
  have hchars : (toString n).toList = Nat.toDigits 10 n := String.toList_ofList
  have hdigit : ∀ d ∈ Nat.toDigits 10 n, d.isDigit = true := fun d hd =>
    Nat.isDigit_of_mem_toDigits (by decide) (by decide) hd
  have hvalue : (Nat.toDigits 10 n).foldl (fun n c => 10 * n + (c.toNat - '0'.toNat)) 0 = n := by
    rw [← Nat.ofDigitChars_eq_foldl, Nat.ofDigitChars_ten_toDigits]
  have hne : (Nat.toDigits 10 n).isEmpty = false :=
    List.isEmpty_eq_false_iff.2 Nat.toDigits_ne_nil
  rw [hchars, Text.natural?]
  · simp only [hvalue, hne, List.all_eq_true.2 hdigit, h, decide_true, Bool.not_false,
      Bool.and_self, if_true]
  · intro rest hsign
    cases hdigit '+' (hsign ▸ List.mem_cons_self)

/-- A setting that fits is set. -/
theorem assign_eq (c : CommandLine) {s : Setting} (h : s.Fits) :
    c.assign s.letter s.value = .ok (s.set c) := by
  cases s with
  | seed n =>
    simp only [Setting.letter, Setting.value, assign, natural?_toString h]
    rfl
  | load | save => rfl

/-! ## Reading a bundle -/

/-- Switches in a bundle are set one after the other. -/
theorem readBundle_switches (c : CommandLine) (switches : List Switch) (rest : List Char) :
    c.readBundle (switches.map Switch.letter ++ rest) =
      (switches.foldl Switch.set c).readBundle rest := by
  induction switches generalizing c with
  | nil => rfl
  | cons s switches ih =>
    rw [List.map_cons, List.cons_append, List.foldl_cons, ← ih]
    cases s <;> rw [Switch.letter, readBundle] <;> rfl

/-- The letter of a setting with what follows it in the bundle. -/
theorem readBundle_letter (c : CommandLine) (s : Setting) (rest : List Char) :
    c.readBundle (s.letter :: rest) =
      if rest.isEmpty then .ok (c, some s.letter)
      else (c.assign s.letter (String.ofList rest)).map (·, none) := by
  cases s <;> simp [Setting.letter, readBundle]

/-- The end of a bundle is read, apart from a value that is the next argument. -/
theorem readBundle_ending (c : CommandLine) {e : Ending} (h : e.Proper) :
    c.readBundle e.chars = match e with
      | .separate s => .ok (c, some s.letter)
      | e => .ok (e.set c, none) := by
  cases e with
  | plain => rfl
  | attached s =>
    have hne : s.value.toList.isEmpty = false :=
      List.isEmpty_eq_false_iff.2 (mt String.toList_eq_nil_iff.1 h.2)
    rw [Ending.chars, readBundle_letter, hne, String.ofList_toList, assign_eq c h.1]
    rfl
  | separate s =>
    rw [Ending.chars, readBundle_letter]
    rfl
  | skip => rfl
  | file path =>
    have hne : path.toList.isEmpty = false :=
      List.isEmpty_eq_false_iff.2 (mt String.toList_eq_nil_iff.1 h)
    simp [Ending.chars, readBundle, hne, String.ofList_toList, Ending.set]

/-- A bundle does not begin with a second hyphen. -/
theorem head?_ne_hyphen (switches : List Switch) (e : Ending) :
    (switches.map Switch.letter ++ e.chars).head? ≠ some '-' := by
  cases switches with
  | cons s rest => cases s <;> simp [Switch.letter]
  | nil =>
    cases e with
    | attached s | separate s => cases s <;> simp [Ending.chars, Setting.letter]
    | _ => simp [Ending.chars]

/-! ## Reading the parts -/

/-- A part is read, whatever follows it. -/
theorem readFrom_part (c : CommandLine) (stories : List String) {p : Part} (h : p.Proper)
    (rest : List String) :
    readFrom c stories (p.args ++ rest) =
      readFrom (p.set c) (stories ++ p.story?.toList) rest := by
  cases p with
  | story path =>
    have hbundle : isBundle path = false := by
      rcases h with hhead | rfl
      · simp [isBundle, hhead]
      · rfl
    have hend : path ≠ "--" := by
      rintro rfl
      cases hbundle
    rw [Part.args, List.singleton_append, readFrom, if_neg hend, hbundle,
      if_neg Bool.false_ne_true]
    rfl
  | bundle switches e =>
    obtain ⟨hproper, hne⟩ := h
    have hchars : (String.ofList ('-' :: (switches.map Switch.letter ++ e.chars))).toList =
        '-' :: (switches.map Switch.letter ++ e.chars) := String.toList_ofList
    have hend : String.ofList ('-' :: (switches.map Switch.letter ++ e.chars)) ≠ "--" := by
      intro heq
      rw [← String.toList_inj, hchars] at heq
      apply head?_ne_hyphen switches e
      rw [(List.cons.inj heq).2]
      rfl
    have hhyphen : String.ofList ('-' :: (switches.map Switch.letter ++ e.chars)) ≠ "-" := by
      intro heq
      rw [← String.toList_inj, hchars] at heq
      exact hne (List.cons.inj heq).2
    have hbundle : isBundle (String.ofList ('-' :: (switches.map Switch.letter ++ e.chars))) =
        true := by
      rw [isBundle, hchars, bne_iff_ne.2 hhyphen]
      rfl
    have hread := readBundle_ending (switches.foldl Switch.set c) hproper
    rw [← readBundle_switches] at hread
    rw [Part.args, List.cons_append, readFrom, if_neg hend, hbundle, if_pos rfl, hchars,
      List.tail_cons, hread]
    cases e with
    | separate s =>
      simp only [Ending.next, List.singleton_append, assign_eq _ hproper]
      rw [Part.story?, Option.toList_none, List.append_nil]
      rfl
    | _ =>
      simp only [Ending.next, List.nil_append]
      rw [Part.story?, Option.toList_none, List.append_nil]
      rfl

/-- Parts are read one after another. -/
theorem readFrom_parts (c : CommandLine) (stories : List String) {parts : List Part}
    (h : ∀ p ∈ parts, p.Proper) (rest : List String) :
    readFrom c stories (parts.flatMap Part.args ++ rest) =
      readFrom (parts.foldl Part.set c) (stories ++ parts.filterMap Part.story?) rest := by
  induction parts generalizing c stories with
  | nil => simp
  | cons p parts ih =>
    obtain ⟨hp, hparts⟩ := List.forall_mem_cons.1 h
    rw [List.flatMap_cons, List.append_assoc, readFrom_part c stories hp, ih _ _ hparts,
      List.foldl_cons, List.append_assoc]
    congr 2
    cases hstory : p.story? <;> simp [hstory]

/-- What is written is read part by part. -/
theorem read_args (w : Writing) (h : ∀ p ∈ w.parts, p.Proper) :
    read w.args = (w.parts.foldl Part.set {}).finish w.stories := by
  rw [read, Writing.args, readFrom_parts _ _ h, List.nil_append, Writing.stories]
  cases w.last with
  | none => rw [Option.map_none, Option.getD_none, readFrom, Option.toList_none, List.append_nil]
  | some story => rw [Option.map_some, Option.getD_some, readFrom, if_pos rfl, Option.toList_some]

/-! ## What the parts say together -/

section Together

variable {β : Type} (c : CommandLine) (parts : List Part)

/-- Of what parts set one after another, the last one counts. -/
theorem foldl_set {f : CommandLine → β} {g : Part → Option β}
    (h : ∀ c p, f (p.set c) = (g p).getD (f c)) :
    f (parts.foldl Part.set c) = (parts.filterMap g).getLast?.getD (f c) := by
  induction parts generalizing c with
  | nil => rfl
  | cons p parts ih =>
    rw [List.foldl_cons, ih, h]
    cases hp : g p with
    | none => rw [List.filterMap_cons_none hp, Option.getD_none]
    | some b =>
      rw [List.filterMap_cons_some hp, List.getLast?_cons, Option.getD_some, Option.getD_some]

/-- A part sets what the end of its bundle sets, apart from flags without a value. -/
theorem get_set {f : CommandLine → β} (hswitches : ∀ c s, f (Switch.set c s) = f c)
    {g : Ending → Option β} (hending : ∀ c e, f (Ending.set c e) = (g e).getD (f c))
    (p : Part) : f (p.set c) = (g p.ending).getD (f c) := by
  rw [Part.set, hending]
  congr 1
  induction p.switches generalizing c with
  | nil => rfl
  | cons s switches ih => rw [List.foldl_cons, ih, hswitches]

/-- Of the settings of one kind, the last one counts. -/
theorem foldl_setting {f : CommandLine → Option β} {g : Setting → Option β}
    (hswitches : ∀ c s, f (Switch.set c s) = f c)
    (hconfig : ∀ c config, f { c with config } = f c)
    (hset : ∀ c s, f (Setting.set c s) = (g s).or (f c)) (hnone : f c = none) :
    f (parts.foldl Part.set c) =
      ((parts.filterMap (·.ending.setting?)).filterMap g).getLast? := by
  have hending (c : CommandLine) (e : Ending) :
      f (e.set c) = ((e.setting?.bind g).map some).getD (f c) := by
    cases e with
    | attached s | separate s =>
      rw [Ending.set, hset, Ending.setting?, Option.bind_some]
      cases g s <;> rfl
    | skip | file path => exact hconfig c _
    | plain => rfl
  rw [foldl_set c parts (get_set · hswitches hending), ← List.map_filterMap, List.getLast?_map,
    List.filterMap_filterMap, hnone]
  cases (parts.filterMap fun p => p.ending.setting?.bind g).getLast? <;> rfl

/-- A flag without a value is set by the parts in which it stands. -/
theorem has_set (p : Part) (s : Switch) : (p.set c).has s = (p.switches.contains s || c.has s) := by
  have hending (c : CommandLine) (e : Ending) : (e.set c).has s = c.has s := by
    cases e with
    | attached t | separate t => cases t <;> cases s <;> rfl
    | _ => cases s <;> rfl
  have hswitch (c : CommandLine) (t : Switch) : (Switch.set c t).has s = (s == t || c.has s) := by
    cases s <;> cases t <;> rfl
  rw [Part.set, hending]
  induction p.switches generalizing c with
  | nil => rfl
  | cons t switches ih =>
    rw [List.foldl_cons, ih, hswitch, List.contains_cons, Bool.or_left_comm, Bool.or_assoc]

/-- A switch is set just when one of the parts has it. -/
theorem has_foldl (s : Switch) :
    (parts.foldl Part.set c).has s = (parts.any (·.switches.contains s) || c.has s) := by
  induction parts generalizing c with
  | nil => rfl
  | cons p parts ih =>
    rw [List.foldl_cons, ih, has_set, List.any_cons, Bool.or_left_comm, Bool.or_assoc]

end Together

/-- Two command lines are the same but for the story when they have the same settings and flags. -/
theorem withStory_eq {c d : CommandLine} (hconfig : d.config = c.config) (hseed : d.seed = c.seed)
    (hload : d.load = c.load) (hsave : d.save = c.save) (hhas : ∀ s, d.has s = c.has s) :
    { d with story := c.story } = c := by
  have hquiet : d.quiet = c.quiet := hhas .quiet
  have hdebug : d.debug = c.debug := hhas .debug
  cases c
  cases d
  simp_all

/-- What a writing says is what its parts set, with the story. -/
theorem Writing.Says.finish_eq {w : Writing} {c : CommandLine} (h : w.Says c) :
    (w.parts.foldl Part.set {}).finish w.stories = .ok c := by
  have hswitch {β : Type} {f : CommandLine → β} (hquiet : ∀ c, f { c with quiet := true } = f c)
      (hdebug : ∀ c, f { c with debug := true } = f c) (c : CommandLine) (s : Switch) :
      f (s.set c) = f c := by
    cases s with
    | quiet => exact hquiet c
    | debug => exact hdebug c
  have hconfig := foldl_set (f := CommandLine.config) (g := (·.ending.config?)) {} w.parts <| by
    refine (get_set · (hswitch (fun _ => rfl) fun _ => rfl) fun c e => ?_)
    cases e with
    | attached s | separate s => cases s <;> rfl
    | _ => rfl
  have hseed := foldl_setting (f := CommandLine.seed) (g := Setting.seed?) {} w.parts
    (hswitch (fun _ => rfl) fun _ => rfl) (fun _ _ => rfl) (fun _ s => by cases s <;> rfl) rfl
  have hload := foldl_setting (f := CommandLine.load) (g := Setting.load?) {} w.parts
    (hswitch (fun _ => rfl) fun _ => rfl) (fun _ _ => rfl) (fun _ s => by cases s <;> rfl) rfl
  have hsave := foldl_setting (f := CommandLine.save) (g := Setting.save?) {} w.parts
    (hswitch (fun _ => rfl) fun _ => rfl) (fun _ _ => rfl) (fun _ s => by cases s <;> rfl) rfl
  have hhas (s : Switch) : (w.parts.foldl Part.set {}).has s = c.has s := by
    rw [has_foldl, h.has]
    cases s <;> exact Bool.or_false _
  rw [h.story, finish]
  exact congrArg Except.ok (withStory_eq (hconfig.trans h.config.symm) (hseed.trans h.seed.symm)
    (hload.trans h.load.symm) (hsave.trans h.save.symm) hhas)

/-! ## The plain way -/

/-- The settings of a command line, one after another. -/
def givenSettings (c : CommandLine) : List Setting :=
  c.seed.toList.map .seed ++ c.load.toList.map .load ++ c.save.toList.map .save

/-- The flags of a command line that have no value. -/
def givenSwitches (c : CommandLine) : List Switch :=
  [.quiet, .debug].filter c.has

/-- What a command line has that is no flag without a value: the settings file, unless it is looked
for, and the settings. -/
def givenEndings (c : CommandLine) : List Ending :=
  (match c.config with
    | .search => []
    | .skip => [.skip]
    | .file path => [.file path]) ++ c.givenSettings.map .separate

/-- The way of writing in which every flag is a bundle of its own, the values are the next
arguments, and the story stands at the end behind two hyphens. -/
def plainly (c : CommandLine) : Writing where
  parts := c.givenSwitches.map (.bundle [·] .plain) ++ c.givenEndings.map (.bundle [])
  last := some c.story

/-- A property of the endings that are written plainly. -/
theorem forall_mem_plainly {c : CommandLine} {P : Part → Prop}
    (hswitches : ∀ s, P (.bundle [s] .plain)) (hendings : ∀ e ∈ c.givenEndings, P (.bundle [] e)) :
    ∀ p ∈ c.plainly.parts, P p := by
  intro p hp
  rcases List.mem_append.1 hp with hp | hp
  · obtain ⟨s, -, rfl⟩ := List.mem_map.1 hp
    exact hswitches s
  · obtain ⟨e, he, rfl⟩ := List.mem_map.1 hp
    exact hendings e he

/-- What stands in the endings stands in the parts. -/
theorem filterMap_plainly {β : Type} {f : Ending → Option β} (hplain : f .plain = none)
    (c : CommandLine) :
    c.plainly.parts.filterMap (fun p => f p.ending) = c.givenEndings.filterMap f := by
  have hswitches : (c.givenSwitches.map (Part.bundle [·] .plain)).filterMap
      (fun p => f p.ending) = [] := by
    refine List.filterMap_eq_nil_iff.2 fun p hp => ?_
    obtain ⟨s, -, rfl⟩ := List.mem_map.1 hp
    exact hplain
  rw [plainly, List.filterMap_append, hswitches, List.nil_append, List.filterMap_map]
  rfl

/-- Written plainly, the settings are the same. -/
theorem settings_plainly (c : CommandLine) : c.plainly.settings = c.givenSettings := by
  rw [Writing.settings, filterMap_plainly (f := Ending.setting?) rfl, givenEndings,
    List.filterMap_append, List.filterMap_map]
  have hsettings : c.givenSettings.filterMap (Ending.setting? ∘ Ending.separate) =
      c.givenSettings := List.filterMap_some
  rw [hsettings]
  split <;> rfl

/-- Every command line whose seed has 64 bits and whose settings file has a name can be written. -/
theorem says_plainly (c : CommandLine) (hseed : ∀ n ∈ c.seed, n ≤ maxSeed)
    (hconfig : c.config ≠ .file "") : c.plainly.Says c where
  proper := by
    refine forall_mem_plainly (fun s => ⟨trivial, List.cons_ne_nil _ _⟩) fun e he => ?_
    rcases List.mem_append.1 he with he | he
    · split at he
      · cases he
      · obtain rfl := List.mem_singleton.1 he
        exact ⟨trivial, List.cons_ne_nil _ _⟩
      · next path hpath =>
        obtain rfl := List.mem_singleton.1 he
        refine ⟨?_, List.cons_ne_nil _ _⟩
        rintro rfl
        exact hconfig hpath
    · obtain ⟨s, hs, rfl⟩ := List.mem_map.1 he
      refine ⟨?_, List.cons_ne_nil _ _⟩
      cases s with
      | seed n =>
        refine hseed n ?_
        simpa [givenSettings] using hs
      | load | save => trivial
  config := by
    have hsettings : (c.givenSettings.map Ending.separate).filterMap Ending.config? = [] := by
      refine List.filterMap_eq_nil_iff.2 fun e he => ?_
      obtain ⟨s, -, rfl⟩ := List.mem_map.1 he
      rfl
    rw [filterMap_plainly (f := Ending.config?) rfl, givenEndings, List.filterMap_append, hsettings]
    split <;> next h => rw [h]; rfl
  seed := by
    rw [settings_plainly]
    obtain ⟨_, seed, load, save, _, _, _⟩ := c
    cases seed <;> cases load <;> cases save <;> rfl
  load := by
    rw [settings_plainly]
    obtain ⟨_, seed, load, save, _, _, _⟩ := c
    cases seed <;> cases load <;> cases save <;> rfl
  save := by
    rw [settings_plainly]
    obtain ⟨_, seed, load, save, _, _, _⟩ := c
    cases seed <;> cases load <;> cases save <;> rfl
  has := by
    intro s
    have hendings : (c.givenEndings.map (Part.bundle [])).any (·.switches.contains s) = false := by
      rw [List.any_map]
      exact List.any_eq_false.2 fun _ _ => Bool.false_ne_true
    rw [plainly, List.any_append, hendings, Bool.or_false]
    cases hq : c.has .quiet <;> cases hd : c.has .debug <;> cases s <;>
      simp only [givenSwitches, List.filter, hq, hd] <;> rfl
  story := by
    have hnone : c.plainly.parts.filterMap Part.story? = [] :=
      List.filterMap_eq_nil_iff.2 (forall_mem_plainly (fun _ => rfl) fun _ _ => rfl)
    rw [Writing.stories, hnone]
    rfl

/-! ## Reading what is written -/

/-- However a command line is written, it is read back; and it can be written, whatever it holds. -/
theorem read_however_written (c : CommandLine) (hseed : ∀ n ∈ c.seed, n ≤ maxSeed)
    (hconfig : c.config ≠ .file "") :
    (∃ w : Writing, w.Says c) ∧ ∀ w : Writing, w.Says c → read w.args = .ok c := by
  refine ⟨⟨c.plainly, says_plainly c hseed hconfig⟩, fun w h => ?_⟩
  rw [read_args w h.proper, h.finish_eq]

/-- A command line in which a bundle takes the next argument, which looks like a bundle, and in
which the story has to stand behind two hyphens. -/
theorem read_however_written_odd :
    read ["-ql", "-old.json", "-s42", "-dw", "", "-fmy.inkrc", "--", "-odd.ink"] =
      .ok { config := .file "my.inkrc", seed := some 42, load := some "-old.json",
            save := some "", quiet := true, debug := true, story := "-odd.ink" } := by
  let w : Writing := {
    parts := [.bundle [.quiet] (.separate (.load "-old.json")), .bundle [] (.attached (.seed 42)),
      .bundle [.debug] (.separate (.save "")), .bundle [] (.file "my.inkrc")]
    last := some "-odd.ink" }
  have hargs : w.args =
      ["-ql", "-old.json", "-s42", "-dw", "", "-fmy.inkrc", "--", "-odd.ink"] := by decide +kernel
  rw [← hargs]
  refine (read_however_written _ (by decide) (by decide)).2 w ?_
  exact ⟨by decide +kernel, by decide, by decide, by decide, by decide,
    fun s => by cases s <;> decide, by decide⟩

end Narrative.CommandLine
