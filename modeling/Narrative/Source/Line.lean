import Narrative.Source.Error
import Narrative.Content

/-!
# Lines of a source

The parts of the lines that make up a story: headers with parameters, choices and gathers with
their markers, lines with diverts, blocks and authoring comments. Nothing here depends on what was
read before.
-/

namespace Narrative

namespace Text

/-- Dropping characters makes a text no longer. -/
theorem length_dropWhile_le (p : Char → Bool) (cs : List Char) :
    (cs.dropWhile p).length ≤ cs.length :=
  (List.dropWhile_suffix p).length_le

/-- Trimming its beginning makes a text no longer. -/
theorem length_trimStart_le (cs : List Char) : (trimStart cs).length ≤ cs.length :=
  length_dropWhile_le ..

/-- Trimming both ends makes a text no longer. -/
theorem length_trim_le (cs : List Char) : (trim cs).length ≤ cs.length := by
  have h := length_dropWhile_le isBlank (trimStart cs).reverse
  have := length_trimStart_le cs
  simp only [List.length_reverse] at h
  simp only [trim, trimEnd, List.length_reverse]
  omega

/-- What stands behind a separator is shorter. -/
theorem length_lt_of_cut? {separator : Char} {cs before after : List Char}
    (h : cut? separator cs = some (before, after)) : after.length < cs.length := by
  fun_induction cut? separator cs generalizing before with
  | case1 => simp at h
  | case2 => simp_all
  | case3 c rest _ ih =>
    obtain ⟨⟨b, a⟩, hcut, heq⟩ := Option.map_eq_some_iff.1 h
    simp only [Prod.mk.injEq] at heq
    have := ih (heq.2 ▸ hcut)
    simp only [List.length_cons]
    omega

/-- Whether an arrow begins the text. -/
def startsWithArrow (cs : List Char) : Bool :=
  (after? ['-', '>'] cs).isSome

/-- The pieces of a text between its arrows; there is always at least one. -/
def splitArrows : List Char → List (List Char)
  | [] => [[]]
  | '-' :: '>' :: rest => [] :: splitArrows rest
  | c :: rest =>
    match splitArrows rest with
    | [] => [[c]]
    | piece :: pieces => (c :: piece) :: pieces

end Text

/-- The header of a section: its name and its parameters. -/
structure SectionHeader where
  /-- The name. -/
  name : List Char
  /-- The names of the parameters in order. -/
  params : List String

namespace SectionHeader

/-- Reads a name and, in parentheses, parameter names separated by commas. The list goes up to the
last closing parenthesis, and what follows it is ignored. -/
def read (cs : List Char) : Except SourceFault SectionHeader :=
  match Text.cut? '(' cs with
  | none => .ok ⟨Text.trim cs, []⟩
  | some (name, rest) =>
    match Text.lastCut? ')' rest with
    | none => .error .unclosedParams
    | some (inner, _) =>
      let params := ((Text.splitOn ',' inner).map Text.trim).filter (!·.isEmpty)
      .ok ⟨Text.trim name, params.map String.ofList⟩

/-- A header line without its equals signs. -/
def body (line : List Char) : List Char :=
  let isMark := fun c => c == '='
  Text.trim ((line.dropWhile isMark).reverse.dropWhile isMark).reverse

end SectionHeader

/-- Splits a line into what it says and its comment, both without surrounding blanks. -/
def splitComment (raw : List Char) : List Char × Option (List Char) :=
  let line := Text.trim raw
  match Text.cutAt? ['/', '/'] line with
  | some (code, comment) => (Text.trim code, some (Text.trim comment))
  | none => (line, none)

/-- The file that a line includes. -/
def included? (code : List Char) : Option String :=
  (Text.after? "INCLUDE ".toList code).map fun file => String.ofList (Text.trim file)

/-- The files that a source includes, in the order in which they are written. -/
def includedFiles (text : List Char) : List String :=
  (Text.lines text).filterMap fun line => included? (splitComment line).1

/-- Counts the markers that begin a line, possibly with blanks after each, and returns what follows
them. The hyphen of an arrow is no marker. -/
def stripMarkers (marker : Char) (line : List Char) : Nat × List Char :=
  match line with
  | [] => (0, [])
  | c :: rest =>
    if c = marker ∧ ¬(marker = '-' ∧ Text.startsWithArrow (c :: rest)) then
      let (count, rest) := stripMarkers marker (Text.trimStart rest)
      (count + 1, rest)
    else (0, c :: rest)
termination_by line.length
decreasing_by
  have := Text.length_trimStart_le rest
  simp only [List.length_cons]
  omega

/-- What a choice line says besides its markers. -/
structure ChoiceLine where
  /-- The label in parentheses. -/
  label : Option (List Char)
  /-- The conditions in braces, in order. -/
  conditions : List String
  /-- What is offered to the player. -/
  display : List Char
  /-- What is played when the choice is taken. -/
  body : List Char

namespace ChoiceLine

/-- Reads the label and the conditions in front of a choice, given the label read before, and
returns what follows them. A second label is part of the text. -/
def readGuards (label : Option (List Char)) (cs : List Char) :
    Except SourceFault (Option (List Char) × List String × List Char) :=
  match cs with
  | [] => .ok (label, [], [])
  | c :: rest =>
    if c = '(' ∧ label = none then
      match _cut : Text.cut? ')' rest with
      | none => .error .unclosedChoiceLabel
      | some (name, after) => readGuards (some (Text.trim name)) (Text.trimStart after)
    else if c = '\x7b' then
      match _cut : Text.cut? '\x7d' rest with
      | none => .error .unclosedCondition
      | some (condition, after) =>
        (readGuards label (Text.trimStart after)).map fun (label, conditions, text) =>
          (label, String.ofList (Text.trim condition) :: conditions, text)
    else .ok (label, [], c :: rest)
termination_by cs.length
decreasing_by
  all_goals
    have := Text.length_trimStart_le after
    have := Text.length_lt_of_cut? _cut
    simp only [List.length_cons]
    omega

/-- Cuts a text around its first bracketed part: from the first opening bracket that is closed on
its line to the last closing bracket of that line. -/
def cutBrackets? : List Char → Option (List Char × List Char)
  | [] => none
  | c :: rest =>
    let line := rest.takeWhile (· != '\n')
    match if c = '[' then Text.lastCut? ']' line else none with
    | some (_, after) => some ([], after ++ rest.dropWhile (· != '\n'))
    | none => (cutBrackets? rest).map fun (before, after) => (c :: before, after)

/-- The text without its bracketed part. -/
def withoutBrackets (cs : List Char) : List Char :=
  match cutBrackets? cs with
  | some (before, after) => before ++ after
  | none => cs

/-- What the player sees of a choice: the text up to the first closing bracket, without opening
brackets, and up to the first arrow. -/
def displayOf (cs : List Char) : List Char :=
  let shown := match Text.cut? ']' cs with
    | some (before, _) => before.filter (· != '[')
    | none => cs
  Text.trim (((Text.cutAt? ['-', '>'] shown).map (·.1)).getD shown)

/-- The characters dropped in front of the played text. -/
def isLeadingMark (c : Char) : Bool :=
  c == '*' || c == '+' || c == ' '

/-- What is played of a choice: the text without its bracketed part. -/
def bodyOf (cs : List Char) : List Char :=
  (Text.trim (withoutBrackets cs)).dropWhile isLeadingMark

/-- Reads a choice without its markers. -/
def read (cs : List Char) : Except SourceFault ChoiceLine :=
  (readGuards none cs).map fun (label, conditions, text) =>
    ⟨label, conditions, displayOf text, bodyOf text⟩

end ChoiceLine

/-- Reads the label of a gather without its markers, and returns what follows. -/
def readGatherLabel : List Char → Except SourceFault (Option (List Char) × List Char)
  | '(' :: rest =>
    match Text.cut? ')' rest with
    | none => .error .unclosedGatherLabel
    | some (name, after) => .ok (some (Text.trim name), Text.trimStart after)
  | cs => .ok (none, cs)

/-- The nodes that a line of text makes: the text in front of the first arrow, which is glued to
what follows, and a divert for each arrow with a target. -/
def textParts (cs : List Char) : List (List Char) :=
  match Text.splitArrows cs with
  | [] => []
  | [whole] => [whole]
  | head :: targets =>
    let text := if (Text.trim head).isEmpty then [] else [head ++ ['<', '>']]
    let targets := (targets.map Text.trim).filter (!·.isEmpty)
    text ++ targets.map fun target => ['-', '>', ' '] ++ target

/-- The mode and the first options of the block that a header opens, the header given without its
brace. -/
def readBlockHeader (header : List Char) : Except SourceFault (BlockMode × List BlockOption) :=
  if header.isEmpty then .ok (.conditional, [])
  else if header.getLast? = some ':' then
    let condition := Text.trim header.dropLast
    match BlockMode.ofKeyword? condition with
    | some mode => .ok (mode, [])
    | none => .ok (.conditional, [⟨some (String.ofList condition), []⟩])
  else .error .unendedBlockCondition

/-- The guard of an option of a conditional block, given the line without its hyphen; the word
`else` in any mix of upper and lower case stands for no guard. -/
def optionGuard (body : List Char) : Option String :=
  if body.getLast? = some ':' then
    let condition := Text.trim body.dropLast
    if condition.map Char.toLower = "else".toList then none else some (String.ofList condition)
  else none

/-- Whether a line ends in a brace that closes an enclosing block: the first brace without a
partner is the last character. -/
def closesBlock : (depth : Nat) → List Char → Bool
  | _, [] => false
  | depth, c :: rest =>
    if c = '\x7b' then closesBlock (depth + 1) rest
    else if c = '\x7d' then
      match depth with
      | 0 => rest.isEmpty
      | depth + 1 => closesBlock depth rest
    else closesBlock depth rest

/-- What an authoring comment says. -/
inductive Remark where
  /-- Declares the background picture of the current container. -/
  | background (name : String)
  /-- A comment node. -/
  | comment (once : Bool) (conditions : List String) (text : String)
  /-- Nothing that concerns the story. -/
  | silent

namespace Remark

/-- Reads the conditions in front of a comment and returns what follows them. -/
def readConditions (cs : List Char) : Except SourceFault (List String × List Char) :=
  match cs with
  | '\x7b' :: rest =>
    match _cut : Text.cut? '\x7d' rest with
    | none => .error .unclosedCommentCondition
    | some (condition, after) =>
      (readConditions (Text.trimStart after)).map fun (conditions, text) =>
        (String.ofList (Text.trim condition) :: conditions, text)
  | cs => .ok ([], cs)
termination_by cs.length
decreasing_by
  have := Text.length_trimStart_le after
  have := Text.length_lt_of_cut? _cut
  simp only [List.length_cons]
  omega

/-- The name of the picture that a comment declares. -/
def background? (cs : List Char) : Option (List Char) :=
  (Text.cutAt? "@img(".toList cs).map fun (_, rest) => Text.trim (rest.takeWhile (· != ')'))

/-- Reads a comment that is shown once or each time. -/
def readComment (once : Bool) (cs : List Char) : Except SourceFault Remark :=
  (readConditions (Text.trim cs)).map fun (conditions, text) =>
    .comment once conditions (String.ofList text)

/-- Reads the text behind the two slashes. -/
def read (cs : List Char) : Except SourceFault Remark :=
  match background? cs, Text.after? ['@', '*'] cs, Text.after? ['@', '+'] cs with
  | some name, _, _ => .ok (.background (String.ofList name))
  | none, some rest, _ => readComment true rest
  | none, none, some rest => readComment false rest
  | none, none, none => .ok .silent

end Remark

end Narrative
