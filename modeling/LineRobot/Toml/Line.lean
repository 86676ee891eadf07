import LineRobot.Toml.Draft
import LineRobot.Toml.Quoted
import LineRobot.Toml.Scalar

/-! # Lines of a document

A line with content writes a value under a dotted name, or is a header. `Line.read?` reads it from
the front of a text; values, which may span lines when they are arrays or texts, are read by
`Value.read?`. Blanks and comments after a line are left to the reader of the document. -/

namespace LineRobot.Toml

/-- A line with content. -/
inductive Line where
  /-- A value written under a name. -/
  | entry (key : Key) (value : Value)
  /-- The header of a table. -/
  | table (key : Key)
  /-- The header of a table that is an element of an array. -/
  | element (key : Key)

/-- The depth to which a value may be nested: the number of brackets that may be open at once, and
the number of parts of a dotted name. -/
def maxDepth : Nat := 80

/-- A text without the blanks it begins with. -/
def dropSpaces (text : List Char) : List Char :=
  text.dropWhile isSpace

/-- Without blanks a text is not longer. -/
theorem length_dropSpaces_le (text : List Char) : (dropSpaces text).length ≤ text.length :=
  (List.dropWhile_sublist _).length_le

grind_pattern length_dropSpaces_le => dropSpaces text

/-- A text without the blanks, line ends and comments it begins with. -/
def dropLayout : List Char → List Char
  | [] => []
  | '\r' :: '\n' :: rest => dropLayout rest
  | first :: rest =>
    if isSpace first ∨ first = '\n' then dropLayout rest
    else if first = '#' then dropLayout (rest.dropWhile isPlain)
    else first :: rest
termination_by text => text.length
decreasing_by
  · simp only [List.length_cons]
    omega
  · exact Nat.lt_succ_self _
  · exact Nat.lt_succ_of_le (List.dropWhile_sublist _).length_le

/-- Without blanks, line ends and comments a text is not longer. -/
theorem length_dropLayout_le (text : List Char) : (dropLayout text).length ≤ text.length := by
  fun_induction dropLayout text with
  | case1 => exact Nat.le_refl _
  | case2 rest ih => exact Nat.le_trans ih (Nat.le_add_right _ 2)
  | case3 first rest _ _ ih => exact Nat.le_succ_of_le ih
  | case4 first rest _ ih =>
    exact Nat.le_succ_of_le (Nat.le_trans ih (List.dropWhile_sublist _).length_le)
  | case5 => exact Nat.le_refl _

grind_pattern length_dropLayout_le => dropLayout text

/-- What is left after a character, passing over blanks in front of it. -/
def afterMark? (mark : Char) (text : List Char) : Option (Parsed Unit text) :=
  match found : dropSpaces text with
  | [] => none
  | first :: rest => if first = mark then some ⟨(), rest, by grind⟩ else none

namespace Key

/-- Whether a character may stand in a name without quotes. -/
def isBare (character : Char) : Bool :=
  character.isAlphanum || character = '-' || character = '_'

/-- One part of a dotted name, with or without quotes. -/
def readPart? : (input : List Char) → Option (Parsed String input)
  | [] => none
  | first :: rest =>
    if isBare first then
      some ⟨String.ofList (first :: rest.takeWhile isBare), rest.dropWhile isBare,
        Nat.lt_succ_of_le (List.dropWhile_sublist _).length_le⟩
    else Quoted.readLine? (first :: rest)

/-- The parts of a dotted name. Blanks may stand around the dots. -/
def readParts? (input : List Char) : Option (Parsed Key input) := do
  let first ← readPart? input
  match afterMark? '.' first.rest with
  | none => return first.as ⟨[], first.value⟩
  | some mark =>
    let others ← readParts? (dropSpaces mark.rest)
    return ⟨⟨first.value :: others.value.parents, others.value.name⟩, others.rest, by grind⟩
termination_by input.length
decreasing_by grind

/-- A dotted name. It may pass through fewer than `maxDepth` tables. -/
def read? (input : List Char) : Option (Parsed Key input) :=
  (readParts? input).filter fun key => decide (key.value.parents.length < maxDepth)

end Key

namespace Scalar

/-- Whether a character may stand in a value without quotes. -/
def isWritten (character : Char) : Bool :=
  character.isAlphanum || ['+', '-', '_', '.', ':'].contains character

/-- The row of characters that a text begins with. A space belongs to it between a date and a
time. -/
def row (text : List Char) : List Char :=
  let first := text.takeWhile isWritten
  match text.drop first.length with
  | ' ' :: digit :: rest =>
    if Moment.afterDate? first = some [] ∧ digit.isDigit = true then
      first ++ ' ' :: (digit :: rest).takeWhile isWritten
    else first
  | _ => first

/-- A value without quotes or brackets. -/
def read? (input : List Char) : Option (Parsed Value input) :=
  let row := row input
  if nonempty : 0 < row.length ∧ 0 < input.length then
    (ofText? row).map fun value =>
      ⟨value, input.drop row.length, by simp only [List.length_drop]; omega⟩
  else none

end Scalar

namespace Value

mutual

/-- A value. `depth` is the number of brackets that may still open within one another. -/
def read? (depth : Nat) (input : List Char) : Option (Parsed Value input) :=
  match depth, input with
  | depth + 1, '[' :: rest => do
    let elements ← readElements? depth rest
    return (elements.as (.array elements.value)).behind '['
  | depth + 1, '{' :: rest =>
    match afterMark? '}' rest with
    | some close => some ((close.as (.table [])).behind '{')
    | none => do
      let pairs ← readPairs? depth rest
      let entries ← Table.ofPairs? pairs.value
      return (pairs.as (.table entries)).behind '{'
  | _, input =>
    match Quoted.read? input with
    | some content => some (content.as (.text content.value))
    | none => Scalar.read? input
termination_by 4 * input.length
decreasing_by all_goals grind

/-- The elements of an array, from the start of one of them or from the closing bracket. -/
def readElements? (depth : Nat) (input : List Char) : Option (Parsed (List Value) input) :=
  match start : dropLayout input with
  | ']' :: rest => some ⟨[], rest, by grind⟩
  | element => do
    let first ← read? depth element
    match next : dropLayout first.rest with
    | ',' :: rest =>
      let others ← readElements? depth rest
      return ⟨first.value :: others.value, others.rest, by grind⟩
    | ']' :: rest => return ⟨[first.value], rest, by grind⟩
    | _ => none
termination_by 4 * input.length + 1
decreasing_by all_goals grind

/-- The names and values of a table in braces, from the start of one of them. -/
def readPairs? (depth : Nat) (input : List Char) : Option (Parsed (List (Key × Value)) input) := do
  let first ← readPair? depth (dropSpaces input)
  match next : dropSpaces first.rest with
  | ',' :: rest =>
    let others ← readPairs? depth rest
    return ⟨first.value :: others.value, others.rest, by grind⟩
  | '}' :: rest => return ⟨[first.value], rest, by grind⟩
  | _ => none
termination_by 4 * input.length + 2
decreasing_by all_goals grind

/-- A name, an equals sign and a value. -/
def readPair? (depth : Nat) (input : List Char) : Option (Parsed (Key × Value) input) := do
  let key ← Key.read? input
  let equals ← afterMark? '=' key.rest
  let value ← read? depth (dropSpaces equals.rest)
  return ⟨(key.value, value.value), value.rest, by grind⟩
termination_by 4 * input.length + 1
decreasing_by all_goals grind

end

end Value

namespace Line

/-- A line with content. -/
def read? (input : List Char) : Option (Parsed Line input) :=
  match input with
  | '[' :: '[' :: rest => do
    let key ← Key.read? (dropSpaces rest)
    match next : dropSpaces key.rest with
    | ']' :: ']' :: rest => return ⟨.element key.value, rest, by grind⟩
    | _ => none
  | '[' :: rest => do
    let key ← Key.read? (dropSpaces rest)
    let close ← afterMark? ']' key.rest
    return ⟨.table key.value, close.rest, by grind⟩
  | input => do
    let pair ← Value.readPair? maxDepth input
    return pair.as (.entry pair.value.1 pair.value.2)

end Line

end LineRobot.Toml
