import LineRobot.Number.Digits
import LineRobot.Text.Parsed

/-! # Quoted texts

A text is written between quotes of one of two kinds: in a basic text a backslash begins an escape
sequence, in a literal text every character stands for itself. A text between single quotes is on
one line; one between triple quotes may span lines, and a line end right after the opening is no
part of it.

Reading takes two steps: `line` and `block` find the closing quotes, and `decode` gives what the
characters between them stand for. `encode` writes a text for basic quotes, and decoding gives it
back (`decode_encode`). -/

namespace LineRobot.Toml

/-- The kinds of quotes. -/
inductive Quote where
  /-- Double quotes, with escape sequences. -/
  | basic
  /-- Single quotes, without. -/
  | literal
deriving DecidableEq, Repr

/-- The character of a kind of quotes. -/
def Quote.mark : Quote → Char
  | basic => '"'
  | literal => '\''

/-- The kind of quotes that a character belongs to. -/
def Quote.ofMark? : Char → Option Quote
  | '"' => some basic
  | '\'' => some literal
  | _ => none

/-- Whether a character may stand in a text or a comment: every character but the control
characters, of which only the tab is allowed. -/
def isPlain (character : Char) : Bool :=
  character = '\t' || (0x20 ≤ character.toNat && character.toNat != 0x7f)

/-- Whether a character is a space or a tab. -/
def isSpace (character : Char) : Bool :=
  character = ' ' || character = '\t'

namespace Quoted

/-- The characters up to the closing quote on the same line. In a basic text the character behind a
backslash does not close it. -/
def line (quote : Quote) : (input : List Char) → Option (Parsed (List Char) input)
  | [] => none
  | [first] => if first = quote.mark then some ⟨[], [], by simp⟩ else none
  | first :: second :: rest =>
    if first = quote.mark then some ⟨[], second :: rest, by simp⟩
    else if !isPlain first then none
    else if quote = .basic ∧ first = '\\' then
      if isPlain second then
        (line quote rest).map fun body =>
          ((body.as (first :: second :: body.value)).behind second).behind first
      else none
    else
      (line quote (second :: rest)).map fun body => (body.as (first :: body.value)).behind first

/-- The characters up to three closing quotes. One or two further quotes belong to the text. -/
def block (quote : Quote) : (input : List Char) → Option (Parsed (List Char) input)
  | first :: second :: third :: rest =>
    if first = quote.mark ∧ second = quote.mark ∧ third = quote.mark then
      let further := (rest.takeWhile (· = quote.mark)).take 2
      some ⟨further, rest.drop further.length, by simp; omega⟩
    else if quote = .basic ∧ first = '\\' then
      (block quote (third :: rest)).map fun body =>
        ((body.as (first :: second :: body.value)).behind second).behind first
    else if isPlain first ∨ first = '\n' ∨ (first = '\r' ∧ second = '\n') then
      (block quote (second :: third :: rest)).map fun body =>
        (body.as (first :: body.value)).behind first
    else none
  | _ => none

/-- The character that a letter behind a backslash stands for. -/
def escaped? : Char → Option Char
  | 'b' => some '\u0008'
  | 't' => some '\t'
  | 'n' => some '\n'
  | 'f' => some '\u000c'
  | 'r' => some '\r'
  | '"' => some '"'
  | '\\' => some '\\'
  | _ => none

/-- The number of hexadecimal digits behind a letter that begins the code of a character. -/
def codeLength? : Char → Option Nat
  | 'u' => some 4
  | 'U' => some 8
  | _ => none

/-- The character whose code is written with exactly the given count of hexadecimal digits. -/
def coded? (count : Nat) (text : List Char) : Option Char :=
  let digits := text.take count
  let code := Digits.value 16 digits
  if digits.length = count ∧ digits.all Digits.isHexadecimal = true ∧ code.isValidChar then
    some (Char.ofNat code)
  else none

/-- Whether a text begins with a line end. -/
def startsWithLineEnd : List Char → Bool
  | '\n' :: _ => true
  | '\r' :: '\n' :: _ => true
  | _ => false

/-- A text without the line end it begins with. -/
def dropLineEnd : List Char → List Char
  | '\n' :: rest => rest
  | '\r' :: '\n' :: rest => rest
  | text => text

/-- Without a line end a text is not longer. -/
theorem length_dropLineEnd_le (text : List Char) : (dropLineEnd text).length ≤ text.length := by
  unfold dropLineEnd
  split
  · exact Nat.le_succ _
  · exact Nat.le_add_right _ 2
  · exact Nat.le_refl _

/-- A text without the blanks and line ends it begins with. -/
def dropBlankLines (text : List Char) : List Char :=
  text.dropWhile fun character => isSpace character || character = '\n' || character = '\r'

/-- Without blanks and line ends a text is not longer. -/
theorem length_dropBlankLines_le (text : List Char) :
    (dropBlankLines text).length ≤ text.length :=
  (List.dropWhile_sublist _).length_le

/-- The text that the characters between basic quotes stand for. A backslash at the end of a line
leaves out the line end and the blanks and line ends after it. -/
def decode : List Char → Option (List Char)
  | [] => some []
  | ['\\'] => none
  | '\\' :: letter :: rest =>
    match escaped? letter, codeLength? letter with
    | some character, _ => (decode rest).map (character :: ·)
    | none, some count =>
      match coded? count rest with
      | some character => (decode (rest.drop count)).map (character :: ·)
      | none => none
    | none, none =>
      if startsWithLineEnd ((letter :: rest).dropWhile isSpace) then
        decode (dropBlankLines (letter :: rest))
      else none
  | character :: rest => (decode rest).map (character :: ·)
termination_by text => text.length
decreasing_by
  all_goals first
    | simp; done
    | simp; omega
    | exact Nat.lt_succ_of_le (length_dropBlankLines_le _)

/-- What a character is written as between basic quotes. -/
def escape (character : Char) : List Char :=
  if character = '"' ∨ character = '\\' then ['\\', character]
  else if isPlain character then [character]
  else
    ['\\', 'u', '0', '0', Nat.digitChar (character.toNat / 16),
      Nat.digitChar (character.toNat % 16)]

/-- A text as it is written between basic quotes. -/
def encode (text : List Char) : List Char :=
  text.flatMap escape

/-- A code below 128 is the value of its four hexadecimal digits, the first two of which are
zero. -/
theorem value_digits_of_lt : ∀ code : Fin 128,
    let digits := ['0', '0', Nat.digitChar (code / 16), Nat.digitChar (code % 16)]
    digits.all Digits.isHexadecimal = true ∧ Digits.value 16 digits = code := by
  decide

/-- The code of a control character reads back as the character. -/
theorem coded?_control {character : Char} (control : isPlain character = false)
    (rest : List Char) :
    coded? 4 ('0' :: '0' :: Nat.digitChar (character.toNat / 16) ::
      Nat.digitChar (character.toNat % 16) :: rest) = some character := by
  have small : character.toNat < 128 := by
    simp [isPlain] at control
    omega
  obtain ⟨digits, value⟩ := value_digits_of_lt ⟨character.toNat, small⟩
  have code : Digits.value 16 (List.take 4 ('0' :: '0' :: Nat.digitChar (character.toNat / 16) ::
      Nat.digitChar (character.toNat % 16) :: rest)) = character.toNat := value
  have valid : (Digits.value 16 (List.take 4 ('0' :: '0' :: Nat.digitChar (character.toNat / 16) ::
      Nat.digitChar (character.toNat % 16) :: rest))).isValidChar := by
    rw [code]
    exact character.valid
  unfold coded?
  rw [if_pos ⟨rfl, digits, valid⟩, code, Char.ofNat_toNat]

/-- A character that is written as itself is read as itself. -/
theorem decode_cons_of_ne {character : Char} (different : character ≠ '\\') (rest : List Char) :
    decode (character :: rest) = (decode rest).map (character :: ·) := by
  rw [decode.eq_def]
  split <;> simp_all

/-- What is written for a character is read as the character. -/
theorem decode_escape_append (character : Char) (rest : List Char) :
    decode (escape character ++ rest) = (decode rest).map (character :: ·) := by
  unfold escape
  split
  case isTrue special =>
    rcases special with rfl | rfl <;> simp [decode, escaped?]
  case isFalse ordinary =>
    split
    case isTrue plain =>
      exact decode_cons_of_ne (fun same => ordinary (.inr same)) rest
    case isFalse control =>
      have read := coded?_control (Bool.eq_false_iff.2 control) rest
      simp [decode, escaped?, codeLength?, read]

/-- What is written for a text is read as the text. -/
theorem decode_encode (text : List Char) : decode (encode text) = some text := by
  induction text with
  | nil => simp [encode, decode]
  | cons character rest ih =>
    rw [encode, List.flatMap_cons, ← encode, decode_escape_append, ih]
    rfl

/-- The text that the characters between quotes stand for. -/
def content? (quote : Quote) (body : List Char) : Option String :=
  match quote with
  | .basic => (decode body).map String.ofList
  | .literal => some (String.ofList body)

/-- A text that begins with a single quote. -/
def readLine? : (input : List Char) → Option (Parsed String input)
  | [] => none
  | first :: rest => do
    let quote ← Quote.ofMark? first
    let body ← line quote rest
    let content ← content? quote body.value
    return (body.as content).behind first

/-- A text that begins with three quotes. -/
def readBlock? : (input : List Char) → Option (Parsed String input)
  | [] => none
  | first :: rest => do
    let quote ← Quote.ofMark? first
    let body ← block quote (dropLineEnd (rest.drop 2))
    let content ← content? quote body.value
    return ⟨content, body.rest, by
      have shorter := body.shorter
      have dropped := length_dropLineEnd_le (rest.drop 2)
      simp only [List.length_drop, List.length_cons] at *
      omega⟩

/-- Whether a text begins with three quotes of one kind. -/
def isBlock : List Char → Bool
  | first :: second :: third :: _ =>
    (Quote.ofMark? first).isSome && second = first && third = first
  | _ => false

/-- A text of either form. -/
def read? (input : List Char) : Option (Parsed String input) :=
  if isBlock input then readBlock? input else readLine? input

end Quoted

end LineRobot.Toml
