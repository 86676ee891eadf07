import LineRobot.Text.Blank
import LineRobot.Token.Basic

/-! # Scanning a function body

`scan` cuts the text of a function body into tokens. The text is a sequence of pieces: layout
characters, comments and `#` lines, which are skipped, and tokens. `Piece.read` recognises the piece
that a text begins with and says how many characters it has, without knowing where it stands; `scan`
moves the position over the pieces, so the position of a token is that of its first character.

A scan gives the tokens and the place where the text ends. -/

namespace LineRobot

/-- Why a text cannot be cut into tokens. -/
inductive ScanCause where
  /-- A block comment is never closed. -/
  | unclosedComment
  /-- A string literal begins. -/
  | stringLiteral
  /-- A backslash in a character literal is followed by a character that it cannot escape. -/
  | unknownEscape (character : Char)
  /-- A character literal goes on after its character. -/
  | unclosedCharacter
  /-- The text ends inside a character literal. -/
  | endInCharacter
  /-- A hexadecimal literal has no digits or exceeds the signed 64-bit integers. -/
  | invalidHexadecimal (digits : String)
  /-- No token begins with the character. -/
  | unexpectedCharacter (character : Char)
deriving DecidableEq, Repr

/-- What is wrong with the text, in words. -/
def ScanCause.message : ScanCause → String
  | unclosedComment => "Unterminated block comment"
  | stringLiteral => "String literals are not supported"
  | unknownEscape character => "Unknown escape sequence: \\" ++ String.singleton character
  | unclosedCharacter => "Expected closing quote in character literal"
  | endInCharacter => "Unexpected end of input in character literal"
  | invalidHexadecimal digits => "Invalid hex literal: 0x" ++ digits
  | unexpectedCharacter character =>
    "Unexpected character: '" ++ String.singleton character ++ "'"

/-- Why and where a text cannot be cut into tokens. -/
structure ScanError where
  /-- The reason. -/
  cause : ScanCause
  /-- The place the reason refers to. -/
  position : Position
deriving DecidableEq, Repr

/-- The whole text of a scan error. -/
def ScanError.message (error : ScanError) : String :=
  "Lexer error at line " ++ toString error.position.line ++ ", column " ++
    toString error.position.column ++ ": " ++ error.cause.message

/-- The tokens of a body and the place where it ends. -/
structure Scanned where
  /-- The tokens, in order. -/
  tokens : List Token
  /-- The place after the last character. -/
  stop : Position
deriving DecidableEq, Repr

/-- What a text begins with: a token, or something to skip. -/
structure Piece where
  /-- The token, if the piece is one. -/
  kind : Option TokenKind
  /-- The number of characters of the piece after its first. -/
  length : Nat
deriving DecidableEq, Repr

/-- A piece cannot be read; the place to report is the given number of characters after its first
character. -/
structure PieceError where
  /-- The reason. -/
  cause : ScanCause
  /-- The distance of the place to report from the first character of the piece. -/
  offset : Nat
deriving DecidableEq, Repr

namespace Piece

/-- Whether a character may follow a number literal as a suffix; suffixes have no meaning. -/
def isNumberSuffix (character : Char) : Bool :=
  ['u', 'U', 'l', 'L', 'f', 'F'].contains character

/-- Characters to skip up to a line end and over it. -/
def lineLength (rest : List Char) : Nat :=
  let inLine := (rest.takeWhile fun character => character != '\n').length
  if inLine < rest.length then inLine + 1 else inLine

/-- The number of characters up to the first `*/` and over it. -/
def commentLength? : List Char → Option Nat
  | [] => none
  | '*' :: '/' :: _ => some 2
  | _ :: rest => (commentLength? rest).map (· + 1)

/-- The character that stands for an escape sequence. -/
def escaped? : Char → Option Char
  | 'n' => some '\n'
  | 't' => some '\t'
  | 'r' => some '\r'
  | '0' => some '\x00'
  | '\\' => some '\\'
  | '\'' => some '\''
  | _ => none

/-- The end of a character literal for the given character, of which `length` characters after the
opening quote have been read. -/
def closeCharacter (value : Char) (length : Nat) (rest : List Char) : Except PieceError Piece :=
  match rest with
  | '\'' :: _ => .ok ⟨some (.character value), length + 1⟩
  | [] => .error ⟨.unclosedCharacter, length + 1⟩
  | _ :: _ => .error ⟨.unclosedCharacter, length + 2⟩

/-- A character literal after its opening quote. -/
def readCharacter : List Char → Except PieceError Piece
  | [] => .error ⟨.endInCharacter, 1⟩
  | '\\' :: [] => .error ⟨.endInCharacter, 2⟩
  | '\\' :: character :: rest =>
    match escaped? character with
    | some value => closeCharacter value 2 rest
    | none => .error ⟨.unknownEscape character, 3⟩
  | character :: rest => closeCharacter character 1 rest

/-- A hexadecimal literal after `0x`. -/
def readHexadecimal (rest : List Char) : Except PieceError Piece :=
  let digits := rest.takeWhile Digits.isHexadecimal
  let suffix := (rest.dropWhile Digits.isHexadecimal).takeWhile isNumberSuffix
  let value := Digits.value 16 digits
  if digits = [] ∨ Nat.pow 2 63 ≤ value then
    .error ⟨.invalidHexadecimal (String.ofList digits), 0⟩
  else
    .ok ⟨some (.number (Float.ofNat value)), 1 + digits.length + suffix.length⟩

/-- The exponent that a text begins with and the number of its characters; there is none if no digit
follows the mark and its sign. -/
def readExponent (rest : List Char) : Int × Nat :=
  match rest with
  | mark :: after =>
    if mark = 'e' ∨ mark = 'E' then
      match after with
      | '-' :: digits =>
        let digits := digits.takeWhile Char.isDigit
        if digits = [] then (0, 0) else (-(Digits.value 10 digits : Int), 2 + digits.length)
      | '+' :: digits =>
        let digits := digits.takeWhile Char.isDigit
        if digits = [] then (0, 0) else (Digits.value 10 digits, 2 + digits.length)
      | digits =>
        let digits := digits.takeWhile Char.isDigit
        if digits = [] then (0, 0) else (Digits.value 10 digits, 1 + digits.length)
    else (0, 0)
  | [] => (0, 0)

/-- A decimal literal: digits, a point and digits, an exponent, suffixes. The literal begins with
the point if it has no whole digits. -/
def readDecimal (whole : List Char) (rest : List Char) : Piece :=
  let (fraction, point, rest) :=
    match rest with
    | '.' :: after => (after.takeWhile Char.isDigit, 1, after.dropWhile Char.isDigit)
    | _ => ([], 0, rest)
  let (exponent, exponentLength) := readExponent rest
  let suffix := (rest.drop exponentLength).takeWhile isNumberSuffix
  let decimal : Decimal := ⟨Digits.value 10 (whole ++ fraction), exponent - fraction.length⟩
  ⟨some (.number decimal.toFloat),
    whole.length + point + fraction.length + exponentLength + suffix.length - 1⟩

/-- A number literal that begins with the given digit. -/
def readNumber (first : Char) (rest : List Char) : Except PieceError Piece :=
  match first, rest with
  | '0', 'x' :: after => readHexadecimal after
  | '0', 'X' :: after => readHexadecimal after
  | first, rest =>
    .ok (readDecimal (first :: rest.takeWhile Char.isDigit) (rest.dropWhile Char.isDigit))

/-- A keyword or a name. -/
def readWord (first : Char) (rest : List Char) : Piece :=
  let tail := rest.takeWhile Text.isWordCharacter
  let word := String.ofList (first :: tail)
  ⟨some (match Keyword.ofSpelling? word with
    | some keyword => .keyword keyword
    | none => .name word), tail.length⟩

/-- A sign. -/
def readSign (first : Char) (rest : List Char) : Except PieceError Piece :=
  match Sign.read? first rest with
  | some (mark, length) => .ok ⟨some (.sign mark), length⟩
  | none => .error ⟨.unexpectedCharacter first, 0⟩

/-- The piece that begins with the given character. -/
def read (first : Char) (rest : List Char) : Except PieceError Piece :=
  if Text.isLayout first then .ok ⟨none, 0⟩
  else if first = '/' ∧ rest.head? = some '/' then .ok ⟨none, lineLength rest⟩
  else if first = '/' ∧ rest.head? = some '*' then
    match commentLength? (rest.drop 1) with
    | some length => .ok ⟨none, length + 1⟩
    | none => .error ⟨.unclosedComment, 0⟩
  else if first = '#' then .ok ⟨none, lineLength rest⟩
  else if first = '"' then .error ⟨.stringLiteral, 0⟩
  else if first = '\'' then readCharacter rest
  else if first.isDigit then readNumber first rest
  else if first = '.' ∧ rest.head?.any Char.isDigit then .ok (readDecimal [] (first :: rest))
  else if Text.isWordStart first then .ok (readWord first rest)
  else readSign first rest

end Piece

/-- The tokens of a text whose first character stands at the given place. -/
def scan (position : Position) : List Char → Except ScanError Scanned
  | [] => .ok ⟨[], position⟩
  | first :: rest =>
    match Piece.read first rest with
    | .error error => .error ⟨error.cause, position.after ((first :: rest).take error.offset)⟩
    | .ok piece =>
      match scan (position.after (first :: rest.take piece.length)) (rest.drop piece.length) with
      | .error error => .error error
      | .ok scanned =>
        .ok { scanned with
          tokens := (piece.kind.map fun kind => ⟨kind, position⟩).toList ++ scanned.tokens }
termination_by text => text.length
decreasing_by
  simp only [List.length_drop, List.length_cons]
  omega

end LineRobot
