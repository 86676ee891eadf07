import LineRobot.Number.Decimal
import LineRobot.Text.Blank
import LineRobot.Toml.Moment
import LineRobot.Toml.Value

/-! # Values written without quotes or brackets

Truth values, numbers and moments are written as a row of letters, digits and a few signs.
`Scalar.ofText?` says what such a row stands for. Digits may be parted by single underscores. An
integer has a base of ten, sixteen, eight or two; in base ten it has no leading zeros and may have a
sign. -/

namespace LineRobot.Toml.Scalar

/-- The digits of a row that may be parted by single underscores. -/
def digits? (isDigit : Char → Bool) (row : List Char) : Option (List Char) :=
  let parts := Text.splitAt '_' row
  if parts.all fun part => !part.isEmpty && part.all isDigit then some parts.flatten else none

/-- Whether a row is negative, and the row without its sign. -/
def splitSign : List Char → Bool × List Char
  | '-' :: row => (true, row)
  | '+' :: row => (false, row)
  | row => (false, row)

/-- The decimal digits of a whole number, which has no leading zeros. -/
def wholeDigits? (row : List Char) : Option (List Char) :=
  match digits? Char.isDigit row with
  | some ('0' :: _ :: _) => none
  | digits => digits

/-- The exponent of a float. -/
def exponent? (row : List Char) : Option Int :=
  let (negative, row) := splitSign row
  (digits? Char.isDigit row).map fun digits =>
    if negative then -(Digits.value 10 digits : Int) else Digits.value 10 digits

/-- Whether a character begins the exponent of a float. -/
def isExponentMark (character : Char) : Bool :=
  character = 'e' || character = 'E'

/-- A decimal number without a sign: whole digits, then a fraction, an exponent or both, or
neither. -/
def decimal? (row : List Char) : Option Decimal := do
  let mantissa := row.takeWhile fun character => !isExponentMark character
  let whole ← wholeDigits? (mantissa.takeWhile fun character => character != '.')
  let fraction ←
    match mantissa.dropWhile fun character => character != '.' with
    | [] => some []
    | _ :: fraction => digits? Char.isDigit fraction
  let exponent ←
    match row.dropWhile fun character => !isExponentMark character with
    | [] => some 0
    | _ :: exponent => exponent? exponent
  return ⟨Digits.value 10 (whole ++ fraction), exponent - fraction.length⟩

/-- The value of an integer without a sign, in a base other than ten if it begins with a mark of
that base. -/
def natural? : List Char → Option Nat
  | '0' :: 'x' :: row => (digits? Digits.isHexadecimal row).map (Digits.value 16)
  | '0' :: 'o' :: row => (digits? Digits.isOctal row).map (Digits.value 8)
  | '0' :: 'b' :: row => (digits? Digits.isBinary row).map (Digits.value 2)
  | row => (wholeDigits? row).map (Digits.value 10)

/-- The float that a row spells, given its decimal number without the sign. -/
def float (negative : Bool) (row : List Char) (decimal : Decimal) : Value :=
  let number := decimal.toFloat
  if number.isFinite then .float (if negative then -number else number)
  else .outsized (String.ofList (if negative then '-' :: row else row))

/-- The value of a row with a sign. -/
def signed? (negative : Bool) (row : List Char) : Option Value :=
  if row = ['i', 'n', 'f'] then
    some (.float (if negative then -(1.0 / 0.0) else 1.0 / 0.0))
  else if row = ['n', 'a', 'n'] then some (.float (0.0 / 0.0))
  else
    match (wholeDigits? row).map (Digits.value 10) with
    | some number => some (.integer (if negative then -(number : Int) else number))
    | none => (decimal? row).map (float negative row)

/-- The value that a row of characters stands for. -/
def ofText? (row : List Char) : Option Value :=
  if row = ['t', 'r', 'u', 'e'] then some (.boolean true)
  else if row = ['f', 'a', 'l', 's', 'e'] then some (.boolean false)
  else if Moment.isWritten row then some (.moment (String.ofList row))
  else
    match natural? row with
    | some number => some (.integer number)
    | none =>
      let (negative, row) := splitSign row
      signed? negative row

end LineRobot.Toml.Scalar
