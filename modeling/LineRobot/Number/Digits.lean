/-! # Digits

The value of a row of digits in any base up to sixteen (`Digits.value`), and the digits of a natural
number in base ten (`Digits.decimal`). -/

namespace LineRobot.Digits

/-- The value of one decimal or hexadecimal digit. -/
def digitValue (digit : Char) : Nat :=
  if digit.isDigit then digit.toNat - '0'.toNat
  else if digit.isLower then digit.toNat - 'a'.toNat + 10
  else digit.toNat - 'A'.toNat + 10

/-- The value of a row of digits in the given base, the most significant digit first. -/
def value (base : Nat) (digits : List Char) : Nat :=
  digits.foldl (fun value digit => base * value + digitValue digit) 0

/-- A further digit shifts the value by one place. -/
theorem value_append_singleton (base : Nat) (digits : List Char) (digit : Char) :
    value base (digits ++ [digit]) = base * value base digits + digitValue digit := by
  simp [value]

/-- Whether a character is a hexadecimal digit. -/
def isHexadecimal (character : Char) : Bool :=
  character.isDigit || ('a' ≤ character && character ≤ 'f') ||
    ('A' ≤ character && character ≤ 'F')

/-- Whether a character is an octal digit. -/
def isOctal (character : Char) : Bool :=
  '0' ≤ character && character ≤ '7'

/-- Whether a character is a binary digit. -/
def isBinary (character : Char) : Bool :=
  character = '0' || character = '1'

/-- The decimal digits of a natural number. -/
def decimal (number : Nat) : List Char :=
  Nat.toDigits 10 number

end LineRobot.Digits
