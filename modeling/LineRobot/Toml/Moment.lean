import LineRobot.Number.Digits

/-! # Dates and times

A moment is a date, a time, or a date and a time of that day with or without an offset. Only the
spelling matters here: `Moment.isWritten` says whether a text spells an existing day and time. -/

namespace LineRobot.Toml.Moment

/-- The number written with exactly the given count of decimal digits, and what is left. -/
def number? (count : Nat) (text : List Char) : Option (Nat × List Char) :=
  let digits := text.take count
  if digits.length = count ∧ digits.all Char.isDigit = true then
    some (Digits.value 10 digits, text.drop count)
  else none

/-- What is left of a text that begins with the given character. -/
def after? (character : Char) : List Char → Option (List Char)
  | [] => none
  | first :: rest => if first = character then some rest else none

/-- Whether a year has a leap day. -/
def isLeapYear (year : Nat) : Bool :=
  year % 4 == 0 && (year % 100 != 0 || year % 400 == 0)

/-- The number of days of a month; zero if there is no such month. -/
def daysIn (year month : Nat) : Nat :=
  if month = 2 then if isLeapYear year then 29 else 28
  else if [4, 6, 9, 11].contains month then 30
  else if 1 ≤ month ∧ month ≤ 12 then 31
  else 0

/-- What is left after a date, year, month and day with a dash between them. -/
def afterDate? (text : List Char) : Option (List Char) := do
  let (year, text) ← number? 4 text
  let (month, text) ← number? 2 (← after? '-' text)
  let (day, text) ← number? 2 (← after? '-' text)
  if 1 ≤ day ∧ day ≤ daysIn year month then some text else none

/-- What is left after an optional fraction of a second. -/
def afterFraction? : List Char → Option (List Char)
  | '.' :: digit :: rest =>
    if digit.isDigit then some (rest.dropWhile Char.isDigit) else none
  | '.' :: [] => none
  | text => some text

/-- What is left after a time, hour, minute and second with a colon between them. A minute may have
a leap second. -/
def afterTime? (text : List Char) : Option (List Char) := do
  let (hour, text) ← number? 2 text
  let (minute, text) ← number? 2 (← after? ':' text)
  let (second, text) ← number? 2 (← after? ':' text)
  if hour < 24 ∧ minute < 60 ∧ second ≤ 60 then afterFraction? text else none

/-- Whether a text is empty or an offset: `Z`, or a sign, hours and minutes. -/
def isOffset : List Char → Bool
  | [] => true
  | [mark] => mark = 'Z' || mark = 'z'
  | sign :: text =>
    (sign = '+' || sign = '-') &&
      (do
        let (hour, text) ← number? 2 text
        let (minute, text) ← number? 2 (← after? ':' text)
        if hour < 24 ∧ minute < 60 then some text else none) == some []

/-- Whether a character may stand between a date and a time. -/
def isSeparator (character : Char) : Bool :=
  character = 'T' || character = 't' || character = ' '

/-- Whether a text spells a moment. -/
def isWritten (text : List Char) : Bool :=
  match afterDate? text with
  | some [] => true
  | some (separator :: time) => isSeparator separator && (afterTime? time).any isOffset
  | none => afterTime? text == some []

end LineRobot.Toml.Moment
