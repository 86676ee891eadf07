/-! # Blanks, words and trimming

Two notions of blank are used on program text. Headers and parameter lists are trimmed and split at
every character with the Unicode property `White_Space` (`isBlank`); function bodies are laid out
with the five ASCII layout characters only (`isLayout`). A word is made of ASCII letters, digits and
underscores (`isWordCharacter`). -/

namespace LineRobot.Text

/-- The characters with the Unicode property `White_Space`. -/
def blanks : List Char :=
  ['\u0009', '\u000a', '\u000b', '\u000c', '\u000d', '\u0020', '\u0085', '\u00a0', '\u1680',
    '\u2000', '\u2001', '\u2002', '\u2003', '\u2004', '\u2005', '\u2006', '\u2007', '\u2008',
    '\u2009', '\u200a', '\u2028', '\u2029', '\u202f', '\u205f', '\u3000']

/-- Whether a character has the Unicode property `White_Space`. -/
def isBlank (character : Char) : Bool :=
  blanks.contains character

/-- Whether a character only lays out a function body: space, tab, line feed, form feed or carriage
return. The vertical tab is not among them. -/
def isLayout (character : Char) : Bool :=
  character = ' ' || character = '\t' || character = '\n' || character = '\u000c' ||
    character = '\r'

/-- Every layout character is a blank. -/
theorem isBlank_of_isLayout {character : Char} (layout : isLayout character = true) :
    isBlank character = true := by
  simp only [isLayout, Bool.or_eq_true, decide_eq_true_eq] at layout
  rcases layout with (((rfl | rfl) | rfl) | rfl) | rfl <;> rfl

/-- Whether a character may occur in a word: an ASCII letter, an ASCII digit or an underscore. -/
def isWordCharacter (character : Char) : Bool :=
  character.isAlphanum || character = '_'

/-- Whether a character may begin a word: an ASCII letter or an underscore. -/
def isWordStart (character : Char) : Bool :=
  character.isAlpha || character = '_'

/-- A text without the blanks at its end. -/
def trimEnd (text : List Char) : List Char :=
  (text.reverse.dropWhile isBlank).reverse

/-- A text without the blanks at either end. -/
def trim (text : List Char) : List Char :=
  trimEnd (text.dropWhile isBlank)

/-- The last maximal run of characters that are not blank, empty if there is none. -/
def lastWord (text : List Char) : List Char :=
  ((text.reverse.dropWhile isBlank).takeWhile (fun character => !isBlank character)).reverse

/-- The parts of a text between the occurrences of a separator; there is always one more part than
separators. -/
def splitAt (separator : Char) : List Char → List (List Char)
  | [] => [[]]
  | character :: rest =>
    if character = separator then
      [] :: splitAt separator rest
    else
      match splitAt separator rest with
      | [] => [[character]]
      | part :: parts => (character :: part) :: parts

/-- Splitting never yields an empty list of parts. -/
theorem splitAt_ne_nil (separator : Char) (text : List Char) : splitAt separator text ≠ [] := by
  cases text with
  | nil => simp [splitAt]
  | cons character rest =>
    simp only [splitAt]
    split
    · simp
    · split <;> simp

/-- Writing the parts one after the other with the separator between them gives the text back. -/
theorem intercalate_splitAt (separator : Char) (text : List Char) :
    [separator].intercalate (splitAt separator text) = text := by
  induction text with
  | nil => rfl
  | cons character rest ih =>
    have nonempty := splitAt_ne_nil separator rest
    simp only [splitAt]
    split
    case isTrue h =>
      subst h
      match parts : splitAt character rest with
      | [] => exact absurd parts nonempty
      | part :: others =>
        rw [parts] at ih
        simpa [List.intercalate, List.intersperse] using ih
    case isFalse h =>
      match parts : splitAt separator rest with
      | [] => exact absurd parts nonempty
      | [part] => rw [parts] at ih; simpa [List.intercalate] using ih
      | part :: other :: others =>
        rw [parts] at ih
        simpa [List.intercalate, List.intersperse] using ih

end LineRobot.Text
