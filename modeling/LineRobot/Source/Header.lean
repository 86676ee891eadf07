import LineRobot.Text.Blank

/-! # Function headers

The text before an opening brace is the header of a function if it ends like
`type name ( parameters )`: a word, blanks, a word, and a parameter list without a closing
parenthesis inside. Whatever stands before the type is ignored. If several opening parentheses fit,
the leftmost begins the parameter list.

`parameterNames` reads the parameter list: of each parameter only the name is kept, its last word
without the first star. -/

namespace LineRobot

/-- A function header. -/
structure Header where
  /-- The text before the name. -/
  lead : List Char
  /-- The name. -/
  name : List Char
  /-- The text between the parentheses. -/
  parameters : List Char
deriving DecidableEq, Repr

namespace Header

open Text

/-- The name that a text ends with, blanks aside, and the text before it; the name must follow a
word and blanks. The text is given in reverse. -/
def nameAtEnd? (reversed : List Char) : Option (List Char × List Char) :=
  let trimmed := reversed.dropWhile isBlank
  let name := trimmed.takeWhile isWordCharacter
  let lead := trimmed.dropWhile isWordCharacter
  if name ≠ [] ∧ lead.head?.any isBlank ∧ (lead.dropWhile isBlank).head?.any isWordCharacter then
    some (lead.reverse, name.reverse)
  else
    none

/-- The header whose parameter list begins at the leftmost opening parenthesis that follows a type
and a name. The text before the part searched is given in reverse. -/
def search (reversed : List Char) : List Char → Option Header
  | [] => none
  | character :: rest =>
    let later := search (character :: reversed) rest
    if character = '(' then
      match nameAtEnd? reversed with
      | some (lead, name) => some ⟨lead, name, rest⟩
      | none => later
    else
      later

/-- The header that a text ends with, if there is one. -/
def ofText? (text : List Char) : Option Header :=
  match text.reverse.dropWhile isBlank with
  | ')' :: reversed =>
    let inParentheses (character : Char) : Bool := character != ')'
    search (reversed.dropWhile inParentheses) (reversed.takeWhile inParentheses).reverse
  | _ => none

/-- The names in a parameter list; none for an empty list and for `void`. -/
def parameterNames (parameters : List Char) : List String :=
  let trimmed := trim parameters
  if trimmed = [] ∨ trimmed = "void".toList then []
  else (splitAt ',' trimmed).map fun parameter => String.ofList ((lastWord parameter).erase '*')

end Header

end LineRobot
