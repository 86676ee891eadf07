/-! # Removing comments

`withoutComments` deletes the comments of a text. A line comment goes up to the line end, which
stays; a block comment leaves only its line ends behind, so that what follows keeps its line. A
block comment that is never closed is no comment: the text from its opening on stays as it is.

`withoutComments?` also says whether there was anything to remove. -/

namespace LineRobot.Source

/-- The text before the first `*/` and the text after it. -/
def splitAtCommentEnd : List Char → Option (List Char × List Char)
  | [] => none
  | '*' :: '/' :: rest => some ([], rest)
  | character :: rest =>
    (splitAtCommentEnd rest).map fun (inside, after) => (character :: inside, after)

/-- A text is what comes before its first `*/`, that mark, and what comes after. -/
theorem eq_of_splitAtCommentEnd {text inside after : List Char}
    (split : splitAtCommentEnd text = some (inside, after)) :
    text = inside ++ '*' :: '/' :: after := by
  induction text using splitAtCommentEnd.induct generalizing inside after with
  | case1 => simp [splitAtCommentEnd] at split
  | case2 rest =>
    simp only [splitAtCommentEnd, Option.some.injEq, Prod.mk.injEq] at split
    simp [← split.1, ← split.2]
  | case3 character rest unclosed ih =>
    rw [splitAtCommentEnd.eq_3 character rest unclosed, Option.map_eq_some_iff] at split
    obtain ⟨⟨before, tail⟩, found, same⟩ := split
    simp only [Prod.mk.injEq] at same
    simp [← same.1, ← same.2, ih found]

/-- What comes after a `*/` is shorter than the text. -/
theorem length_of_splitAtCommentEnd {text inside after : List Char}
    (split : splitAtCommentEnd text = some (inside, after)) : after.length < text.length := by
  rw [eq_of_splitAtCommentEnd split]
  simp only [List.length_append, List.length_cons]
  omega

/-- Whether a character does not end a line. -/
def isInLine (character : Char) : Bool :=
  character != '\n'

/-- Whether a comment opens where a text begins. -/
def opensComment : List Char → Bool
  | '/' :: '/' :: _ => true
  | '/' :: '*' :: _ => true
  | _ => false

/-- Whether a comment opens somewhere in a text. -/
def mentionsComment : List Char → Bool
  | [] => false
  | character :: rest => opensComment (character :: rest) || mentionsComment rest

/-- A text without its comments. -/
def withoutComments : List Char → List Char
  | [] => []
  | '/' :: '/' :: rest => withoutComments (rest.dropWhile isInLine)
  | '/' :: '*' :: rest =>
    match split : splitAtCommentEnd rest with
    | some (inside, after) =>
      have := length_of_splitAtCommentEnd split
      inside.filter (fun character => !isInLine character) ++ withoutComments after
    | none => '/' :: '*' :: rest
  | character :: rest => character :: withoutComments rest
termination_by text => text.length
decreasing_by
  · have := (List.dropWhile_sublist isInLine (l := rest)).length_le
    simp only [List.length_cons]
    omega
  · simp only [List.length_cons]
    omega
  · simp

/-- A text without its comments, or nothing if there is nothing to remove. A text in which no
comment opens is left alone; of any other, what is left is compared with the text. -/
def withoutComments? (text : List Char) : Option (List Char) :=
  if mentionsComment text then
    let left := withoutComments text
    if left = text then none else some left
  else
    none

end LineRobot.Source
