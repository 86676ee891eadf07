/-! # Removing casts

A cast is written as upper-case ASCII letters in parentheses. `withoutCasts` deletes every such
group of a text except `(TRUE)`, which stands for the constant. The text is read once from left to
right: a group that only a deletion brings together stays.

`withoutCasts?` also says whether there was anything to remove: it begins a copy of the text at the
first cast and extends it at each other one. -/

namespace LineRobot.Source

/-- The word that, in parentheses, is not a cast. -/
def keptGroup : List Char := "TRUE".toList

/-- The text after the cast that the given text begins with, once its opening parenthesis has been
read. -/
def afterCast? (text : List Char) : Option (List Char) :=
  let word := text.takeWhile Char.isUpper
  match text.dropWhile Char.isUpper with
  | ')' :: after => if word = [] ∨ word = keptGroup then none else some after
  | _ => none

/-- What comes after a cast is shorter than the text. -/
theorem length_of_afterCast? {text after : List Char} (cast : afterCast? text = some after) :
    after.length < text.length := by
  have shorter := (List.dropWhile_sublist Char.isUpper (l := text)).length_le
  simp only [afterCast?] at cast
  split at cast
  · split at cast
    · simp at cast
    · rename_i rest split _
      simp only [Option.some.injEq] at cast
      subst cast
      rw [split, List.length_cons] at shorter
      omega
  · simp at cast

/-- A text without its casts. -/
def withoutCasts : List Char → List Char
  | [] => []
  | character :: rest =>
    if character = '(' then
      match cast : afterCast? rest with
      | some after =>
        have := length_of_afterCast? cast
        withoutCasts after
      | none => character :: withoutCasts rest
    else
      character :: withoutCasts rest
termination_by text => text.length

/-- The copy of a text without its casts, if there is one. So far `copied` has been made, and since
the last cast `pending` has been read, the latest character first. -/
def copyWithoutCasts (copied : Option (List Char)) (pending : List Char) :
    List Char → Option (List Char)
  | [] => copied.map (· ++ pending.reverse)
  | character :: rest =>
    if character = '(' then
      match cast : afterCast? rest with
      | some after =>
        have := length_of_afterCast? cast
        copyWithoutCasts (some (copied.getD [] ++ pending.reverse)) [] after
      | none => copyWithoutCasts copied (character :: pending) rest
    else
      copyWithoutCasts copied (character :: pending) rest
termination_by text => text.length

/-- A text without its casts, or nothing if it has none. -/
def withoutCasts? (text : List Char) : Option (List Char) :=
  copyWithoutCasts none [] text

end LineRobot.Source
