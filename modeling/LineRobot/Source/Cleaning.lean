import LineRobot.Source.Comment
import LineRobot.Source.Cast

/-! # Cleaning a source text

Definitions are looked for in the text without comments and casts. Cleaning never fails. It deletes
characters but no line end, so that every character left keeps its line. `clean?` says whether it
has deleted any. -/

namespace LineRobot.Source

/-- A text without comments and casts. -/
def clean (text : List Char) : List Char :=
  withoutCasts (withoutComments text)

/-- A text without comments and casts, or nothing if there is nothing to remove. -/
def clean? (text : List Char) : Option (List Char) :=
  let uncommented := withoutComments? text
  match withoutCasts? (uncommented.getD text) with
  | some cleaned => some cleaned
  | none => uncommented

end LineRobot.Source
