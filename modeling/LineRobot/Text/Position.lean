/-! # Places in a text

A `Position` names the line and the column at which a character stands. Both count from one, and a
column counts characters. `Position.after` moves a position over a piece of text; moving over two
pieces in a row is moving over their concatenation (`Position.after_append`), so positions can be
carried along while a text is cut into parts. -/

namespace LineRobot

/-- A place in a text: its line and its column, both counted from one. -/
structure Position where
  /-- The line, one more than the number of line ends before the place. -/
  line : Nat
  /-- The column, one more than the number of characters before the place on its line. -/
  column : Nat
deriving DecidableEq, Repr

namespace Position

/-- The first place of a text. -/
def start : Position := ⟨1, 1⟩

/-- The place just after a character that stands at the given place: a line end starts the next
line, every other character moves one column on. -/
def next (position : Position) (character : Char) : Position :=
  if character = '\n' then ⟨position.line + 1, 1⟩ else ⟨position.line, position.column + 1⟩

/-- The place just after a text that begins at the given place. -/
def after (position : Position) (text : List Char) : Position :=
  text.foldl next position

/-- Nothing to pass over leaves the place unchanged. -/
@[simp] theorem after_nil (position : Position) : position.after [] = position := rfl

/-- Passing over a text passes over its first character first. -/
@[simp] theorem after_cons (position : Position) (character : Char) (text : List Char) :
    position.after (character :: text) = (position.next character).after text := rfl

/-- Passing over two texts in a row is passing over their concatenation. -/
theorem after_append (position : Position) (first second : List Char) :
    position.after (first ++ second) = (position.after first).after second :=
  List.foldl_append

end Position

end LineRobot
