import LineRobot.Toml.Line

/-! # Writing documents

`Table.written` writes a table as a document. Of each table the values written in place come first,
one on a line; then follow its tables and its arrays of tables, each under a header and after an
empty line. -/

namespace LineRobot.Toml

/-- A text between basic quotes. -/
def quoted (text : String) : String :=
  "\"" ++ String.ofList (Quoted.encode text.toList) ++ "\""

/-- A name, between quotes if it needs them. -/
def nameWritten (name : String) : String :=
  if !name.isEmpty && name.toList.all Key.isBare then name else quoted name

/-- A float: its text with a point in it, or one of the words for the floats that are not finite. -/
def floatWritten (number : Float) : String :=
  if number.isNaN then "nan"
  else
    let text := Number.text number
    if number.isFinite && !text.toList.contains '.' then text ++ ".0" else text

mutual

/-- A value written in place. -/
def Value.written : Value → String
  | .text content => quoted content
  | .integer number => toString number
  | .float number => floatWritten number
  | .outsized spelling => spelling
  | .boolean truth => if truth then "true" else "false"
  | .moment spelling => spelling
  | .array elements => "[" ++ ", ".intercalate (Value.allWritten elements) ++ "]"
  | .table entries =>
    "\x7b " ++ ", ".intercalate (Value.entriesWritten entries) ++ " \x7d"

/-- Values written in place. -/
def Value.allWritten : List Value → List String
  | [] => []
  | value :: rest => value.written :: Value.allWritten rest

/-- Entries written in place. -/
def Value.entriesWritten : List (String × Value) → List String
  | [] => []
  | (name, value) :: rest =>
    (nameWritten name ++ " = " ++ value.written) :: Value.entriesWritten rest

end

/-- Whether a value is a table. -/
def Value.isTable : Value → Bool
  | .table _ => true
  | _ => false

/-- Whether a value is written under headers: a table, or an array of tables that is not empty. -/
def Value.hasHeader : Value → Bool
  | .table _ => true
  | .array elements => !elements.isEmpty && elements.all Value.isTable
  | _ => false

/-- The lines of the values of a table that are written in place. -/
def Table.ownLines (table : Table) : String :=
  String.join ((table.filter fun entry => !entry.2.hasHeader).map fun entry =>
    nameWritten entry.1 ++ " = " ++ entry.2.written ++ "\n")

/-- The names of a path with points between them. -/
def pathWritten (path : List String) : String :=
  ".".intercalate (path.map nameWritten)

mutual

/-- The blocks of the entries with headers in the table at a path. -/
def Table.blocks (path : List String) : List (String × Value) → List String
  | [] => []
  | (name, .table entries) :: rest =>
    ("[" ++ pathWritten (path ++ [name]) ++ "]\n" ++ Table.ownLines entries) ::
      Table.blocks (path ++ [name]) entries ++ Table.blocks path rest
  | (name, .array elements) :: rest =>
    (if (Value.array elements).hasHeader then Table.elementBlocks (path ++ [name]) elements
      else []) ++ Table.blocks path rest
  | _ :: rest => Table.blocks path rest

/-- The blocks of the tables of an array at a path. -/
def Table.elementBlocks (path : List String) : List Value → List String
  | [] => []
  | .table entries :: rest =>
    ("[[" ++ pathWritten path ++ "]]\n" ++ Table.ownLines entries) ::
      Table.blocks path entries ++ Table.elementBlocks path rest
  | _ :: rest => Table.elementBlocks path rest

end

/-- A table as a document. -/
def Table.written (table : Table) : String :=
  let own := Table.ownLines table
  "\n".intercalate ((if own.isEmpty then [] else [own]) ++ Table.blocks [] table)

end LineRobot.Toml
