import LineRobot.Toml.Line

/-! # Documents

A document is a sequence of lines, each with content or without; blanks and a comment may follow the
content. Its values are written into the table of the last header above them, or into the outermost
table before the first header (`Line.addTo`). `Table.ofText?` gives the table of a whole
document. -/

namespace LineRobot.Toml

/-- A document that has been read up to some line. -/
structure Progress where
  /-- The outermost table so far. -/
  entries : Drafts := []
  /-- The path of the last header. -/
  header : List String := []

/-- The document with a further line. -/
def Line.addTo (progress : Progress) : Line → Option Progress
  | .entry key value =>
    (Drafts.alterAt (Drafts.insertKey key value) progress.header progress.entries).map
      fun entries =>
      { progress with entries }
  | .table key => (Drafts.openTable key progress.entries).map (Progress.mk · key.path)
  | .element key => (Drafts.openElement key progress.entries).map (Progress.mk · key.path)

/-- The table that lines make up. -/
def Table.ofLines? (lines : List Line) : Option Table :=
  (lines.foldlM Line.addTo {}).map fun progress => Drafts.finish progress.entries

/-- The lines with content of a text. `fresh` says whether a line begins here, apart from blanks;
only there may content stand. -/
def readLines? (fresh : Bool) : List Char → Option (List Line)
  | [] => some []
  | '\n' :: rest => readLines? true rest
  | '\r' :: '\n' :: rest => readLines? true rest
  | first :: rest =>
    if isSpace first then readLines? fresh rest
    else if first = '#' then readLines? false (rest.dropWhile isPlain)
    else if fresh then
      match Line.read? (first :: rest) with
      | some line => (readLines? false line.rest).map (line.value :: ·)
      | none => none
    else none
termination_by text => text.length
decreasing_by
  · exact Nat.lt_succ_self _
  · simp only [List.length_cons]
    omega
  · exact Nat.lt_succ_self _
  · exact Nat.lt_succ_of_le (List.dropWhile_sublist _).length_le
  · exact line.shorter

/-- A text without the byte order mark that may stand at its beginning. -/
def dropByteOrderMark : List Char → List Char
  | '\ufeff' :: rest => rest
  | text => text

/-- The table of a document. -/
def Table.ofText? (text : String) : Option Table :=
  (readLines? true (dropByteOrderMark text.toList)).bind Table.ofLines?

end LineRobot.Toml
