import LineRobot.Rejection
import LineRobot.Source.Header

/-! # Function definitions in a source

`Definition.all` finds the functions that a source defines. Braces are matched by counting, and each
outermost pair whose header fits is a definition; any other pair is passed over. An opening brace
that is never closed rejects the source.

`Definition.split` separates the entry function from the others, its subroutines. -/

namespace LineRobot

/-- A function as found in a source, its body still text. -/
structure Definition where
  /-- The name. -/
  name : String
  /-- The names of the parameters. -/
  parameters : List String
  /-- The text between the braces. -/
  body : List Char
  /-- The place of the first character of the body. -/
  bodyPosition : Position
  /-- The place of the name. -/
  position : Position
deriving DecidableEq, Repr

namespace Definition

/-- The text before a closing brace and the text after it. The brace is the one that closes a pair
opened before the text, of which `depth` more pairs have been opened inside. -/
def splitAtClosing : (depth : Nat) → List Char → Option (List Char × List Char)
  | _, [] => none
  | depth, character :: rest =>
    if character = '\x7b' then
      (splitAtClosing (depth + 1) rest).map fun (inside, after) => (character :: inside, after)
    else if character = '\x7d' then
      match depth with
      | 0 => some ([], rest)
      | outer + 1 =>
        (splitAtClosing outer rest).map fun (inside, after) => (character :: inside, after)
    else
      (splitAtClosing depth rest).map fun (inside, after) => (character :: inside, after)

/-- A text is what comes before the closing brace, the brace, and what comes after. -/
theorem eq_of_splitAtClosing {depth : Nat} {text inside after : List Char}
    (split : splitAtClosing depth text = some (inside, after)) :
    text = inside ++ '\x7d' :: after := by
  induction text generalizing depth inside after with
  | nil => simp [splitAtClosing] at split
  | cons character rest ih =>
    have step {other : Nat}
        (found : (splitAtClosing other rest).map
          (fun (inside, after) => (character :: inside, after)) = some (inside, after)) :
        character :: rest = inside ++ '\x7d' :: after := by
      rw [Option.map_eq_some_iff] at found
      obtain ⟨⟨before, tail⟩, found, same⟩ := found
      simp only [Prod.mk.injEq] at same
      rw [ih found, ← same.1, ← same.2, List.cons_append]
    unfold splitAtClosing at split
    split at split
    · exact step split
    · split at split
      · rename_i closing
        split at split
        · simp only [Option.some.injEq, Prod.mk.injEq] at split
          rw [← split.1, ← split.2, closing, List.nil_append]
        · exact step split
      · exact step split

/-- Whether a character does not open a brace. -/
def isBeforeBrace (character : Char) : Bool :=
  character != '\x7b'

/-- What comes after a pair of braces is shorter than the text the pair stands in. -/
theorem length_after_pair {text inner body rest : List Char} {brace : Char}
    (opened : text.dropWhile isBeforeBrace = brace :: inner)
    (closed : splitAtClosing 0 inner = some (body, rest)) : rest.length < text.length := by
  have outer := (List.dropWhile_sublist isBeforeBrace (l := text)).length_le
  have inside := congrArg List.length (eq_of_splitAtClosing closed)
  rw [opened] at outer
  simp only [List.length_append, List.length_cons] at outer inside
  omega

/-- The definitions in a text whose first character stands at the given place, in order. -/
def find (position : Position) (text : List Char) : Except Rejection (List Definition) :=
  let header := text.takeWhile isBeforeBrace
  match opened : text.dropWhile isBeforeBrace with
  | [] => .ok []
  | brace :: inner =>
    match closed : splitAtClosing 0 inner with
    | none => .error (.unclosedBrace (position.after header))
    | some (body, rest) =>
      have := length_after_pair opened closed
      let bodyPosition := position.after (header ++ [brace])
      let here : List Definition :=
        match Header.ofText? header with
        | none => []
        | some found =>
          [{ name := String.ofList found.name
             parameters := Header.parameterNames found.parameters
             body := body
             bodyPosition := bodyPosition
             position := position.after found.lead }]
      match find (bodyPosition.after (body ++ ['\x7d'])) rest with
      | .error rejection => .error rejection
      | .ok later => .ok (here ++ later)
termination_by text.length

/-- The definitions in a source, in order. -/
def all (text : List Char) : Except Rejection (List Definition) :=
  find .start text

/-- The first definition whose name has been defined before it. -/
def firstRepeated? : (earlier : List String) → List Definition → Option Definition
  | _, [] => none
  | earlier, definition :: later =>
    if earlier.contains definition.name then some definition
    else firstRepeated? (definition.name :: earlier) later

/-- The entry function and its subroutines in order. Every name must be defined once only, and the
entry function must be among them. -/
def split (definitions : List Definition) :
    Except Rejection (Definition × List Definition) :=
  match firstRepeated? [] definitions with
  | some definition => .error (.located (.definedTwice definition.name) definition.position)
  | none =>
    match definitions.find? fun definition => definition.name = Vocabulary.entry with
    | none => .error .missingEntry
    | some entry =>
      .ok (entry, definitions.filter fun definition => definition.name ≠ Vocabulary.entry)

end Definition

end LineRobot
