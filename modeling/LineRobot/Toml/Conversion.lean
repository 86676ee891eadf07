import LineRobot.Toml.Document
import LineRobot.Toml.Library
import LineRobot.Toml.Written

/-! # A library with the reader and the writer

`library` reads documents with `Table.ofText?` and writes them with `Table.written`, which never
fails. A value is taken as what it is; beyond that an integer stands for the nearest double, an
array for a record whose parts it gives in order, and a table with one empty value for a word. -/

namespace LineRobot.Toml

namespace Value

/-- A double; an integer of 64 bits, signed or not, stands for the nearest double. -/
def float? : Value → Option Float
  | .float number => some number
  | .integer number =>
    if -(Int.pow 2 63) ≤ number ∧ number < Int.pow 2 64 then
      some (Binary64.nearest (decide (number < 0)) number.natAbs 0)
    else none
  | _ => none

/-- A natural number of the given number of bits. -/
def natural? (bits : Nat) : Value → Option Nat
  | .integer (.ofNat number) => if number < Nat.pow 2 bits then some number else none
  | _ => none

/-- One of some words: a text, or a table with the word as the only name, which has an empty
value. -/
def word? (words : List String) : Value → Option String
  | .text word => words.find? (· = word)
  | .table [(word, .table [])] => words.find? (· = word)
  | .table [(word, .array [])] => words.find? (· = word)
  | _ => none

/-- The elements of an array. -/
def elements? : Value → Option (List Value)
  | .array elements => some elements
  | _ => none

/-- The values of the parts with the given names. A table gives them under these names, and the
numbers under its other names must be of a size that can be held. An array gives them in this order
and may have further elements, which are not looked at. A moment gives none. -/
def parts? (names : List String) : Value → Option Table
  | .table entries =>
    if entries.all fun (name, value) => names.contains name || value.isHeld then some entries
    else none
  | .array elements => some (names.zip elements)
  | .moment _ => some []
  | _ => none

end Value

/-- The library with this reader and this writer. -/
def library : Library where
  read text :=
    match Table.ofText? text with
    | some table => .ok table
    | none => .error "the document is malformed"
  write table := .ok table.written
  float? := Value.float?
  natural? := Value.natural?
  word? := Value.word?
  elements? := Value.elements?
  parts? := Value.parts?

end LineRobot.Toml
