import LineRobot.Toml.Value

/-! # Libraries for documents

A program that keeps its settings in documents leaves their syntax to a library. A `Library` reads
the table of a document, writes a document for a table, and says what a program gets for a value
that it has read: as which numbers, words, lists or records a value can be taken.

The settings are read and written with any library. What is documented of a library is stated as
laws, where they are needed. -/

namespace LineRobot.Toml

/-- A library that reads and writes documents. -/
structure Library where
  /-- The table of a document, or the reason why it cannot be read. -/
  read : String → Except String Table
  /-- A document for a table, or the reason why there is none. -/
  write : Table → Except String String
  /-- The double that a value is taken as. -/
  float? : Value → Option Float
  /-- The natural number of the given number of bits that a value is taken as. -/
  natural? (bits : Nat) : Value → Option Nat
  /-- The one of some words that a value is taken as. -/
  word? (words : List String) : Value → Option String
  /-- The list that a value is taken as. -/
  elements? : Value → Option (List Value)
  /-- The record of parts with the given names that a value is taken as. -/
  parts? (names : List String) : Value → Option Table

end LineRobot.Toml
