/-! # Values of TOML documents

A document is a table: names and their values. A value is a text, a number, a truth value, a moment,
an array or again a table. A table keeps its entries in the order in which they are written; the
order means nothing, so entries are looked up by name.

A document may write numbers of any size. Whether they can be held matters only to a reader that
takes them up: `Value.isHeld` says so of all numbers in a value. -/

namespace LineRobot.Toml

/-- A value of a document. -/
inductive Value where
  /-- A text. -/
  | text (content : String)
  /-- An integer. -/
  | integer (number : Int)
  /-- A number with a fraction or an exponent, an infinity, or no number. -/
  | float (number : Float)
  /-- A float greater in size than every double, as it is written. -/
  | outsized (spelling : String)
  /-- A truth value. -/
  | boolean (truth : Bool)
  /-- A date, a time or both, as it is written. -/
  | moment (spelling : String)
  /-- Values in order. -/
  | array (elements : List Value)
  /-- Names and their values. -/
  | table (entries : List (String × Value))
deriving Repr

mutual

/-- Whether all numbers in a value can be held: an integer in 128 bits, signed or not, and a float
in a double. -/
def Value.isHeld : Value → Bool
  | .integer number => decide (-(2 ^ 127) ≤ number ∧ number < 2 ^ 128)
  | .outsized _ => false
  | .array elements => Value.allHeld elements
  | .table entries => Value.entriesHeld entries
  | _ => true

/-- Whether all numbers in values can be held. -/
def Value.allHeld : List Value → Bool
  | [] => true
  | value :: rest => value.isHeld && Value.allHeld rest

/-- Whether all numbers in the values of entries can be held. -/
def Value.entriesHeld : List (String × Value) → Bool
  | [] => true
  | (_, value) :: rest => value.isHeld && Value.entriesHeld rest

end

/-- A table: names and their values. -/
abbrev Table : Type := List (String × Value)

/-- The value of a name in a table. -/
def Table.get? (table : Table) (name : String) : Option Value :=
  table.lookup name

/-- An empty table has no values. -/
@[simp] theorem Table.get?_nil (name : String) : Table.get? [] name = none := rfl

/-- The first entry gives the value of its name. -/
@[simp] theorem Table.get?_cons_self (name : String) (value : Value) (table : Table) :
    Table.get? ((name, value) :: table) name = some value := by
  simp [Table.get?]

/-- An entry does not matter for other names. -/
theorem Table.get?_cons_of_ne {name other : String} (different : name ≠ other) (value : Value)
    (table : Table) : Table.get? ((other, value) :: table) name = Table.get? table name := by
  simp [Table.get?, List.lookup_cons, beq_eq_false_iff_ne.2 different]

end LineRobot.Toml
