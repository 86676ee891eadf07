import LineRobot.Text.Position

/-! # Expressions

Expressions over double values. The type is open in how a call names what it calls: a parsed
expression names it by the word in the text, `Expression String`; later stages put the thing meant
in its place. Every node ends with the place that a message about it refers to. -/

namespace LineRobot

/-- Operators that combine the values of both operands. -/
inductive Operator where
  | add | subtract | multiply | divide | modulo
  | equal | unequal | less | lessEqual | greater | greaterEqual
  | bitAnd | bitOr | bitXor | shiftLeft | shiftRight
deriving DecidableEq, Repr

/-- Operators that need their right operand only if the left one does not decide. -/
inductive Connective where
  /-- Both operands are true. -/
  | and
  /-- At least one operand is true. -/
  | or
deriving DecidableEq, Repr

/-- Operators on one value. -/
inductive UnaryOperator where
  /-- The value with its sign changed. -/
  | negate
  /-- One for a value that is not true, zero for a true one. -/
  | not
  /-- The complement of the value as a 32-bit word. -/
  | complement
deriving DecidableEq, Repr

/-- Whether a variable goes up or down by one. -/
inductive Direction where
  /-- One more. -/
  | up
  /-- One less. -/
  | down
deriving DecidableEq, Repr

/-- Which value of a changed variable an expression has. -/
inductive Moment where
  /-- The value before the change. -/
  | before
  /-- The value after the change. -/
  | after
deriving DecidableEq, Repr

/-- An expression whose calls name what they call by a `Target`. -/
inductive Expression (Target : Type) where
  /-- A number. -/
  | number (value : Float) (position : Position)
  /-- A name that stands for a value. -/
  | name (text : String) (position : Position)
  /-- An operator between two operands. -/
  | binary (operator : Operator) (left right : Expression Target) (position : Position)
  /-- A connective between two operands. -/
  | logical (connective : Connective) (left right : Expression Target) (position : Position)
  /-- An operator before one operand. -/
  | unary (operator : UnaryOperator) (operand : Expression Target) (position : Position)
  /-- A variable changed by one; the expression has its value at the given moment. -/
  | change (direction : Direction) (moment : Moment) (operand : Expression Target)
      (position : Position)
  /-- One of two expressions, chosen by a condition. -/
  | conditional (condition whenTrue whenFalse : Expression Target) (position : Position)
  /-- An assignment, of the value alone or of the old value combined with it. -/
  | assign (compound : Option Operator) (target value : Expression Target) (position : Position)
  /-- A call. -/
  | call (target : Target) (arguments : List (Expression Target)) (position : Position)
  /-- An element of an array. -/
  | index (array index : Expression Target) (position : Position)
deriving Repr

/-- The place of an expression. -/
def Expression.position {Target : Type} : Expression Target → Position
  | number _ position => position
  | name _ position => position
  | binary _ _ _ position => position
  | logical _ _ _ position => position
  | unary _ _ position => position
  | change _ _ _ position => position
  | conditional _ _ _ position => position
  | assign _ _ _ position => position
  | call _ _ position => position
  | index _ _ position => position

end LineRobot
