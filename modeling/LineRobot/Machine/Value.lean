import LineRobot.Number.Binary64
import LineRobot.Expression.Basic

/-! # Values and operators

Every value is a double. A value is true if it is a number other than zero; comparisons give one or
zero. The bit operators work on 32-bit words, to which values are wrapped. Division and remainder by
zero have no value, and nothing else fails. -/

namespace LineRobot

namespace Value

/-- Whether a value counts as true. -/
def isTrue (value : Float) : Bool :=
  !(value == 0) && !value.isNaN

/-- One for true and zero for false. -/
def ofBool (truth : Bool) : Float :=
  if truth then 1 else 0

/-- A word as a value. -/
def ofWord (word : Int32) : Float :=
  Float.ofInt word.toInt

end Value

open Value Number

/-- The value of an operator on one value. -/
def UnaryOperator.apply (operator : UnaryOperator) (value : Float) : Float :=
  match operator with
  | negate => -value
  | not => ofBool (!isTrue value)
  | complement => ofWord (~~~(wrapped value))

/-- The value of an operator on two values; `none` for a division by zero. Shifts go by the right
word modulo 32, to the right with copies of the sign. -/
def Operator.apply (operator : Operator) (left right : Float) : Option Float :=
  match operator with
  | add => some (left + right)
  | subtract => some (left - right)
  | multiply => some (left * right)
  | divide => if right == 0 then none else some (left / right)
  | modulo => if right == 0 then none else some (remainder left right)
  | equal => some (ofBool (left == right))
  | unequal => some (ofBool (left != right))
  | less => some (ofBool (left < right))
  | lessEqual => some (ofBool (left ≤ right))
  | greater => some (ofBool (right < left))
  | greaterEqual => some (ofBool (right ≤ left))
  | bitAnd => some (ofWord (wrapped left &&& wrapped right))
  | bitOr => some (ofWord (wrapped left ||| wrapped right))
  | bitXor => some (ofWord (wrapped left ^^^ wrapped right))
  | shiftLeft => some (ofWord (wrapped left <<< wrapped right))
  | shiftRight => some (ofWord (wrapped left >>> wrapped right))

/-- The value after a change by one. -/
def Direction.apply (direction : Direction) (value : Float) : Float :=
  match direction with
  | up => value + 1
  | down => value + -1

/-- One of the values before and after a change. -/
def Moment.choose (moment : Moment) (old new : Float) : Float :=
  match moment with
  | before => old
  | after => new

end LineRobot
