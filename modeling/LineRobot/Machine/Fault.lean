import LineRobot.Number.Decimal
import LineRobot.Text.Position
import LineRobot.Vocabulary

/-! # Faults of a running program

A fault ends a program for good. `Fault.message` is the text that is shown. -/

namespace LineRobot

/-- Why a program cannot go on. -/
inductive FaultCause where
  /-- A division or remainder by zero. -/
  | divisionByZero
  /-- An index that is not a whole number below the size of the array. -/
  | indexOutOfBounds (bank : Bank) (index : Float)
  /-- A duration that is not finite, or too long to be waited for. -/
  | invalidWait (duration : Float)
  /-- More calls inside each other than allowed. -/
  | callDepthExceeded (limit : Nat)
  /-- More instructions without a suspension than allowed. -/
  | stepBudgetExceeded (limit : Nat)
  /-- A call with another number of arguments than the function has parameters. -/
  | argumentCountMismatch (function : String) (expected got : Nat)
  /-- A missing operand, local, instruction or function. -/
  | stackUnderflow
deriving DecidableEq, Repr

/-- Why a program cannot go on, and the place in its source that it had reached. -/
structure Fault where
  /-- The reason. -/
  cause : FaultCause
  /-- The place. -/
  position : Position
deriving DecidableEq, Repr

namespace Fault

/-- The place of a fault in words. -/
def placeText (fault : Fault) : String :=
  "line " ++ toString fault.position.line ++ ", column " ++ toString fault.position.column

/-- A fault in words. -/
def message (fault : Fault) : String :=
  match fault.cause with
  | .divisionByZero => "Division by zero at " ++ fault.placeText
  | .indexOutOfBounds bank index =>
    "Index " ++ Number.text index ++ " out of bounds for '" ++ bank.spelling ++ "' at " ++
      fault.placeText
  | .invalidWait duration =>
    "Invalid wait duration " ++ Number.text duration ++ " ms at " ++ fault.placeText
  | .callDepthExceeded limit =>
    "Call depth limit of " ++ toString limit ++ " exceeded at " ++ fault.placeText
  | .stepBudgetExceeded limit =>
    "Program ran " ++ toString limit ++ " operations without yielding (" ++ fault.placeText ++ ")"
  | .argumentCountMismatch function expected got =>
    "Function '" ++ function ++ "' expects " ++ toString expected ++ " argument(s), got " ++
      toString got ++ " at " ++ fault.placeText
  | .stackUnderflow => "Stack underflow at " ++ fault.placeText

end Fault

end LineRobot
