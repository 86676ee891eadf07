import LineRobot.Expression.Basic
import LineRobot.Vocabulary

/-! # Instructions

The instructions of a stack machine. Operands live on a stack and variables in numbered locals; a
jump names the index of an instruction of the same function. Suspension is an instruction
(`Instruction.isSuspension`), so that a suspended program is no more than the places it has reached.

`Code` is the code of one function. Each instruction stands with the place in the source that it
comes from, so the two cannot get out of step. -/

namespace LineRobot

/-- What goes up or down by one. -/
inductive Cell where
  /-- The local with the given number. -/
  | localSlot (slot : Nat)
  /-- The variable slot whose index is on the stack. -/
  | slot
deriving DecidableEq, Repr

/-- An instruction. -/
inductive Instruction where
  /-- Push a number. -/
  | push (value : Float)
  /-- Push a local. -/
  | load (slot : Nat)
  /-- Set a local to the operand on top, which stays. -/
  | store (slot : Nat)
  /-- Push a constant of the robot. -/
  | constant (constant : Constant)
  /-- Replace an index on top by the element of an array. -/
  | fetch (bank : Bank)
  /-- Pop a value and an index, set that variable slot and push the value. -/
  | deposit
  /-- Change a variable by one and push its value at the given moment. -/
  | change (cell : Cell) (direction : Direction) (moment : Moment)
  /-- Apply an operator to the operand on top. -/
  | unary (operator : UnaryOperator)
  /-- Apply an operator to the two operands on top. -/
  | binary (operator : Operator)
  /-- Go on at the given index. -/
  | jump (target : Nat)
  /-- Pop, and go on at the given index if the operand is not true. -/
  | jumpIfFalse (target : Nat)
  /-- Pop, and go on at the given index if the operand is true. -/
  | jumpIfTrue (target : Nat)
  /-- Drop the operand on top. -/
  | pop
  /-- Push the operand on top once more. -/
  | duplicate
  /-- Call a function with the given number of operands as its arguments. -/
  | call (function count : Nat)
  /-- Leave the function with the operand on top as its value. -/
  | giveBack
  /-- Set the motors to the two operands on top and push zero. -/
  | motor
  /-- Suspend until the next tick. -/
  | tick
  /-- Pop a duration and suspend for it. -/
  | wait
deriving DecidableEq, Repr

namespace Instruction

/-- Whether an instruction suspends the program. -/
def isSuspension : Instruction → Bool
  | tick => true
  | wait => true
  | _ => false

/-- The same instruction with another index to go on at, if it is a jump. -/
def retarget (target : Nat) : Instruction → Instruction
  | jump _ => jump target
  | jumpIfFalse _ => jumpIfFalse target
  | jumpIfTrue _ => jumpIfTrue target
  | instruction => instruction

end Instruction

/-- An instruction and the place in the source that it comes from. -/
structure Placed where
  /-- The instruction. -/
  instruction : Instruction
  /-- The place. -/
  position : Position
deriving DecidableEq, Repr

/-- The code of one function. -/
structure Code where
  /-- The name of the function. -/
  name : String
  /-- The number of its parameters, which are its first locals. -/
  arity : Nat
  /-- The number of its locals. -/
  localCount : Nat
  /-- Its instructions. -/
  body : Array Placed
  /-- The place of its name. -/
  position : Position
deriving DecidableEq, Repr

namespace Code

/-- A function without instructions, whose locals are its parameters. -/
def empty (name : String) (arity : Nat) (position : Position) : Code :=
  ⟨name, arity, arity, #[], position⟩

/-- The index that the next instruction will have. -/
def size (code : Code) : Nat :=
  code.body.size

/-- The code with an instruction added at the end. -/
def emit (code : Code) (instruction : Instruction) (position : Position) : Code :=
  { code with body := code.body.push ⟨instruction, position⟩ }

/-- The code in which the jump at the given index goes on at the given target. -/
def retarget (code : Code) (index target : Nat) : Code :=
  { code with
    body := code.body.modify index fun placed =>
      { placed with instruction := placed.instruction.retarget target } }

/-- The place that the instruction at an index comes from, or the place of the function. -/
def positionAt (code : Code) (index : Nat) : Position :=
  match code.body[index]? with
  | some placed => placed.position
  | none => code.position

/-- The number of instructions that suspend the program. -/
def suspensionPoints (code : Code) : Nat :=
  code.body.countP fun placed => placed.instruction.isSuspension

end Code

end LineRobot
