import LineRobot.Code.Program
import LineRobot.Machine.Fault
import LineRobot.Machine.Memory
import LineRobot.Machine.Value

/-! # The machine that runs a program

A `Machine` runs a program on a stack of frames, one for each call that has not been left, and on
one stack of operands that all frames share. A frame knows how many operands lay on the stack when
it was entered (`Frame.base`), and leaving it drops what lies above them. `Machine.resume` runs
until the program suspends itself, ends or faults; a suspended program goes on where it was, however
deep in calls. After the end and after a fault no frame is left, and resuming again only reports the
end.

`execute` is one instruction, and `run` fetches and executes instructions within a budget of
them. -/

namespace LineRobot

/-- Bounds that turn a runaway program into a fault. -/
structure Limits where
  /-- The number of instructions that may run without a suspension. -/
  instructions : Nat := 1000000
  /-- The number of frames that there may be, the entry function included. -/
  depth : Nat := 256
deriving DecidableEq, Repr

/-- One call of a function that has not been left. -/
structure Frame where
  /-- The number of the function. -/
  function : Nat
  /-- The index of the next instruction. -/
  counter : Nat
  /-- The locals. -/
  locals : Array Float
  /-- The number of operands on the stack when the function was entered. -/
  base : Nat

/-- A program that is running, suspended or over. -/
structure Machine where
  /-- The program. -/
  program : Program
  /-- The limits it runs under. -/
  limits : Limits
  /-- What it shares with the robot. -/
  memory : Memory
  /-- Its frames, the innermost first; none when it is over. -/
  frames : List Frame
  /-- The operands of all frames, the topmost first. -/
  stack : List Float

/-- How a program suspends itself. -/
inductive Suspension where
  /-- Until the next tick. -/
  | tick
  /-- For a number of milliseconds. -/
  | wait (duration : Float)
deriving DecidableEq, Repr

/-- How a resumed program stops. -/
inductive Outcome where
  /-- It suspends itself. -/
  | suspended (suspension : Suspension)
  /-- It has come to its end. -/
  | completed
  /-- It faults. -/
  | faulted (fault : Fault)
deriving DecidableEq, Repr

/-- What one instruction does to a machine. -/
inductive Turn where
  /-- The program goes on. -/
  | next (machine : Machine)
  /-- The program stops. -/
  | stop (outcome : Outcome) (machine : Machine)

namespace Frame

/-- The frame of a call: the arguments, given last one first, are its first locals, and the others
are zero. The given number of operands lies below it. -/
def enter (function : Nat) (code : Code) (arguments : List Float) (base : Nat) : Frame where
  function := function
  counter := 0
  locals :=
    (arguments.reverse ++ List.replicate (code.localCount - arguments.length) 0).toArray
  base := base

/-- The frame that goes on at the given index. -/
def jump (frame : Frame) (target : Nat) : Frame :=
  { frame with counter := target }

/-- The frame with another value in a local. -/
def setLocal (frame : Frame) (slot : Nat) (value : Float) : Frame :=
  { frame with locals := frame.locals.setIfInBounds slot value }

end Frame

namespace Machine

/-- A program before its first instruction. -/
def start (program : Program) (memory : Memory) (limits : Limits) : Machine :=
  ⟨program, limits, memory, [Frame.enter 0 program.entry [] 0], []⟩

/-- Whether a program is over. -/
def isFinished (machine : Machine) : Bool :=
  machine.frames.isEmpty

/-- The number of frames. -/
def depth (machine : Machine) : Nat :=
  machine.frames.length

/-- The place in the source of the instruction executed last, unless the program is over. -/
def position? (machine : Machine) : Option Position := do
  let frame ← machine.frames.head?
  let code ← machine.program.function? frame.function
  return code.positionAt (frame.counter - 1)

/-- The machine with other frames and operands. -/
def withFrames (machine : Machine) (frames : List Frame) (stack : List Float) : Machine :=
  { machine with frames := frames, stack := stack }

/-- The machine with another memory. -/
def withMemory (machine : Machine) (memory : Memory) : Machine :=
  { machine with memory := memory }

/-- The index of an array element that a value stands for. -/
def elementIndex (bank : Bank) (value : Float) : Except FaultCause (Fin bankSize) :=
  match Memory.index? value with
  | some index => .ok index
  | none => .error (.indexOutOfBounds bank value)

/-- The call of a function with the operands on top as arguments. -/
def call (machine : Machine) (frame : Frame) (callers : List Frame) (function count : Nat) :
    Except FaultCause Machine :=
  match machine.program.function? function with
  | none => .error .stackUnderflow
  | some code =>
    if count ≠ code.arity then
      .error (.argumentCountMismatch code.name code.arity count)
    else if machine.limits.depth ≤ callers.length + 1 then
      .error (.callDepthExceeded machine.limits.depth)
    else if machine.stack.length < count then
      .error .stackUnderflow
    else
      let arguments := machine.stack.take count
      let below := machine.stack.drop count
      .ok (machine.withFrames
        (Frame.enter function code arguments below.length :: frame :: callers) below)

/-- One instruction in the innermost frame, whose counter is already at the next one. -/
def execute (machine : Machine) (frame : Frame) (callers : List Frame)
    (instruction : Instruction) : Except FaultCause Turn :=
  let next (frame : Frame) (stack : List Float) : Except FaultCause Turn :=
    .ok (.next (machine.withFrames (frame :: callers) stack))
  match instruction, machine.stack with
  | .push value, stack => next frame (value :: stack)
  | .load slot, stack =>
    match frame.locals[slot]? with
    | some value => next frame (value :: stack)
    | none => .error .stackUnderflow
  | .store slot, value :: stack =>
    if slot < frame.locals.size then next (frame.setLocal slot value) (value :: stack)
    else .error .stackUnderflow
  | .constant constant, stack => next frame (machine.memory.constant constant :: stack)
  | .fetch bank, index :: stack => do
    let index ← elementIndex bank index
    next frame (machine.memory.element bank index :: stack)
  | .deposit, value :: index :: stack => do
    let index ← elementIndex .slots index
    return .next ((machine.withMemory (machine.memory.setSlot index value)).withFrames
      (frame :: callers) (value :: stack))
  | .change (.localSlot slot) direction moment, stack =>
    match frame.locals[slot]? with
    | some old =>
      let new := direction.apply old
      next (frame.setLocal slot new) (moment.choose old new :: stack)
    | none => .error .stackUnderflow
  | .change .slot direction moment, index :: stack => do
    let index ← elementIndex .slots index
    let old := machine.memory.element .slots index
    let new := direction.apply old
    return .next ((machine.withMemory (machine.memory.setSlot index new)).withFrames
      (frame :: callers) (moment.choose old new :: stack))
  | .unary operator, value :: stack => next frame (operator.apply value :: stack)
  | .binary operator, right :: left :: stack =>
    match operator.apply left right with
    | some value => next frame (value :: stack)
    | none => .error .divisionByZero
  | .jump target, stack => next (frame.jump target) stack
  | .jumpIfFalse target, value :: stack =>
    next (if Value.isTrue value then frame else frame.jump target) stack
  | .jumpIfTrue target, value :: stack =>
    next (if Value.isTrue value then frame.jump target else frame) stack
  | .pop, _ :: stack => next frame stack
  | .duplicate, value :: stack => next frame (value :: value :: stack)
  | .call function count, _ => do
    let machine ← call machine frame callers function count
    return .next machine
  | .giveBack, value :: stack =>
    let below := stack.drop (stack.length - frame.base)
    match callers with
    | [] => .ok (.stop .completed (machine.withFrames [] below))
    | caller :: others => .ok (.next (machine.withFrames (caller :: others) (value :: below)))
  | .motor, second :: first :: stack =>
    .ok (.next ((machine.withMemory (machine.memory.drive ⟨first, second⟩)).withFrames
      (frame :: callers) (0 :: stack)))
  | .tick, stack =>
    .ok (.stop (.suspended .tick) (machine.withFrames (frame :: callers) stack))
  | .wait, duration :: stack =>
    if duration.isFinite then
      .ok (.stop (.suspended (.wait duration)) (machine.withFrames (frame :: callers) stack))
    else .error (.invalidWait duration)
  | _, _ => .error .stackUnderflow

/-- What a machine has before it. -/
inductive Fetched where
  /-- Nothing: the program is over. -/
  | halted
  /-- A place without an instruction. -/
  | missing (position : Position)
  /-- An instruction, for the innermost frame, whose counter is moved on. -/
  | ready (frame : Frame) (callers : List Frame) (placed : Placed)

/-- The instruction that comes next. -/
def fetch (machine : Machine) : Fetched :=
  match machine.frames with
  | [] => .halted
  | frame :: callers =>
    match machine.program.function? frame.function with
    | none => .missing machine.program.entry.position
    | some code =>
      match code.body[frame.counter]? with
      | none => .missing code.position
      | some placed => .ready (frame.jump (frame.counter + 1)) callers placed

/-- The end of a program by a fault: no frame and no operand is left. -/
def fault (machine : Machine) (cause : FaultCause) (position : Position) : Outcome × Machine :=
  (.faulted ⟨cause, position⟩, machine.withFrames [] [])

/-- Instructions until the program stops, at most as many as the budget allows. -/
def run (machine : Machine) (budget : Nat) : Outcome × Machine :=
  match machine.fetch with
  | .halted => (.completed, machine)
  | .missing position => machine.fault .stackUnderflow position
  | .ready frame callers placed =>
    match budget with
    | 0 => machine.fault (.stepBudgetExceeded machine.limits.instructions) placed.position
    | budget + 1 =>
      match machine.execute frame callers placed.instruction with
      | .error cause => machine.fault cause placed.position
      | .ok (.stop outcome machine) => (outcome, machine)
      | .ok (.next machine) => machine.run budget

/-- The program goes on until it suspends itself, ends or faults. -/
def resume (machine : Machine) : Outcome × Machine :=
  machine.run machine.limits.instructions

end Machine

end LineRobot
