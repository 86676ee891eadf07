import LineRobot.Machine.Basic

/-! # A program driven by ticks

A `Task` gives a machine its turns. Every tick has a time, in nanoseconds, and resumes the program
at most once. A program that waits is not resumed before its deadline, which lies the duration of
the wait after the tick at which the wait began; a wait for no time at all ends with that tick. A
tick that comes late resumes the program once, not once for each tick missed. A program that has
completed or faulted is never resumed again. -/

namespace LineRobot

/-- How a task stands. -/
inductive TaskState where
  /-- The program has not begun. -/
  | idle
  /-- The program goes on with the next tick. -/
  | running
  /-- The program goes on with the first tick that is not before the deadline. -/
  | waiting (deadline : Nat)
  /-- The program has come to its end. -/
  | completed
  /-- The program has faulted. -/
  | faulted (fault : Fault)
deriving DecidableEq, Repr

namespace TaskState

/-- Whether a state is never left. -/
def isTerminal : TaskState → Bool
  | completed => true
  | faulted _ => true
  | _ => false

/-- The fault of a faulted program. -/
def fault? : TaskState → Option Fault
  | faulted fault => some fault
  | _ => none

end TaskState

/-- A machine and how far ticks have brought it. -/
structure Task where
  /-- The machine. -/
  machine : Machine
  /-- How the task stands. -/
  state : TaskState
  /-- How often the program has been resumed. -/
  resumes : Nat

namespace Task

/-- The task of a machine before the first tick. -/
def start (machine : Machine) : Task :=
  ⟨machine, .idle, 0⟩

/-- The nanoseconds that a number of milliseconds is waited for, rounded to the nearest; `none` if
they reach `2 ^ 64`. -/
def waitTime? (duration : Float) : Option Nat :=
  let nanoseconds := duration * 1000000
  if nanoseconds.isFinite then
    let rounded := (Number.integer .nearest nanoseconds).toNat
    if rounded < Nat.pow 2 64 then some rounded else none
  else
    none

/-- The state after a program has begun to wait at the given time. Times have no bound here. On a
clock that has one, a deadline that it cannot represent is an invalid wait as well; that case has no
counterpart. -/
def waitState (machine : Machine) (now : Nat) (duration : Float) : TaskState :=
  if duration ≤ 0 then .running
  else
    match waitTime? duration with
    | some time => .waiting (now + time)
    | none => .faulted ⟨.invalidWait duration, machine.position?.getD .start⟩

/-- The state after a program has been resumed at the given time. -/
def stateAfter (now : Nat) (outcome : Outcome) (machine : Machine) : TaskState :=
  match outcome with
  | .suspended .tick => .running
  | .suspended (.wait duration) => waitState machine now duration
  | .completed => .completed
  | .faulted fault => .faulted fault

/-- The task after its program has been resumed at the given time. -/
def advance (task : Task) (now : Nat) : Task :=
  let (outcome, machine) := task.machine.resume
  ⟨machine, stateAfter now outcome machine, task.resumes + 1⟩

/-- Whether a tick at the given time resumes the program. -/
def isDue (task : Task) (now : Nat) : Bool :=
  match task.state with
  | .idle => true
  | .running => true
  | .waiting deadline => deadline ≤ now
  | .completed => false
  | .faulted _ => false

/-- The task after a tick at the given time. -/
def tick (task : Task) (now : Nat) : Task :=
  if task.isDue now then task.advance now else task

/-- The task with another memory in its machine. -/
def withMemory (task : Task) (memory : Memory) : Task :=
  { task with machine := task.machine.withMemory memory }

end Task

end LineRobot
