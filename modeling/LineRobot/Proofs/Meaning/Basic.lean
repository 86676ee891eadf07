import LineRobot.Proofs.Machine.Script

/-! # Meanings

A `Meaning` is what a piece of a program does, without machine code: it goes from a `Situation` to
another one with a value, or the run ends in it (`Ending`). A situation has the variables of one
call as a stack of blocks and the `World`, in which the host has a part: a meaning that suspends the
program (`Meaning.suspend`) lets the host see the variable slots and the motor commands, and goes on
with the sensor channels that the host has put in by the next resume. The host's part is a script,
as for machines that are resumed by hand (`Machine.resumeAll`).

The meanings here are those that syntax is given its meaning with; `Expression.value` and
`Statement.meaning` put them together. -/

namespace LineRobot

/-- What surrounds the calls of a program. -/
structure World where
  /-- The memory shared with the robot. -/
  memory : Memory
  /-- The sensor channels at the resumes to come. -/
  script : List Cells
  /-- What the host has seen, in order. -/
  seen : List Observation

namespace World

/-- What the host sees when the program stops now. -/
def observation (world : World) (outcome : Outcome) : Observation :=
  ⟨outcome, world.memory.slots, world.memory.commands⟩

/-- All that the host sees if the program ends now: all further resumes report the end. -/
def ended (world : World) (outcome : Outcome) : List Observation :=
  world.seen ++ world.observation outcome ::
    world.script.map fun _ => world.observation .completed

end World

/-- The variables of a block with their values, the latest first. -/
abbrev Block : Type := List (String × Float)

namespace Block

/-- The value of a variable: that of its innermost declaration. -/
def lookup? (blocks : List Block) (name : String) : Option Float :=
  blocks.flatten.lookup name

/-- A block in which a variable has another value, if it is declared there. -/
def replace? (name : String) (value : Float) : Block → Option Block
  | [] => none
  | (other, old) :: earlier =>
      if name = other then some ((other, value) :: earlier)
      else (replace? name value earlier).map ((other, old) :: ·)

/-- The blocks in which the innermost declaration of a variable has another value. -/
def assign? (name : String) (value : Float) : List Block → Option (List Block)
  | [] => none
  | block :: outer =>
      match replace? name value block with
      | some block => some (block :: outer)
      | none => (assign? name value outer).map (block :: ·)

/-- The blocks with one more variable in the innermost one. -/
def declare? (name : String) (value : Float) : List Block → Option (List Block)
  | [] => none
  | block :: outer => some (((name, value) :: block) :: outer)

end Block

/-- Where a call stands. -/
structure Situation where
  /-- Its open blocks, the innermost first. -/
  blocks : List Block
  /-- What surrounds it. -/
  world : World

/-- How a run ends inside a meaning. -/
inductive Ending where
  /-- The program has ended, or stays suspended as the script is over; the host has seen this. -/
  | halted (seen : List Observation)
  /-- The rounds of a loop or the nested calls have been more than those allowed for. -/
  | unfinished
  /-- The syntax has no meaning, such as a name that is not declared. -/
  | meaningless

/-- What a piece of a program does. -/
abbrev Meaning (α : Type) : Type := StateT Situation (Except Ending) α

namespace Meaning

variable {α : Type}

/-- The end of a run in a given way. -/
def stop (ending : Ending) : Meaning α := fun _ => .error ending

/-- The end of a program by a fault. -/
def fault (cause : FaultCause) (position : Position) : Meaning α := fun situation =>
  .error (.halted (situation.world.ended (.faulted ⟨cause, position⟩)))

/-- A value that can be missing. -/
def need (value? : Option α) : Meaning α :=
  match value? with
  | some value => pure value
  | none => stop .meaningless

/-- The memory. -/
def memory : Meaning Memory := fun situation => .ok (situation.world.memory, situation)

/-- Another memory. -/
def setMemory (memory : Memory) : Meaning Unit := fun situation =>
  .ok ((), { situation with world := { situation.world with memory } })

/-- The value of a local variable. -/
def readLocal (name : String) : Meaning Float := fun situation =>
  need (Block.lookup? situation.blocks name) situation

/-- Another value for a local variable. -/
def writeLocal (name : String) (value : Float) : Meaning Unit := fun situation =>
  match Block.assign? name value situation.blocks with
  | some blocks => .ok ((), { situation with blocks })
  | none => .error .meaningless

/-- A new local variable in the innermost block. -/
def declare (name : String) (value : Float) : Meaning Unit := fun situation =>
  match Block.declare? name value situation.blocks with
  | some blocks => .ok ((), { situation with blocks })
  | none => .error .meaningless

/-- A meaning in a block of its own. -/
def inBlock (meaning : Meaning α) : Meaning α := fun situation =>
  match meaning { situation with blocks := [] :: situation.blocks } with
  | .ok (value, after) => .ok (value, { after with blocks := after.blocks.tail })
  | .error ending => .error ending

/-- A meaning in a call of its own, with the given parameters. -/
def inCall (parameters : Block) (meaning : Meaning α) : Meaning α := fun situation =>
  match meaning { situation with blocks := [parameters] } with
  | .ok (value, after) => .ok (value, { after with blocks := situation.blocks })
  | .error ending => .error ending

/-- The program suspends itself. The host sees it, and unless the script is over it resumes the
program with other sensor channels. -/
def suspend (suspension : Suspension) : Meaning Unit := fun situation =>
  let world := situation.world
  let seen := world.seen ++ [world.observation (.suspended suspension)]
  match world.script with
  | [] => .error (.halted seen)
  | channels :: later =>
      .ok ((), { situation with
        world := ⟨{ world.memory with sensors := channels }, later, seen⟩ })

/-- The program waits for a number of milliseconds, which must be finite. -/
def waitFor (duration : Float) (position : Position) : Meaning Unit :=
  if duration.isFinite then suspend (.wait duration)
  else fault (.invalidWait duration) position

/-- The value of an operator on two values. -/
def operate (operator : Operator) (left right : Float) (position : Position) : Meaning Float :=
  match operator.apply left right with
  | some value => pure value
  | none => fault .divisionByZero position

/-- The element of an array that a value is the index of. -/
def element (bank : Bank) (index : Float) (position : Position) : Meaning (Fin bankSize) :=
  match Memory.index? index with
  | some index => pure index
  | none => fault (.indexOutOfBounds bank index) position

/-- A meaning whose value is dropped is followed by no value. -/
theorem discard_eq (meaning : Meaning α) :
    Functor.discard meaning = meaning >>= fun _ => (pure () : Meaning Unit) := by
  funext situation
  show (meaning situation).bind _ = (meaning situation).bind _
  rfl

end Meaning

end LineRobot
