import LineRobot.Number.Binary64
import LineRobot.Vocabulary

/-! # What a program shares with the robot

The memory of a program besides its locals: ten sensor channels, which the robot writes and the
program reads; ten variable slots, which the program writes; the constants; and the commands given
to the motors, which the robot takes away. -/

namespace LineRobot

/-- The number of elements of either array. -/
abbrev bankSize : Nat := 10

/-- The elements of an array. -/
abbrev Cells : Type := Vector Float bankSize

/-- An array of zeros. -/
def Cells.zero : Cells := Vector.replicate bankSize 0

/-- The channels that the channel constants stand for. -/
structure ChannelConstants where
  /-- The channel of the center sensor. -/
  center : Nat := 2
  /-- The channel of the left sensor. -/
  left : Nat := 5
  /-- The channel of the right sensor. -/
  right : Nat := 6
deriving DecidableEq, Repr

/-- A command to the motors, with its two arguments. -/
structure MotorCommand where
  /-- The first argument. -/
  first : Float
  /-- The second argument. -/
  second : Float
deriving DecidableEq, Repr

/-- What a program shares with the robot. -/
structure Memory where
  /-- The sensor channels. -/
  sensors : Cells := Cells.zero
  /-- The variable slots. -/
  slots : Cells := Cells.zero
  /-- The channels that the channel constants stand for. -/
  channels : ChannelConstants := {}
  /-- The value that stands for truth. -/
  truth : Float := 1
  /-- The commands given to the motors and not yet taken, the latest first. -/
  commands : List MotorCommand := []

namespace Memory

/-- The value of a constant. -/
def constant (memory : Memory) : Constant → Float
  | .center => Float.ofNat memory.channels.center
  | .left => Float.ofNat memory.channels.left
  | .right => Float.ofNat memory.channels.right
  | .truth => memory.truth

/-- The elements of an array. -/
def bank (memory : Memory) : Bank → Cells
  | .sensors => memory.sensors
  | .slots => memory.slots

/-- An element of an array. -/
def element (memory : Memory) (bank : Bank) (index : Fin bankSize) : Float :=
  (memory.bank bank)[index]

/-- The element that a value is the index of, if it is one: a whole number from zero to nine. -/
def index? (value : Float) : Option (Fin bankSize) :=
  if 0 ≤ value ∧ value < Float.ofNat bankSize ∧ Number.isIntegral value = true then
    let index := (Number.integer .down value).toNat
    if inside : index < bankSize then some ⟨index, inside⟩ else none
  else
    none

/-- The memory with another value in a variable slot. -/
def setSlot (memory : Memory) (index : Fin bankSize) (value : Float) : Memory :=
  { memory with slots := memory.slots.set index value }

/-- The memory after a command to the motors. -/
def drive (memory : Memory) (command : MotorCommand) : Memory :=
  { memory with commands := command :: memory.commands }

/-- The memory after the commands to the motors have been taken. -/
def withoutCommands (memory : Memory) : Memory :=
  { memory with commands := [] }

/-- The memory with another value in a sensor channel; an index beyond the channels changes
nothing. -/
def setSensor (memory : Memory) (index : Nat) (value : Float) : Memory :=
  { memory with sensors := memory.sensors.setIfInBounds index value }

end Memory

end LineRobot
