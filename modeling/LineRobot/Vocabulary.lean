/-! # The words that programs share with the robot

Programs reach the robot through a few fixed names: the entry function, two built-in functions, two
arrays, the channel constants, the constant for truth and ten names for the elements of the variable
array. None of them may be declared or defined by a program (`isReserved`), except that the entry
function has to be defined. -/

namespace LineRobot

/-- The constants that the robot provides. -/
inductive Constant where
  /-- The channel of the center sensor. -/
  | center
  /-- The channel of the left sensor. -/
  | left
  /-- The channel of the right sensor. -/
  | right
  /-- The value that stands for truth. -/
  | truth
deriving DecidableEq, Repr

/-- The arrays that the robot provides. -/
inductive Bank where
  /-- The sensor channels, which programs only read. -/
  | sensors
  /-- The variable slots. -/
  | slots
deriving DecidableEq, Repr

/-- The name of a constant. -/
def Constant.spelling : Constant → String
  | center => "CN2"
  | left => "CN5"
  | right => "CN6"
  | truth => "TRUE"

/-- The constant with a given name. -/
def Constant.ofSpelling? (name : String) : Option Constant :=
  [center, left, right, truth].find? fun constant => constant.spelling = name

/-- The name of an array. -/
def Bank.spelling : Bank → String
  | sensors => "gAD"
  | slots => "gV"

/-- The array with a given name. -/
def Bank.ofSpelling? (name : String) : Option Bank :=
  [sensors, slots].find? fun bank => bank.spelling = name

namespace Vocabulary

/-- The function that a program starts with. -/
def entry : String := "user_main"

/-- The built-in function that sets the motors. -/
def motor : String := "motor"

/-- The built-in function that waits; it can only be called by a statement. -/
def wait : String := "wait_ms"

/-- The names of the elements of the variable array, in order. -/
def slotNames : List String :=
  ["VAR_A", "VAR_B", "VAR_C", "VAR_D", "VAR_E", "VAR_F", "VAR_G", "VAR_H", "VAR_I", "VAR_J"]

/-- The element of the variable array that a name stands for. -/
def slot? (name : String) : Option Nat :=
  slotNames.findIdx? fun slotName => slotName = name

/-- Whether a name may be neither declared nor defined by a program. -/
def isReserved (name : String) : Bool :=
  (Constant.ofSpelling? name).isSome || (Bank.ofSpelling? name).isSome || name = motor ||
    name = wait || slotNames.contains name

end Vocabulary

end LineRobot
