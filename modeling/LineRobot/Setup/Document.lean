import LineRobot.Setup.Basic
import LineRobot.Toml.Conversion

/-! # Setups as documents

A setup is written as a TOML document with a table for each part. A document may leave out tables
and values, which then are as in the standard setup; only the values of a sensor and of a color must
be complete. Documents are read and written with a library.

`Setup.ofTable?` reads the table of a document and `Setup.toTable` makes one; `Setup.read` and
`Setup.write` do so for a document, where the library may fail. Only a sound setup is read. -/

namespace LineRobot

open Toml (Library Value Table)

namespace Setup

/-- The part of a table with the given name, or what takes its place if there is none. -/
def part {α : Type} (table : Table) (name : String) (missing : Option α)
    (read : Value → Option α) : Option α :=
  match table.get? name with
  | some value => read value
  | none => missing

/-- The word for a polarity. -/
def polarityWord : Polarity → String
  | .darkIsHigh => "dark_is_high"
  | .lightIsHigh => "light_is_high"

/-- All polarities. -/
def polarities : List Polarity :=
  [.darkIsHigh, .lightIsHigh]

/-- The polarity that a word stands for. -/
def polarityOfWord? (word : String) : Option Polarity :=
  polarities.find? fun polarity => polarityWord polarity = word

/-- Every polarity is read from its word. -/
theorem polarityOfWord?_polarityWord (polarity : Polarity) :
    polarityOfWord? (polarityWord polarity) = some polarity := by
  cases polarity <;> decide

section Reading

variable (library : Library)

/-- A natural number of eight bits. -/
def byte? (value : Value) : Option UInt8 :=
  (library.natural? 8 value).map Nat.toUInt8

/-- A polarity. -/
def polarity? (value : Value) : Option Polarity :=
  (library.word? (polarities.map polarityWord) value).bind polarityOfWord?

/-- A color. -/
def color? (value : Value) : Option Color := do
  let table ← library.parts? ["r", "g", "b"] value
  let red ← part table "r" none (byte? library)
  let green ← part table "g" none (byte? library)
  let blue ← part table "b" none (byte? library)
  return ⟨red, green, blue⟩

/-- A sensor. -/
def mount? (value : Value) : Option SensorMount := do
  let table ← library.parts? ["id", "angular_offset", "radial_offset"] value
  let channel ← part table "id" none (library.natural? 64)
  let angle ← part table "angular_offset" none library.float?
  let distance ← part table "radial_offset" none library.float?
  return ⟨channel, angle, distance⟩

/-- The sensors. -/
def mounts? (value : Value) : Option (List SensorMount) := do
  let elements ← library.elements? value
  elements.mapM (mount? library)

/-- The drive settings. -/
def drive? (value : Value) : Option DriveSettings := do
  let standard : DriveSettings := {}
  let table ← library.parts? ["max_speed", "wheel_base"] value
  let maxSpeed ← part table "max_speed" (some standard.maxSpeed) library.float?
  let wheelBase ← part table "wheel_base" (some standard.wheelBase) library.float?
  return { maxSpeed, wheelBase }

/-- The calibration. -/
def calibration? (value : Value) : Option Calibration := do
  let standard : Calibration := {}
  let table ← library.parts?
    ["max_reading", "polarity", "tape_reading", "tape_tolerance", "tape_color"] value
  let maxReading ← part table "max_reading" (some standard.maxReading) library.float?
  let polarity ← part table "polarity" (some standard.polarity) (polarity? library)
  let tapeReading ← part table "tape_reading" (some standard.tapeReading) library.float?
  let tapeTolerance ← part table "tape_tolerance" (some standard.tapeTolerance)
      (library.natural? 32)
  let tapeColor ← part table "tape_color" (some standard.tapeColor) (color? library)
  return { maxReading, polarity, tapeReading, tapeTolerance, tapeColor }

/-- The channel constants. -/
def channels? (value : Value) : Option ChannelConstants := do
  let standard : ChannelConstants := {}
  let table ← library.parts? ["center", "left", "right"] value
  let center ← part table "center" (some standard.center) (library.natural? 64)
  let left ← part table "left" (some standard.left) (library.natural? 64)
  let right ← part table "right" (some standard.right) (library.natural? 64)
  return { center, left, right }

/-- The bounds of programs. -/
def limits? (value : Value) : Option Limits := do
  let standard : Limits := {}
  let table ← library.parts? ["max_ops_per_resume", "max_call_depth"] value
  let instructions ← part table "max_ops_per_resume" (some standard.instructions)
      (library.natural? 64)
  let depth ← part table "max_call_depth" (some standard.depth) (library.natural? 64)
  return { instructions, depth }

/-- The setup that the table of a document describes. -/
def ofTable? (table : Table) : Option Setup := do
  let standard : Setup := {}
  let table ← library.parts? ["physics", "sensors", "calibration", "channels",
      "limits"] (.table table)
  let drive ← part table "physics" (some standard.drive) (drive? library)
  let mounts ← part table "sensors" (some standard.mounts) (mounts? library)
  let calibration ← part table "calibration" (some standard.calibration) (calibration? library)
  let channels ← part table "channels" (some standard.channels) (channels? library)
  let limits ← part table "limits" (some standard.limits) (limits? library)
  return { drive, mounts, calibration, channels, limits }

end Reading

/-- A sound setup, or the flaw of an unsound one. -/
def checked (setup : Setup) : Except SetupFlaw Setup :=
  match setup.flaw? with
  | some flaw => .error flaw
  | none => .ok setup

/-- The sound setup that a document describes. Why a document cannot be read is not kept. -/
def read (library : Library) (document : String) : Except SetupFlaw Setup :=
  match library.read document with
  | .ok table =>
    match ofTable? library table with
    | some setup => setup.checked
    | none => .error .unreadable
  | .error _ => .error .unreadable

/-- A natural number as a value. -/
def ofNatural (number : Nat) : Value :=
  .integer number

/-- The table of a color. -/
def colorTable (color : Color) : Table :=
  [("r", ofNatural color.red.toNat), ("g", ofNatural color.green.toNat),
    ("b", ofNatural color.blue.toNat)]

/-- The table of a sensor. -/
def mountTable (mount : SensorMount) : Table :=
  [("id", ofNatural mount.channel), ("angular_offset", .float mount.angle),
    ("radial_offset", .float mount.distance)]

/-- The table of the drive settings. -/
def driveTable (drive : DriveSettings) : Table :=
  [("max_speed", .float drive.maxSpeed), ("wheel_base", .float drive.wheelBase)]

/-- The table of the calibration. -/
def calibrationTable (calibration : Calibration) : Table :=
  [("max_reading", .float calibration.maxReading),
    ("polarity", .text (polarityWord calibration.polarity)),
    ("tape_reading", .float calibration.tapeReading),
    ("tape_tolerance", ofNatural calibration.tapeTolerance),
    ("tape_color", .table (colorTable calibration.tapeColor))]

/-- The table of the channel constants. -/
def channelsTable (channels : ChannelConstants) : Table :=
  [("center", ofNatural channels.center), ("left", ofNatural channels.left),
    ("right", ofNatural channels.right)]

/-- The table of the bounds of programs. -/
def limitsTable (limits : Limits) : Table :=
  [("max_ops_per_resume", ofNatural limits.instructions),
    ("max_call_depth", ofNatural limits.depth)]

/-- The table of a setup. -/
def toTable (setup : Setup) : Table :=
  [("physics", .table (driveTable setup.drive)),
    ("sensors", .array (setup.mounts.map fun mount => .table (mountTable mount))),
    ("calibration", .table (calibrationTable setup.calibration)),
    ("channels", .table (channelsTable setup.channels)),
    ("limits", .table (limitsTable setup.limits))]

/-- Why a setup is not written. -/
structure Unwritable where
  /-- The reason that the library gives. -/
  reason : String
deriving DecidableEq, Repr

/-- Why a setup is not written, in words. -/
def Unwritable.message (flaw : Unwritable) : String :=
  "Failed to serialize robot config: " ++ flaw.reason

/-- A setup as a document. -/
def write (library : Library) (setup : Setup) : Except Unwritable String :=
  (library.write setup.toTable).mapError Unwritable.mk

/-- The sound setup that a document describes, read with the library of the project. -/
def ofText (document : String) : Except SetupFlaw Setup :=
  read Toml.library document

/-- A setup as a document of the library of the project, which can always be written
(`Setup.write_library`). -/
def text (setup : Setup) : String :=
  setup.toTable.written

/-- The library of the project writes every setup. -/
theorem write_library (setup : Setup) : setup.write Toml.library = .ok setup.text := rfl

end Setup

end LineRobot
