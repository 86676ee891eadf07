import LineRobot.Machine.Basic
import LineRobot.Robot.Sensor

/-! # Setups

A setup holds all that can be adjusted in the robot and in the way it runs programs. `Setup.flaw?`
finds the first thing in it that the robot cannot work with; a setup without a flaw is sound
(`Setup.IsSound`), and only with a sound setup is there a robot. -/

namespace LineRobot

/-- All that can be adjusted. -/
structure Setup where
  /-- What the motion of the robot depends on. -/
  drive : DriveSettings := {}
  /-- The sensors. -/
  mounts : List SensorMount := SensorMount.standard
  /-- How colors become readings. -/
  calibration : Calibration := {}
  /-- The channels that the channel constants stand for. -/
  channels : ChannelConstants := {}
  /-- The bounds of programs. -/
  limits : Limits := {}
deriving DecidableEq, Repr

/-- What is wrong with a setup. -/
inductive SetupFlaw where
  /-- The text of the setup cannot be read. -/
  | unreadable
  /-- A sensor writes a channel that does not exist. -/
  | sensorChannel (channel : Nat)
  /-- A channel constant stands for a channel that does not exist. -/
  | constantChannel (name : String) (channel : Nat)
  /-- The distance between the wheels is not a positive finite number. -/
  | wheelBase (value : Float)
  /-- The speed is not finite. -/
  | maxSpeed (value : Float)
  /-- The tolerance exceeds every difference of colors. -/
  | tapeTolerance (value : Nat)
deriving DecidableEq, Repr

/-- What is wrong, in words. -/
def SetupFlaw.message : SetupFlaw → String
  | unreadable => "Failed to parse robot config"
  | sensorChannel channel =>
    "Sensor channel id " ++ toString channel ++ " is outside 0.." ++ toString bankSize
  | constantChannel name channel =>
    "Channel constant '" ++ name ++ "' = " ++ toString channel ++ " is outside 0.." ++
      toString bankSize
  | wheelBase value => "Wheel base must be positive and finite, got " ++ Number.text value
  | maxSpeed value => "Maximum speed must be finite, got " ++ Number.text value
  | tapeTolerance value => "Tape tolerance " ++ toString value ++ " exceeds 255"

namespace Setup

/-- The flaw of the first sensor without a channel. -/
def sensorFlaw? (setup : Setup) : Option SetupFlaw :=
  setup.mounts.findSome? fun mount =>
    if mount.channel < bankSize then none else some (.sensorChannel mount.channel)

/-- The flaw of the first channel constant without a channel. -/
def constantFlaw? (setup : Setup) : Option SetupFlaw :=
  [("center", setup.channels.center), ("left", setup.channels.left),
    ("right", setup.channels.right)].findSome? fun (name, channel) =>
      if channel < bankSize then none else some (.constantChannel name channel)

/-- The flaw of the drive settings. -/
def driveFlaw? (setup : Setup) : Option SetupFlaw :=
  if !(0 < setup.drive.wheelBase && setup.drive.wheelBase.isFinite) then
    some (.wheelBase setup.drive.wheelBase)
  else if !setup.drive.maxSpeed.isFinite then some (.maxSpeed setup.drive.maxSpeed)
  else none

/-- The flaw of the calibration. -/
def calibrationFlaw? (setup : Setup) : Option SetupFlaw :=
  if 255 < setup.calibration.tapeTolerance then
    some (.tapeTolerance setup.calibration.tapeTolerance)
  else none

/-- The first flaw of a setup. -/
def flaw? (setup : Setup) : Option SetupFlaw :=
  setup.sensorFlaw?.or (setup.constantFlaw?.or (setup.driveFlaw?.or setup.calibrationFlaw?))

/-- A setup without a flaw. -/
def IsSound (setup : Setup) : Prop :=
  setup.flaw? = none

instance (setup : Setup) : Decidable setup.IsSound :=
  inferInstanceAs (Decidable (setup.flaw? = none))

/-- A setup is sound just if none of its parts has a flaw. -/
theorem isSound_iff {setup : Setup} :
    setup.IsSound ↔ setup.sensorFlaw? = none ∧ setup.constantFlaw? = none ∧
      setup.driveFlaw? = none ∧
      setup.calibrationFlaw? = none := by
  simp only [IsSound, flaw?, Option.or_eq_none_iff]

variable {setup : Setup}

/-- In a sound setup every sensor has a channel. -/
theorem IsSound.channel_lt (sound : setup.IsSound) {mount : SensorMount}
    (mounted : mount ∈ setup.mounts) : mount.channel < bankSize := by
  have noFlaw := List.findSome?_eq_none_iff.1 (isSound_iff.mp sound).1 mount mounted
  by_cases inside : mount.channel < bankSize
  · exact inside
  · simp [inside] at noFlaw

/-- In a sound setup every channel constant stands for a channel. -/
theorem IsSound.constant_lt (sound : setup.IsSound) :
    setup.channels.center < bankSize ∧ setup.channels.left < bankSize ∧
      setup.channels.right < bankSize := by
  have noFlaw := List.findSome?_eq_none_iff.mp (isSound_iff.mp sound).2.1
  simp only [List.forall_mem_cons, ite_eq_left_iff, reduceCtorEq, imp_false, Decidable.not_not]
    at noFlaw
  exact ⟨noFlaw.1, noFlaw.2.1, noFlaw.2.2.1⟩

/-- In a sound setup the tolerance is a difference of colors. -/
theorem IsSound.tapeTolerance_le (sound : setup.IsSound) :
    setup.calibration.tapeTolerance ≤ 255 := by
  have clean := (isSound_iff.mp sound).2.2.2
  rw [calibrationFlaw?, ite_eq_right_iff] at clean
  exact Nat.le_of_not_lt fun greater => Option.some_ne_none _ (clean greater)

/-- Whether two setups are the same when numbers are compared: a number that is none differs from
itself. -/
def agrees (first second : Setup) : Bool :=
  first.drive.maxSpeed == second.drive.maxSpeed &&
    first.drive.wheelBase == second.drive.wheelBase &&
    first.mounts.length == second.mounts.length &&
    (first.mounts.zip second.mounts).all (fun (one, other) =>
      one.channel == other.channel && one.angle == other.angle && one.distance == other.distance) &&
    first.calibration.maxReading == second.calibration.maxReading &&
    first.calibration.polarity == second.calibration.polarity &&
    first.calibration.tapeReading == second.calibration.tapeReading &&
    first.calibration.tapeTolerance == second.calibration.tapeTolerance &&
    first.calibration.tapeColor == second.calibration.tapeColor &&
    first.channels == second.channels && first.limits == second.limits

end Setup

end LineRobot
