import LineRobot.Robot.Canvas
import LineRobot.Robot.Drive

/-! # Reflectance sensors

Each sensor is mounted at an angle and a distance from the center of the robot and reads the color
of the course below it: zero off the course, a fixed value on the tape, and otherwise a level that
is linear in the mean of the color, usually the higher the darker. -/

namespace LineRobot

/-- A sensor and where it is mounted. -/
structure SensorMount where
  /-- The channel that it writes. -/
  channel : Nat
  /-- Its angle to the heading of the robot, in radians. -/
  angle : Float
  /-- Its distance from the center of the robot. -/
  distance : Float
deriving DecidableEq, Repr

/-- Which end of the gray scale reads high. -/
inductive Polarity where
  /-- Black reads high. -/
  | darkIsHigh
  /-- White reads high. -/
  | lightIsHigh
deriving DecidableEq, Repr

/-- How colors become readings. -/
structure Calibration where
  /-- The highest reading of a level. -/
  maxReading : Float := 1023
  /-- Which end of the gray scale reads high. -/
  polarity : Polarity := .darkIsHigh
  /-- The reading of the tape. -/
  tapeReading : Float := 818
  /-- The greatest difference in each part of a color that still counts as the tape. -/
  tapeTolerance : Nat := 10
  /-- The color of the tape. -/
  tapeColor : Color := Color.gray 192
deriving DecidableEq, Repr

namespace SensorMount

/-- Sixty degrees in radians. -/
def sixtyDegrees : Float := 1.0471975511965976

/-- A sensor ahead, and one sixty degrees to either side. -/
def standard : List SensorMount :=
  [⟨2, 0, 10⟩, ⟨5, -sixtyDegrees, 15⟩, ⟨6, sixtyDegrees, 15⟩]

/-- The point that a sensor looks at. -/
def point (mount : SensorMount) (pose : Pose) : Float × Float :=
  let direction := pose.heading + mount.angle
  (pose.x + direction.cos * mount.distance, pose.y + direction.sin * mount.distance)

end SensorMount

namespace Calibration

/-- Whether two parts of colors differ by no more than the tolerance. -/
def isNear (calibration : Calibration) (first second : UInt8) : Bool :=
  (first.toNat - second.toNat) + (second.toNat - first.toNat) ≤ calibration.tapeTolerance

/-- Whether a color counts as the tape. -/
def isTape (calibration : Calibration) (color : Color) : Bool :=
  calibration.isNear color.red calibration.tapeColor.red &&
    calibration.isNear color.green calibration.tapeColor.green &&
    calibration.isNear color.blue calibration.tapeColor.blue

/-- The reading of a color, or of nothing. -/
def reading (calibration : Calibration) : Option Color → Float
  | none => 0
  | some color =>
    if calibration.isTape color then calibration.tapeReading
    else
      let level :=
        match calibration.polarity with
        | .darkIsHigh => 255 - color.intensity
        | .lightIsHigh => color.intensity
      Number.rounded .down (level / 255 * calibration.maxReading)

/-- The reading of a sensor of a robot on a course. -/
def readingAt (calibration : Calibration) (course : Course) (pose : Pose) (mount : SensorMount) :
    Float :=
  let (x, y) := mount.point pose
  calibration.reading (course.sample x y)

/-- The channels after every sensor has been read in turn. A channel without a sensor keeps its
value, and a sensor of a channel that does not exist is not read. -/
def refresh (calibration : Calibration) (course : Course) (pose : Pose)
    (mounts : List SensorMount) (channels : Cells) : Cells :=
  mounts.foldl
    (fun channels mount =>
      channels.setIfInBounds mount.channel (calibration.readingAt course pose mount))
    channels

end Calibration

end LineRobot
