import LineRobot.Machine.Memory

/-! # Wheels and motion

The robot has two wheels, each with a magnitude between -100 and 100. In one tick a wheel at full
magnitude goes `maxSpeed`; the robot goes forward by the mean of its wheels and turns by their
difference over the distance between them. Its heading is never wrapped. -/

namespace LineRobot

/-- Where the robot is and what its wheels do. -/
structure Pose where
  /-- The first coordinate. -/
  x : Float := 0
  /-- The second coordinate. -/
  y : Float := 0
  /-- The direction it looks in, in radians. -/
  heading : Float := 0
  /-- The magnitude of the left wheel. -/
  left : Float := 0
  /-- The magnitude of the right wheel. -/
  right : Float := 0
deriving DecidableEq, Repr

/-- What the motion of the robot depends on. -/
structure DriveSettings where
  /-- The distance that a wheel at full magnitude goes in one tick. -/
  maxSpeed : Float := 3
  /-- The distance between the wheels. -/
  wheelBase : Float := 40
deriving DecidableEq, Repr

/-- The motion of one tick. -/
structure Motion where
  /-- The distance forward. -/
  forward : Float
  /-- The angle turned. -/
  angular : Float
deriving DecidableEq, Repr

/-- The largest magnitude of a wheel. -/
def maxMagnitude : Float := 100

/-- A magnitude within the bounds; one that is no number is zero. -/
def clampMagnitude (value : Float) : Float :=
  if value.isNaN then 0 else Number.clamped (-maxMagnitude) maxMagnitude value

/-- The magnitudes that the motors have been set to. -/
structure WheelTargets where
  /-- The magnitude of the left wheel. -/
  left : Float := 0
  /-- The magnitude of the right wheel. -/
  right : Float := 0
deriving DecidableEq, Repr

namespace WheelTargets

/-- The targets that a command sets: its first argument is for the right wheel and its second for
the left one. -/
def ofCommand (command : MotorCommand) : WheelTargets :=
  ⟨clampMagnitude command.second, clampMagnitude command.first⟩

/-- The targets after commands, the latest of them first; only the latest counts. -/
def after (targets : WheelTargets) : List MotorCommand → WheelTargets
  | [] => targets
  | latest :: _ => ofCommand latest

end WheelTargets

/-- The motion of one tick under the given magnitudes. -/
def DriveSettings.motion (settings : DriveSettings) (left right : Float) : Motion :=
  let leftSpeed := left / maxMagnitude * settings.maxSpeed
  let rightSpeed := right / maxMagnitude * settings.maxSpeed
  ⟨(leftSpeed + rightSpeed) / 2, (rightSpeed - leftSpeed) / settings.wheelBase⟩

namespace Pose

/-- The same place and heading with the wheels at rest. -/
def atRest (pose : Pose) : Pose :=
  { pose with left := 0, right := 0 }

/-- The pose with the wheels at the given magnitudes, which are clamped. -/
def withMagnitudes (pose : Pose) (left right : Float) : Pose :=
  { pose with left := clampMagnitude left, right := clampMagnitude right }

/-- The pose with the wheels at the given targets. -/
def withTargets (pose : Pose) (targets : WheelTargets) : Pose :=
  { pose with left := targets.left, right := targets.right }

/-- The pose one tick later. The robot moves in the direction it looked in before. -/
def advance (settings : DriveSettings) (pose : Pose) : Pose :=
  let motion := settings.motion pose.left pose.right
  { pose with
    x := pose.x + motion.forward * pose.heading.cos
    y := pose.y + motion.forward * pose.heading.sin
    heading := pose.heading + motion.angular }

end Pose

end LineRobot
