import LineRobot.Code.Program
import LineRobot.Machine.Task
import LineRobot.Setup.Basic

/-! # Simulated robots

A simulation is a robot with a sound setup, and at most one program that drives it. In every tick
the sensors are read, the program has its turn, and the robot moves (`Simulation.tick`). A program
that has completed leaves the robot standing; after a fault the wheels keep their last targets. -/

namespace LineRobot

/-- A program that drives a robot. -/
structure Pilot where
  /-- The program and its turns. -/
  task : Task
  /-- The magnitudes that the program has set the motors to. -/
  targets : WheelTargets := {}

namespace Pilot

/-- The pilot with the given values in the sensor channels of its program. -/
def withSensors (pilot : Pilot) (channels : Cells) : Pilot :=
  { pilot with
    task := pilot.task.withMemory { pilot.task.machine.memory with sensors := channels } }

/-- The pilot after a tick at the given time. The commands that the program has given are carried
out. -/
def tick (pilot : Pilot) (now : Nat) : Pilot :=
  let task := pilot.task.tick now
  let memory := task.machine.memory
  ⟨task.withMemory memory.withoutCommands, pilot.targets.after memory.commands⟩

end Pilot

/-- A robot and the program that drives it, if there is one. -/
structure Simulation where
  /-- The setup. -/
  setup : Setup
  /-- The setup has no flaw. -/
  sound : setup.IsSound
  /-- The pose of the last start. -/
  startPose : Pose := {}
  /-- The pose now. -/
  pose : Pose := {}
  /-- The sensor channels. -/
  channels : Cells := Cells.zero
  /-- The program. -/
  pilot : Option Pilot := none

namespace Simulation

/-- A robot with the given setup and no program. -/
def new (setup : Setup) : Except SetupFlaw Simulation :=
  match found : setup.flaw? with
  | some flaw => .error flaw
  | none => .ok { setup, sound := found }

/-- The simulation after a program has been started at the given pose, with the wheels at rest. -/
def startProgram (simulation : Simulation) (program : Program) (pose : Pose) : Simulation :=
  let memory : Memory := { channels := simulation.setup.channels }
  { simulation with
    startPose := pose.atRest
    pose := pose.atRest
    channels := Cells.zero
    pilot := some ⟨.start (.start program memory simulation.setup.limits), {}⟩ }

/-- The simulation after a source has been compiled and started at the given pose, or after a source
has been rejected. A program from before is discarded in either case. -/
def start (simulation : Simulation) (source : String) (pose : Pose) :
    Except Rejection Unit × Simulation :=
  let simulation := { simulation with pilot := none }
  match Program.compile source with
  | .error rejection => (.error rejection, simulation)
  | .ok program => (.ok (), simulation.startProgram program pose)

/-- The simulation after the sensors have been read on the given course. The program sees what the
robot sees. -/
def refresh (simulation : Simulation) (course : Course) : Simulation :=
  let setup := simulation.setup
  let channels := setup.calibration.refresh course simulation.pose setup.mounts simulation.channels
  { simulation with
    channels
    pilot := simulation.pilot.map (·.withSensors channels) }

/-- The pose after the program has had its turn. -/
def moved (settings : DriveSettings) (pose : Pose) : Option Pilot → Pose
  | none => pose.advance settings
  | some pilot =>
    match pilot.task.state with
    | .completed => pose.atRest
    | _ => (pose.withTargets pilot.targets).advance settings

/-- The simulation after a tick at the given time on the given course. -/
def tick (simulation : Simulation) (now : Nat) (course : Course) : Simulation :=
  let simulation := simulation.refresh course
  let pilot := simulation.pilot.map (·.tick now)
  { simulation with
    pilot
    pose := moved simulation.setup.drive simulation.pose pilot }

/-- The simulation without a program, with the wheels at rest. -/
def stop (simulation : Simulation) : Simulation :=
  { simulation with
    pose := simulation.pose.atRest
    pilot := none }

/-- The simulation without a program, with the robot back where it was started. -/
def reset (simulation : Simulation) : Simulation :=
  { simulation.stop with
    pose := simulation.startPose
    channels := Cells.zero }

/-- The simulation with the robot moved by hand. -/
def setPose (simulation : Simulation) (pose : Pose) : Simulation :=
  { simulation with pose }

/-- How the program stands; without one it is idle. -/
def state (simulation : Simulation) : TaskState :=
  match simulation.pilot with
  | none => .idle
  | some pilot => pilot.task.state

/-- Whether there is a program that has not come to its end. -/
def isRunning (simulation : Simulation) : Bool :=
  simulation.pilot.any fun pilot => !pilot.task.state.isTerminal

/-- The variable slots of the program. -/
def slots? (simulation : Simulation) : Option Cells :=
  simulation.pilot.map fun pilot => pilot.task.machine.memory.slots

end Simulation

end LineRobot
