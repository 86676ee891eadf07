import LineRobot.Proofs.Machine.Commands
import LineRobot.Proofs.Simulation.Operations

/-! # Wheels follow the program

The pilot of a simulation takes the commands of its program away after each tick and keeps the
targets of the wheels. The same program can be run as a task by itself, from which no command is
ever taken away; the commands of that task are all that the program has given since its start. A
pilot *stands for* such a task if it differs from it only in that, and its targets are those of the
latest command (`Pilot.StandsFor`). All that a host does without a new start, a stop or a reset
leaves it so (`Simulation.Steers.performAll`), and the wheels are set to its targets
(`Simulation.wheels_performAll`). -/

namespace LineRobot

/-- Of commands one after the other, only the latest counts. -/
theorem WheelTargets.after_append (targets : WheelTargets) (later earlier : List MotorCommand) :
    targets.after (later ++ earlier) = (targets.after earlier).after later := by
  cases later <;> rfl

/-! ## The pilot and the task of its program -/

namespace Pilot

/-- A pilot stands for a task from which no commands have been taken away. -/
structure StandsFor (pilot : Pilot) (task : Task) : Prop where
  /-- The tasks differ only in the commands. -/
  same : pilot.task = task.withoutCommands
  /-- The wheels are to do what the latest command says, and to rest without one. -/
  targets : pilot.targets = WheelTargets.after {} task.machine.memory.commands

variable {pilot : Pilot} {task : Task}

/-- A pilot stands for its task at new contents of the sensor channels. -/
theorem StandsFor.withSensors (standsFor : pilot.StandsFor task) (channels : Cells) :
    (pilot.withSensors channels).StandsFor (task.perform (.sense channels)) := by
  refine ⟨?_, standsFor.targets⟩
  rw [Pilot.withSensors, standsFor.same]
  rfl

/-- A pilot stands for its task after a tick. -/
theorem StandsFor.tick (standsFor : pilot.StandsFor task) (now : Nat) :
    (pilot.tick now).StandsFor (task.perform (.tick now)) := by
  -- the task does what that of the pilot does, on top of the commands given before
  have ticked : task.perform (.tick now) =
      (pilot.task.tick now).withEarlier task.machine.memory.commands := by
    rw [standsFor.same, ← Task.tick_withEarlier, Task.withEarlier_withoutCommands]
    rfl
  refine ⟨?_, ?_⟩
  · rw [ticked, Task.withoutCommands_withEarlier]
    rfl
  · show pilot.targets.after (pilot.task.tick now).machine.memory.commands = _
    rw [ticked, standsFor.targets]
    exact (WheelTargets.after_append {} _ _).symm

end Pilot

namespace Task

/-- A task that has been ticked has begun. -/
theorem tick_ne_idle (task : Task) (now : Nat) : (task.tick now).state ≠ .idle := by
  by_cases due : task.isDue now = true
  · rw [tick_of_isDue task due]
    show stateAfter now task.machine.resume.1 task.machine.resume.2 ≠ .idle
    rcases task.machine.resume.1 with (_ | duration) | _ | fault
    case suspended.wait =>
      show waitState _ now duration ≠ .idle
      unfold waitState
      split
      · exact nofun
      · split <;> exact nofun
    all_goals exact nofun
  · rw [tick_of_not_isDue task due]
    intro idle
    exact due ((isDue_iff task now).mpr (.inl idle))

end Task

namespace Simulation

/-- What the task of a program sees of an operation that lets the program go on. -/
def Operation.actions (simulation : Simulation) : Operation → List HostAction
  | .tick now course => [.sense (simulation.refresh course).channels, .tick now]
  | .refresh course => [.sense (simulation.refresh course).channels]
  | _ => []

/-- What the task of a program sees of operations that let the program go on. -/
def actionsOf (simulation : Simulation) : List Operation → List HostAction
  | [] => []
  | operation :: later =>
      operation.actions simulation ++ (simulation.perform operation).actionsOf later

/-- The task that the program of a simulation would be by itself. -/
def taskOf (simulation : Simulation) (program : Program) : Task :=
  .start (.start program { channels := simulation.setup.channels } simulation.setup.limits)

/-- The simulation has a program, and its pilot stands for a task. -/
def Steers (simulation : Simulation) (task : Task) : Prop :=
  ∃ pilot, simulation.pilot = some pilot ∧ pilot.StandsFor task

variable {simulation : Simulation} {task : Task}

/-- A program that has been started is steered by its own task. -/
theorem steers_startProgram (simulation : Simulation) (program : Program) (pose : Pose) :
    (simulation.startProgram program pose).Steers (simulation.taskOf program) :=
  ⟨_, rfl, rfl, rfl⟩

/-- The task goes on with an operation that lets the program go on. -/
theorem Steers.perform (steers : simulation.Steers task) {operation : Operation}
    (keeps : operation.keepsProgram = true) :
    (simulation.perform operation).Steers (task.performAll (operation.actions simulation)) := by
  obtain ⟨pilot, loaded, standsFor⟩ := steers
  have refreshed (course : Course) : (simulation.refresh course).pilot =
      some (pilot.withSensors (simulation.refresh course).channels) := by
    rw [refresh, loaded]
    rfl
  cases operation with
  | start | startProgram | stop | reset => cases keeps
  | setPose pose => exact ⟨pilot, loaded, standsFor⟩
  | refresh course => exact ⟨_, refreshed course, standsFor.withSensors _⟩
  | tick now course =>
      refine ⟨(pilot.withSensors (simulation.refresh course).channels).tick now, ?_,
        (standsFor.withSensors _).tick now⟩
      show (simulation.refresh course).pilot.map (·.tick now) = _
      rw [refreshed]
      rfl

/-- The task goes on with operations that let the program go on. -/
theorem Steers.performAll (steers : simulation.Steers task) {operations : List Operation}
    (keeps : ∀ operation ∈ operations, operation.keepsProgram = true) :
    (simulation.performAll operations).Steers
      (task.performAll (simulation.actionsOf operations)) := by
  induction operations generalizing simulation task with
  | nil => exact steers
  | cons operation later ih =>
      obtain ⟨keepsHere, keepsLater⟩ := List.forall_mem_cons.mp keeps
      rw [actionsOf, Task.performAll_append]
      exact ih (steers.perform keepsHere) keepsLater

/-- The task goes on with a tick after operations that let the program go on. -/
theorem Steers.performAll_tick (steers : simulation.Steers task) {operations : List Operation}
    (keeps : ∀ operation ∈ operations, operation.keepsProgram = true) (now : Nat)
    (course : Course) :
    ((simulation.performAll operations).tick now course).Steers
      (task.performAll (simulation.actionsOf (operations ++ [.tick now course]))) := by
  have keepsTick : ∀ operation ∈ operations ++ [.tick now course],
      operation.keepsProgram = true := by
    intro operation member
    rcases List.mem_append.mp member with member | member
    · exact keeps operation member
    · rw [List.mem_singleton.mp member]
      rfl
  have all := steers.performAll keepsTick
  rw [performAll_append] at all
  exact all

/-- The simulation stands as the task does. -/
theorem Steers.state_eq (steers : simulation.Steers task) : simulation.state = task.state := by
  obtain ⟨pilot, loaded, standsFor⟩ := steers
  rw [state, loaded]
  dsimp only
  rw [standsFor.same]
  rfl

/-! ## Ticks -/

/-- A program that has been ticked has begun. -/
theorem Steers.tick_ne_idle (steers : simulation.Steers task) (now : Nat) (course : Course) :
    (simulation.tick now course).state ≠ .idle := by
  have ticked : (simulation.tick now course).Steers _ :=
    steers.perform (show (Operation.tick now course).keepsProgram = true from rfl)
  rw [ticked.state_eq]
  exact Task.tick_ne_idle _ now

/-- The robot after a tick that leaves the program not completed: its wheels are at the targets, and
it has moved by one step. -/
theorem Steers.pose_tick {now : Nat} {course : Course}
    (steers : (simulation.tick now course).Steers task) (goesOn : task.state ≠ .completed) :
    (simulation.tick now course).pose =
      (simulation.pose.withTargets (.after {} task.machine.memory.commands)).advance
        simulation.setup.drive := by
  obtain ⟨pilot, loaded, standsFor⟩ := steers
  have state : pilot.task.state ≠ .completed := by
    rw [standsFor.same]
    exact goesOn
  show moved simulation.setup.drive simulation.pose (simulation.tick now course).pilot = _
  rw [loaded, ← standsFor.targets]
  unfold moved
  dsimp only
  split
  case h_1 completed => exact absurd completed state
  case h_2 => rfl

/-- The robot after a tick that leaves the program completed: its wheels are at rest, and it is
where it was. -/
theorem Steers.pose_tick_of_completed {now : Nat} {course : Course}
    (steers : (simulation.tick now course).Steers task) (completed : task.state = .completed) :
    (simulation.tick now course).pose = simulation.pose.atRest := by
  obtain ⟨pilot, loaded, standsFor⟩ := steers
  have state : pilot.task.state = .completed := by
    rw [standsFor.same]
    exact completed
  show moved simulation.setup.drive simulation.pose (simulation.tick now course).pilot = _
  rw [loaded, moved, state]

end Simulation

end LineRobot
