import Mathlib.Data.List.Induction
import LineRobot.Proofs.Machine.Turns
import LineRobot.Proofs.Simulation.Operations

/-! # Host and program agree on the sensors

The sensor channels are held twice: by the simulation, and by the memory of its program. No program
writes them, and every operation of a host that writes one of the two writes the other, too, so that
they always hold the same. What a robot should read from a pose is `Setup.view`. Reading the sensors
one after the other gives just that, as a channel without a sensor always holds zero
(`Simulation.Agrees.channels_refresh`), and so a program sees just that in a tick
(`Simulation.sensors_performAll`). -/

namespace LineRobot

/-- The sensor that a channel has its reading from: the last of those that write it. -/
def Setup.mountOf? (setup : Setup) (channel : Nat) : Option SensorMount :=
  setup.mounts.reverse.find? (·.channel == channel)

/-- What a robot reads from a pose on a course: in each channel the reading of its sensor, and zero
in a channel without one. -/
def Setup.view (setup : Setup) (course : Course) (pose : Pose) : Cells :=
  Vector.ofFn fun channel =>
    match setup.mountOf? channel with
    | some mount => setup.calibration.readingAt course pose mount
    | none => 0

/-- A channel holds the reading of its last sensor after all have been read, or what it held
before. -/
theorem Calibration.getElem_refresh (calibration : Calibration) (course : Course) (pose : Pose)
    (mounts : List SensorMount) (channels : Cells) {channel : Nat} (inside : channel < bankSize) :
    (calibration.refresh course pose mounts channels)[channel] =
      match mounts.reverse.find? (·.channel == channel) with
      | some mount => calibration.readingAt course pose mount
      | none => channels[channel] := by
  induction mounts using List.reverseRecOn with
  | nil => rfl
  | append_singleton mounts mount ih =>
      rw [Calibration.refresh] at ih ⊢
      rw [List.foldl_append, List.reverse_append, List.reverse_singleton, List.singleton_append,
        List.find?_cons, List.foldl_cons, List.foldl_nil, Vector.getElem_setIfInBounds]
      by_cases same : mount.channel = channel
      · rw [if_pos same, beq_iff_eq.mpr same]
      · rw [if_neg same, beq_eq_false_iff_ne.mpr same, ih]

namespace Machine

/-- What the instructions of a program never change stays the same in the course of a resume. -/
theorem Turns.fixed {count : Nat} {machine last : Machine} (turns : machine.Turns count last) :
    last.SameSetting machine := by
  induction turns with
  | none => exact ⟨rfl, rfl, rfl, rfl, rfl⟩
  | next _ executed _ ih => exact ih.trans (execute_fixed executed)

end Machine

/-- A tick does not change what the instructions of a program never change. -/
theorem Pilot.tick_fixed (pilot : Pilot) (now : Nat) :
    (pilot.tick now).task.machine.SameSetting pilot.task.machine := by
  have ticked : (pilot.task.tick now).machine.SameSetting pilot.task.machine := by
    by_cases due : pilot.task.isDue now = true
    · rw [Task.tick_of_isDue _ due]
      exact Machine.run_fixed _ _
    · rw [Task.tick_of_not_isDue _ due]
      exact ⟨rfl, rfl, rfl, rfl, rfl⟩
  exact ⟨ticked.program, ticked.limits, ticked.sensors, ticked.channels, ticked.truth⟩

namespace Simulation

/-- The simulation and its program agree on the sensors, and a channel without a sensor holds
zero. -/
structure Agrees (simulation : Simulation) : Prop where
  /-- A channel without a sensor holds zero. -/
  unsensed : ∀ (channel : Nat) (inside : channel < bankSize),
    simulation.setup.mountOf? channel = none → simulation.channels[channel] = 0
  /-- The program sees what the simulation holds. -/
  copies : ∀ pilot, simulation.pilot = some pilot →
    pilot.task.machine.memory.sensors = simulation.channels

variable {simulation : Simulation}

/-- A simulation whose channels all hold zero agrees with its program if that holds zero, too. -/
theorem agrees_of_zero (channels : simulation.channels = Cells.zero)
    (copies : ∀ pilot, simulation.pilot = some pilot →
      pilot.task.machine.memory.sensors = Cells.zero) : simulation.Agrees := by
  refine ⟨fun channel inside _ => ?_, fun pilot loaded => ?_⟩
  · rw [channels]
    exact Vector.getElem_replicate _
  · rw [channels]
    exact copies pilot loaded

/-- The sensors give the view from the pose of the robot. -/
theorem Agrees.channels_refresh (agrees : simulation.Agrees) (course : Course) :
    (simulation.refresh course).channels = simulation.setup.view course simulation.pose := by
  refine Vector.ext fun channel inside => ?_
  show (simulation.setup.calibration.refresh course simulation.pose simulation.setup.mounts
    simulation.channels)[channel] = _
  rw [Calibration.getElem_refresh, Setup.view, Vector.getElem_ofFn]
  show (match simulation.setup.mountOf? channel with | some mount => _ | none => _) = _
  cases mounted : simulation.setup.mountOf? channel with
  | some mount => rfl
  | none => exact agrees.unsensed channel inside mounted

/-- Reading the sensors lets the simulation agree with its program. -/
theorem Agrees.refresh (agrees : simulation.Agrees) (course : Course) :
    (simulation.refresh course).Agrees := by
  refine ⟨fun channel inside unsensed => ?_, fun pilot loaded => ?_⟩
  · have view := agrees.channels_refresh course
    show (simulation.refresh course).channels[channel] = 0
    simp only [view, Setup.view, Vector.getElem_ofFn]
    rw [show simulation.setup.mountOf? channel = none from unsensed]
  · obtain ⟨before, -, rfl⟩ := Option.map_eq_some_iff.mp loaded
    rfl

/-- A tick lets the simulation agree with its program. -/
theorem Agrees.tick (agrees : simulation.Agrees) (now : Nat) (course : Course) :
    (simulation.tick now course).Agrees := by
  have refreshed := agrees.refresh course
  refine ⟨refreshed.unsensed, fun pilot loaded => ?_⟩
  obtain ⟨before, loadedBefore, rfl⟩ := Option.map_eq_some_iff.mp loaded
  exact (before.tick_fixed now).sensors.trans (refreshed.copies before loadedBefore)

/-- Every operation lets the simulation agree with its program. -/
theorem Agrees.perform (agrees : simulation.Agrees) (operation : Operation) :
    (simulation.perform operation).Agrees := by
  have started (program : Program) (pose : Pose) : (simulation.startProgram program pose).Agrees :=
    agrees_of_zero rfl fun pilot loaded => by rw [← Option.some.inj loaded]; rfl
  have discarded : { simulation with pilot := none }.Agrees :=
    ⟨agrees.unsensed, fun pilot loaded => nomatch loaded⟩
  cases operation with
  | start source pose =>
      rcases simulation.perform_start source pose with ⟨program, after⟩ | ⟨-, after⟩ <;> rw [after]
      · exact started program pose
      · exact discarded
  | startProgram program pose => exact started program pose
  | tick now course => exact agrees.tick now course
  | refresh course => exact agrees.refresh course
  | stop => exact ⟨discarded.unsensed, discarded.copies⟩
  | reset => exact agrees_of_zero rfl fun pilot loaded => nomatch loaded
  | setPose pose => exact ⟨agrees.unsensed, agrees.copies⟩

/-- All operations let the simulation agree with its program. -/
theorem Agrees.performAll (agrees : simulation.Agrees) (operations : List Operation) :
    (simulation.performAll operations).Agrees := by
  induction operations generalizing simulation with
  | nil => exact agrees
  | cons operation later ih => exact ih (agrees.perform operation)

/-- A new simulation has no program that it could disagree with. -/
theorem agrees_of_new {setup : Setup} (made : new setup = .ok simulation) : simulation.Agrees := by
  obtain ⟨sound, rfl⟩ := eq_of_new made
  exact agrees_of_zero rfl nofun

/-- **Host and program agree on the sensors.** A resume of any program leaves alone the sensor
channels, the channel constants and the constant for truth. Hence in each state to which operations
bring a new simulation, the memory of the program, if there is one, holds the same in the sensor
channels as the simulation. A tick brings both to the view from the pose that the robot has before
it, and the program sees that view in each state of its resume. -/
theorem sensors_performAll {setup : Setup} {robot : Simulation} (made : new setup = .ok robot)
    (operations : List Operation) :
    (∀ machine : Machine,
      machine.resume.2.memory.sensors = machine.memory.sensors ∧
      machine.resume.2.memory.channels = machine.memory.channels ∧
      machine.resume.2.memory.truth = machine.memory.truth) ∧
    let simulation := robot.performAll operations
    (∀ pilot, simulation.pilot = some pilot →
      pilot.task.machine.memory.sensors = simulation.channels) ∧
    ∀ now course,
      let view := setup.view course simulation.pose
      (simulation.tick now course).channels = view ∧
      ∀ pilot, simulation.pilot = some pilot →
        (simulation.tick now course).pilot = some ((pilot.withSensors view).tick now) ∧
        ∀ count machine, (pilot.withSensors view).task.machine.Turns count machine →
          machine.memory.sensors = view := by
  have fixed (machine : Machine) : machine.resume.2.SameSetting machine :=
    machine.run_fixed machine.limits.instructions
  refine
    ⟨fun machine => ⟨(fixed machine).sensors, (fixed machine).channels, (fixed machine).truth⟩, ?_⟩
  intro simulation
  have agrees : simulation.Agrees := (agrees_of_new made).performAll operations
  have same : simulation.setup = setup := by
    obtain ⟨sound, rfl⟩ := eq_of_new made
    exact setup_performAll _ operations
  refine ⟨agrees.copies, fun now course => ?_⟩
  have refreshed := agrees.channels_refresh course
  rw [same] at refreshed
  refine ⟨refreshed, fun pilot loaded => ⟨?_, fun count machine turns => turns.fixed.sensors⟩⟩
  show (simulation.pilot.map (·.withSensors (simulation.refresh course).channels)).map
    (·.tick now) = _
  rw [loaded, refreshed]
  rfl

/-- A robot with two sensors for the same channel, on a white course with a black spot where the
second one looks once the robot has been moved by hand between two ticks. After the second tick the
program holds what the robot has read from its new place: black, and zero in a channel without a
sensor. -/
theorem sensors_performAll_spot :
    let setup : Setup := { mounts := [⟨2, 0, 10⟩, ⟨2, 1, 20⟩] }
    let course : Course := ⟨fun x y =>
      if x = 3 + (0 + 1 : Float).cos * 20 ∧
        y = 0 + (0 + 1 : Float).sin * 20 then some (Color.gray 0)
      else some (Color.gray 255)⟩
    let source := "void user_main(void) \x7b while (TRUE) \x7b gV[0] = gAD[CN2]; \x7d \x7d"
    ∃ robot, new setup = .ok robot ∧
      let before := robot.performAll [.start source {}, .tick 0 course, .setPose { x := 3 }]
      let after := before.tick 1 course
      after.channels[2] = 1023 ∧ after.channels[5] = 0 ∧
        ∃ pilot, after.pilot = some pilot ∧ pilot.task.machine.memory.sensors = after.channels := by
  intro setup course source
  have made := new_of_isSound (show setup.IsSound by decide +kernel)
  refine ⟨_, made, ?_⟩
  intro before after
  let operations : List Operation := [.start source {}, .tick 0 course, .setPose { x := 3 }]
  have seen : after.channels = setup.view course before.pose :=
    ((sensors_performAll made operations).2.2 1 course).1
  have place : before.pose = { x := 3 } := rfl
  have black : setup.calibration.reading (some (Color.gray 0)) = 1023 := by decide +kernel
  have spot : course.sample (3 + (0 + 1 : Float).cos * 20) (0 + (0 + 1 : Float).sin * 20) =
      some (Color.gray 0) := if_pos ⟨rfl, rfl⟩
  have loaded : after.pilot.isSome = true := by decide +kernel
  obtain ⟨pilot, loaded⟩ := Option.isSome_iff_exists.mp loaded
  refine ⟨?_, ?_, pilot, loaded,
    (sensors_performAll made [.start source {}, .tick 0 course, .setPose { x := 3 },
      .tick 1 course]).2.1
      pilot loaded⟩
  · rw [seen, place]
    exact (congrArg setup.calibration.reading spot).trans black
  · rw [seen, place]
    rfl

end Simulation

end LineRobot
