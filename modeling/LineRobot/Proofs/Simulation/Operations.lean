import LineRobot.Simulation
import LineRobot.Proofs.Machine.Turn
import LineRobot.Proofs.Task.Schedule

/-! # Simulations under a host

What a host may do to a simulation is an `Operation`, and `Simulation.performAll` does one after the
other. A host that only ticks, refreshes the sensors and moves the robot by hand lets a program go
on (`Operation.keepsProgram`); what the task of that program sees of it is given by
`Simulation.actionsOf`. -/

namespace LineRobot

namespace Simulation

/-- What a host does to a simulation. -/
inductive Operation where
  /-- A source is compiled and started at a pose. -/
  | start (source : String) (pose : Pose)
  /-- A program is started at a pose. -/
  | startProgram (program : Program) (pose : Pose)
  /-- A tick at a time, in nanoseconds, on a course. -/
  | tick (now : Nat) (course : Course)
  /-- The sensors are read on a course. -/
  | refresh (course : Course)
  /-- The program is discarded. -/
  | stop
  /-- The program is discarded, and the robot goes back to where it was started. -/
  | reset
  /-- The robot is moved by hand. -/
  | setPose (pose : Pose)

/-- Whether an operation lets the program go on. -/
def Operation.keepsProgram : Operation → Bool
  | .tick _ _ => true
  | .refresh _ => true
  | .setPose _ => true
  | _ => false

/-- The simulation after an operation. -/
def perform (simulation : Simulation) : Operation → Simulation
  | .start source pose => (simulation.start source pose).2
  | .startProgram program pose => simulation.startProgram program pose
  | .tick now course => simulation.tick now course
  | .refresh course => simulation.refresh course
  | .stop => simulation.stop
  | .reset => simulation.reset
  | .setPose pose => simulation.setPose pose

/-- The simulation after operations. -/
def performAll (simulation : Simulation) (operations : List Operation) : Simulation :=
  operations.foldl perform simulation

section Run

variable (simulation : Simulation)

@[simp] theorem performAll_nil : simulation.performAll [] = simulation := rfl

@[simp] theorem performAll_cons (operation : Operation) (later : List Operation) :
    simulation.performAll (operation :: later) = (simulation.perform operation).performAll later :=
  rfl

/-- Operations one after the other are performed one after the other. -/
theorem performAll_append (first later : List Operation) :
    simulation.performAll (first ++ later) = (simulation.performAll first).performAll later :=
  List.foldl_append ..

/-- A source that is rejected leaves a simulation without a program, and the robot as it was. -/
theorem start_of_rejected {source : String} {rejection : Rejection}
    (rejected : Program.compile source = .error rejection) (pose : Pose) :
    simulation.start source pose = (.error rejection, { simulation with pilot := none }) := by
  rw [start, rejected]

/-- A source that is accepted is started as its program is. -/
theorem start_of_accepted {source : String} {program : Program}
    (accepted : Program.compile source = .ok program) (pose : Pose) :
    simulation.start source pose = (.ok (), simulation.startProgram program pose) := by
  rw [start, accepted]
  rfl

/-- A start that succeeds is that of an accepted source. -/
theorem exists_of_start_ok {source : String} {pose : Pose}
    (started : (simulation.start source pose).1 = .ok ()) :
    ∃ program, Program.compile source = .ok program := by
  cases compiled : Program.compile source with
  | ok program => exact ⟨program, rfl⟩
  | error rejection =>
      rw [start_of_rejected simulation compiled] at started
      cases started

/-- A source is started as its program is, or the program from before is discarded and all else is
as it was. -/
theorem perform_start (source : String) (pose : Pose) :
    (∃ program, simulation.perform (.start source pose) = simulation.startProgram program pose) ∨
      (∃ rejection, Program.compile source = .error rejection) ∧
        simulation.perform (.start source pose) = { simulation with pilot := none } := by
  cases compiled : Program.compile source with
  | ok program =>
      exact .inl ⟨program, congrArg Prod.snd (start_of_accepted simulation compiled pose)⟩
  | error rejection =>
      exact .inr ⟨⟨rejection, rfl⟩, congrArg Prod.snd (start_of_rejected simulation compiled pose)⟩

/-- No operation changes the setup. -/
@[simp] theorem setup_perform (operation : Operation) :
    (simulation.perform operation).setup = simulation.setup := by
  cases operation with
  | start source pose =>
      rcases simulation.perform_start source pose with ⟨program, after⟩ | ⟨-, after⟩ <;> rw [after]
      rfl
  | startProgram | tick | refresh | stop | reset | setPose => rfl

/-- No operations change the setup. -/
@[simp] theorem setup_performAll (operations : List Operation) :
    (simulation.performAll operations).setup = simulation.setup := by
  induction operations generalizing simulation with
  | nil => rfl
  | cons operation later ih => rw [performAll_cons, ih, setup_perform]

end Run

/-- There is a robot with a setup that is sound. -/
theorem new_of_isSound {setup : Setup} (sound : setup.IsSound) :
    new setup = .ok { setup, sound } := by
  unfold new
  split
  case h_1 flaw found => exact nomatch found.symm.trans sound
  case h_2 => rfl

/-- A new simulation has the given setup, no program, and a robot that has not been moved. -/
theorem eq_of_new {setup : Setup} {simulation : Simulation} (made : new setup = .ok simulation) :
    ∃ sound : setup.IsSound, simulation = { setup, sound } := by
  unfold new at made
  split at made
  case h_1 => cases made
  case h_2 found => exact ⟨found, (Except.ok.inj made).symm⟩

end Simulation

end LineRobot
