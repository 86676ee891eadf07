import LineRobot.Machine.Basic

/-! # Machines resumed by hand

A host resumes a machine again and again and may change the sensor channels in between. What it does
before each resume is given by a *script*, the contents of the sensor channels at the resumes to
come; `Machine.resumeAll` lists what the resumes give. Only the contents in force at a resume
matter, not how they got there (`Machine.resumeAll_withSensors`), and what a resume gives does not
depend on the part of the script that comes after it (`Machine.resumeAll_take`). -/

namespace LineRobot

/-- What a host sees of one resume. -/
structure Observation where
  /-- How the program stopped. -/
  outcome : Outcome
  /-- The variable slots then. -/
  slots : Cells
  /-- All commands given to the motors until then, the latest first. -/
  commands : List MotorCommand
deriving DecidableEq

namespace Machine

/-- The machine with the given contents of the sensor channels. -/
def withSensors (machine : Machine) (channels : Cells) : Machine :=
  machine.withMemory { machine.memory with sensors := channels }

/-- Contents of the sensor channels that are replaced do not matter. -/
@[simp] theorem withSensors_withSensors (machine : Machine) (earlier later : Cells) :
    (machine.withSensors earlier).withSensors later = machine.withSensors later :=
  rfl

/-- Putting in the contents that are there changes nothing. -/
@[simp] theorem withSensors_self (machine : Machine) :
    machine.withSensors machine.memory.sensors = machine :=
  rfl

/-- How the program stops at each resume of a script, and the machine then. -/
def resumeAll (machine : Machine) : (script : List Cells) → List (Outcome × Machine)
  | [] => []
  | channels :: later =>
      let result := (machine.withSensors channels).resume
      result :: result.2.resumeAll later

/-- What a host sees when a resume has given an outcome and a machine. -/
def observation (result : Outcome × Machine) : Observation :=
  ⟨result.1, result.2.memory.slots, result.2.memory.commands⟩

/-- What a host sees at each resume of a script. -/
def observations (machine : Machine) (script : List Cells) : List Observation :=
  (machine.resumeAll script).map observation

/-- Every resume of a script gives one result. -/
@[simp] theorem length_resumeAll (machine : Machine) (script : List Cells) :
    (machine.resumeAll script).length = script.length := by
  induction script generalizing machine with
  | nil => rfl
  | cons channels later ih => rw [resumeAll, List.length_cons, List.length_cons, ih]

/-- A script says all about the sensor channels: what they hold before it begins does not matter. -/
@[simp] theorem resumeAll_withSensors (machine : Machine) (channels : Cells) (script : List Cells) :
    (machine.withSensors channels).resumeAll script = machine.resumeAll script := by
  cases script with
  | nil => rfl
  | cons first later => rw [resumeAll, resumeAll, withSensors_withSensors]

/-- A program that is over only reports its end. -/
theorem resume_of_halted {machine : Machine} (halted : machine.frames = []) :
    machine.resume = (.completed, machine) := by
  have fetched : machine.fetch = .halted := by rw [fetch, halted]
  rw [resume, run, fetched]

/-- A program that is over reports its end at every resume. -/
theorem observations_of_halted {machine : Machine} (halted : machine.frames = [])
    (script : List Cells) :
    machine.observations script =
      script.map fun _ => ⟨.completed, machine.memory.slots, machine.memory.commands⟩ := by
  induction script generalizing machine with
  | nil => rfl
  | cons channels later ih =>
      have resumed : (machine.withSensors channels).resume =
          (.completed, machine.withSensors channels) := resume_of_halted halted
      have rest : (machine.withSensors channels).observations later = _ := ih halted
      rw [observations, resumeAll, resumed, List.map_cons, List.map_cons]
      exact congrArg _ rest

/-- The first resumes of a script give what the script of these resumes alone gives. -/
theorem resumeAll_take (machine : Machine) (script : List Cells) (count : Nat) :
    machine.resumeAll (script.take count) = (machine.resumeAll script).take count := by
  induction count generalizing machine script with
  | zero => rw [List.take_zero, List.take_zero, resumeAll]
  | succ count ih =>
      cases script with
      | nil => rfl
      | cons channels later =>
          rw [List.take_succ_cons, resumeAll, resumeAll, List.take_succ_cons, ih]

end Machine

end LineRobot
