import LineRobot.Machine.Task
import LineRobot.Proofs.Machine.Turn

/-! # Commands that are not taken away

A program gives commands to the motors and never reads them. So it does the same whether the
commands given earlier have been taken away or not; if they have not, they lie below its own
(`Machine.run_withEarlier`, `Task.tick_withEarlier`). -/

namespace LineRobot

/-- The memory with commands given before all those that it has. -/
def Memory.withEarlier (memory : Memory) (earlier : List MotorCommand) : Memory :=
  { memory with commands := memory.commands ++ earlier }

/-- The machine with commands given before all those that it has given. -/
def Machine.withEarlier (machine : Machine) (earlier : List MotorCommand) : Machine :=
  machine.withMemory (machine.memory.withEarlier earlier)

/-- What an instruction does with commands given before. -/
def Turn.withEarlier (earlier : List MotorCommand) : Turn → Turn
  | .next machine => .next (machine.withEarlier earlier)
  | .stop outcome machine => .stop outcome (machine.withEarlier earlier)

namespace Machine

variable (machine : Machine) (frame : Frame) (callers : List Frame) (earlier : List MotorCommand)

/-- A call does not read the commands. -/
theorem call_withEarlier (function count : Nat) :
    (machine.withEarlier earlier).call frame callers function count =
      (machine.call frame callers function count).map (·.withEarlier earlier) := by
  obtain ⟨program, limits, memory, frames, stack⟩ := machine
  unfold call withEarlier withMemory
  dsimp only
  split
  case h_1 => rfl
  case h_2 =>
    split
    · rfl
    · split
      · rfl
      · split <;> rfl

/-- No instruction reads the commands. -/
theorem execute_withEarlier (instruction : Instruction) :
    (machine.withEarlier earlier).execute frame callers instruction =
      (machine.execute frame callers instruction).map (Turn.withEarlier earlier) := by
  by_cases isCall : ∃ function count, instruction = .call function count
  · obtain ⟨function, count, rfl⟩ := isCall
    show ((machine.withEarlier earlier).call frame callers function count >>=
      fun machine => .ok (Turn.next machine)) = _
    rw [call_withEarlier]
    show _ = (machine.call frame callers function count >>=
      fun machine => .ok (Turn.next machine)).map (Turn.withEarlier earlier)
    cases machine.call frame callers function count <;> rfl
  rcases machine.does_or_refuses frame callers instruction with ⟨turn, does⟩ | ⟨cause, refuses⟩
  · rw [does.execute_eq]
    refine Does.execute_eq ?_
    cases does with
    | call => exact absurd ⟨_, _, rfl⟩ isCall
    | _ => constructor <;> assumption
  · rw [refuses.execute_eq]
    refine Refuses.execute_eq ?_
    cases refuses with
    | operands noCall few => exact .operands noCall few
    | load missing => exact .load missing
    | store outside => exact .store outside
    | changeLocal missing => exact .changeLocal missing
    | call => exact absurd ⟨_, _, rfl⟩ isCall
    | _ => constructor <;> assumption

/-- **A program does the same with commands given before**, and leaves them below its own. -/
theorem run_withEarlier (budget : Nat) :
    (machine.withEarlier earlier).run budget =
      ((machine.run budget).1, (machine.run budget).2.withEarlier earlier) := by
  have runs := machine.runs_run budget
  generalize machine.run budget = result at runs ⊢
  refine Runs.run_eq ?_
  induction runs with
  | halted fetched => exact .halted fetched
  | missing fetched => exact .missing fetched
  | exhausted fetched => exact .exhausted fetched
  | fails fetched failed =>
      refine .fails fetched ?_
      rw [execute_withEarlier, failed]
      rfl
  | stops fetched executed =>
      refine .stops fetched ?_
      rw [execute_withEarlier, executed]
      rfl
  | next fetched executed _ ih =>
      refine .next fetched ?_ ih
      rw [execute_withEarlier, executed]
      rfl

end Machine

namespace Task

variable (task : Task)

/-- The task with commands given before all those that its program has given. -/
def withEarlier (earlier : List MotorCommand) : Task :=
  task.withMemory (task.machine.memory.withEarlier earlier)

/-- The task with the commands taken away. -/
def withoutCommands : Task :=
  task.withMemory task.machine.memory.withoutCommands

/-- Commands are taken away and put back. -/
theorem withEarlier_withoutCommands :
    task.withoutCommands.withEarlier task.machine.memory.commands = task :=
  rfl

/-- Commands given before are taken away with the others. -/
@[simp] theorem withoutCommands_withEarlier (earlier : List MotorCommand) :
    (task.withEarlier earlier).withoutCommands = task.withoutCommands :=
  rfl

/-- How a task stands after a resume does not depend on the commands given before. -/
theorem stateAfter_withEarlier (now : Nat) (outcome : Outcome) (machine : Machine)
    (earlier : List MotorCommand) :
    stateAfter now outcome (machine.withEarlier earlier) = stateAfter now outcome machine := by
  rcases outcome with (_ | duration) | _ | fault <;> rfl

/-- **A tick does the same with commands given before**, and leaves them below those of the
program. -/
theorem tick_withEarlier (earlier : List MotorCommand) (now : Nat) :
    (task.withEarlier earlier).tick now = (task.tick now).withEarlier earlier := by
  have same : (task.withEarlier earlier).isDue now = task.isDue now := rfl
  have resumed : (task.machine.withEarlier earlier).resume =
      (task.machine.resume.1, task.machine.resume.2.withEarlier earlier) :=
    task.machine.run_withEarlier earlier task.machine.limits.instructions
  unfold tick
  rw [same]
  split
  case isTrue =>
    show (⟨(task.machine.withEarlier earlier).resume.2,
      stateAfter now (task.machine.withEarlier earlier).resume.1
        (task.machine.withEarlier earlier).resume.2, task.resumes + 1⟩ : Task) = _
    rw [resumed]
    dsimp only
    rw [stateAfter_withEarlier]
    rfl
  case isFalse => rfl

end Task

end LineRobot
