import LineRobot.Proofs.Machine.Turns
import LineRobot.Proofs.Task.Schedule

/-! # How tasks end

A resume leaves frames behind just if the program has suspended itself (`Machine.leaves_run`). So
the task of a program that has completed, or has faulted in a resume, holds a machine that is over.
There is one more way to fault: the program asks for a finite wait, and the task finds it too long.
Then the machine keeps its frames. `Task.isFinished_performAll` says that this is the only
difference between a task that has ended and one whose machine is over;
`Task.isFinished_performAll_overlong` is such a task. -/

namespace LineRobot

/-- Whether a program has faulted because it has asked for a finite wait, which was too long. -/
def TaskState.isOverlong : TaskState → Bool
  | .faulted ⟨.invalidWait duration, _⟩ => duration.isFinite
  | _ => false

namespace Machine

variable {machine : Machine} {frame : Frame} {callers : List Frame} {instruction : Instruction}

/-- What a resume leaves behind: frames if the program has suspended itself, which it only does for
finite times, and none if it has stopped in another way. It does not fault for a finite wait. -/
def Leaves : Outcome → Machine → Prop
  | .suspended .tick, machine => machine.frames ≠ []
  | .suspended (.wait duration), machine => machine.frames ≠ [] ∧ duration.isFinite = true
  | .completed, machine => machine.frames = []
  | .faulted fault, machine =>
      machine.frames = [] ∧ (TaskState.faulted fault).isOverlong = false

/-- An instruction that stops the program leaves behind what it should. -/
theorem leaves_of_stop {outcome : Outcome} {after : Machine}
    (executed : machine.execute frame callers instruction = .ok (.stop outcome after)) :
    Leaves outcome after := by
  cases execute_eq_ok_iff.mp executed with
  | finish => exact rfl
  | tick => exact List.cons_ne_nil frame callers
  | wait _ finite => exact ⟨List.cons_ne_nil frame callers, finite⟩

/-- No instruction fails for a finite wait. -/
theorem isOverlong_of_error {cause : FaultCause} (position : Position)
    (fails : machine.execute frame callers instruction = .error cause) :
    (TaskState.faulted ⟨cause, position⟩).isOverlong = false := by
  cases execute_eq_error_iff.mp fails with
  | wait _ infinite => exact Bool.eq_false_iff.mpr infinite
  | call failed => rcases cause_of_call failed with rfl | ⟨_, _, rfl⟩ | rfl <;> rfl
  | _ => rfl

/-- **A resume leaves frames behind just if the program has suspended itself.** -/
theorem leaves_run (machine : Machine) (budget : Nat) :
    Leaves (machine.run budget).1 (machine.run budget).2 := by
  have runs := machine.runs_run budget
  generalize machine.run budget = result at runs ⊢
  induction runs with
  | halted fetched => exact frames_of_fetch_halted fetched
  | missing | exhausted => exact ⟨rfl, rfl⟩
  | fails _ failed => exact ⟨rfl, isOverlong_of_error _ failed⟩
  | stops _ executed => exact leaves_of_stop executed
  | next _ _ _ ih => exact ih

/-- Each frame of a machine is that of a function of its program. -/
theorem Reachable.exists_function {program : Program} {memory : Memory} {limits : Limits}
    (reachable : Reachable program memory limits machine) :
    ∀ frame ∈ machine.frames, ∃ code, machine.program.function? frame.function = some code := by
  induction reachable with
  | start =>
      intro frame member
      rw [List.mem_singleton.mp member]
      exact ⟨program.entry, rfl⟩
  | write _ _ ih => exact ih
  | fault => exact fun frame member => absurd member List.not_mem_nil
  | @execute machine frame callers placed turn before fetched executed ih =>
      obtain ⟨current, code, frames, found, -, rfl⟩ := exists_of_fetch_ready fetched
      rw [frames] at ih
      have callersHave := fun frame member => ih frame (List.mem_cons_of_mem current member)
      have moved := framesAfter_of_execute
        (rfl : (current.jump (current.counter + 1)).counter = current.counter + 1) executed
      rw [(execute_fixed executed).program]
      generalize turn.machine.frames = framesAfter at moved ⊢
      cases moved with
      | within same =>
          refine List.forall_mem_cons.mpr ⟨⟨code, ?_⟩, callersHave⟩
          rw [same.function]
          exact found
      | entered _ called =>
          exact List.forall_mem_cons.mpr
            ⟨⟨_, called⟩, List.forall_mem_cons.mpr ⟨⟨code, found⟩, callersHave⟩⟩
      | left => exact callersHave

/-- A machine is at no place of its program just if it is over. -/
theorem Reachable.position?_eq_none_iff {program : Program} {memory : Memory} {limits : Limits}
    (reachable : Reachable program memory limits machine) :
    machine.position? = none ↔ machine.isFinished = true := by
  unfold position? isFinished
  cases frames : machine.frames with
  | nil => exact ⟨fun _ => rfl, fun _ => rfl⟩
  | cons frame callers =>
      obtain ⟨code, found⟩ :=
        reachable.exists_function frame (by rw [frames]; exact List.mem_cons_self)
      simp [found]

end Machine

namespace Task

/-- A task and its machine end as one: the machine is over just if the task has ended, and not for a
wait that was too long. -/
def EndsAsOne (task : Task) : Prop :=
  task.machine.isFinished = true ↔ task.state.isTerminal = true ∧ task.state.isOverlong = false

/-- A machine with frames is not over. -/
theorem endsAsOne_of_frames {task : Task} (frames : task.machine.frames ≠ [])
    (goesOn : task.state.isTerminal = true → task.state.isOverlong = true) : task.EndsAsOne := by
  refine ⟨fun finished => absurd (List.isEmpty_iff.mp finished) frames,
    fun ⟨ended, notOverlong⟩ => ?_⟩
  rw [goesOn ended] at notOverlong
  cases notOverlong

/-- A machine without frames is over. -/
theorem endsAsOne_of_frames_eq_nil {task : Task} (frames : task.machine.frames = [])
    (ended : task.state.isTerminal = true) (notOverlong : task.state.isOverlong = false) :
    task.EndsAsOne :=
  ⟨fun _ => ⟨ended, notOverlong⟩, fun _ => List.isEmpty_iff.mpr frames⟩

/-- A task that begins to wait for a finite time ends just if that is too long. -/
theorem isTerminal_waitState (machine : Machine) (now : Nat) {duration : Float}
    (finite : duration.isFinite = true) :
    (waitState machine now duration).isTerminal = (waitState machine now duration).isOverlong := by
  unfold waitState
  split
  case isTrue => rfl
  case isFalse =>
    split
    case h_1 => rfl
    case h_2 => exact finite.symm

/-- After a resume a task and its machine end as one. -/
theorem endsAsOne_advance (task : Task) (now : Nat) : (task.advance now).EndsAsOne := by
  have leaves := task.machine.leaves_run task.machine.limits.instructions
  have state : (task.advance now).state =
      stateAfter now task.machine.resume.1 task.machine.resume.2 := rfl
  change Machine.Leaves task.machine.resume.1 (task.advance now).machine at leaves
  cases outcome : task.machine.resume.1 with
  | completed =>
      rw [outcome] at leaves state
      exact endsAsOne_of_frames_eq_nil leaves (by rw [state]; rfl) (by rw [state]; rfl)
  | faulted fault =>
      rw [outcome] at leaves state
      refine endsAsOne_of_frames_eq_nil leaves.1 (by rw [state]; rfl) ?_
      rw [state]
      exact leaves.2
  | suspended suspension =>
      rw [outcome] at leaves state
      cases suspension with
      | tick => exact endsAsOne_of_frames leaves (by rw [state]; exact nofun)
      | wait duration =>
          refine endsAsOne_of_frames leaves.1 ?_
          rw [state]
          exact fun ended => (isTerminal_waitState _ now leaves.2).symm.trans ended

/-- Whatever a host does, a task and its machine end as one. -/
theorem EndsAsOne.performAll {task : Task} (endsAsOne : task.EndsAsOne)
    (actions : List HostAction) :
    (task.performAll actions).EndsAsOne :=
  performAll_preserves task EndsAsOne (fun _ _ still => still)
    (fun task now _ => endsAsOne_advance task now) endsAsOne actions

/-- A host brings the machine of a task only to states that it can reach. -/
theorem reachable_performAll {program : Program} {memory : Memory} {limits : Limits} {task : Task}
    (reachable : Machine.Reachable program memory limits task.machine) (actions : List HostAction) :
    Machine.Reachable program memory limits (task.performAll actions).machine :=
  performAll_preserves task (fun task => Machine.Reachable program memory limits task.machine)
    (fun _ _ before => before.write _) (fun _ _ before => before.run _) reachable actions

/-- **A task that has ended holds a machine that is over, unless it has faulted for a wait that is
too long.** Let a host give any actions to the task of a program that has not begun. Then the
machine is over just if the task has completed or faulted, but not for a finite wait. A machine that
is over is one that has no frames, and one that is at no place of its program. -/
theorem isFinished_performAll (program : Program) (memory : Memory) (limits : Limits)
    (actions : List HostAction) :
    let task := (Task.start (Machine.start program memory limits)).performAll actions
    (task.machine.isFinished = true ↔
      task.state.isTerminal = true ∧ task.state.isOverlong = false) ∧
    (task.machine.isFinished = true ↔ task.machine.depth = 0) ∧
    (task.machine.isFinished = true ↔ task.machine.position? = none) := by
  intro task
  have begins : (Task.start (Machine.start program memory limits)).EndsAsOne :=
    endsAsOne_of_frames (List.cons_ne_nil _ _) nofun
  have reachable : Machine.Reachable program memory limits task.machine :=
    reachable_performAll .start actions
  refine ⟨begins.performAll actions, ?_, reachable.position?_eq_none_iff.symm⟩
  rw [Machine.isFinished, Machine.depth, List.isEmpty_iff, List.length_eq_zero_iff]

/-- A program that asks for a wait of `1e300` milliseconds. Its task has faulted, but its machine
still stands at the wait. -/
theorem isFinished_performAll_overlong :
    let source := "void user_main(void) \x7b wait_ms(1e300); \x7d"
    ∃ program, Program.compile source = .ok program ∧
      let task := (Task.start (Machine.start program {} {})).performAll [.tick 0]
      task.state.isTerminal = true ∧ task.machine.isFinished = false ∧ task.machine.depth = 1 ∧
        task.machine.position? = some ⟨1, 24⟩ := by
  intro source
  have seen : ((Program.compile source).toOption.map fun program =>
      let task := (Task.start (Machine.start program {} {})).performAll [.tick 0]
      (task.state.isTerminal, task.machine.isFinished, task.machine.depth,
        task.machine.position?)) =
        some (true, false, 1, some ⟨1, 24⟩) := by decide +kernel
  cases compiled : Program.compile source with
  | error rejection =>
      rw [compiled] at seen
      cases seen
  | ok program =>
      rw [compiled] at seen
      simp only [Except.toOption, Option.map_some, Option.some.injEq, Prod.mk.injEq] at seen
      exact ⟨program, rfl, seen⟩

end Task

end LineRobot
