import LineRobot.Proofs.Machine.Safety

/-! # The course of a resume

Between two suspensions a program makes turns: instructions after each of which it goes on
(`Machine.Turns`). A resume is a number of turns within its budget and then one instruction that
stops the program, a fault, or the end (`Machine.Applies`).

What a turn does to the frames is one of three things (`Machine.FramesAfter`): the innermost call
goes on at a follower of its instruction, it calls a function, or it is left. -/

namespace LineRobot

namespace Machine

variable {machine : Machine} {frame : Frame} {callers : List Frame} {placed : Placed}
  {instruction : Instruction} {turn : Turn} {index : Nat}

/-! ## Frames -/

/-- An instruction that comes next is that at the counter of the innermost frame. -/
theorem exists_of_fetch_ready (fetched : machine.fetch = .ready frame callers placed) :
    ∃ current code, machine.frames = current :: callers ∧
      machine.program.function? current.function = some code ∧
        code.body[current.counter]? = some placed ∧
          frame = current.jump (current.counter + 1) := by
  unfold fetch at fetched
  split at fetched
  case h_1 => cases fetched
  case h_2 current others frames =>
    split at fetched
    case h_1 => cases fetched
    case h_2 code found =>
      split at fetched
      case h_1 => cases fetched
      case h_2 here =>
        cases fetched
        exact ⟨current, code, frames, found, here, rfl⟩

/-- The frames after an instruction at an index, in the given innermost frame, whose counter is
already at the next one. -/
inductive FramesAfter (machine : Machine) (frame : Frame) (callers : List Frame) (index : Nat)
    (instruction : Instruction) : List Frame → Prop
  /-- The call goes on at a follower of the instruction. -/
  | within {after : Frame} :
      SameCall after frame → after.counter ∈ instruction.followers index →
      FramesAfter machine frame callers index instruction (after :: callers)
  /-- A function is called. -/
  | entered {function count base : Nat} {code : Code} {arguments : List Float} :
      instruction = .call function count → machine.program.function? function = some code →
      callers.length + 1 < machine.limits.depth →
      FramesAfter machine frame callers index instruction
        (Frame.enter function code arguments base :: frame :: callers)
  /-- The call is left. -/
  | left : instruction = .giveBack → FramesAfter machine frame callers index instruction callers

/-- **What an instruction does to the frames.** -/
theorem framesAfter_of_execute (counter : frame.counter = index + 1)
    (executed : machine.execute frame callers instruction = .ok turn) :
    FramesAfter machine frame callers index instruction turn.machine.frames := by
  cases execute_eq_ok_iff.mp executed with
  | call called =>
      obtain ⟨code, found, -, shallow, -, rfl⟩ := exists_of_call called
      exact .entered rfl found shallow
  | giveBack _ around =>
      subst around
      exact .left rfl
  | finish _ last =>
      subst last
      exact .left rfl
  | _ =>
      -- any other instruction stays in its frame
      obtain ⟨-, after, frames, same, follows⟩ :=
        execute_within counter (by nofun) (by nofun) executed
      rw [frames]
      exact .within same follows

/-! ## Turns -/

/-- A number of instructions after each of which the program goes on. -/
inductive Turns : Nat → Machine → Machine → Prop
  /-- No instruction. -/
  | none {machine : Machine} : Turns 0 machine machine
  /-- One instruction, and then others. -/
  | next {count : Nat} {machine middle last : Machine} {frame : Frame} {callers : List Frame}
      {placed : Placed} :
      machine.fetch = .ready frame callers placed →
      machine.execute frame callers placed.instruction = .ok (.next middle) →
      Turns count middle last → Turns (count + 1) machine last

/-- What a resume gives if it applies the effects of a number of instructions and of no more. -/
inductive Applies (machine : Machine) : Nat → Outcome × Machine → Prop
  /-- The last one stops the program. -/
  | stop {count : Nat} {last after : Machine} {frame : Frame} {callers : List Frame}
      {placed : Placed} {outcome : Outcome} :
      machine.Turns count last → last.fetch = .ready frame callers placed →
      last.execute frame callers placed.instruction = .ok (.stop outcome after) →
      Applies machine (count + 1) (outcome, after)
  /-- The program faults instead of another one. -/
  | fault {count : Nat} {last : Machine} {cause : FaultCause} {position : Position} :
      machine.Turns count last → Applies machine count (last.fault cause position)
  /-- The program is over. -/
  | finished {count : Nat} {last : Machine} :
      machine.Turns count last → last.frames = [] → Applies machine count (.completed, last)

/-- One more instruction at the beginning. -/
theorem Applies.next {count : Nat} {middle : Machine} {result : Outcome × Machine}
    (fetched : machine.fetch = .ready frame callers placed)
    (executed : machine.execute frame callers placed.instruction = .ok (.next middle))
    (applies : middle.Applies count result) : machine.Applies (count + 1) result := by
  cases applies with
  | stop turns fetchedLast executedLast =>
      exact .stop (.next fetched executed turns) fetchedLast executedLast
  | fault turns => exact .fault (.next fetched executed turns)
  | finished turns ended => exact .finished (.next fetched executed turns) ended

/-- **A resume applies the effects of no more instructions than its budget allows.** -/
theorem exists_applies_run (machine : Machine) (budget : Nat) :
    ∃ count, count ≤ budget ∧ machine.Applies count (machine.run budget) := by
  have runs := machine.runs_run budget
  generalize machine.run budget = result at runs ⊢
  induction runs with
  | halted fetched => exact ⟨0, Nat.zero_le _, .finished .none (frames_of_fetch_halted fetched)⟩
  | missing | exhausted | fails => exact ⟨0, Nat.zero_le _, .fault .none⟩
  | stops fetched executed => exact ⟨1, Nat.le_add_left 1 _, .stop .none fetched executed⟩
  | next fetched executed _ ih =>
      obtain ⟨count, within, applies⟩ := ih
      exact ⟨count + 1, Nat.succ_le_succ within, applies.next fetched executed⟩

/-- No instruction fails for the budget. -/
theorem execute_ne_stepBudgetExceeded (limit : Nat) :
    machine.execute frame callers instruction ≠ .error (.stepBudgetExceeded limit) := by
  intro fails
  cases execute_eq_error_iff.mp fails with
  | call failed => rcases cause_of_call failed with same | ⟨_, _, same⟩ | same <;> cases same

/-- A program that can make only fewer turns than the budget allows does not exceed it. -/
theorem run_ne_stepBudgetExceeded {budget bound : Nat} (enough : bound ≤ budget)
    (bounded : ∀ count last, machine.Turns count last → count < bound) (limit : Nat)
    (position : Position) :
    (machine.run budget).1 ≠ .faulted ⟨.stepBudgetExceeded limit, position⟩ := by
  have runs := machine.runs_run budget
  generalize machine.run budget = result at runs ⊢
  induction runs generalizing bound with
  | halted | missing => exact nofun
  | exhausted => exact absurd (bounded 0 _ .none) (by omega)
  | fails fetched failed =>
      intro same
      cases same
      exact execute_ne_stepBudgetExceeded limit failed
  | stops fetched executed =>
      intro same
      rcases frames_of_stop executed with ⟨suspension, rfl⟩ | ⟨rfl, -⟩ <;> cases same
  | @next _ middle _ _ _ _ _ fetched executed _ ih =>
      have fewer (count : Nat) (last : Machine) (turns : middle.Turns count last) :
          count < bound - 1 := by
        have one := bounded (count + 1) last (.next fetched executed turns)
        omega
      exact ih (by omega) fewer

end Machine

end LineRobot
