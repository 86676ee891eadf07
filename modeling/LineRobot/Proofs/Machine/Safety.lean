import LineRobot.Proofs.Code.Compiled
import LineRobot.Proofs.Machine.Balance
import LineRobot.Proofs.Machine.Script

/-! # Compiled programs are safe to run

A machine of a compiled program is balanced at its start, and all that happens to it keeps it so.
Hence in each state that it can reach, in the middle of a resume or between two, it finds the
operands, locals and functions that its instructions name, and it leaves nothing on the operand
stack when it stops (`Program.safe_of_compile`). -/

namespace LineRobot

namespace Machine

/-- The states of a machine that runs a program from its start: those after each instruction, those
after a fault for whatever reason, and those in which the host has replaced the memory that it
shares with the program, such as the contents of the sensor channels. -/
inductive Reachable (program : Program) (memory : Memory) (limits : Limits) : Machine → Prop
  /-- The program has not begun. -/
  | start : Reachable program memory limits (Machine.start program memory limits)
  /-- The host has written to the memory. -/
  | write {machine : Machine} (shared : Memory) :
      Reachable program memory limits machine →
      Reachable program memory limits (machine.withMemory shared)
  /-- An instruction has been executed. -/
  | execute {machine : Machine} {frame : Frame} {callers : List Frame} {placed : Placed}
      {turn : Turn} :
      Reachable program memory limits machine → machine.fetch = .ready frame callers placed →
      machine.execute frame callers placed.instruction = .ok turn →
      Reachable program memory limits turn.machine
  /-- The program has ended by a fault. -/
  | fault {machine : Machine} (cause : FaultCause) (position : Position) :
      Reachable program memory limits machine →
      Reachable program memory limits (machine.fault cause position).2

/-- Nothing is left of a program that is over. -/
def IsEmpty (machine : Machine) : Prop :=
  machine.frames = [] ∧ machine.stack = []

/-- What holds after a resume. A suspended program has no operand of its innermost frame on the
stack; one that has come to its end is empty; one that faults is empty, too, and does so for another
reason than that its code is not well-formed. -/
def Settles : Outcome → Machine → Prop
  | .suspended _, machine =>
      ∃ frame callers, machine.frames = frame :: callers ∧ machine.stack.length = frame.base
  | .completed, machine => machine.IsEmpty
  | .faulted fault, machine => machine.IsEmpty ∧ fault.cause.isMalformed = false

/-- A machine that can run on safely. -/
structure Safe (machine : Machine) : Prop where
  /-- Each frame stands at an instruction of its function, all of whose instructions name locals
  that the frame has, and functions that exist with the number of arguments that they have. -/
  frames : ∀ frame ∈ machine.frames, ∃ code,
    machine.program.function? frame.function = some code ∧ frame.counter < code.size ∧
      ∀ (index : Nat) (placed : Placed), code.body[index]? = some placed →
        placed.instruction.Refers machine.program frame.locals.size
  /-- The next instruction finds its operands among those of its own frame. -/
  operands : ∀ frame callers placed, machine.fetch = .ready frame callers placed →
    frame.base + placed.instruction.operands ≤ machine.stack.length
  /-- An instruction that suspends the program finds no others. -/
  alone : ∀ frame callers placed, machine.fetch = .ready frame callers placed →
    placed.instruction.isSuspension = true →
      machine.stack.length = frame.base + placed.instruction.operands
  /-- What a resume leaves is as it should be. -/
  resume : Settles machine.resume.1 machine.resume.2

section Balanced

variable {machine : Machine} {frame : Frame} {callers : List Frame} {placed : Placed}

/-- A program that is over leaves no operands. -/
theorem Balanced.isEmpty (balanced : machine.Balanced) (halted : machine.frames = []) :
    machine.IsEmpty := by
  unfold Balanced at balanced
  rw [halted] at balanced
  exact ⟨halted, List.eq_nil_of_length_eq_zero balanced⟩

/-- Only an instruction that suspends the program stops it so. -/
theorem isSuspension_of_execute {instruction : Instruction} {suspension : Suspension}
    {after : Machine}
    (executed : machine.execute frame callers instruction =
      .ok (.stop (.suspended suspension) after)) :
    instruction.isSuspension = true := by
  cases execute_eq_ok_iff.mp executed with
  | tick | wait => rfl

/-- A balanced machine that stops has only the operands it should have. -/
theorem Balanced.settles (balanced : machine.Balanced) (fits : machine.program.Fits)
    (fetched : machine.fetch = .ready frame callers placed) {outcome : Outcome} {after : Machine}
    (executed : machine.execute frame callers placed.instruction = .ok (.stop outcome after)) :
    Settles outcome after := by
  obtain ⟨code, heights, index, height, poised⟩ := balanced.poised fetched
  rcases frames_of_stop executed with ⟨suspension, rfl⟩ | ⟨rfl, halted⟩
  · have suspends := isSuspension_of_execute executed
    -- an instruction that suspends stays in its frame and leaves nothing above its operands
    have noCall : ∀ function count, placed.instruction ≠ .call function count := by
      intro function count same
      rw [same] at suspends
      cases suspends
    have noReturn : placed.instruction ≠ .giveBack := by
      intro same
      rw [same] at suspends
      cases suspends
    have none : placed.instruction.results = 0 := by
      cases kind : placed.instruction <;> rw [kind] at suspends <;> first | rfl | cases suspends
    obtain ⟨stack, top, frames, same, -⟩ :=
      execute_within poised.counter noCall noReturn executed
    refine ⟨top, callers, frames, ?_⟩
    have alone := poised.fit.alone suspends
    rw [same.base, show after.stack.length = _ from stack, none, poised.length, alone,
      Nat.add_sub_cancel, Nat.add_zero]
  · exact (poised.balanced fits executed).isEmpty halted

/-- **A balanced machine settles at the end of each resume.** -/
theorem Balanced.settles_run (balanced : machine.Balanced) (fits : machine.program.Fits)
    (budget : Nat) : Settles (machine.run budget).1 (machine.run budget).2 := by
  have runs := machine.runs_run budget
  generalize machine.run budget = result at runs ⊢
  induction runs with
  | halted fetched => exact balanced.isEmpty (frames_of_fetch_halted fetched)
  | @missing _ _ position fetched => exact absurd fetched (balanced.fetch_ne_missing position)
  | exhausted => exact ⟨⟨rfl, rfl⟩, rfl⟩
  | fails fetched failed =>
      obtain ⟨code, heights, index, height, poised⟩ := balanced.poised fetched
      exact ⟨⟨rfl, rfl⟩, poised.not_malformed failed⟩
  | stops fetched executed => exact balanced.settles fits fetched executed
  | @next _ middle _ _ _ _ _ fetched executed _ ih =>
      obtain ⟨code, heights, index, height, poised⟩ := balanced.poised fetched
      -- the invariant holds after the instruction, of the same program
      refine ih (poised.balanced fits executed) ?_
      rw [show middle.program = _ from (execute_fixed executed).program]
      exact fits

/-- A balanced machine is safe. -/
theorem Balanced.safe (balanced : machine.Balanced) (fits : machine.program.Fits) :
    machine.Safe where
  frames frame member := by
    obtain ⟨code, found, inside, size⟩ := FramesStand.counter_lt balanced frame member
    obtain ⟨heights, fit⟩ := fits.heights _ code found
    refine ⟨code, found, inside, fun index placed here => ?_⟩
    obtain ⟨height, -, fit⟩ := fit.instruction index placed here
    rw [size]
    exact fit.refers
  operands frame callers placed fetched := by
    obtain ⟨code, heights, index, height, poised⟩ := balanced.poised fetched
    rw [poised.length]
    exact Nat.add_le_add_left poised.fit.enough frame.base
  alone frame callers placed fetched suspends := by
    obtain ⟨code, heights, index, height, poised⟩ := balanced.poised fetched
    rw [poised.length, poised.fit.alone suspends]
  resume := balanced.settles_run fits machine.limits.instructions

end Balanced

section Reachable

variable {program : Program} {memory : Memory} {limits : Limits} {machine : Machine}

/-- A machine keeps its program. -/
theorem Reachable.program_eq (reachable : Reachable program memory limits machine) :
    machine.program = program := by
  induction reachable with
  | start => rfl
  | write _ _ ih => exact ih
  | execute _ _ executed ih => exact (execute_fixed executed).program.trans ih
  | fault _ _ _ ih => exact ih

/-- A machine begins balanced. -/
theorem balanced_start (fits : program.Fits) : (Machine.start program memory limits).Balanced := by
  obtain ⟨heights, entryFits⟩ := fits.heights 0 program.entry rfl
  exact ⟨Nat.le_refl 0, Frame.stands_enter rfl entryFits (Nat.zero_le _), rfl⟩

/-- **Every reachable machine is balanced.** -/
theorem Reachable.balanced (reachable : Reachable program memory limits machine)
    (fits : program.Fits) : machine.Balanced := by
  induction reachable with
  | start => exact balanced_start fits
  | write _ _ ih => exact ih
  | execute before fetched executed ih =>
      obtain ⟨code, heights, index, height, poised⟩ := ih.poised fetched
      refine poised.balanced ?_ executed
      rw [before.program_eq]
      exact fits
  | fault => exact rfl

/-- What a resume leaves can be reached. -/
theorem Reachable.run (reachable : Reachable program memory limits machine) (budget : Nat) :
    Reachable program memory limits (machine.run budget).2 := by
  have runs := machine.runs_run budget
  generalize machine.run budget = result at runs ⊢
  induction runs with
  | halted => exact reachable
  | missing | exhausted | fails => exact reachable.fault _ _
  | stops fetched executed => exact reachable.execute fetched executed
  | next fetched executed _ ih => exact ih (reachable.execute fetched executed)

end Reachable

end Machine

/-- **Compiled programs are safe to run.** A machine that has started a compiled program with any
memory and under any limits, whatever the host writes and however often it resumes it, is safe in
every state that it reaches, and what a resume leaves is such a state again. -/
theorem Program.safe_of_compile {source : String} {program : Program}
    (compiled : Program.compile source = .ok program) (memory : Memory) (limits : Limits)
    {machine : Machine} (reachable : Machine.Reachable program memory limits machine) :
    machine.Safe ∧ Machine.Reachable program memory limits machine.resume.2 := by
  obtain ⟨parsed, -, emits⟩ := Program.emits_of_compile compiled
  have fits := emits.fits
  refine ⟨(reachable.balanced fits).safe ?_, reachable.run _⟩
  rw [reachable.program_eq]
  exact fits

/-- A program that waits in a call, in the middle of an expression of the caller: it is safe
there. -/
theorem Program.safe_of_compile_suspended :
    let source :=
      "int half(int a) \x7b wait_ms(a); return a / 2; \x7d " ++
      "void user_main(void) \x7b gV[1] = 3 + half(4) * 2; \x7d"
    ∃ program, Program.compile source = .ok program ∧
      let machine := (Machine.start program {} {}).resume.2
      machine.Safe ∧ Machine.Reachable program {} {} machine.resume.2 := by
  intro source
  have accepted : (Program.compile source).isOk = true := by decide +kernel
  cases compiled : Program.compile source with
  | error rejection =>
      rw [compiled] at accepted
      cases accepted
  | ok program =>
      exact ⟨program, rfl, Program.safe_of_compile compiled {} {} (Machine.Reachable.start.run _)⟩

end LineRobot
