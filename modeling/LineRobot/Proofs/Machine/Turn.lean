import LineRobot.Proofs.Machine.Rules

/-! # What one instruction leaves alone

An instruction may change the variable slots, the motor commands, the frames and the operands of a
machine. Its program, its limits and the rest of its memory stay (`Machine.execute_fixed`), and what
it does depends on the limits only if it is a call (`Machine.execute_withLimits`). -/

namespace LineRobot

/-- Whether a fault is one that only comes from the limits of a machine. -/
def FaultCause.isLimit : FaultCause → Bool
  | .callDepthExceeded _ => true
  | .stepBudgetExceeded _ => true
  | _ => false

/-- The machine under other limits. -/
def Machine.withLimits (machine : Machine) (limits : Limits) : Machine :=
  { machine with limits }

/-- What an instruction does under other limits. -/
def Turn.withLimits (limits : Limits) : Turn → Turn
  | .next machine => .next (machine.withLimits limits)
  | .stop outcome machine => .stop outcome (machine.withLimits limits)

/-- The machine after an instruction, whether the program goes on or stops. -/
def Turn.machine : Turn → Machine
  | .next machine => machine
  | .stop _ machine => machine

namespace Machine

/-- What the instructions of a program never change is the same in two machines. -/
structure SameSetting (first second : Machine) : Prop where
  /-- They run the same program. -/
  program : first.program = second.program
  /-- They run under the same limits. -/
  limits : first.limits = second.limits
  /-- They see the same in the sensor channels. -/
  sensors : first.memory.sensors = second.memory.sensors
  /-- The channel constants mean the same. -/
  channels : first.memory.channels = second.memory.channels
  /-- The constant for truth means the same. -/
  truth : first.memory.truth = second.memory.truth

/-- Settings that are the same as the same setting are the same. -/
theorem SameSetting.trans {first second third : Machine} (here : first.SameSetting second)
    (there : second.SameSetting third) : first.SameSetting third :=
  ⟨here.program.trans there.program, here.limits.trans there.limits,
    here.sensors.trans there.sensors, here.channels.trans there.channels,
    here.truth.trans there.truth⟩

/-- A call with the right number of arguments enters the function, unless there are too many
calls. -/
theorem call_eq {machine : Machine} {function : Nat} {code : Code} {arguments below : List Float}
    (frame : Frame) (callers : List Frame) (found : machine.program.function? function = some code)
    (operands : machine.stack = arguments ++ below) (count : arguments.length = code.arity) :
    machine.call frame callers function arguments.length =
      if machine.limits.depth ≤ callers.length + 1 then
        .error (.callDepthExceeded machine.limits.depth)
      else
        .ok (machine.withFrames
          (Frame.enter function code arguments below.length :: frame :: callers) below) := by
  have matching : ¬ arguments.length ≠ code.arity := fun different => different count
  have enough : ¬ (arguments ++ below).length < arguments.length := by
    rw [List.length_append]
    omega
  rw [call, found]
  dsimp only
  rw [if_neg matching, operands, if_neg enough, List.take_left, List.drop_left]

/-- A call changes frames and operands only. -/
theorem call_fixed {machine after : Machine} {frame : Frame} {callers : List Frame}
    {function count : Nat} (called : machine.call frame callers function count = .ok after) :
    after.SameSetting machine := by
  obtain ⟨code, -, -, -, -, rfl⟩ := exists_of_call called
  exact ⟨rfl, rfl, rfl, rfl, rfl⟩

/-- An instruction keeps the program, the limits and what the program cannot write. -/
theorem execute_fixed {machine : Machine} {frame : Frame} {callers : List Frame}
    {instruction : Instruction} {turn : Turn}
    (executed : machine.execute frame callers instruction = .ok turn) :
    turn.machine.SameSetting machine := by
  cases execute_eq_ok_iff.mp executed with
  | call called => exact call_fixed called
  | _ => exact ⟨rfl, rfl, rfl, rfl, rfl⟩

/-- A resume keeps what every instruction keeps. -/
theorem run_fixed (machine : Machine) (budget : Nat) :
    (machine.run budget).2.SameSetting machine := by
  have runs := machine.runs_run budget
  generalize machine.run budget = result at runs ⊢
  induction runs with
  | halted | missing | exhausted | fails => exact ⟨rfl, rfl, rfl, rfl, rfl⟩
  | stops _ executed => exact execute_fixed executed
  | next _ executed _ ih => exact ih.trans (execute_fixed executed)

/-- A program that stops is over, unless it has suspended itself. -/
theorem frames_of_stop {machine after : Machine} {frame : Frame} {callers : List Frame}
    {instruction : Instruction} {outcome : Outcome}
    (executed : machine.execute frame callers instruction = .ok (.stop outcome after)) :
    (∃ suspension, outcome = .suspended suspension) ∨ outcome = .completed ∧ after.frames = [] := by
  cases execute_eq_ok_iff.mp executed with
  | finish => exact .inr ⟨rfl, rfl⟩
  | tick | wait => exact .inl ⟨_, rfl⟩

/-- A program that has nothing before it has no frame. -/
theorem frames_of_fetch_halted {machine : Machine} (fetched : machine.fetch = .halted) :
    machine.frames = [] := by
  unfold fetch at fetched
  split at fetched
  case h_1 halted => exact halted
  case h_2 =>
    split at fetched
    · cases fetched
    · split at fetched <;> cases fetched

/-- A value is given back to the caller, on top of the operands below the call. -/
theorem execute_giveBack {machine : Machine} {frame caller : Frame} {callers : List Frame}
    {value : Float} {stack : List Float} (given : machine.stack = value :: stack)
    (base : frame.base = stack.length) :
    machine.execute frame (caller :: callers) .giveBack =
      .ok (.next (machine.withFrames (caller :: callers) (value :: stack))) := by
  have does : machine.Does frame (caller :: callers) .giveBack _ := .giveBack given rfl
  rw [does.execute_eq, base, Nat.sub_self, List.drop_zero]

/-! ## Other limits -/

/-- A call that succeeds also does under limits that allow at least as many calls, and a call that
fails for another reason than the limits fails in the same way. -/
theorem call_withLimits {machine : Machine} (frame : Frame) (callers : List Frame)
    (function count : Nat) {limits : Limits} (deeper : machine.limits.depth ≤ limits.depth) :
    match machine.call frame callers function count with
    | .ok after => (machine.withLimits limits).call frame callers function count =
        .ok (after.withLimits limits)
    | .error cause => cause.isLimit = false →
        (machine.withLimits limits).call frame callers function count = .error cause := by
  obtain ⟨program, old, memory, frames, stack⟩ := machine
  unfold call withLimits
  dsimp only at deeper ⊢
  cases program.function? function with
  | none => exact fun _ => rfl
  | some code =>
      dsimp only
      by_cases matching : count ≠ code.arity
      · rw [if_pos matching, if_pos matching]
        exact fun _ => rfl
      · rw [if_neg matching, if_neg matching]
        by_cases tooDeep : old.depth ≤ callers.length + 1
        · rw [if_pos tooDeep]
          exact nofun
        -- not too deep for the lower limit, so not for the higher one
        · rw [if_neg tooDeep, if_neg (show ¬ limits.depth ≤ callers.length + 1 by omega)]
          by_cases missing : stack.length < count
          · rw [if_pos missing, if_pos missing]
            exact fun _ => rfl
          · rw [if_neg missing, if_neg missing]
            rfl

/-- Instructions other than calls do not depend on the limits. -/
theorem execute_withLimits_of_ne_call {machine : Machine} {frame : Frame} {callers : List Frame}
    {instruction : Instruction} (limits : Limits)
    (other : ∀ function count, instruction ≠ .call function count) :
    (machine.withLimits limits).execute frame callers instruction =
      (machine.execute frame callers instruction).map (Turn.withLimits limits) := by
  rcases machine.does_or_refuses frame callers instruction with ⟨turn, does⟩ | ⟨cause, refuses⟩
  · rw [does.execute_eq]
    refine Does.execute_eq ?_
    cases does with
    | call => exact absurd rfl (other _ _)
    | _ => constructor <;> assumption
  · rw [refuses.execute_eq]
    refine Refuses.execute_eq ?_
    cases refuses with
    | operands noCall few => exact .operands noCall few
    | load missing => exact .load missing
    | store outside => exact .store outside
    | changeLocal missing => exact .changeLocal missing
    | call => exact absurd rfl (other _ _)
    | _ => constructor <;> assumption

/-- **An instruction does the same under limits that allow at least as many calls**, unless it fails
for the limits. -/
theorem execute_withLimits {machine : Machine} (frame : Frame) (callers : List Frame)
    (instruction : Instruction) {limits : Limits} (deeper : machine.limits.depth ≤ limits.depth) :
    match machine.execute frame callers instruction with
    | .ok turn => (machine.withLimits limits).execute frame callers instruction =
        .ok (turn.withLimits limits)
    | .error cause => cause.isLimit = false →
        (machine.withLimits limits).execute frame callers instruction = .error cause := by
  by_cases isCall : ∃ function count, instruction = .call function count
  · obtain ⟨function, count, rfl⟩ := isCall
    have called := call_withLimits frame callers function count deeper
    show match (machine.call frame callers function count >>= fun machine =>
      .ok (Turn.next machine)) with
      | .ok turn => ((machine.withLimits limits).call frame callers function count >>=
          fun machine => .ok (Turn.next machine)) = .ok (turn.withLimits limits)
      | .error cause => cause.isLimit = false →
          ((machine.withLimits limits).call frame callers function count >>=
            fun machine => .ok (Turn.next machine)) = .error cause
    cases result : machine.call frame callers function count with
    | ok after =>
        rw [result] at called
        rw [called]
        rfl
    | error cause =>
        rw [result] at called
        intro isOther
        rw [called isOther]
        rfl
  · rw [execute_withLimits_of_ne_call limits fun function count same =>
      isCall ⟨function, count, same⟩]
    cases machine.execute frame callers instruction with
    | ok turn => rfl
    | error cause => exact fun _ => rfl

end Machine

end LineRobot
