import LineRobot.Machine.Basic
import LineRobot.Proofs.Code.Heights
import LineRobot.Proofs.Success

/-! # The rules of the machine

What one instruction does, as rules. `Machine.Does` has a rule for each way in which an instruction
succeeds, with what it finds on the stack and in its frame, and `Machine.Refuses` has one for each
reason why it fails. There are no other ways and no other reasons (`Machine.execute_eq_ok_iff`,
`Machine.execute_eq_error_iff`). A resume has rules as well (`Machine.Runs`), along which facts of
instructions become facts of resumes.

What all instructions keep is shown by cases on these rules, and not by opening `Machine.execute`
again. -/

namespace LineRobot

namespace Machine

variable {machine : Machine} {frame : Frame} {callers : List Frame} {instruction : Instruction}

/-! ## Calls -/

/-- A call that succeeds is not too deep, and enters a function of the program with its arguments
taken off the stack. -/
theorem exists_of_call {function count : Nat} {after : Machine}
    (called : machine.call frame callers function count = .ok after) :
    ∃ code, machine.program.function? function = some code ∧ count = code.arity ∧
      callers.length + 1 < machine.limits.depth ∧ count ≤ machine.stack.length ∧
        after = machine.withFrames
          (Frame.enter function code (machine.stack.take count) (machine.stack.drop count).length ::
            frame :: callers) (machine.stack.drop count) := by
  unfold call at called
  split at called
  case h_1 => cases called
  case h_2 code found =>
    split at called
    case isTrue => cases called
    case isFalse matching =>
      split at called
      case isTrue => cases called
      case isFalse shallow =>
        split at called
        case isTrue => cases called
        case isFalse enough =>
          cases called
          exact ⟨code, found, Decidable.not_not.mp matching, Nat.lt_of_not_le shallow,
            Nat.le_of_not_lt enough, rfl⟩

/-- A call fails for want of a function or of operands, for the number of its arguments, or for the
limit on calls. -/
theorem cause_of_call {function count : Nat} {cause : FaultCause}
    (fails : machine.call frame callers function count = .error cause) :
    cause = .stackUnderflow ∨ (∃ name arity, cause = .argumentCountMismatch name arity count) ∨
      cause = .callDepthExceeded machine.limits.depth := by
  unfold call at fails
  split at fails
  case h_1 =>
    cases fails
    exact .inl rfl
  case h_2 code found =>
    split at fails
    case isTrue =>
      cases fails
      exact .inr (.inl ⟨_, _, rfl⟩)
    case isFalse =>
      split at fails
      case isTrue =>
        cases fails
        exact .inr (.inr rfl)
      case isFalse =>
        split at fails <;> cases fails
        exact .inl rfl

/-! ## Instructions -/

/-- How an instruction succeeds in a frame whose counter is already at the next one. -/
inductive Does (machine : Machine) (frame : Frame) (callers : List Frame) :
    Instruction → Turn → Prop
  /-- A number is pushed. -/
  | push {value : Float} :
      Does machine frame callers (.push value)
        (.next (machine.withFrames (frame :: callers) (value :: machine.stack)))
  /-- A local is pushed. -/
  | load {slot : Nat} {value : Float} :
      frame.locals[slot]? = some value →
      Does machine frame callers (.load slot)
        (.next (machine.withFrames (frame :: callers) (value :: machine.stack)))
  /-- A local is set to the value on top. -/
  | store {slot : Nat} {value : Float} {stack : List Float} :
      machine.stack = value :: stack → slot < frame.locals.size →
      Does machine frame callers (.store slot)
        (.next (machine.withFrames (frame.setLocal slot value :: callers) (value :: stack)))
  /-- A constant is pushed. -/
  | constant {constant : Constant} :
      Does machine frame callers (.constant constant)
        (.next (machine.withFrames (frame :: callers) (machine.memory.constant constant ::
          machine.stack)))
  /-- An element of an array is fetched. -/
  | fetch {bank : Bank} {index : Float} {stack : List Float} {cell : Fin bankSize} :
      machine.stack = index :: stack → Memory.index? index = some cell →
      Does machine frame callers (.fetch bank)
        (.next (machine.withFrames (frame :: callers) (machine.memory.element bank cell :: stack)))
  /-- A variable slot is set to the value on top. -/
  | deposit {value index : Float} {stack : List Float} {slot : Fin bankSize} :
      machine.stack = value :: index :: stack → Memory.index? index = some slot →
      Does machine frame callers .deposit
        (.next ((machine.withMemory (machine.memory.setSlot slot value)).withFrames
          (frame :: callers)
          (value :: stack)))
  /-- A local is changed by one, and one of its values is pushed. -/
  | changeLocal {slot : Nat} {old : Float} {direction : Direction} {moment : Moment} :
      frame.locals[slot]? = some old →
      Does machine frame callers (.change (.localSlot slot) direction moment)
        (.next (machine.withFrames (frame.setLocal slot (direction.apply old) :: callers)
          (moment.choose old (direction.apply old) :: machine.stack)))
  /-- A variable slot is changed by one, and one of its values is pushed. -/
  | changeSlot {index : Float} {stack : List Float} {slot : Fin bankSize} {direction : Direction}
      {moment : Moment} :
      machine.stack = index :: stack → Memory.index? index = some slot →
      Does machine frame callers (.change .slot direction moment)
        (.next ((machine.withMemory (machine.memory.setSlot slot
          (direction.apply (machine.memory.element .slots slot)))).withFrames (frame :: callers)
            (moment.choose (machine.memory.element .slots slot)
              (direction.apply (machine.memory.element .slots slot)) :: stack)))
  /-- An operator is applied to the value on top. -/
  | unary {operator : UnaryOperator} {value : Float} {stack : List Float} :
      machine.stack = value :: stack →
      Does machine frame callers (.unary operator)
        (.next (machine.withFrames (frame :: callers) (operator.apply value :: stack)))
  /-- An operator combines the two values on top. -/
  | binary {operator : Operator} {left right value : Float} {stack : List Float} :
      machine.stack = right :: left :: stack → operator.apply left right = some value →
      Does machine frame callers (.binary operator)
        (.next (machine.withFrames (frame :: callers) (value :: stack)))
  /-- The frame goes on at a target. -/
  | jump {target : Nat} :
      Does machine frame callers (.jump target)
        (.next (machine.withFrames (frame.jump target :: callers) machine.stack))
  /-- The frame goes on at a target if the value on top is not true. -/
  | jumpIfFalse {target : Nat} {value : Float} {stack : List Float} :
      machine.stack = value :: stack →
      Does machine frame callers (.jumpIfFalse target)
        (.next (machine.withFrames ((if Value.isTrue value then frame else frame.jump target) ::
          callers) stack))
  /-- The frame goes on at a target if the value on top is true. -/
  | jumpIfTrue {target : Nat} {value : Float} {stack : List Float} :
      machine.stack = value :: stack →
      Does machine frame callers (.jumpIfTrue target)
        (.next (machine.withFrames ((if Value.isTrue value then frame.jump target else frame) ::
          callers) stack))
  /-- The value on top is dropped. -/
  | pop {value : Float} {stack : List Float} :
      machine.stack = value :: stack →
      Does machine frame callers .pop (.next (machine.withFrames (frame :: callers) stack))
  /-- The value on top is pushed once more. -/
  | duplicate {value : Float} {stack : List Float} :
      machine.stack = value :: stack →
      Does machine frame callers .duplicate
        (.next (machine.withFrames (frame :: callers) (value :: value :: stack)))
  /-- A function is called. -/
  | call {function count : Nat} {after : Machine} :
      machine.call frame callers function count = .ok after →
      Does machine frame callers (.call function count) (.next after)
  /-- A value is given back to the caller. -/
  | giveBack {value : Float} {stack : List Float} {caller : Frame} {others : List Frame} :
      machine.stack = value :: stack → callers = caller :: others →
      Does machine frame callers .giveBack
        (.next (machine.withFrames (caller :: others)
          (value :: stack.drop (stack.length - frame.base))))
  /-- A value that is given back without a caller ends the program. -/
  | finish {value : Float} {stack : List Float} :
      machine.stack = value :: stack → callers = [] →
      Does machine frame callers .giveBack
        (.stop .completed (machine.withFrames [] (stack.drop (stack.length - frame.base))))
  /-- A command is given to the motors. -/
  | motor {first second : Float} {stack : List Float} :
      machine.stack = second :: first :: stack →
      Does machine frame callers .motor
        (.next ((machine.withMemory (machine.memory.drive ⟨first, second⟩)).withFrames
          (frame :: callers)
          (0 :: stack)))
  /-- The program is suspended until the next tick. -/
  | tick :
      Does machine frame callers .tick
        (.stop (.suspended .tick) (machine.withFrames (frame :: callers) machine.stack))
  /-- The program is suspended for a number of milliseconds. -/
  | wait {duration : Float} {stack : List Float} :
      machine.stack = duration :: stack → duration.isFinite = true →
      Does machine frame callers .wait
        (.stop (.suspended (.wait duration)) (machine.withFrames (frame :: callers) stack))

/-- Why an instruction fails. -/
inductive Refuses (machine : Machine) (frame : Frame) (callers : List Frame) :
    Instruction → FaultCause → Prop
  /-- It finds too few operands. A call looks at its function before that. -/
  | operands {instruction : Instruction} :
      (∀ function count, instruction ≠ .call function count) → machine.stack.length <
        instruction.operands →
      Refuses machine frame callers instruction .stackUnderflow
  /-- There is no such local to push. -/
  | load {slot : Nat} : frame.locals[slot]? = none →
      Refuses machine frame callers (.load slot) .stackUnderflow
  /-- There is no such local to set. -/
  | store {slot : Nat} : ¬ slot < frame.locals.size →
      Refuses machine frame callers (.store slot) .stackUnderflow
  /-- There is no such local to change. -/
  | changeLocal {slot : Nat} {direction : Direction} {moment : Moment} :
      frame.locals[slot]? = none →
      Refuses machine frame callers (.change (.localSlot slot) direction moment) .stackUnderflow
  /-- There is no such element to fetch. -/
  | fetch {bank : Bank} {index : Float} {stack : List Float} :
      machine.stack = index :: stack → Memory.index? index = none →
      Refuses machine frame callers (.fetch bank) (.indexOutOfBounds bank index)
  /-- There is no such variable slot to set. -/
  | deposit {value index : Float} {stack : List Float} :
      machine.stack = value :: index :: stack → Memory.index? index = none →
      Refuses machine frame callers .deposit (.indexOutOfBounds .slots index)
  /-- There is no such variable slot to change. -/
  | changeSlot {index : Float} {stack : List Float} {direction : Direction} {moment : Moment} :
      machine.stack = index :: stack → Memory.index? index = none →
      Refuses machine frame callers (.change .slot direction moment)
        (.indexOutOfBounds .slots index)
  /-- The operator has no value for its operands. -/
  | binary {operator : Operator} {left right : Float} {stack : List Float} :
      machine.stack = right :: left :: stack → operator.apply left right = none →
      Refuses machine frame callers (.binary operator) .divisionByZero
  /-- The time to wait for is not finite. -/
  | wait {duration : Float} {stack : List Float} :
      machine.stack = duration :: stack → ¬ duration.isFinite = true →
      Refuses machine frame callers .wait (.invalidWait duration)
  /-- The call fails. -/
  | call {function count : Nat} {cause : FaultCause} :
      machine.call frame callers function count = .error cause →
      Refuses machine frame callers (.call function count) cause

/-- What the rules say is what the machine does. -/
theorem Does.execute_eq {turn : Turn} (does : machine.Does frame callers instruction turn) :
    machine.execute frame callers instruction = .ok turn := by
  unfold execute
  cases does with
  | push | constant | jump | tick => rfl
  | load held | changeLocal held =>
      dsimp only
      rw [held]
  | store operands inside =>
      rw [operands]
      exact if_pos inside
  | fetch operands found | deposit operands found | changeSlot operands found =>
      rw [operands]
      dsimp only
      rw [elementIndex, found]
      rfl
  | binary operands applied =>
      rw [operands]
      dsimp only
      rw [applied]
  | unary operands | jumpIfFalse operands | jumpIfTrue operands | pop operands
  | duplicate operands | motor operands =>
      rw [operands]
  | call called =>
      dsimp only
      rw [called]
      rfl
  | giveBack operands callers | finish operands callers => rw [operands, callers]
  | wait operands finite =>
      rw [operands]
      exact if_pos finite

/-- An instruction other than a call fails for want of operands before anything else. -/
theorem execute_of_lt_operands (noCall : ∀ function count, instruction ≠ .call function count)
    (few : machine.stack.length < instruction.operands) :
    machine.execute frame callers instruction = .error .stackUnderflow := by
  unfold execute
  cases instruction with
  | push | load | constant | jump | tick => exact absurd few (Nat.not_lt_zero _)
  | call function count => exact absurd rfl (noCall function count)
  | change cell direction moment =>
      cases cell with
      | localSlot => exact absurd few (Nat.not_lt_zero _)
      | slot => rw [List.eq_nil_of_length_eq_zero (Nat.lt_one_iff.mp few)]
  | store | fetch | unary | jumpIfFalse | jumpIfTrue | pop | duplicate | giveBack | wait =>
      rw [List.eq_nil_of_length_eq_zero (Nat.lt_one_iff.mp few)]
  | deposit | binary | motor =>
      match machine.stack, few with
      | [], _ => rfl
      | [_], _ => rfl

/-- What the rules say is what the machine fails with. -/
theorem Refuses.execute_eq {cause : FaultCause}
    (refuses : machine.Refuses frame callers instruction cause) :
    machine.execute frame callers instruction = .error cause := by
  cases refuses with
  | operands noCall few => exact execute_of_lt_operands noCall few
  | load missing | changeLocal missing =>
      unfold execute
      dsimp only
      rw [missing]
  | store outside =>
      unfold execute
      dsimp only
      cases machine.stack with
      | nil => rfl
      | cons => exact if_neg outside
  | fetch operands missing | deposit operands missing | changeSlot operands missing =>
      unfold execute
      rw [operands]
      dsimp only
      rw [elementIndex, missing]
      rfl
  | binary operands missing =>
      unfold execute
      rw [operands]
      dsimp only
      rw [missing]
  | wait operands infinite =>
      unfold execute
      rw [operands]
      exact if_neg infinite
  | call failed =>
      unfold execute
      dsimp only
      rw [failed]
      rfl

/-- There is a rule for every instruction in every machine. -/
theorem does_or_refuses (machine : Machine) (frame : Frame) (callers : List Frame)
    (instruction : Instruction) :
    (∃ turn, machine.Does frame callers instruction turn) ∨ ∃ cause,
      machine.Refuses frame callers instruction cause := by
  by_cases isCall : ∃ function count, instruction = .call function count
  · obtain ⟨function, count, rfl⟩ := isCall
    cases called : machine.call frame callers function count with
    | ok after => exact .inl ⟨_, .call called⟩
    | error cause => exact .inr ⟨_, .call called⟩
  have noCall (function count : Nat) (same : instruction = .call function count) : False :=
    isCall ⟨function, count, same⟩
  rcases Nat.lt_or_ge machine.stack.length instruction.operands with few | enough
  · exact .inr ⟨_, .operands noCall few⟩
  -- the operands are there, and what can still be refused is what they are
  have two (present : 2 ≤ machine.stack.length) :
      ∃ first second stack, machine.stack = first :: second :: stack :=
    match machine.stack, present with
    | first :: second :: stack, _ => ⟨first, second, stack, rfl⟩
  cases instruction with
  | push => exact .inl ⟨_, .push⟩
  | constant => exact .inl ⟨_, .constant⟩
  | jump => exact .inl ⟨_, .jump⟩
  | tick => exact .inl ⟨_, .tick⟩
  | call function count => exact absurd rfl (noCall function count)
  | load slot =>
      cases held : frame.locals[slot]? with
      | some value => exact .inl ⟨_, .load held⟩
      | none => exact .inr ⟨_, .load held⟩
  | store slot =>
      obtain ⟨value, stack, operands⟩ := List.exists_cons_of_length_pos enough
      by_cases inside : slot < frame.locals.size
      · exact .inl ⟨_, .store operands inside⟩
      · exact .inr ⟨_, .store inside⟩
  | fetch bank =>
      obtain ⟨index, stack, operands⟩ := List.exists_cons_of_length_pos enough
      cases found : Memory.index? index with
      | some cell => exact .inl ⟨_, .fetch operands found⟩
      | none => exact .inr ⟨_, .fetch operands found⟩
  | deposit =>
      obtain ⟨value, index, stack, operands⟩ := two enough
      cases found : Memory.index? index with
      | some slot => exact .inl ⟨_, .deposit operands found⟩
      | none => exact .inr ⟨_, .deposit operands found⟩
  | change cell direction moment =>
      cases cell with
      | localSlot slot =>
          cases held : frame.locals[slot]? with
          | some old => exact .inl ⟨_, .changeLocal held⟩
          | none => exact .inr ⟨_, .changeLocal held⟩
      | slot =>
          obtain ⟨index, stack, operands⟩ := List.exists_cons_of_length_pos enough
          cases found : Memory.index? index with
          | some slot => exact .inl ⟨_, .changeSlot operands found⟩
          | none => exact .inr ⟨_, .changeSlot operands found⟩
  | unary operator =>
      obtain ⟨value, stack, operands⟩ := List.exists_cons_of_length_pos enough
      exact .inl ⟨_, .unary operands⟩
  | binary operator =>
      obtain ⟨right, left, stack, operands⟩ := two enough
      cases applied : operator.apply left right with
      | some value => exact .inl ⟨_, .binary operands applied⟩
      | none => exact .inr ⟨_, .binary operands applied⟩
  | jumpIfFalse target =>
      obtain ⟨value, stack, operands⟩ := List.exists_cons_of_length_pos enough
      exact .inl ⟨_, .jumpIfFalse operands⟩
  | jumpIfTrue target =>
      obtain ⟨value, stack, operands⟩ := List.exists_cons_of_length_pos enough
      exact .inl ⟨_, .jumpIfTrue operands⟩
  | pop =>
      obtain ⟨value, stack, operands⟩ := List.exists_cons_of_length_pos enough
      exact .inl ⟨_, .pop operands⟩
  | duplicate =>
      obtain ⟨value, stack, operands⟩ := List.exists_cons_of_length_pos enough
      exact .inl ⟨_, .duplicate operands⟩
  | giveBack =>
      obtain ⟨value, stack, operands⟩ := List.exists_cons_of_length_pos enough
      cases callers with
      | nil => exact .inl ⟨_, .finish operands rfl⟩
      | cons caller others => exact .inl ⟨_, .giveBack operands rfl⟩
  | motor =>
      obtain ⟨second, first, stack, operands⟩ := two enough
      exact .inl ⟨_, .motor operands⟩
  | wait =>
      obtain ⟨duration, stack, operands⟩ := List.exists_cons_of_length_pos enough
      by_cases finite : duration.isFinite = true
      · exact .inl ⟨_, .wait operands finite⟩
      · exact .inr ⟨_, .wait operands finite⟩

/-- **An instruction succeeds just as the rules say.** -/
theorem execute_eq_ok_iff {turn : Turn} :
    machine.execute frame callers instruction = .ok turn ↔
      machine.Does frame callers instruction turn := by
  refine ⟨fun executed => ?_, Does.execute_eq⟩
  rcases machine.does_or_refuses frame callers instruction with ⟨other, does⟩ | ⟨cause, refuses⟩
  · rw [does.execute_eq] at executed
    cases executed
    exact does
  · rw [refuses.execute_eq] at executed
    cases executed

/-- **An instruction fails just as the rules say.** -/
theorem execute_eq_error_iff {cause : FaultCause} :
    machine.execute frame callers instruction = .error cause ↔
      machine.Refuses frame callers instruction cause := by
  refine ⟨fun fails => ?_, Refuses.execute_eq⟩
  rcases machine.does_or_refuses frame callers instruction with ⟨turn, does⟩ | ⟨other, refuses⟩
  · rw [does.execute_eq] at fails
    cases fails
  · rw [refuses.execute_eq] at fails
    cases fails
    exact refuses

/-! ## Resumes -/

/-- How a resume with a budget goes. -/
inductive Runs : Machine → Nat → Outcome × Machine → Prop
  /-- The program is over. -/
  | halted {machine : Machine} {budget : Nat} :
      machine.fetch = .halted → Runs machine budget (.completed, machine)
  /-- There is no instruction. -/
  | missing {machine : Machine} {budget : Nat} {position : Position} :
      machine.fetch = .missing position →
        Runs machine budget (machine.fault .stackUnderflow position)
  /-- The budget is used up before an instruction. -/
  | exhausted {machine : Machine} {frame : Frame} {callers : List Frame} {placed : Placed} :
      machine.fetch = .ready frame callers placed →
      Runs machine 0 (machine.fault (.stepBudgetExceeded machine.limits.instructions)
        placed.position)
  /-- An instruction fails. -/
  | fails {machine : Machine} {budget : Nat} {frame : Frame} {callers : List Frame}
      {placed : Placed}
      {cause : FaultCause} :
      machine.fetch = .ready frame callers placed →
      machine.execute frame callers placed.instruction = .error cause →
      Runs machine (budget + 1) (machine.fault cause placed.position)
  /-- An instruction stops the program. -/
  | stops {machine after : Machine} {budget : Nat} {frame : Frame} {callers : List Frame}
      {placed : Placed}
      {outcome : Outcome} :
      machine.fetch = .ready frame callers placed →
      machine.execute frame callers placed.instruction = .ok (.stop outcome after) →
      Runs machine (budget + 1) (outcome, after)
  /-- After an instruction the program goes on. -/
  | next {machine middle : Machine} {budget : Nat} {frame : Frame} {callers : List Frame}
      {placed : Placed}
      {result : Outcome × Machine} :
      machine.fetch = .ready frame callers placed →
      machine.execute frame callers placed.instruction = .ok (.next middle) →
      Runs middle budget result → Runs machine (budget + 1) result

/-- What the rules say is what a resume gives. -/
theorem Runs.run_eq {budget : Nat} {result : Outcome × Machine}
    (runs : Runs machine budget result) :
    machine.run budget = result := by
  induction runs with
  | halted fetched | missing fetched | exhausted fetched => rw [run, fetched]
  | fails fetched executed | stops fetched executed =>
      rw [run, fetched]
      dsimp only
      rw [executed]
  | next fetched executed _ ih =>
      rw [run, fetched]
      dsimp only
      rw [executed]
      exact ih

/-- There are rules for every resume. -/
theorem exists_runs (machine : Machine) (budget : Nat) : ∃ result, Runs machine budget result := by
  induction budget generalizing machine with
  | zero =>
      cases fetched : machine.fetch with
      | halted => exact ⟨_, .halted fetched⟩
      | missing position => exact ⟨_, .missing fetched⟩
      | ready frame callers placed => exact ⟨_, .exhausted fetched⟩
  | succ budget ih =>
      cases fetched : machine.fetch with
      | halted => exact ⟨_, .halted fetched⟩
      | missing position => exact ⟨_, .missing fetched⟩
      | ready frame callers placed =>
          cases executed : machine.execute frame callers placed.instruction with
          | error cause => exact ⟨_, .fails fetched executed⟩
          | ok turn =>
              cases turn with
              | stop outcome after => exact ⟨_, .stops fetched executed⟩
              | next middle =>
                  obtain ⟨result, runs⟩ := ih middle
                  exact ⟨result, .next fetched executed runs⟩

/-- **A resume goes just as the rules say.** -/
theorem run_eq_iff {budget : Nat} {result : Outcome × Machine} :
    machine.run budget = result ↔ Runs machine budget result := by
  refine ⟨?_, Runs.run_eq⟩
  rintro rfl
  obtain ⟨result, runs⟩ := machine.exists_runs budget
  rw [runs.run_eq]
  exact runs

/-- Each resume follows the rules. -/
theorem runs_run (machine : Machine) (budget : Nat) : Runs machine budget (machine.run budget) :=
  run_eq_iff.mp rfl

end Machine

end LineRobot
