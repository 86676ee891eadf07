import LineRobot.Code.Assembly
import LineRobot.Proofs.Code.Segment
import LineRobot.Proofs.Execution.Realization
import LineRobot.Proofs.Meaning.Locals

/-! # Calls in the middle of their code

An `Activation` is a call of a function inside a run, and `Activation.session` a session in which it
has come to an instruction. The lemmas here are about one instruction each: what it makes of the
session, and which primitive meaning it realizes. `Activation.Stands` connects a session to a
situation: the locals hold the variables, and all else is the same. -/

namespace LineRobot

/-- A call of a function inside a run. -/
structure Activation where
  /-- The program. -/
  program : Program
  /-- The limits it runs under. -/
  limits : Limits
  /-- The number of the function. -/
  function : Nat
  /-- The code of the function. -/
  code : Code
  /-- The number of operands below the call. -/
  base : Nat
  /-- The frames below the call. -/
  callers : List Frame
  /-- The code is that of the function. -/
  found : program.function? function = some code

namespace Activation

variable (activation : Activation)

/-- The frame of the call. -/
def frame (counter : Nat) (locals : Array Float) : Frame :=
  ⟨activation.function, counter, locals, activation.base⟩

/-- The machine in which the call has come to an instruction. -/
def machine (counter : Nat) (locals : Array Float) (stack : List Float)
    (memory : Memory) : Machine :=
  ⟨activation.program, activation.limits, memory,
    activation.frame counter locals :: activation.callers, stack⟩

/-- The session in which the call has come to an instruction. -/
def session (counter : Nat) (locals : Array Float) (stack : List Float) (world : World) : Session :=
  ⟨activation.machine counter locals stack world.memory, world.script, world.seen⟩

/-- The call has come to an instruction, its locals hold the variables of the situation, and the
world is that of the situation. -/
def Stands (layers : List Layer) (counter : Nat) (stack : List Float) (situation : Situation)
    (session : Session) : Prop :=
  ∃ locals, locals.size = activation.code.localCount ∧ Agrees locals layers situation.blocks ∧
    session = activation.session counter locals stack situation.world

end Activation

namespace Activation

variable {activation : Activation} {counter : Nat} {locals : Array Float} {stack : List Float}
  {world : World} {instruction : Instruction} {position : Position}

/-- The instruction that the call has come to is fetched. -/
theorem fetch_machine {memory : Memory} {placed : Placed}
    (fetched : activation.code.body[counter]? = some placed) :
    (activation.machine counter locals stack memory).fetch =
      .ready (activation.frame (counter + 1) locals) activation.callers placed := by
  simp only [Machine.fetch, machine, frame, activation.found, fetched]
  rfl

/-- The program goes on after the instruction. -/
theorem step_of_next {machine : Machine}
    (fetched : activation.code.body[counter]? = some ⟨instruction, position⟩)
    (executed : (activation.machine counter locals stack world.memory).execute
      (activation.frame (counter + 1) locals) activation.callers instruction =
        .ok (.next machine)) :
    (activation.session counter locals stack world).step =
      .ok ⟨machine, world.script, world.seen⟩ := by
  rw [Session.step, session, fetch_machine fetched]
  simp only [executed]

/-- The program stops with the instruction. -/
theorem step_of_stop {outcome : Outcome} {machine : Machine}
    (fetched : activation.code.body[counter]? = some ⟨instruction, position⟩)
    (executed : (activation.machine counter locals stack world.memory).execute
      (activation.frame (counter + 1) locals) activation.callers instruction =
        .ok (.stop outcome machine)) :
    (activation.session counter locals stack world).step =
      (activation.session counter locals stack world).afterStop (outcome, machine) := by
  rw [Session.step, session, fetch_machine fetched]
  simp only [executed]

/-- The instruction does not fail for the limits. -/
theorem not_failsAtLimit {placed : Placed}
    (fetched : activation.code.body[counter]? = some placed)
    (free : ∀ cause, (activation.machine counter locals stack world.memory).execute
      (activation.frame (counter + 1) locals) activation.callers placed.instruction =
        .error cause → cause.isLimit = false) :
    ¬ (activation.session counter locals stack world).FailsAtLimit := by
  -- what is fetched is this instruction, and so it is this one that would have failed
  rintro ⟨frame, callers, found, cause, ready, failed, isLimit⟩
  have here : (activation.session counter locals stack world).machine.fetch = _ :=
    fetch_machine fetched
  rw [here] at ready
  cases ready
  rw [free cause failed] at isLimit
  cases isLimit

/-- The program ends with a fault of the instruction. -/
theorem step_of_fault {cause : FaultCause}
    (fetched : activation.code.body[counter]? = some ⟨instruction, position⟩)
    (executed : (activation.machine counter locals stack world.memory).execute
      (activation.frame (counter + 1) locals) activation.callers instruction = .error cause) :
    (activation.session counter locals stack world).step =
      .error (world.ended (.faulted ⟨cause, position⟩)) := by
  rw [Session.step, session, fetch_machine fetched]
  simp only [executed]
  exact Session.afterStop_of_halted _ rfl (by simp)

section Stands

variable {layers : List Layer} {situation : Situation} {session : Session}

/-- An instruction that changes operands only. -/
theorem Stands.next (stands : activation.Stands layers counter stack situation session)
    (target : Nat) (operands : List Float)
    (fetched : activation.code.body[counter]? = some ⟨instruction, position⟩)
    (executed : ∀ locals, (activation.machine counter locals stack situation.world.memory).execute
      (activation.frame (counter + 1) locals) activation.callers instruction =
        .ok (.next (activation.machine target locals operands situation.world.memory))) :
    ∃ later, session.step = .ok later ∧
      activation.Stands layers target operands situation later := by
  obtain ⟨locals, size, agrees, rfl⟩ := stands
  exact ⟨_, step_of_next fetched (executed locals), locals, size, agrees, rfl⟩

/-- An instruction that changes operands and memory. -/
theorem Stands.next_memory (stands : activation.Stands layers counter stack situation session)
    (target : Nat) (operands : List Float) (memory : Memory)
    (fetched : activation.code.body[counter]? = some ⟨instruction, position⟩)
    (executed : ∀ locals, (activation.machine counter locals stack situation.world.memory).execute
      (activation.frame (counter + 1) locals) activation.callers instruction =
        .ok (.next (activation.machine target locals operands memory))) :
    ∃ later, session.step = .ok later ∧
      activation.Stands layers target operands
        { situation with world := { situation.world with memory } } later := by
  obtain ⟨locals, size, agrees, rfl⟩ := stands
  exact ⟨_, step_of_next fetched (executed locals), locals, size, agrees, rfl⟩

/-- An instruction that faults, but not for the limits. -/
theorem Stands.ends {cause : FaultCause}
    (stands : activation.Stands layers counter stack situation session)
    (fetched : activation.code.body[counter]? = some ⟨instruction, position⟩)
    (executed : ∀ locals, (activation.machine counter locals stack situation.world.memory).execute
      (activation.frame (counter + 1) locals) activation.callers instruction = .error cause)
    (isOther : cause.isLimit = false) :
    session.EndsFreely (situation.world.ended (.faulted ⟨cause, position⟩)) := by
  obtain ⟨locals, -, -, rfl⟩ := stands
  refine .single (step_of_fault fetched (executed locals)) (not_failsAtLimit fetched
    fun other => ?_)
  intro failed
  rw [executed locals] at failed
  cases failed
  exact isOther

/-! ### Jumps -/

/-- A jump. -/
theorem Stands.jump (stands : activation.Stands layers counter stack situation session)
    {target : Nat} (fetched : activation.code.body[counter]? = some ⟨.jump target, position⟩) :
    ∃ later, session.step = .ok later ∧
      activation.Stands layers target stack situation later :=
  stands.next target stack fetched fun _ => rfl

/-- A jump that is taken if the value on top is not true. -/
theorem Stands.jumpIfFalse {value : Float}
    (stands : activation.Stands layers counter (value :: stack) situation session) {target : Nat}
    (fetched : activation.code.body[counter]? = some ⟨.jumpIfFalse target, position⟩) :
    ∃ later, session.step = .ok later ∧
      activation.Stands layers (if Value.isTrue value then counter + 1 else target) stack situation
        later := by
  refine stands.next _ stack fetched fun locals => ?_
  show Except.ok (Turn.next (Machine.withFrames _ ((if Value.isTrue value then _ else _) :: _) _)) =
    _
  split <;> rfl

/-- A jump that is taken if the value on top is true. -/
theorem Stands.jumpIfTrue {value : Float}
    (stands : activation.Stands layers counter (value :: stack) situation session) {target : Nat}
    (fetched : activation.code.body[counter]? = some ⟨.jumpIfTrue target, position⟩) :
    ∃ later, session.step = .ok later ∧
      activation.Stands layers (if Value.isTrue value then target else counter + 1) stack situation
        later := by
  refine stands.next _ stack fetched fun locals => ?_
  show Except.ok (Turn.next (Machine.withFrames _ ((if Value.isTrue value then _ else _) :: _) _)) =
    _
  split <;> rfl

/-- The jump of a connective, which is taken if the operand on top decides the value. -/
theorem Stands.decidingJump {value : Float} {connective : Connective}
    (stands : activation.Stands layers counter (value :: stack) situation session) {target : Nat}
    (fetched : activation.code.body[counter]? =
      some ⟨Formula.decidingJump connective target, position⟩) :
    ∃ later, session.step = .ok later ∧ activation.Stands layers
      (if connective.isDecidedBy value then target else counter + 1) stack situation later := by
  cases connective with
  | and =>
      obtain ⟨later, stepped, stands⟩ := stands.jumpIfFalse fetched
      refine ⟨later, stepped, ?_⟩
      rw [Connective.isDecidedBy]
      cases truth : Value.isTrue value <;> rw [truth] at stands <;> exact stands
  | or => exact stands.jumpIfTrue fetched

/-! ### Local variables -/

variable {name : String} {slot : Nat} {writable : Bool}

/-- A local is pushed. -/
theorem Stands.load (stands : activation.Stands layers counter stack situation session)
    {found : Local} (declared : layers.flatten.lookup name = some found)
    (fetched : activation.code.body[counter]? = some ⟨.load found.slot, position⟩) :
    ∃ value later, Block.lookup? situation.blocks name = some value ∧ session.step = .ok later ∧
      activation.Stands layers (counter + 1) (value :: stack) situation later := by
  obtain ⟨locals, size, agrees, rfl⟩ := stands
  obtain ⟨value, known, held⟩ := agrees.lookup? declared
  have executed : (activation.machine counter locals stack situation.world.memory).execute
      (activation.frame (counter + 1) locals) activation.callers (.load found.slot) =
        .ok (.next (activation.machine (counter + 1) locals (value :: stack)
          situation.world.memory)) := Machine.Does.execute_eq (.load held)
  exact ⟨value, _, known, step_of_next fetched executed, locals, size, agrees, rfl⟩

/-- A local is set to the value on top. -/
theorem Stands.store {value : Float}
    (stands : activation.Stands layers counter (value :: stack) situation session)
    (declared : layers.flatten.lookup name = some ⟨slot, writable⟩) (apart : (slotsOf layers).Nodup)
    (fetched : activation.code.body[counter]? = some ⟨.store slot, position⟩) :
    ∃ blocks later, Block.assign? name value situation.blocks = some blocks ∧
      session.step = .ok later ∧
        activation.Stands layers (counter + 1)
          (value :: stack) { situation with blocks } later := by
  obtain ⟨locals, size, agrees, rfl⟩ := stands
  obtain ⟨old, -, held⟩ := agrees.lookup? declared
  obtain ⟨blocks, assigned, changed⟩ := agrees.assign? value declared apart
  have executed : (activation.machine counter locals (value :: stack)
      situation.world.memory).execute (activation.frame (counter + 1) locals) activation.callers
        (.store slot) = .ok (.next (activation.machine (counter + 1)
          (locals.setIfInBounds slot value) (value :: stack) situation.world.memory)) :=
    Machine.Does.execute_eq (.store rfl (Array.getElem?_eq_some_iff.mp held).1)
  refine ⟨blocks, _, assigned, step_of_next fetched executed, _, ?_, changed, rfl⟩
  rw [Array.size_setIfInBounds, size]

/-- A local is changed by one, and one of its values is pushed. -/
theorem Stands.changeLocal {direction : Direction} {moment : Moment}
    (stands : activation.Stands layers counter stack situation session)
    (declared : layers.flatten.lookup name = some ⟨slot, writable⟩) (apart : (slotsOf layers).Nodup)
    (fetched : activation.code.body[counter]? =
      some ⟨.change (.localSlot slot) direction moment, position⟩) :
    ∃ old blocks later, Block.lookup? situation.blocks name = some old ∧
      Block.assign? name (direction.apply old) situation.blocks = some blocks ∧
        session.step = .ok later ∧ activation.Stands layers (counter + 1)
          (moment.choose old (direction.apply old) :: stack) { situation with blocks } later := by
  obtain ⟨locals, size, agrees, rfl⟩ := stands
  obtain ⟨old, known, held⟩ := agrees.lookup? declared
  obtain ⟨blocks, assigned, changed⟩ := agrees.assign? (direction.apply old) declared apart
  have executed : (activation.machine counter locals stack situation.world.memory).execute
      (activation.frame (counter + 1) locals) activation.callers
        (.change (.localSlot slot) direction moment) =
          .ok (.next (activation.machine (counter + 1)
            (locals.setIfInBounds slot (direction.apply old))
            (moment.choose old (direction.apply old) :: stack) situation.world.memory)) :=
    Machine.Does.execute_eq (.changeLocal held)
  refine ⟨old, blocks, _, known, assigned, step_of_next fetched executed, _, ?_, changed, rfl⟩
  rw [Array.size_setIfInBounds, size]

/-- A new local takes the value on top. -/
theorem Stands.declare {layer : Layer} {value : Float}
    (stands : activation.Stands (layer :: layers) counter (value :: stack) situation session)
    (name : String) (writable : Bool) (free : slot ∉ slotsOf (layer :: layers))
    (room : slot < activation.code.localCount)
    (fetched : activation.code.body[counter]? = some ⟨.store slot, position⟩) :
    ∃ blocks later, Block.declare? name value situation.blocks = some blocks ∧
      session.step = .ok later ∧ activation.Stands (((name, ⟨slot, writable⟩) :: layer) :: layers)
        (counter + 1) (value :: stack) { situation with blocks } later := by
  obtain ⟨locals, size, agrees, rfl⟩ := stands
  obtain ⟨blocks, world⟩ := situation
  cases agrees with
  | @cons _ block _ outer holds rest =>
      have inside : slot < locals.size := by rw [size]; exact room
      -- the slot is in none of the layers, so that no variable loses its value
      have changed := Agrees.declare value (.cons holds rest) name writable free inside
      have executed : (activation.machine counter locals (value :: stack) world.memory).execute
          (activation.frame (counter + 1) locals) activation.callers (.store slot) =
            .ok (.next (activation.machine (counter + 1) (locals.setIfInBounds slot value)
              (value :: stack) world.memory)) := Machine.Does.execute_eq (.store rfl inside)
      refine ⟨_, _, rfl, step_of_next fetched executed, _, ?_, changed, rfl⟩
      rw [Array.size_setIfInBounds, size]

/-! ### Blocks -/

/-- A new block has no variables. -/
theorem Stands.openBlock (stands : activation.Stands layers counter stack situation session) :
    activation.Stands ([] :: layers) counter stack
      { situation with blocks := [] :: situation.blocks } session := by
  obtain ⟨locals, size, agrees, rfl⟩ := stands
  exact ⟨locals, size, .cons .nil agrees, rfl⟩

/-- The variables of a block are given up after it. -/
theorem Stands.closeBlock {layer : Layer}
    (stands : activation.Stands (layer :: layers) counter stack situation session) :
    activation.Stands layers counter stack
      { situation with blocks := situation.blocks.tail } session := by
  obtain ⟨locals, size, agrees, rfl⟩ := stands
  obtain ⟨blocks, world⟩ := situation
  cases agrees with
  | cons _ rest => exact ⟨locals, size, rest, rfl⟩

/-! ### Suspension -/

/-- An instruction that suspends the program. -/
theorem Stands.suspend {deep : Prop} {least : Nat} {suspension : Suspension} {operands : List Float}
    (stands : activation.Stands layers counter stack situation session)
    (fetched : activation.code.body[counter]? = some ⟨instruction, position⟩)
    (executed : ∀ locals, (activation.machine counter locals stack situation.world.memory).execute
      (activation.frame (counter + 1) locals) activation.callers instruction =
        .ok (.stop (.suspended suspension)
          (activation.machine (counter + 1) locals operands situation.world.memory))) :
    session.Realizes deep least (Meaning.suspend suspension) situation fun _ after later =>
      activation.Stands layers (counter + 1) operands after later := by
  obtain ⟨locals, size, agrees, rfl⟩ := stands
  have stepped := step_of_stop fetched (executed locals)
  obtain ⟨blocks, ⟨memory, script, seen⟩⟩ := situation
  cases script with
  | nil =>
      refine .halted (.single stepped (not_failsAtLimit fetched fun cause => ?_)) rfl
      rw [executed locals]
      simp
  | cons channels later => exact .of_ok rfl (.single stepped) ⟨locals, size, agrees, rfl⟩

end Stands

end Activation

end LineRobot
