import LineRobot.Proofs.Code.Levels
import LineRobot.Proofs.Machine.Turn

/-! # Balanced machines

All frames share one operand stack. A machine is balanced (`Machine.Balanced`) if each frame has as
many operands on it as the height of the instruction it has come to; the frames below the innermost
one wait for the value of a call and have one less. A balanced machine finds what an instruction
needs (`Machine.Poised.not_malformed`), and it stays balanced (`Machine.Poised.balanced`). -/

namespace LineRobot

/-- A fault that comes from code that is not well-formed. -/
def FaultCause.isMalformed : FaultCause → Bool
  | .argumentCountMismatch _ _ _ => true
  | .stackUnderflow => true
  | _ => false

/-- A frame has come to an instruction whose height is the given number of operands. -/
def Frame.Stands (program : Program) (operands : Nat) (frame : Frame) : Prop :=
  ∃ code heights, program.function? frame.function = some code ∧
    frame.locals.size = code.localCount ∧ code.Fits program heights ∧
      heights[frame.counter]? = some operands

/-- Frames have come to instructions whose heights are the numbers of their operands, on a stack of
the given height. The innermost frame waits for some operands that are not on the stack, all others
for one. -/
def FramesStand (program : Program) : (pending : Nat) → List Frame → (height : Nat) → Prop
  | _, [], height => height = 0
  | pending, frame :: callers, height =>
      frame.base ≤ height ∧ frame.Stands program (height - frame.base + pending) ∧
        FramesStand program 1 callers frame.base

/-- The operand stack has the heights of the instructions to which the frames have come. -/
def Machine.Balanced (machine : Machine) : Prop :=
  FramesStand machine.program 0 machine.frames machine.stack.length

namespace Frame

variable {program : Program} {operands : Nat} {frame : Frame}

/-- A frame stands at an instruction of its function. -/
theorem Stands.counter_lt (stands : frame.Stands program operands) :
    ∃ code, program.function? frame.function = some code ∧ frame.counter < code.size ∧
      frame.locals.size = code.localCount := by
  obtain ⟨code, heights, found, size, fits, height⟩ := stands
  refine ⟨code, found, ?_, size⟩
  rw [← fits.length]
  exact (List.getElem?_eq_some_iff.mp height).1

/-- A frame begins at the first instruction, without operands. -/
theorem stands_enter {number base : Nat} {code : Code} {arguments : List Float} {heights : List Nat}
    (found : program.function? number = some code) (fits : code.Fits program heights)
    (room : arguments.length ≤ code.localCount) :
    (enter number code arguments base).Stands program 0 := by
  refine ⟨code, heights, found, ?_, fits, fits.first⟩
  rw [enter, List.size_toArray, List.length_append, List.length_reverse, List.length_replicate]
  omega

end Frame

/-- All frames of a balanced stack stand at instructions of their functions. -/
theorem FramesStand.counter_lt {program : Program} {pending height : Nat} {frames : List Frame}
    (stand : FramesStand program pending frames height) :
    ∀ frame ∈ frames, ∃ code, program.function? frame.function = some code ∧
      frame.counter < code.size ∧ frame.locals.size = code.localCount := by
  induction frames generalizing pending height with
  | nil => exact fun _ member => absurd member List.not_mem_nil
  | cons first callers ih =>
      intro frame member
      rcases List.mem_cons.mp member with rfl | later
      · exact stand.2.1.counter_lt
      · exact ih stand.2.2 frame later

namespace Machine

variable {machine : Machine} {frame : Frame} {callers : List Frame} {instruction : Instruction}
  {placed : Placed} {turn : Turn}

/-- What is known of a balanced machine before an instruction with a height. -/
structure Poised (machine : Machine) (frame : Frame) (callers : List Frame)
    (instruction : Instruction) (code : Code) (heights : List Nat) (index height : Nat) : Prop where
  /-- The function of the innermost frame. -/
  found : machine.program.function? frame.function = some code
  /-- Its locals. -/
  size : frame.locals.size = code.localCount
  /-- Its heights. -/
  fits : code.Fits machine.program heights
  /-- The instruction fits its height. -/
  fit : instruction.Fits machine.program code.localCount heights index height
  /-- The counter is already at the next instruction. -/
  counter : frame.counter = index + 1
  /-- The operands of the innermost frame. -/
  length : machine.stack.length = frame.base + height
  /-- The other frames. -/
  callers : FramesStand machine.program 1 callers frame.base

/-- A balanced machine before an instruction. -/
theorem Balanced.poised (balanced : machine.Balanced)
    (fetched : machine.fetch = .ready frame callers placed) :
    ∃ code heights index height,
      machine.Poised frame callers placed.instruction code heights index height := by
  unfold Balanced at balanced
  unfold fetch at fetched
  cases frames : machine.frames with
  | nil =>
      rw [frames] at fetched
      cases fetched
  | cons top others =>
      rw [frames] at fetched balanced
      obtain ⟨below, ⟨code, heights, found, size, fits, height⟩, callersStand⟩ := balanced
      dsimp only at fetched
      rw [found] at fetched
      dsimp only at fetched
      split at fetched
      case h_1 => cases fetched
      case h_2 here =>
        cases fetched
        -- the height that is assigned to the counter is the number of operands
        obtain ⟨known, same, fit⟩ := fits.instruction _ _ here
        obtain rfl : _ = known := Option.some.inj (height.symm.trans same)
        refine ⟨code, heights, top.counter, _, found, size, fits, fit, rfl, ?_, callersStand⟩
        show machine.stack.length = top.base + (machine.stack.length - top.base + 0)
        omega

/-- A balanced machine that is not over has an instruction before it. -/
theorem Balanced.fetch_ne_missing (balanced : machine.Balanced) (position : Position) :
    machine.fetch ≠ .missing position := by
  unfold Balanced at balanced
  unfold fetch
  cases frames : machine.frames with
  | nil => exact nofun
  | cons top others =>
      rw [frames] at balanced
      obtain ⟨code, found, inside, -⟩ := balanced.2.1.counter_lt
      dsimp only
      rw [found]
      dsimp only
      rw [Array.getElem?_eq_getElem inside]
      exact nofun

/-! ## What an instruction finds -/

/-- A call of a function with the right number of arguments fails only for too many calls. -/
theorem call_not_malformed {function : Nat} {code : Code} {cause : FaultCause}
    (found : machine.program.function? function = some code)
    (enough : code.arity ≤ machine.stack.length)
    (fails : machine.call frame callers function code.arity = .error cause) :
    cause.isMalformed = false := by
  have operands : machine.stack = machine.stack.take code.arity ++ machine.stack.drop code.arity :=
    (List.take_append_drop _ _).symm
  have count : (machine.stack.take code.arity).length = code.arity := List.length_take_of_le enough
  have called := call_eq frame callers found operands count
  rw [count, fails] at called
  split at called <;> cases called
  rfl

/-- A balanced machine does not fault for want of an operand, a local or a function, nor for a wrong
number of arguments. -/
theorem Poised.not_malformed {code : Code} {heights : List Nat} {index height : Nat}
    (poised : machine.Poised frame callers instruction code heights index height)
    {cause : FaultCause} (fails : machine.execute frame callers instruction = .error cause) :
    cause.isMalformed = false := by
  have enough : instruction.operands ≤ machine.stack.length := by
    rw [poised.length]
    exact Nat.le_trans poised.fit.enough (Nat.le_add_left _ _)
  have refers := poised.fit.refers
  have localExists {slot : Nat} (known : slot < code.localCount) : slot < frame.locals.size := by
    rw [poised.size]
    exact known
  cases execute_eq_error_iff.mp fails with
  | operands _ few => exact absurd enough (Nat.not_le_of_lt few)
  | load missing | changeLocal missing =>
      exact absurd (localExists refers) (Nat.not_lt_of_le (Array.getElem?_eq_none_iff.mp missing))
  | store outside => exact absurd (localExists refers) outside
  | fetch | deposit | changeSlot | binary | wait => rfl
  | call failed =>
      obtain ⟨called, found, rfl⟩ := refers
      exact call_not_malformed found enough failed

/-! ## What an instruction does to the heights -/

/-- The frame of the same call, later. -/
structure SameCall (after before : Frame) : Prop where
  /-- The function is the same. -/
  function : after.function = before.function
  /-- The operands below it are the same. -/
  base : after.base = before.base
  /-- The number of its locals is the same. -/
  size : after.locals.size = before.locals.size

/-- An instruction other than a call and a return goes on in the same frame, at one of its
followers, and replaces its operands by its results. -/
theorem execute_within {index : Nat} (counter : frame.counter = index + 1)
    (noCall : ∀ function count, instruction ≠ .call function count)
    (noReturn : instruction ≠ .giveBack)
    (executed : machine.execute frame callers instruction = .ok turn) :
    turn.machine.stack.length =
        machine.stack.length - instruction.operands + instruction.results ∧
      ∃ after, turn.machine.frames = after :: callers ∧ SameCall after frame ∧
        after.counter ∈ instruction.followers index := by
  have next : frame.counter ∈ [index + 1] := List.mem_singleton.mpr counter
  have here : SameCall frame frame := ⟨rfl, rfl, rfl⟩
  cases execute_eq_ok_iff.mp executed with
  | call => exact absurd rfl (noCall _ _)
  | giveBack | finish => exact absurd rfl noReturn
  | push | load | constant | tick => exact ⟨rfl, frame, rfl, here, next⟩
  | fetch operands | deposit operands | changeSlot operands | unary operands | binary operands
  | pop operands | duplicate operands | motor operands | wait operands =>
      exact ⟨by rw [operands]; rfl, frame, rfl, here, next⟩
  | changeLocal => exact ⟨rfl, _, rfl, ⟨rfl, rfl, by simp [Frame.setLocal]⟩, next⟩
  | store operands =>
      exact ⟨by rw [operands]; rfl, _, rfl, ⟨rfl, rfl, Array.size_setIfInBounds⟩, next⟩
  | @jump target => exact ⟨rfl, _, rfl, ⟨rfl, rfl, rfl⟩, List.mem_singleton_self target⟩
  | jumpIfFalse operands =>
      refine ⟨by rw [operands]; rfl, _, rfl, ?_, ?_⟩ <;> split
      · exact here
      · exact ⟨rfl, rfl, rfl⟩
      · exact List.mem_cons_of_mem _ next
      · exact List.mem_cons_self
  | jumpIfTrue operands =>
      refine ⟨by rw [operands]; rfl, _, rfl, ?_, ?_⟩ <;> split
      · exact ⟨rfl, rfl, rfl⟩
      · exact here
      · exact List.mem_cons_self
      · exact List.mem_cons_of_mem _ next

variable {code : Code} {heights : List Nat} {index height : Nat}

/-- A frame that goes on at a follower of its instruction has come to the height there. -/
theorem Poised.stands (poised : machine.Poised frame callers instruction code heights index height)
    {after : Frame} (same : SameCall after frame)
    (follows : after.counter ∈ instruction.followers index) :
    after.Stands machine.program (height - instruction.operands + instruction.results) := by
  refine ⟨code, heights, ?_, ?_, poised.fits, poised.fit.onward _ follows⟩
  · rw [same.function]
    exact poised.found
  · rw [same.size]
    exact poised.size

/-- A call keeps the machine balanced: the caller waits for one value. -/
theorem Poised.balanced_call {function count : Nat} {after : Machine}
    (poised : machine.Poised frame callers (.call function count) code heights index height)
    (fits : machine.program.Fits) (called : machine.call frame callers function count = .ok after) :
    after.Balanced := by
  obtain ⟨callee, found, rfl, -, enough, rfl⟩ := exists_of_call called
  obtain ⟨calleeHeights, calleeFits⟩ := fits.heights function callee found
  have length := poised.length
  have taken : callee.arity ≤ height := poised.fit.enough
  have caller := poised.stands ⟨rfl, rfl, rfl⟩ (List.mem_singleton.mpr poised.counter)
  -- the callee begins without operands, and with room for its arguments
  have entered {base : Nat} : (Frame.enter function callee (machine.stack.take callee.arity)
      base).Stands machine.program 0 := by
    refine Frame.stands_enter found calleeFits ?_
    rw [List.length_take_of_le enough]
    exact fits.room function callee found
  refine ⟨Nat.le_refl _, ?_, ?_, ?_, poised.callers⟩
  · rw [← Nat.sub_self (machine.stack.drop callee.arity).length] at entered
    exact entered
  · show frame.base ≤ (machine.stack.drop callee.arity).length
    rw [List.length_drop]
    omega
  · have left : (machine.stack.drop callee.arity).length - frame.base + 1 =
        height - callee.arity + 1 := by
      rw [List.length_drop]
      omega
    show frame.Stands machine.program ((machine.stack.drop callee.arity).length - frame.base + 1)
    rw [left]
    exact caller

/-- A return keeps the machine balanced: the caller gets the value it waits for. -/
theorem Poised.balanced_giveBack
    (poised : machine.Poised frame callers .giveBack code heights index height)
    (executed : machine.execute frame callers .giveBack = .ok turn) : turn.machine.Balanced := by
  have length := poised.length
  have taken : 1 ≤ height := poised.fit.enough
  have callersStand := poised.callers
  have below {value : Float} {stack : List Float} (operands : machine.stack = value :: stack) :
      (stack.drop (stack.length - frame.base)).length = frame.base := by
    rw [operands, List.length_cons] at length
    rw [List.length_drop]
    omega
  cases execute_eq_ok_iff.mp executed with
  | finish operands last =>
      subst last
      show (List.drop _ _).length = 0
      rw [below operands]
      exact callersStand
  | @giveBack value stack caller others operands around =>
      subst around
      obtain ⟨base, stands, othersStand⟩ := callersStand
      show FramesStand _ 0 (caller :: others) ((stack.drop _).length + 1)
      rw [below operands]
      refine ⟨Nat.le_succ_of_le base, ?_, othersStand⟩
      -- the value given back is the one operand that the caller stands with in addition
      have waited : frame.base + 1 - caller.base + 0 = frame.base - caller.base + 1 := by omega
      rw [waited]
      exact stands

/-- Any other instruction keeps the machine balanced: it stays in its frame. -/
theorem Poised.balanced_within
    (poised : machine.Poised frame callers instruction code heights index height)
    (noCall : ∀ function count, instruction ≠ .call function count)
    (noReturn : instruction ≠ .giveBack)
    (executed : machine.execute frame callers instruction = .ok turn) : turn.machine.Balanced := by
  obtain ⟨stack, after, frames, same, follows⟩ :=
    execute_within poised.counter noCall noReturn executed
  have stands := poised.stands same follows
  have length := poised.length
  have enough := poised.fit.enough
  unfold Balanced
  rw [(execute_fixed executed).program, frames, stack]
  refine ⟨?_, ?_, ?_⟩
  · rw [same.base]
    omega
  · have own : machine.stack.length - instruction.operands + instruction.results - after.base + 0 =
        height - instruction.operands + instruction.results := by
      rw [same.base]
      omega
    rw [own]
    exact stands
  · rw [same.base]
    exact poised.callers

/-- **A balanced machine stays balanced.** -/
theorem Poised.balanced
    (poised : machine.Poised frame callers instruction code heights index height)
    (fits : machine.program.Fits)
    (executed : machine.execute frame callers instruction = .ok turn) :
    turn.machine.Balanced := by
  cases execute_eq_ok_iff.mp executed with
  | call called => exact poised.balanced_call fits called
  | giveBack | finish => exact poised.balanced_giveBack executed
  | _ => exact poised.balanced_within (by nofun) (by nofun) executed

end Machine

end LineRobot
