import Mathlib.Algebra.Order.BigOperators.Group.List
import Mathlib.Algebra.Order.Group.Nat
import Mathlib.Data.Finset.Card
import Mathlib.Logic.Relation
import LineRobot.Proofs.Code.Flow
import LineRobot.Proofs.Machine.Limits

/-! # Programs whose resumes are bounded

Let all loops of a program be loops without a condition, and let no function come to be called by
itself. Then control goes onward in each function until it comes to a tick (`Code.Advances`), and
functions have ranks that calls go down (`Program.Fits.exists_rank`). So the turns that a machine
can still make are bounded by a potential of its frames, which each turn lowers
(`Machine.potential_lt`), and the potential is bounded by a number that is known from the program
(`Program.Chain.potential_add_le`). -/

namespace LineRobot

/-! ## Code that advances -/

/-- Control goes only onward, or to a tick. -/
def Code.Advances (code : Code) : Prop :=
  ∀ index placed, code.body[index]? = some placed →
    ∀ follower ∈ placed.instruction.followers index, index < follower ∨ code.TicksAt follower

/-- **The code of a function without other loops advances.** -/
theorem ParsedFunction.Emits.advances {functions : FunctionTable} {function : ParsedFunction}
    {parameters : List String} {code : Code} (emits : function.Emits functions parameters code)
    (rewinds : (Statement.waysOf function.body).rewinds = false) : code.Advances := by
  obtain ⟨scope, segment, after, -, bodyEmits, all⟩ := emits.body
  have contains : code.Contains 0 code.body.toList := Code.contains_body
  rw [all, Code.contains_append] at contains
  have body := bodyEmits.flows contains.1 0 _ (Nat.le_refl 0) (Nat.le_refl _)
  have whole : Throughout (fun index instruction => ∀ follower ∈ instruction.followers index,
      index < follower ∨ code.TicksAt follower) 0 code.body.toList := by
    rw [all, throughout_append]
    refine ⟨body.imp fun index instruction _ _ steady follower member => ?_, ?_, nofun, trivial⟩
    · cases steady.goes follower member with
      | onward later => exact .inl later
      | again _ _ head => exact .inr (head rewinds)
      | leave same => cases same
      | next same => cases same
    · intro follower member
      rw [List.mem_singleton.mp member]
      exact .inl (Nat.lt_succ_self _)
  intro index placed found
  rw [← Array.getElem?_toList] at found
  have here := whole.getElem? found
  rwa [Nat.zero_add] at here

/-! ## Calls -/

namespace Program

variable {program : Program}

/-- The functions are numbered in order. -/
theorem function?_eq_getElem? (program : Program) (number : Nat) :
    program.function? number = program.functions[number]? := by
  cases number with
  | zero => rfl
  | succ index => exact Array.getElem?_toList.symm

/-- A function of the program calls another one: there is a call of it in the code. -/
def Calls (program : Program) (caller callee : Nat) : Prop :=
  ∃ code placed count, program.function? caller = some code ∧ placed ∈ code.body ∧
    placed.instruction = .call callee count

/-- The functions that are called exist. -/
theorem Fits.lt_of_calls (fits : program.Fits) {caller callee : Nat}
    (calls : program.Calls caller callee) : callee < program.functions.length := by
  obtain ⟨code, placed, count, found, member, call⟩ := calls
  obtain ⟨index, here⟩ := Array.mem_iff_getElem?.mp member
  obtain ⟨heights, fit⟩ := fits.heights caller code found
  obtain ⟨height, -, instructionFits⟩ := fit.instruction index placed here
  have refers := instructionFits.refers
  rw [call] at refers
  obtain ⟨other, called, -⟩ := refers
  rw [function?_eq_getElem?] at called
  exact (List.getElem?_eq_some_iff.mp called).1

/-- **Functions that do not come to be called by themselves have ranks** that calls go down. -/
theorem Fits.exists_rank (fits : program.Fits)
    (acyclic : ∀ number, ¬ Relation.TransGen program.Calls number number) :
    ∃ rank : Nat → Nat, ∀ caller callee, program.Calls caller callee →
      rank callee < rank caller := by
  classical
  -- the rank of a function is the number of functions that it comes to call
  refine ⟨fun number => ((Finset.range program.functions.length).filter
    (Relation.TransGen program.Calls number)).card, fun caller callee calls => ?_⟩
  refine Finset.card_lt_card ⟨?_, ?_⟩
  · intro other member
    rw [Finset.mem_filter] at member ⊢
    exact ⟨member.1, .head calls member.2⟩
  · intro subset
    have called : callee ∈ (Finset.range program.functions.length).filter
        (Relation.TransGen program.Calls caller) :=
      Finset.mem_filter.mpr ⟨Finset.mem_range.mpr (fits.lt_of_calls calls), .single calls⟩
    exact acyclic callee (Finset.mem_filter.mp (subset called)).2

/-- Control goes onward in each function, or to a tick. -/
def Advances (program : Program) : Prop :=
  ∀ number code, program.function? number = some code → code.Advances

/-- What makes the resumes of a program bounded: a size that no function exceeds, and ranks of
functions. -/
structure Ranked (program : Program) (size : Nat) (rank : Nat → Nat) : Prop where
  /-- Control goes onward in each function, or to a tick. -/
  advances : program.Advances
  /-- The code of no function is longer than the size. -/
  size : ∀ number code, program.function? number = some code → code.size ≤ size
  /-- Calls go down the ranks. -/
  rank : ∀ caller callee, program.Calls caller callee → rank callee < rank caller

/-- The instruction at which a frame stands. -/
def instruction? (program : Program) (frame : Frame) : Option Instruction :=
  (program.function? frame.function).bind fun code =>
    code.body[frame.counter]?.map Placed.instruction

/-- An upper bound for the instructions that a call can execute before the next tick, those of the
calls that it makes included: none at a tick, and otherwise a number for each instruction that comes
later. -/
def room (program : Program) (size : Nat) (rank : Nat → Nat) (frame : Frame) : Nat :=
  if program.instruction? frame = some .tick then 0
  else (size - frame.counter) * (size + 1) ^ rank frame.function

/-- The room of all frames. -/
def potential (program : Program) (size : Nat) (rank : Nat → Nat) : List Frame → Nat
  | [] => 0
  | frame :: frames => program.room size rank frame + program.potential size rank frames

/-- The frames of a program that runs: each call is made by the one below it, and the first is that
of the entry function. -/
def Chain (program : Program) : List Frame → Prop
  | [] => True
  | [frame] => frame.function = 0
  | callee :: caller :: others =>
      program.Calls caller.function callee.function ∧ Chain program (caller :: others)

section Room

variable {size : Nat} {rank : Nat → Nat} {frame : Frame} {frames : List Frame}

/-- The instruction of a frame in code that is known. -/
theorem instruction?_eq {code : Code} (found : program.function? frame.function = some code) :
    program.instruction? frame = code.body[frame.counter]?.map Placed.instruction := by
  rw [instruction?, found, Option.bind_some]

/-- There is no room at a tick. -/
theorem room_of_ticksAt {code : Code} (found : program.function? frame.function = some code)
    (ticks : code.TicksAt frame.counter) : program.room size rank frame = 0 := by
  rw [room, instruction?_eq found]
  exact if_pos ticks

/-- There is never more room than for the rest of a function. -/
theorem room_le (frame : Frame) :
    program.room size rank frame ≤ (size - frame.counter) * (size + 1) ^ rank frame.function := by
  unfold room
  split
  · exact Nat.zero_le _
  · exact Nat.le_refl _

/-- The room of a frame and what belongs to its rank make up no more than the next rank. -/
theorem room_add_le_succ (frame : Frame) :
    program.room size rank frame + (size + 1) ^ rank frame.function ≤
      (size + 1) ^ (rank frame.function + 1) := by
  have room : program.room size rank frame ≤
      (size - frame.counter) * (size + 1) ^ rank frame.function := room_le frame
  have whole : (size - frame.counter) * (size + 1) ^ rank frame.function ≤
      size * (size + 1) ^ rank frame.function := Nat.mul_le_mul_right _ (Nat.sub_le _ _)
  rw [Nat.pow_succ, Nat.mul_comm, Nat.add_mul, Nat.one_mul]
  omega

/-- A call of a function of less rank has less room than what belongs to a rank above. -/
theorem room_lt_of_rank_lt {number : Nat} (down : rank frame.function < rank number) :
    program.room size rank frame < (size + 1) ^ rank number := by
  have filled : program.room size rank frame + (size + 1) ^ rank frame.function ≤ _ :=
    room_add_le_succ frame
  have lower : (size + 1) ^ (rank frame.function + 1) ≤ (size + 1) ^ rank number :=
    Nat.pow_le_pow_right (Nat.succ_pos size) down
  have positive : 0 < (size + 1) ^ rank frame.function := Nat.pow_pos (Nat.succ_pos size)
  omega

section Later

variable (noTick : program.instruction? frame ≠ some .tick) (within : frame.counter < size)

include noTick within

/-- There is room before the end of a function. -/
theorem room_pos : 0 < program.room size rank frame := by
  rw [room, if_neg noTick]
  exact Nat.mul_pos (by omega) (Nat.pow_pos (Nat.succ_pos size))

/-- A call that stands later has less room. -/
theorem room_add_le {after : Frame} (same : after.function = frame.function)
    (later : frame.counter < after.counter) :
    program.room size rank after + (size + 1) ^ rank frame.function ≤
      program.room size rank frame := by
  have room : program.room size rank after ≤
      (size - after.counter) * (size + 1) ^ rank after.function := room_le after
  have fewer : (size - after.counter + 1) * (size + 1) ^ rank frame.function ≤
      (size - frame.counter) * (size + 1) ^ rank frame.function :=
    Nat.mul_le_mul_right _ (by omega)
  have before : program.room size rank frame =
      (size - frame.counter) * (size + 1) ^ rank frame.function := if_neg noTick
  rw [same] at room
  rw [Nat.add_mul, Nat.one_mul] at fewer
  omega

end Later

/-- The head of a chain may be replaced by a frame of the same function. -/
theorem Chain.replace {after : Frame} (chain : program.Chain (frame :: frames))
    (same : after.function = frame.function) : program.Chain (after :: frames) := by
  cases frames with
  | nil => exact same.trans chain
  | cons caller others =>
      refine ⟨?_, chain.2⟩
      rw [same]
      exact chain.1

/-- The frames below a chain form one. -/
theorem Chain.tail (chain : program.Chain (frame :: frames)) : program.Chain frames := by
  cases frames with
  | nil => trivial
  | cons caller others => exact chain.2

/-- **The potential of the frames of a program is bounded.** Frames further up have less rank, so
their rooms are small beside those further down. -/
theorem Chain.potential_add_le (ranks : ∀ caller callee, program.Calls caller callee →
      rank callee < rank caller) (chain : program.Chain (frame :: frames)) :
    program.potential size rank (frame :: frames) + (size + 1) ^ rank frame.function ≤
      (size + 1) ^ (rank 0 + 1) := by
  induction frames generalizing frame with
  | nil =>
      have entry : frame.function = 0 := chain
      have filled : program.room size rank frame + _ ≤ _ := room_add_le_succ frame
      rw [entry] at filled ⊢
      rw [potential]
      exact filled
  | cons caller others ih =>
      have below := ih chain.2
      have lower : (size + 1) ^ (rank frame.function + 1) ≤ (size + 1) ^ rank caller.function :=
        Nat.pow_le_pow_right (Nat.succ_pos size) (ranks _ _ chain.1)
      have filled : program.room size rank frame + _ ≤ _ := room_add_le_succ frame
      rw [potential]
      omega

end Room

end Program

/-! ## Turns -/

namespace Machine

variable {program : Program} {memory : Memory} {limits : Limits} {machine middle last : Machine}
  {frame current : Frame} {callers others : List Frame} {placed : Placed} {size count : Nat}
  {rank : Nat → Nat}

/-- A call that goes on does not stand at a tick, which stops the program. -/
theorem noTick_of_next (frames : machine.frames = current :: others)
    (fetched : machine.fetch = .ready frame callers placed)
    (executed : machine.execute frame callers placed.instruction = .ok (.next middle)) :
    machine.program.instruction? current ≠ some .tick := by
  obtain ⟨top, code, topFrames, found, here, rfl⟩ := exists_of_fetch_ready fetched
  obtain ⟨rfl, -⟩ := List.cons.inj (topFrames.symm.trans frames)
  rw [Program.instruction?_eq found, here]
  intro tick
  have same : placed.instruction = .tick := Option.some.inj tick
  rw [same, execute] at executed
  cases executed

/-- **The frames of a program that runs are a chain of calls.** -/
theorem Reachable.chain (reachable : Reachable program memory limits machine) :
    program.Chain machine.frames := by
  induction reachable with
  | start => exact rfl
  | write _ _ ih => exact ih
  | fault => trivial
  | @execute machine frame callers placed turn before fetched executed ih =>
      obtain ⟨current, code, frames, found, here, rfl⟩ := exists_of_fetch_ready fetched
      rw [frames] at ih
      rw [before.program_eq] at found
      have moved := framesAfter_of_execute
        (rfl : (current.jump (current.counter + 1)).counter = current.counter + 1) executed
      generalize turn.machine.frames = framesAfter at moved ⊢
      cases moved with
      | within same => exact ih.replace same.function
      | entered call =>
          exact ⟨⟨code, placed, _, found, Array.mem_of_getElem? here, call⟩, ih.replace rfl⟩
      | left => exact ih.tail

/-- **Each turn lowers the potential.** -/
theorem potential_lt (ranked : machine.program.Ranked size rank)
    (fetched : machine.fetch = .ready frame callers placed)
    (executed : machine.execute frame callers placed.instruction = .ok (.next middle)) :
    machine.program.potential size rank middle.frames <
      machine.program.potential size rank machine.frames := by
  obtain ⟨current, code, frames, found, here, rfl⟩ := exists_of_fetch_ready fetched
  have within : current.counter < size :=
    Nat.lt_of_lt_of_le (Array.getElem?_eq_some_iff.mp here).1 (ranked.size _ code found)
  have noTick := noTick_of_next frames fetched executed
  have some : 0 < machine.program.room size rank current := Program.room_pos noTick within
  have moved : FramesAfter machine _ callers current.counter placed.instruction middle.frames :=
    framesAfter_of_execute rfl executed
  rw [frames, Program.potential]
  generalize middle.frames = framesAfter at moved ⊢
  cases moved with
  | @within after same follows =>
      rw [Program.potential]
      have function : after.function = current.function := same.function
      rcases ranked.advances _ code found _ placed here _ follows with later | ticks
      · have less : _ ≤ machine.program.room size rank current :=
          Program.room_add_le noTick within function later
        have positive : 0 < (size + 1) ^ rank current.function := Nat.pow_pos (Nat.succ_pos size)
        omega
      · rw [← function] at found
        rw [Program.room_of_ticksAt found ticks]
        omega
  | @entered callee argumentCount base other arguments call =>
      rw [Program.potential, Program.potential]
      have less : _ ≤ machine.program.room size rank current :=
        Program.room_add_le noTick within
          (rfl : (current.jump (current.counter + 1)).function = current.function)
          (Nat.lt_succ_self current.counter)
      -- all of the callee fits into what the call has used up
      have whole : machine.program.room size rank (Frame.enter callee other arguments base) <
          (size + 1) ^ rank current.function :=
        Program.room_lt_of_rank_lt
          (ranked.rank _ _ ⟨code, placed, argumentCount, found, Array.mem_of_getElem? here, call⟩)
      omega
  | left => omega

/-- Turns keep the program. -/
theorem Turns.program_eq (turns : machine.Turns count last) : last.program = machine.program := by
  induction turns with
  | none => rfl
  | next _ executed _ ih => exact ih.trans (execute_fixed executed).program

/-- The potential bounds the number of turns. -/
theorem Turns.add_potential_le (turns : machine.Turns count last)
    (ranked : machine.program.Ranked size rank) :
    count + machine.program.potential size rank last.frames ≤
      machine.program.potential size rank machine.frames := by
  induction turns with
  | none => omega
  | @next count machine middle last _ _ _ fetched executed _ ih =>
      have program : middle.program = machine.program := (execute_fixed executed).program
      rw [program] at ih
      have less := potential_lt ranked fetched executed
      have rest := ih ranked
      omega

/-- **A program makes only so many turns before it stops**, wherever it is. -/
theorem Reachable.turns_lt (reachable : Reachable program memory limits machine)
    (ranked : program.Ranked size rank) (turns : machine.Turns count last) :
    count < (size + 1) ^ (rank 0 + 1) := by
  have chain := reachable.chain
  rw [← reachable.program_eq] at ranked chain
  have bounded := turns.add_potential_le ranked
  cases frames : machine.frames with
  | nil =>
      rw [frames] at bounded
      have none : machine.program.potential size rank [] = 0 := rfl
      have positive : 0 < (size + 1) ^ (rank 0 + 1) := Nat.pow_pos (Nat.succ_pos size)
      omega
  | cons frame callers =>
      rw [frames] at bounded chain
      have potential : _ ≤ (size + 1) ^ (rank 0 + 1) := chain.potential_add_le ranked.rank
      have positive : 0 < (size + 1) ^ rank frame.function := Nat.pow_pos (Nat.succ_pos size)
      omega

/-! ## Rounds -/

/-- A resume goes from one moment to another one, and the call that is the innermost at both is not
left in between. -/
structure InCall (count : Nat) (machine last : Machine) : Prop where
  /-- The program makes turns from one moment to the other one. -/
  turns : machine.Turns count last
  /-- The call is the innermost again. -/
  depth : last.depth = machine.depth
  /-- It has not been left. -/
  stays : ∀ earlier middle, earlier ≤ count → machine.Turns earlier middle →
    machine.depth ≤ middle.depth

/-- The innermost of the given callers' callees has come to an index or beyond, or to a tick; it may
have called others. -/
def HasCome (machine : Machine) (number index : Nat) (callers : List Frame) : Prop :=
  ∃ above frame, machine.frames = above ++ frame :: callers ∧ frame.function = number ∧
    (index ≤ frame.counter ∨ machine.program.instruction? frame = some .tick)

section Round

variable {number index : Nat}

/-- An instruction that does not leave its call goes onward in it, or to a tick. -/
theorem hasCome_of_next (advances : machine.program.Advances)
    (frames : machine.frames = current :: callers)
    (fetched : machine.fetch = .ready frame callers placed)
    (executed : machine.execute frame callers placed.instruction = .ok (.next middle))
    (stays : callers.length < middle.depth) :
    middle.HasCome current.function (current.counter + 1) callers := by
  obtain ⟨same, code, frames', found, here, rfl⟩ := exists_of_fetch_ready fetched
  rw [frames'] at frames
  obtain ⟨rfl, -⟩ := List.cons.inj frames
  have program : middle.program = machine.program := (execute_fixed executed).program
  have moved : FramesAfter machine _ callers same.counter placed.instruction middle.frames :=
    framesAfter_of_execute rfl executed
  unfold HasCome
  unfold depth at stays
  rw [program]
  generalize middle.frames = framesAfter at moved stays ⊢
  cases moved with
  | @within after sameCall follows =>
      have function : after.function = same.function := sameCall.function
      refine ⟨[], after, rfl, function, ?_⟩
      refine (advances _ code found _ placed here _ follows).imp id fun ticks => ?_
      rw [← function] at found
      rw [Program.instruction?_eq found]
      exact ticks
  | entered => exact ⟨[_], _, rfl, rfl, .inl (Nat.le_refl _)⟩
  | left => exact absurd stays (Nat.lt_irrefl _)

/-- A call that has come somewhere stays there or goes onward, as long as it is not left. -/
theorem HasCome.next (advances : machine.program.Advances)
    (come : machine.HasCome number index callers)
    (fetched : machine.fetch = .ready frame others placed)
    (executed : machine.execute frame others placed.instruction = .ok (.next middle))
    (stays : callers.length < middle.depth) : middle.HasCome number index callers := by
  obtain ⟨above, call, frames, function, place⟩ := come
  obtain ⟨top, code, topFrames, found, here, rfl⟩ := exists_of_fetch_ready fetched
  rw [topFrames] at frames
  cases above with
  | nil =>
      -- the call itself goes on, and is not at a tick
      obtain ⟨rfl, rfl⟩ := List.cons.inj frames
      obtain ⟨above, after, framesAfter, same, later⟩ :=
        hasCome_of_next advances topFrames fetched executed stays
      refine ⟨above, after, framesAfter, same.trans function, later.imp (fun later => ?_) id⟩
      have passed := place.resolve_right (noTick_of_next topFrames fetched executed)
      omega
  | cons upper above =>
      -- a call above it goes on, or is left
      obtain ⟨rfl, rfl⟩ := List.cons.inj frames
      have program : middle.program = machine.program := (execute_fixed executed).program
      have moved : FramesAfter machine _ _ top.counter placed.instruction middle.frames :=
        framesAfter_of_execute rfl executed
      unfold HasCome
      rw [program]
      generalize middle.frames = framesAfter at moved ⊢
      cases moved with
      | within => exact ⟨_ :: above, call, rfl, function, place⟩
      | entered => exact ⟨_ :: _ :: above, call, rfl, function, place⟩
      | left => exact ⟨above, call, rfl, function, place⟩

/-- A call that has come somewhere has done so after more turns, as long as it is not left. -/
theorem HasCome.turns (advances : machine.program.Advances)
    (come : machine.HasCome number index callers) (turns : machine.Turns count last)
    (stays : ∀ earlier middle, earlier ≤ count → machine.Turns earlier middle →
      callers.length < middle.depth) : last.HasCome number index callers := by
  induction turns with
  | none => exact come
  | @next count machine middle last _ _ _ fetched executed _ ih =>
      have program : middle.program = machine.program := (execute_fixed executed).program
      rw [program] at ih
      refine ih advances (come.next advances fetched executed ?_) ?_
      · exact stays 1 middle (Nat.le_add_left 1 count) (.next fetched executed .none)
      · exact fun earlier other fewer turns =>
          stays (earlier + 1) other (Nat.succ_le_succ fewer) (.next fetched executed turns)

/-- **In one resume a call goes onward in its code**, until it comes to a tick. -/
theorem InCall.counter_lt (advances : machine.program.Advances)
    (inCall : machine.InCall (count + 1) last) (frames : machine.frames = current :: callers) :
    ∃ after, last.frames = after :: callers ∧ after.function = current.function ∧
      (current.counter < after.counter ∨
        last.program.instruction? after = some .tick) := by
  have height : machine.depth = callers.length + 1 := by
    show machine.frames.length = _
    rw [frames, List.length_cons]
  have stays (earlier : Nat) (middle : Machine) (few : earlier ≤ count + 1)
      (turns : machine.Turns earlier middle) : callers.length < middle.depth := by
    have kept := inCall.stays earlier middle few turns
    omega
  obtain ⟨above, after, framesAfter, function, later⟩ :
      last.HasCome current.function (current.counter + 1) callers := by
    cases inCall.turns with
    | @next _ _ middle _ frame others _ fetched executed turns =>
        have program : middle.program = machine.program := (execute_fixed executed).program
        obtain ⟨top, -, topFrames, -, -, -⟩ := exists_of_fetch_ready fetched
        obtain ⟨rfl, rfl⟩ := List.cons.inj (topFrames.symm.trans frames)
        have come := hasCome_of_next advances frames fetched executed
          (stays 1 middle (Nat.le_add_left 1 count) (.next fetched executed .none))
        refine come.turns (by rw [program]; exact advances) turns
          fun earlier other fewer turns => ?_
        exact stays (earlier + 1) other (Nat.succ_le_succ fewer) (.next fetched executed turns)
  -- the call is the innermost again
  have again : last.frames.length = machine.depth := inCall.depth
  rw [framesAfter, List.length_append, List.length_cons] at again
  obtain rfl : above = [] := List.eq_nil_of_length_eq_zero (by omega)
  exact ⟨after, framesAfter, function, later⟩

/-- **In one resume a call does not go back in its code**, or only to a tick, at which the resume
ends. -/
theorem InCall.counter_le (advances : machine.program.Advances) (inCall : machine.InCall count last)
    {after : Frame} (frames : machine.frames = current :: callers)
    (framesLast : last.frames = after :: others) :
    current.counter ≤ after.counter ∨
      machine.program.instruction? after = some .tick ∧ ∀ next, ¬ last.Turns 1 next := by
  cases count with
  | zero =>
      cases inCall.turns
      obtain ⟨rfl, -⟩ := List.cons.inj (framesLast.symm.trans frames)
      exact .inl (Nat.le_refl _)
  | succ count =>
      obtain ⟨innermost, framesAgain, -, onward⟩ := inCall.counter_lt advances frames
      obtain ⟨rfl, -⟩ := List.cons.inj (framesAgain.symm.trans framesLast)
      refine onward.imp Nat.le_of_lt fun tick => ⟨?_, fun next turns => ?_⟩
      · rwa [inCall.turns.program_eq] at tick
      · cases turns with
        | next fetched executed => exact noTick_of_next framesLast fetched executed tick

end Round

end Machine

/-! ## Compiled programs -/

/-- A loop without a condition in the code of a function: each round begins with the tick at the
head, and the last instruction jumps back to it. -/
structure Code.IsLoop (code : Code) (head last : Nat) : Prop where
  /-- The last instruction comes after the head. -/
  lt : head < last
  /-- A round begins with a tick. -/
  ticks : code.TicksAt head
  /-- The last instruction jumps to the head. -/
  jumps : code.body[last]?.map Placed.instruction = some (.jump head)

/-- The code of a loop without a condition is such a loop. -/
theorem Statement.Emits.isLoop {functions : FunctionTable} {localCount start : Nat}
    {targets : Option LoopTargets} {scope after : Scope} {condition : Expression String}
    {body : List Statement} {position : Position} {segment : List Placed} {code : Code}
    (emits : Statement.Emits functions localCount targets scope start
      (.whileLoop condition body position) segment after)
    (truth : Step.isTruth condition = true) (contains : code.Contains start segment) :
    code.IsLoop start (start + segment.length - 1) := by
  cases emits with
  | whileLoop untrue =>
      rw [truth] at untrue
      cases untrue
  | @forever _ _ _ _ _ _ _ bodyCode _ _ =>
      simp only [Code.contains_append, Code.contains_cons, List.length_append, List.length_cons,
        List.length_nil] at contains ⊢
      obtain ⟨⟨head, -⟩, last, -⟩ := contains
      refine ⟨by omega, ?_, ?_⟩
      · rw [Code.TicksAt, head]
        rfl
      · rw [show start + (bodyCode.length + 1 + (0 + 1)) - 1 =
          start + (bodyCode.length + 1) by omega, last, Option.map_some]

/-- A compiled program without other loops, in which no function comes to be called by itself, is
ranked. -/
theorem ParsedProgram.Emits.exists_ranked {parsed : ParsedProgram} {program : Program}
    (emits : parsed.Emits program)
    (rewinds : ∀ function ∈ parsed.entry :: parsed.subroutines,
      (Statement.waysOf function.body).rewinds = false)
    (acyclic : ∀ number, ¬ Relation.TransGen program.Calls number number) :
    ∃ size rank, program.Ranked size rank := by
  obtain ⟨rank, ranks⟩ := emits.fits.exists_rank acyclic
  refine ⟨(program.functions.map Code.size).sum, rank, fun number code found => ?_,
    fun number code found => ?_, ranks⟩
  · obtain ⟨function, member, parameters, here⟩ := emits.exists_mem_emits found
    exact here.advances (rewinds function member)
  · rw [Program.function?_eq_getElem?] at found
    exact List.le_sum_of_mem (List.mem_map_of_mem (List.mem_of_getElem? found))

namespace Machine

/-- All results of a script are those of resumes of reachable machines. -/
theorem Reachable.exists_of_mem_resumeAll {program : Program} {memory : Memory} {limits : Limits}
    {machine : Machine} (reachable : Reachable program memory limits machine) {script : List Cells}
    {result : Outcome × Machine} (member : result ∈ machine.resumeAll script) :
    ∃ before, Reachable program memory limits before ∧ result = before.resume := by
  induction script generalizing machine with
  | nil => cases member
  | cons channels later ih =>
      have written : Reachable program memory limits (machine.withSensors channels) :=
        reachable.write _
      rw [resumeAll, List.mem_cons] at member
      rcases member with rfl | there
      · exact ⟨_, written, rfl⟩
      · exact ih (written.run _) there

/-- A program whose turns are bounded applies no more instructions than that in a resume. -/
theorem Applies.le_of_turns_lt {machine : Machine} {count bound : Nat} {result : Outcome × Machine}
    (applies : machine.Applies count result)
    (bounded : ∀ count last, machine.Turns count last → count < bound) : count ≤ bound := by
  cases applies with
  | stop turns => exact bounded _ _ turns
  | fault turns => exact Nat.le_of_lt (bounded _ _ turns)
  | finished turns => exact Nat.le_of_lt (bounded _ _ turns)

/-- **Ticks bound every resume.** Let a compiled program have no other loops than `while (TRUE)`,
and let no function come to be called by itself. Then there is a bound such that for all memory and
limits,

* wherever the program is, it stops after fewer instructions than the bound, and so a resume
  applies no more instructions than the bound;
* if the limits allow as many instructions, no resume of a script exceeds its budget;
* in one resume a call executes statements of one round of a loop only: wherever it is after it
  has been inside the loop, it has not come back to the head of the loop, or it stands at a tick,
  and the resume ends there. -/
theorem exists_bound_of_compile {source : String} {program : Program} {parsed : ParsedProgram}
    (compiled : Program.compile source = .ok program)
    (parses : ParsedProgram.ofSource source = .ok parsed)
    (rewinds : ∀ function ∈ parsed.entry :: parsed.subroutines,
      (Statement.waysOf function.body).rewinds = false)
    (acyclic : ∀ number, ¬ Relation.TransGen program.Calls number number) :
    ∃ bound, ∀ memory limits,
      (∀ machine, Reachable program memory limits machine →
        (∀ count last, machine.Turns count last → count < bound) ∧
          ∃ count, count ≤ bound ∧ machine.Applies count machine.resume) ∧
      (bound ≤ limits.instructions →
        ∀ script, ∀ result ∈ (start program memory limits).resumeAll script, ∀ limit position,
          result.1 ≠ .faulted ⟨.stepBudgetExceeded limit, position⟩) ∧
      ∀ first later count frame callers after others,
        Reachable program memory limits first → first.frames = frame :: callers →
        first.InCall count later → later.frames = after :: others →
        ∀ code head last, program.function? frame.function = some code → code.IsLoop head last →
          head < frame.counter → frame.counter ≤ last → head < after.counter ∨
            program.instruction? after = some .tick ∧ ∀ next, ¬ later.Turns 1 next := by
  obtain ⟨known, same, emits⟩ := Program.emits_of_compile compiled
  rw [parses] at same
  obtain rfl := Except.ok.inj same
  obtain ⟨size, rank, ranked⟩ := emits.exists_ranked rewinds acyclic
  refine ⟨(size + 1) ^ (rank 0 + 1), fun memory limits => ⟨fun machine reachable => ?_, ?_, ?_⟩⟩
  · have bounded (count : Nat) (last : Machine) (turns : machine.Turns count last) :=
      reachable.turns_lt ranked turns
    obtain ⟨count, -, applies⟩ := exists_applies_run machine machine.limits.instructions
    exact ⟨bounded, count, applies.le_of_turns_lt bounded, applies⟩
  · intro enough script result member limit position
    obtain ⟨before, reachable, rfl⟩ := Reachable.start.exists_of_mem_resumeAll member
    refine run_ne_stepBudgetExceeded ?_ (fun count last turns =>
      reachable.turns_lt ranked turns) _ _
    rw [reachable.limits_eq]
    exact enough
  · intro first later count frame callers after others reachable frames inCall framesLater code head
      last found loop inside _
    have program := reachable.program_eq
    have onward := inCall.counter_le (by rw [program]; exact ranked.advances) frames framesLater
    rw [program] at onward
    exact onward.imp (Nat.lt_of_lt_of_le inside) id

/-- A control loop with a call that waits and a `continue`. -/
theorem exists_bound_of_compile_continue :
    let source :=
      "int half(int a) \x7b wait_ms(5); return a / 2; \x7d " ++
      "void user_main(void) \x7b while (TRUE) \x7b if (half(4)) \x7b continue; \x7d \x7d \x7d"
    ∃ program, Program.compile source = .ok program ∧
      ∃ bound, ∀ memory limits, bound ≤ limits.instructions →
        ∀ script, ∀ result ∈ (start program memory limits).resumeAll script, ∀ limit position,
          result.1 ≠ .faulted ⟨.stepBudgetExceeded limit, position⟩ := by
  intro source
  have accepted : (Program.compile source).isOk = true := by decide +kernel
  have shaped : ((ParsedProgram.ofSource source).toOption.all fun parsed =>
      (parsed.entry :: parsed.subroutines).all fun function =>
        !(Statement.waysOf function.body).rewinds) = true := by decide +kernel
  -- functions only call later ones
  have later : ((Program.compile source).toOption.all fun program =>
      program.functions.zipIdx.all fun numbered => numbered.1.body.all fun placed =>
        match placed.instruction with
        | .call callee _ => numbered.2 < callee
        | _ => true) = true := by decide +kernel
  cases compiled : Program.compile source with
  | error rejection =>
      rw [compiled] at accepted
      cases accepted
  | ok program =>
      obtain ⟨parsed, parses, -⟩ := Program.emits_of_compile compiled
      rw [parses] at shaped
      rw [compiled] at later
      simp only [Except.toOption, Option.all_some, List.all_eq_true, Bool.not_eq_true',
        Array.all_eq_true'] at shaped later
      have onward (caller callee : Nat) (calls : program.Calls caller callee) :
          caller < callee := by
        obtain ⟨code, placed, count, found, member, call⟩ := calls
        rw [Program.function?_eq_getElem?] at found
        have here := later (code, caller) (List.mk_mem_zipIdx_iff_getElem?.mpr found) placed member
        rw [call] at here
        exact of_decide_eq_true here
      have path (first last : Nat) (calls : Relation.TransGen program.Calls first last) :
          first < last := by
        induction calls with
        | single calls => exact onward _ _ calls
        | tail _ calls ih => exact Nat.lt_trans ih (onward _ _ calls)
      have acyclic (number : Nat) : ¬ Relation.TransGen program.Calls number number :=
        fun cycle => Nat.lt_irrefl number (path number number cycle)
      obtain ⟨bound, bounded⟩ := exists_bound_of_compile compiled parses shaped acyclic
      exact ⟨program, rfl, bound, fun memory limits => (bounded memory limits).2.1⟩

end Machine

end LineRobot
