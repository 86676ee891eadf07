import LineRobot.Proofs.Code.Compiled
import LineRobot.Proofs.Execution.Statements

/-! # Compiled programs do what their sources mean

A call of a subroutine does what `ParsedProgram.invoke` says (`ParsedProgram.Emits.realizesCalls`),
by induction on the number of calls inside each other that are allowed for, and so does a whole
program.

The main statement, `Program.describes_of_compile`, says of every source that compiles that a host
who resumes the program sees what the meaning of the parsed source says. -/

namespace LineRobot

/-! ## Parameters -/

/-- Parameters are held by locals that have the arguments. -/
theorem Scope.holds_of_withParameters {scope result : Scope} {names : List String}
    {arguments : List Float} {locals : Array Float} {block : Block}
    (declared : scope.withParameters names = .ok result)
    (holds : List.Forall₂ (Holds locals) scope.inner block)
    (length : names.length = arguments.length)
    (given : ∀ index value, arguments[index]? = some value →
      locals[scope.next + index]? = some value) :
    List.Forall₂ (Holds locals) result.inner ((names.zip arguments).reverse ++ block) := by
  induction names generalizing scope arguments block with
  | nil =>
      cases declared
      exact holds
  | cons name others ih =>
      obtain ⟨argument, arguments, rfl⟩ := List.exists_cons_of_length_eq_add_one length.symm
      simp only [Scope.withParameters, bind_eq_ok] at declared
      obtain ⟨-, -, declared⟩ := declared
      rw [List.zip_cons_cons, List.reverse_cons, List.append_assoc]
      refine ih declared (.cons ⟨rfl, ?_⟩ holds) (Nat.succ.inj length) fun index value found => ?_
      · exact given 0 argument rfl
      · rw [← given (index + 1) value found, Scope.bind, Nat.add_assoc, Nat.add_comm 1]

/-- The scope of a routine has one block, that of its parameters. -/
theorem Scope.fits_of_withParameters {scope result : Scope} {names : List String}
    (declared : scope.withParameters names = .ok result) (fits : scope.Fits []) :
    result.Fits [] := by
  induction names generalizing scope with
  | nil =>
      cases declared
      exact fits
  | cons name others ih =>
      simp only [Scope.withParameters, bind_eq_ok] at declared
      obtain ⟨-, -, declared⟩ := declared
      exact ih declared (fits.bind name true)

namespace ParsedFunction

variable {function : ParsedFunction} {functions : FunctionTable} {parameters : List String}
  {activation : Activation} {deep : Prop} {least : Nat}
  {invoke : String → List Float → Meaning Float}

/-- A function that is called does what its body means, and comes to an instruction that gives back
the value. -/
theorem Emits.realizes (emits : function.Emits functions parameters activation.code)
    (calls : activation.RealizesCalls deep least functions invoke) {arguments : List Float}
    (length : parameters.length = arguments.length) (stack : List Float) (world : World) :
    (activation.session 0 (Frame.enter activation.function activation.code arguments.reverse
        stack.length).locals stack world).Realizes deep least
      (Meaning.givenBack (Statement.meanings least invoke function.body))
      ⟨[(parameters.zip arguments).reverse], world⟩
      fun value after later => activation.GivesBack stack value after.world later := by
  obtain ⟨scope, body, after, declared, bodyEmits, all⟩ := emits.body
  have fits := Scope.fits_of_withParameters declared ⟨rfl, Scope.numbered_empty⟩
  have whole := activation.code.contains_body
  rw [all, Code.contains_append, Code.contains_cons, Code.contains_cons] at whole
  obtain ⟨bodyHere, pushed, given, -⟩ := whole
  have stands : activation.Stands [scope.inner] 0 stack
      ⟨[(parameters.zip arguments).reverse], world⟩
      (activation.session 0 (Frame.enter activation.function activation.code arguments.reverse
        stack.length).locals stack world) := by
    -- the arguments are the first locals, in order, and the others hold zero
    have locals : (Frame.enter activation.function activation.code arguments.reverse
        stack.length).locals = (arguments ++
          List.replicate (activation.code.localCount - arguments.length) 0).toArray := by
      rw [Frame.enter, List.reverse_reverse, List.length_reverse]
    rw [locals]
    refine ⟨_, ?_, .cons ?_ .nil, rfl⟩
    · have room := emits.room
      rw [List.size_toArray, List.length_append, List.length_replicate]
      omega
    · rw [← List.append_nil (List.reverse _)]
      refine Scope.holds_of_withParameters declared .nil length fun index value found => ?_
      rw [Scope.empty, Nat.zero_add, List.getElem?_toArray,
        List.getElem?_append_left (List.getElem?_eq_some_iff.mp found).1]
      exact found
  rw [Meaning.givenBack]
  refine (bodyEmits.realized calls fits bodyHere stands).bind fun signal last later follows => ?_
  cases signal with
  | next =>
      obtain ⟨later, stepped, stands⟩ := Activation.Stands.next follows _ (0 :: stack) pushed
        fun _ => rfl
      obtain ⟨locals, -, -, rfl⟩ := stands
      exact .of_step stepped (.pure ⟨_, _, locals, given, rfl⟩)
  -- outside of all loops there is nothing to leave
  | leaveLoop =>
      obtain ⟨loop, _, _, outside, -⟩ := follows
      cases outside
  | nextRound =>
      obtain ⟨loop, _, _, outside, -⟩ := follows
      cases outside
  | giveBack value => exact .pure follows

end ParsedFunction

/-! ## Calls -/

namespace Activation

variable {activation : Activation} {stack : List Float} {value : Float} {world : World}
  {session : Session}

/-- Giving back a value leaves the function, with the value on top of the operands of its caller. -/
theorem GivesBack.step (gives : activation.GivesBack stack value world session)
    (base : activation.base = stack.length) {caller : Frame} {others : List Frame}
    (callers : activation.callers = caller :: others) :
    session.step = .ok ⟨⟨activation.program, activation.limits, world.memory, caller :: others,
      value :: stack⟩, world.script, world.seen⟩ := by
  obtain ⟨counter, position, locals, fetched, rfl⟩ := gives
  refine step_of_next fetched ?_
  rw [callers]
  exact Machine.execute_giveBack rfl base

/-- Giving back a value ends the program if there is no caller. -/
theorem GivesBack.ends (gives : activation.GivesBack stack value world session)
    (callers : activation.callers = []) : session.EndsFreely (world.ended .completed) := by
  obtain ⟨counter, position, locals, fetched, rfl⟩ := gives
  have executed : (activation.machine counter locals (value :: stack) world.memory).execute
      (activation.frame (counter + 1) locals) activation.callers .giveBack =
        .ok (.stop .completed ((activation.machine counter locals (value :: stack)
          world.memory).withFrames []
            (stack.drop (stack.length - activation.base)))) := by
    rw [callers]
    exact Machine.Does.execute_eq (.finish rfl rfl)
  refine .single ?_ (not_failsAtLimit fetched fun cause => ?_)
  · rw [step_of_stop fetched executed]
    exact Session.afterStop_of_halted _ rfl (by simp)
  · rw [executed]
    simp

end Activation

namespace ParsedProgram

variable {parsed : ParsedProgram}

/-- **A call does what the called function means.** It may hit the limit on calls inside each other
only if that is lower than the calls there are and those allowed for. -/
theorem Emits.realizesCalls (allowed : Nat) {deep : Prop} (activation : Activation)
    (emits : parsed.Emits activation.program)
    (low : activation.limits.depth < activation.callers.length + 1 + allowed → deep) :
    activation.RealizesCalls deep allowed parsed.table (parsed.invoke allowed) := by
  -- by induction on the calls allowed, over the calls of all functions
  induction allowed generalizing activation with
  | zero =>
      intro _ _ _ _ _ _ _ _ session _ _ _ _
      exact .inr ⟨session, rfl⟩
  | succ allowed ih =>
      intro name signature arguments layers counter position stack situation session known enough
        fetched stands
      obtain ⟨function, code, first, found, arity, here⟩ := emits.exists_function known
      obtain ⟨locals, size, agrees, rfl⟩ := stands
      have length : function.parameters.length = arguments.length := by rw [arity, enough]
      have count : arguments.reverse.length = code.arity := by
        rw [List.length_reverse, here.arity, arity, enough]
      have called : (activation.machine counter locals (arguments.reverse ++ stack)
          situation.world.memory).execute (activation.frame (counter + 1) locals)
            activation.callers (.call signature.index arguments.length) = (do
          let machine ← Machine.call (activation.machine counter locals
            (arguments.reverse ++ stack) situation.world.memory)
            (activation.frame (counter + 1) locals) activation.callers signature.index
            arguments.reverse.length
          return .next machine) := by
        rw [List.length_reverse]
        rfl
      rw [Machine.call_eq _ _ found rfl count] at called
      rw [invoke, first]
      dsimp only
      rw [if_pos length, ParsedFunction.meaning]
      split at called
      case isTrue tooDeep =>
        -- the limit on calls inside each other is hit
        refine .inl ⟨low ?_, _, .single (Activation.step_of_fault fetched called), ?_⟩
        · have limit : activation.limits.depth ≤ activation.callers.length + 1 := tooDeep
          omega
        · exact ⟨_, List.mem_append_right _ List.mem_cons_self, _, rfl, rfl⟩
      case isFalse =>
        let callee : Activation :=
          ⟨activation.program, activation.limits, signature.index, code, stack.length,
            activation.frame (counter + 1) locals :: activation.callers, found⟩
        have calls : callee.RealizesCalls deep allowed parsed.table (parsed.invoke allowed) := by
          refine ih callee emits fun deeper => low ?_
          have depth : activation.limits.depth < activation.callers.length + 1 + 1 +
              allowed := deeper
          omega
        have body : (callee.session 0 (Frame.enter callee.function callee.code arguments.reverse
            stack.length).locals stack situation.world).Realizes deep allowed _ _ _ :=
          ParsedFunction.Emits.realizes here calls length stack situation.world
        refine .of_step_succ (Activation.step_of_next fetched called) (.inCall ?_)
        refine body.and_then fun value last later gives => ?_
        exact ⟨_, .single (gives.step rfl rfl), locals, size, agrees, rfl⟩

/-! ## Programs -/

variable {program : Program}

/-- A program that is started comes to its end as its meaning says, or makes a number of steps that
grows with what is allowed for. It may hit the limit on calls only if that is low. -/
theorem Emits.exists_run (emits : parsed.Emits program) (allowed : Nat) (memory : Memory)
    (limits : Limits) (channels : Cells) (later : List Cells) :
    let session := Session.start (Machine.start program memory limits) channels later
    (limits.depth < 1 + allowed ∧ ∃ seen, session.Ends seen ∧ HitsLimit seen) ∨
      (∃ seen, parsed.run allowed memory (channels :: later) = .halted seen ∧
        session.EndsFreely seen) ∨
        parsed.run allowed memory (channels :: later) = .unfinished ∧
          ∃ last, session.steps allowed = .ok last := by
  intro session
  let entry : Activation := ⟨program, limits, 0, program.entry, 0, [], rfl⟩
  let world : World := ⟨{ memory with sensors := channels }, later, []⟩
  have calls : entry.RealizesCalls (limits.depth < 1 + allowed) allowed parsed.table
      (parsed.invoke allowed) := by
    refine realizesCalls allowed entry emits fun low => ?_
    have depth : limits.depth < 0 + 1 + allowed := low
    omega
  -- the entry function runs in a call of its own, whose end is the end of the program
  have body : (entry.session 0 (Frame.enter entry.function entry.code [].reverse
      (List.length [])).locals [] world).Realizes (limits.depth < 1 + allowed) allowed _ _ _ :=
    ParsedFunction.Emits.realizes emits.entry calls rfl [] world
  have realizes : session.Realizes (limits.depth < 1 + allowed) allowed
      (Meaning.inCall [] (Meaning.givenBack
        (Statement.meanings allowed (parsed.invoke allowed) parsed.entry.body))) ⟨[], world⟩
      fun _ after last => last.EndsFreely (after.world.ended .completed) := by
    refine .inCall (body.and_then fun value after last gives => ?_)
    exact ⟨last, .refl last, gives.ends rfl⟩
  rcases realizes with low | realizes
  · exact .inl low
  · right
    rw [ParsedProgram.run]
    split at realizes
    case h_1 value after result =>
      obtain ⟨last, reaches, ends⟩ := realizes
      rw [result]
      exact .inl ⟨_, rfl, reaches.endsFreely ends⟩
    case h_2 seen result =>
      rw [result]
      exact .inl ⟨seen, rfl, realizes⟩
    case h_3 result =>
      rw [result]
      exact .inr ⟨rfl, realizes⟩
    case h_4 => exact realizes.elim

/-- A program always has a meaning. -/
theorem Emits.run_ne_meaningless (emits : parsed.Emits program) (allowed : Nat) (memory : Memory)
    (script : List Cells) : parsed.run allowed memory script ≠ .meaningless := by
  cases script with
  | nil => exact nofun
  | cons channels later =>
      intro meaningless
      rcases emits.exists_run allowed memory ⟨0, 1 + allowed⟩ channels later with
        ⟨low, -⟩ | ⟨seen, same, -⟩ | ⟨same, -⟩
      · exact Nat.lt_irrefl _ low
      · rw [same] at meaningless
        cases meaningless
      · rw [same] at meaningless
        cases meaningless

/-- A program that hits no limit does what its meaning says, if enough is allowed for. -/
theorem Emits.exists_run_eq_observations (emits : parsed.Emits program) (memory : Memory)
    (limits : Limits) (script : List Cells)
    (free : ¬ HitsLimit ((Machine.start program memory limits).observations script)) :
    ∃ allowed, parsed.run allowed memory script =
      .halted ((Machine.start program memory limits).observations script) := by
  cases script with
  | nil => exact ⟨0, rfl⟩
  | cons channels later =>
      rw [Session.observations_eq_finish] at free ⊢
      -- more than all instructions of the script
      let allowed := limits.instructions + later.length * limits.instructions + 1
      refine ⟨allowed, ?_⟩
      rcases emits.exists_run allowed memory limits channels later with
        ⟨-, seen, ⟨count, ends⟩, hits⟩ | ⟨seen, same, freely⟩ | ⟨-, last, runs⟩
      · rcases Session.finish_of_ends ends limits.instructions with finished | limited
        · rw [← finished] at hits
          exact absurd hits free
        · exact absurd limited free
      · obtain ⟨count, ends⟩ := freely.ends
        rcases Session.finish_of_ends ends limits.instructions with finished | limited
        · rw [same, ← finished]
          rfl
        · exact absurd limited free
      · exact absurd (Session.hitsLimit_of_runs runs (Nat.lt_succ_self _)) free

/-- Under limits that are large enough, a program does what its meaning says. -/
theorem Emits.exists_bound_of_run (emits : parsed.Emits program) {allowed : Nat} {memory : Memory}
    {script : List Cells} {seen : List Observation}
    (finished : parsed.run allowed memory script = .halted seen) :
    ∃ bound, ∀ limits : Limits, bound ≤ limits.instructions → bound ≤ limits.depth →
      (Machine.start program memory limits).observations script = seen := by
  cases script with
  | nil =>
      cases finished
      exact ⟨0, fun _ _ _ => rfl⟩
  | cons channels later =>
      rcases emits.exists_run allowed memory ⟨0, 1 + allowed⟩ channels later with
        ⟨low, -⟩ | ⟨all, same, count, ends⟩ | ⟨same, -⟩
      · exact absurd low (Nat.lt_irrefl _)
      · rw [same] at finished
        cases finished
        refine ⟨max count (1 + allowed), fun limits instructions depth => ?_⟩
        have uniform := ends limits (Nat.le_trans (Nat.le_max_right _ _) depth)
        have enough : count ≤ limits.instructions := Nat.le_trans (Nat.le_max_left _ _) instructions
        exact Session.finish_of_ends_of_le uniform enough enough
      · rw [same] at finished
        cases finished

/-- As far as a program hits no limit, it does what its meaning says. -/
theorem Emits.take_observations (emits : parsed.Emits program) {allowed : Nat} {memory : Memory}
    {script : List Cells} {seen : List Observation}
    (finished : parsed.run allowed memory script = .halted seen) (limits : Limits) (count : Nat)
    (free : ¬ HitsLimit (((Machine.start program memory limits).observations script).take count)) :
    ((Machine.start program memory limits).observations script).take count = seen.take count := by
  have prefixes (limits : Limits) : ((Machine.start program memory limits).observations script).take
      count = (Machine.start program memory limits).observations (script.take count) := by
    rw [Machine.observations, Machine.observations, Machine.resumeAll_take, List.map_take]
  rw [prefixes] at free ⊢
  -- under large limits the program does what both the whole and the shorter run say
  obtain ⟨fewer, short⟩ := emits.exists_run_eq_observations memory limits (script.take count) free
  obtain ⟨firstBound, first⟩ := emits.exists_bound_of_run finished
  obtain ⟨secondBound, second⟩ := emits.exists_bound_of_run short
  let large : Limits := ⟨max firstBound secondBound, max firstBound secondBound⟩
  rw [← second large (Nat.le_max_right _ _) (Nat.le_max_right _ _), ← prefixes large,
    first large (Nat.le_max_left _ _) (Nat.le_max_left _ _)]

end ParsedProgram

/-- What a parsed program means is what a host sees of a program that it starts with any memory and
resumes with any contents of the sensor channels. -/
structure ParsedProgram.Describes (parsed : ParsedProgram) (program : Program) : Prop where
  /-- It has a meaning. -/
  meaningful : ∀ allowed memory script, parsed.run allowed memory script ≠ .meaningless
  /-- If the program hits no limit, its meaning ends, and the host sees what it says. -/
  ends : ∀ memory limits script,
    ¬ HitsLimit ((Machine.start program memory limits).observations script) →
      ∃ allowed, parsed.run allowed memory script =
        .halted ((Machine.start program memory limits).observations script)
  /-- If its meaning ends, the host sees what it says as far as the program hits no limit. -/
  agrees : ∀ allowed memory script seen, parsed.run allowed memory script = .halted seen →
    ∀ limits count,
      ¬ HitsLimit (((Machine.start program memory limits).observations script).take count) →
        ((Machine.start program memory limits).observations script).take count = seen.take count
  /-- If its meaning ends, the host sees what it says under all limits that are large enough. -/
  reached : ∀ allowed memory script seen, parsed.run allowed memory script = .halted seen →
    ∃ bound, ∀ limits : Limits, bound ≤ limits.instructions → bound ≤ limits.depth →
      (Machine.start program memory limits).observations script = seen

/-- **Compilation preserves meaning.** Whatever a host does, what it sees of a compiled program is
what the parsed source means, up to the limits of the machine. -/
theorem Program.describes_of_compile {source : String} {program : Program}
    (compiled : Program.compile source = .ok program) :
    ∃ parsed, ParsedProgram.ofSource source = .ok parsed ∧ parsed.Describes program := by
  obtain ⟨parsed, read, emits⟩ := Program.emits_of_compile compiled
  refine ⟨parsed, read, ?meaningful, ?ends, ?agrees, ?reached⟩
  case meaningful => exact emits.run_ne_meaningless
  case ends => exact emits.exists_run_eq_observations
  case agrees => exact fun allowed memory script seen => emits.take_observations
  case reached => exact fun allowed memory script seen => emits.exists_bound_of_run

/-- A program with a loop, a jump to its next round, a call inside an assignment and a wait. -/
theorem Program.describes_of_compile_rounds :
    let source :=
      "int twice(int a) \x7b return a * 2; \x7d void user_main(void) \x7b int i; " ++
      "for (i = 0; i < 3; i++) \x7b if (i == 1) continue; gV[i] = twice(i); wait_ms(i); \x7d \x7d"
    ∃ program, Program.compile source = .ok program ∧
      ∃ parsed, ParsedProgram.ofSource source = .ok parsed ∧ parsed.Describes program := by
  intro source
  have accepted : (Program.compile source).isOk = true := by decide +kernel
  cases compiled : Program.compile source with
  | error rejection =>
      rw [compiled] at accepted
      cases accepted
  | ok program => exact ⟨program, rfl, Program.describes_of_compile compiled⟩

end LineRobot
