import LineRobot.Proofs.Code.Compiled
import LineRobot.Proofs.Code.Flow
import LineRobot.Proofs.Machine.Turns
import LineRobot.Proofs.Task.Schedule

/-! # A control loop that is not left

A program whose entry function comes to a loop without a condition, and neither returns nor breaks
out of the loop, never completes. Control in the code up to the end of that loop stays there
(`ParsedFunction.Emits.exists_confines`), whatever the functions called do; so the frame of the
entry function is never left (`Machine.Confined.execute`), and all resumes end with a suspension or
a fault (`Task.performAll_unbroken`). -/

namespace LineRobot

/-! ## The code of the entry function -/

/-- An instruction after which control stays in the function and before an index. -/
structure Instruction.StaysBefore (limit index : Nat) (instruction : Instruction) : Prop where
  /-- The function is not left. -/
  stays : instruction ≠ .giveBack
  /-- Every follower comes before the limit. -/
  before : ∀ follower ∈ instruction.followers index, follower < limit

/-- An instruction with one follower, which comes before the limit. -/
theorem Instruction.staysBefore_of_followers {limit index next : Nat} {instruction : Instruction}
    (one : instruction.followers index = [next]) (before : next < limit) :
    instruction.StaysBefore limit index := by
  refine ⟨?_, fun follower member => ?_⟩
  · rintro rfl
    cases one
  · rw [one] at member
    rw [List.mem_singleton.mp member]
    exact before

/-- Control that is before an index stays before it. -/
def Code.Confines (code : Code) (limit : Nat) : Prop :=
  ∀ index placed, index < limit → code.body[index]? = some placed →
    placed.instruction.StaysBefore limit index

section Code

variable {functions : FunctionTable} {localCount : Nat} {targets : Option LoopTargets}
  {scope after : Scope} {start : Nat} {segment : List Placed} {code : Code}

/-- The code of statements one after the other is that of the first ones and that of the others. -/
theorem Statement.EmitsAll.exists_append {first others : List Statement}
    (emits : EmitsAll functions localCount targets scope start (first ++ others) segment after) :
    ∃ firstCode otherCode middle, segment = firstCode ++ otherCode ∧
      EmitsAll functions localCount targets scope start first firstCode middle ∧
        EmitsAll functions localCount targets middle (start + firstCode.length) others otherCode
          after := by
  induction first generalizing scope start segment with
  | nil => exact ⟨[], segment, scope, rfl, .nil, emits⟩
  | cons statement later ih =>
      cases emits with
      | @cons _ _ middle _ _ _ _ statementCode _ here there =>
          obtain ⟨laterCode, otherCode, last, rfl, laterEmits, otherEmits⟩ := ih there
          refine ⟨statementCode ++ laterCode, otherCode, last, (List.append_assoc ..).symm,
            .cons here laterEmits, ?_⟩
          rw [List.length_append, ← Nat.add_assoc]
          exact otherEmits

/-- Statements that neither return nor break keep control before what comes after them, if the next
round of the loop around them begins there, too. -/
theorem Statement.EmitsAll.staysBefore {statements : List Statement} {limit : Nat}
    (emits : EmitsAll functions localCount targets scope start statements segment after)
    (contains : code.Contains start segment) (inside : start + segment.length < limit)
    (returns : (waysOf statements).returns = false)
    (around : ∀ loop, targets = some loop → (waysOf statements).breaks = false ∧
      loop.next < limit) :
    Throughout (Instruction.StaysBefore limit) start segment := by
  refine (emits.flows contains start (start + segment.length) (Nat.le_refl _)
    (Nat.le_refl _)).imp ?_
  intro index instruction _ before steady
  refine ⟨fun same => ?_, fun follower member => ?_⟩
  · rw [steady.stays same] at returns
    cases returns
  · cases steady.goes follower member with
    | onward => omega
    | again => omega
    | leave same breaks =>
        rw [(around _ same).1] at breaks
        cases breaks
    | next same => exact (around _ same).2

/-- **Control does not come to the end of a loop without a condition** that is neither left by a
`break` nor by a `return`. -/
theorem ParsedFunction.Emits.exists_confines {function : ParsedFunction} {parameters : List String}
    {condition : Expression String} {body : List Statement} {position : Position}
    (emits : function.Emits functions parameters code)
    (loop : .whileLoop condition body position ∈ function.body)
    (truth : Step.isTruth condition = true)
    (returns : (Statement.waysOf function.body).returns = false)
    (breaks : (Statement.waysOf body).breaks = false) : ∃ limit,
      0 < limit ∧ code.Confines limit := by
  obtain ⟨scope, segment, after, -, bodyEmits, all⟩ := emits.body
  obtain ⟨before, behind, split⟩ := List.append_of_mem loop
  rw [split] at bodyEmits returns
  obtain ⟨beforeCode, loopCode, middle, rfl, beforeEmits, loopEmits⟩ := bodyEmits.exists_append
  cases loopEmits with
  | @cons _ _ _ _ _ _ _ loopCode behindCode here there =>
    cases here with
    | whileLoop untrue =>
        rw [truth] at untrue
        cases untrue
    | @forever _ _ inside _ _ _ _ bodyCode _ emits =>
        rw [Statement.waysOf_append, Statement.waysOf, Statement.ways] at returns
        simp only [Ways.or, Ways.loop, Bool.or_eq_false_iff] at returns
        have contains : code.Contains 0 code.body.toList := Code.contains_body
        rw [all] at contains
        simp only [Code.contains_append, Code.contains_cons,
          Nat.zero_add] at contains beforeEmits emits
        obtain ⟨⟨beforeContains, ⟨⟨-, bodyContains⟩, -⟩, -⟩, -⟩ := contains
        generalize limitIs : beforeCode.length + bodyCode.length + 2 = limit at emits
        -- the code up to the end of the loop
        have front : Throughout (Instruction.StaysBefore limit) 0
            (beforeCode ++ (⟨.tick, position⟩ :: bodyCode ++
              [⟨.jump (0 + beforeCode.length), position⟩])) := by
          simp only [throughout_append, throughout_cons, Nat.zero_add, List.length_cons]
          refine ⟨beforeEmits.staysBefore beforeContains (by omega) returns.1 ?_,
            ⟨Instruction.staysBefore_of_followers rfl (by omega),
              emits.staysBefore bodyContains (by omega) returns.2.1 ?_⟩,
            Instruction.staysBefore_of_followers rfl (by omega), trivial⟩
          · intro loop same
            cases same
          · intro loop same
            obtain rfl := Option.some.inj same
            exact ⟨breaks, by simp only; omega⟩
        refine ⟨limit, by omega, fun index placed inside found => ?_⟩
        rw [all, List.getElem?_toArray, ← List.append_assoc, List.append_assoc,
          List.getElem?_append_left (by simp; omega)] at found
        have here := front.getElem? found
        rwa [Nat.zero_add] at here

end Code

/-- Whether a statement is a loop without a condition that no `break` leaves. -/
def Statement.isUnbroken : Statement → Bool
  | .whileLoop condition body _ => Step.isTruth condition && !(waysOf body).breaks
  | _ => false

/-- A statement that is such a loop. -/
theorem Statement.exists_of_isUnbroken {statement : Statement}
    (unbroken : statement.isUnbroken = true) :
    ∃ condition body position, statement = .whileLoop condition body position ∧
      Step.isTruth condition = true ∧ (waysOf body).breaks = false := by
  cases statement with
  | whileLoop condition body position =>
      rw [isUnbroken, Bool.and_eq_true, Bool.not_eq_true'] at unbroken
      exact ⟨condition, body, position, rfl, unbroken⟩
  | _ => cases unbroken

/-! ## The frame of the entry function -/

namespace Machine

variable {program : Program} {machine : Machine} {frame : Frame} {callers : List Frame}
  {placed : Placed} {turn : Turn} {limit : Nat}

/-- The call of the entry function, the first of all, has not been left and stands before an
index. -/
def Confined (machine : Machine) (limit : Nat) : Prop :=
  ∃ frame, machine.frames.getLast? = some frame ∧ frame.function = 0 ∧ frame.counter < limit

/-- A machine with frames left is not empty. -/
theorem Confined.frames_ne_nil (confined : machine.Confined limit) : machine.frames ≠ [] := by
  obtain ⟨frame, last, -⟩ := confined
  rintro halted
  rw [halted] at last
  cases last

/-- **No instruction leaves the entry function** if its code confines control. -/
theorem Confined.execute (confines : machine.program.entry.Confines limit)
    (confined : machine.Confined limit) (fetched : machine.fetch = .ready frame callers placed)
    (executed : machine.execute frame callers placed.instruction = .ok turn) :
    turn.machine.Confined limit := by
  obtain ⟨current, code, frames, found, here, rfl⟩ := exists_of_fetch_ready fetched
  obtain ⟨bottom, last, isEntry, inside⟩ := confined
  rw [frames] at last
  have moved := framesAfter_of_execute
    (rfl : (current.jump (current.counter + 1)).counter = current.counter + 1) executed
  unfold Confined
  cases callers with
  | cons caller others =>
      -- the entry function only waits for the calls that it has made
      rw [List.getLast?_cons_cons] at last
      refine ⟨bottom, ?_, isEntry, inside⟩
      generalize turn.machine.frames = framesAfter at moved ⊢
      cases moved with
      | within => rw [List.getLast?_cons_cons, last]
      | entered => rw [List.getLast?_cons_cons, List.getLast?_cons_cons, last]
      | left => exact last
  | nil =>
      obtain rfl : current = bottom := Option.some.inj last
      rw [isEntry] at found
      obtain rfl : machine.program.entry = code := Option.some.inj found
      have stays := confines current.counter placed inside here
      generalize turn.machine.frames = framesAfter at moved ⊢
      cases moved with
      | within same follows => exact ⟨_, rfl, same.function.trans isEntry, stays.before _ follows⟩
      | entered call =>
          refine ⟨_, rfl, isEntry, stays.before _ ?_⟩
          rw [call]
          exact List.mem_cons_self
      | left leaves => exact absurd leaves stays.stays

/-- A resume in which the entry function is not left ends with a suspension, and it is not left then
either, or with a fault. -/
theorem Confined.run (confines : machine.program.entry.Confines limit)
    (confined : machine.Confined limit) (budget : Nat) :
    (∃ suspension, (machine.run budget).1 = .suspended suspension ∧
      (machine.run budget).2.Confined limit) ∨
    ∃ fault, (machine.run budget).1 = .faulted fault := by
  have runs := machine.runs_run budget
  generalize machine.run budget = result at runs ⊢
  induction runs with
  | halted fetched => exact absurd (frames_of_fetch_halted fetched) confined.frames_ne_nil
  | missing | exhausted | fails => exact .inr ⟨_, rfl⟩
  | stops fetched executed =>
      have still := confined.execute confines fetched executed
      rcases frames_of_stop executed with ⟨suspension, rfl⟩ | ⟨-, halted⟩
      · exact .inl ⟨suspension, rfl, still⟩
      · exact absurd halted still.frames_ne_nil
  | @next _ middle _ _ _ _ _ fetched executed _ ih =>
      have still := confined.execute confines fetched executed
      refine ih ?_ still
      rw [show middle.program = _ from (execute_fixed executed).program]
      exact confines

end Machine

/-! ## The task -/

namespace Task

/-- A task whose program has not left the entry function, unless it has faulted. -/
structure Unbroken (task : Task) (limit : Nat) : Prop where
  /-- The code of the entry function confines control. -/
  confines : task.machine.program.entry.Confines limit
  /-- The task has not completed, and its program can go on in the entry function if it is
  resumed. -/
  state : (∃ fault, task.state = .faulted fault) ∨
    task.state ≠ .completed ∧ task.machine.Confined limit

/-- How a program stops that does not complete. -/
def Stays (outcome : Outcome) : Prop :=
  (∃ suspension, outcome = .suspended suspension) ∨ ∃ fault, outcome = .faulted fault

variable {task : Task} {limit : Nat}

/-- A program that has suspended itself has not completed. -/
theorem stateAfter_suspended_ne_completed (now : Nat) (suspension : Suspension)
    (machine : Machine) :
    stateAfter now (.suspended suspension) machine ≠ .completed := by
  cases suspension with
  | tick => exact nofun
  | wait duration =>
      show waitState machine now duration ≠ .completed
      unfold waitState
      split
      · exact nofun
      · split <;> exact nofun

/-- A resume goes on in the entry function and does not complete. -/
theorem Unbroken.advance (unbroken : task.Unbroken limit) {now : Nat}
    (due : task.isDue now = true) :
    Stays task.machine.resume.1 ∧ (task.advance now).Unbroken limit := by
  have confined : task.machine.Confined limit := by
    rcases unbroken.state with ⟨fault, faulted⟩ | ⟨-, confined⟩
    · rw [isDue, faulted] at due
      cases due
    · exact confined
  have program : (task.advance now).machine.program = task.machine.program :=
    (Machine.run_fixed task.machine _).program
  have confines : (task.advance now).machine.program.entry.Confines limit := by
    rw [program]
    exact unbroken.confines
  have state : (task.advance now).state =
      stateAfter now task.machine.resume.1 task.machine.resume.2 := rfl
  rcases confined.run unbroken.confines task.machine.limits.instructions with
    ⟨suspension, suspended, still⟩ | ⟨fault, faulted⟩
  · rw [show task.machine.resume.1 = _ from suspended] at state ⊢
    refine ⟨.inl ⟨suspension, rfl⟩, confines, .inr ⟨?_, still⟩⟩
    rw [state]
    exact stateAfter_suspended_ne_completed now suspension _
  · rw [show task.machine.resume.1 = _ from faulted] at state ⊢
    exact ⟨.inr ⟨fault, rfl⟩, confines, .inl ⟨fault, state⟩⟩

/-- An action of the host leaves a task unbroken. -/
theorem Unbroken.perform (unbroken : task.Unbroken limit) (action : HostAction) :
    (∀ resumption ∈ task.resumption? action, Stays resumption.outcome) ∧
      (task.perform action).Unbroken limit := by
  cases action with
  | sense channels =>
      exact ⟨fun resumption same => absurd same (Option.not_mem_none resumption),
        unbroken.confines, unbroken.state⟩
  | tick now =>
      by_cases due : task.isDue now = true
      · rw [Task.perform, tick_of_isDue task due, resumption?, if_pos due]
        obtain ⟨stays, still⟩ := unbroken.advance due
        refine ⟨fun resumption same => ?_, still⟩
        obtain rfl := Option.some.inj same
        exact stays
      · rw [Task.perform, tick_of_not_isDue task due, resumption?, if_neg due]
        exact ⟨fun resumption same => absurd same (Option.not_mem_none resumption), unbroken⟩

/-- All actions of the host leave a task unbroken. -/
theorem Unbroken.performAll (unbroken : task.Unbroken limit) (actions : List HostAction) :
    (∀ resumption ∈ task.resumptions actions, Stays resumption.outcome) ∧
      (task.performAll actions).Unbroken limit := by
  induction actions generalizing task with
  | nil => exact ⟨nofun, unbroken⟩
  | cons action later ih =>
      obtain ⟨here, still⟩ := unbroken.perform action
      obtain ⟨there, last⟩ := ih still
      refine ⟨fun resumption member => ?_, last⟩
      rw [resumptions, List.mem_append, Option.mem_toList] at member
      exact member.elim (here resumption) (there resumption)

/-- **An unbroken control loop never completes.** Let the entry function of a compiled program have
a loop `while (TRUE)` among its statements, no `return`, and in that loop no `break` that leaves it.
Whatever the memory and the limits, and whatever a host does, the task of the program never
completes, and each tick that resumes the program ends with a suspension or with a fault. -/
theorem performAll_unbroken {source : String} {program : Program} {parsed : ParsedProgram}
    (compiled : Program.compile source = .ok program)
    (parses : ParsedProgram.ofSource source = .ok parsed) {condition : Expression String}
    {body : List Statement} {position : Position}
    (loop : .whileLoop condition body position ∈ parsed.entry.body)
    (truth : Step.isTruth condition = true)
    (returns : (Statement.waysOf parsed.entry.body).returns = false)
    (breaks : (Statement.waysOf body).breaks = false) (memory : Memory) (limits : Limits)
    (actions : List HostAction) :
    let task := Task.start (Machine.start program memory limits)
    (task.performAll actions).state ≠ .completed ∧
      ∀ resumption ∈ task.resumptions actions,
        (∃ suspension, resumption.outcome = .suspended suspension) ∨
          ∃ fault, resumption.outcome = .faulted fault := by
  intro task
  obtain ⟨known, same, emits⟩ := Program.emits_of_compile compiled
  rw [parses] at same
  obtain rfl := Except.ok.inj same
  obtain ⟨limit, positive, confines⟩ := emits.entry.exists_confines loop truth returns breaks
  have unbroken : task.Unbroken limit := ⟨confines, .inr ⟨nofun, _, rfl, rfl, positive⟩⟩
  obtain ⟨stay, last⟩ := unbroken.performAll actions
  refine ⟨?_, stay⟩
  rcases last.state with ⟨fault, faulted⟩ | ⟨notCompleted, -⟩
  · rw [faulted]
    exact nofun
  · exact notCompleted

/-- A control loop with an inner loop that is left by a `break`. -/
theorem performAll_unbroken_inner :
    let source := "void user_main(void) \x7b " ++
      "while (TRUE) \x7b while (gV[1]) \x7b break; \x7d wait_ms(5); \x7d \x7d"
    ∃ program, Program.compile source = .ok program ∧
      ∀ memory limits actions,
        ((Task.start (Machine.start program memory limits)).performAll actions).state ≠
          .completed := by
  intro source
  have accepted : (Program.compile source).isOk = true := by decide +kernel
  have shaped : ((ParsedProgram.ofSource source).toOption.any fun parsed =>
      !(Statement.waysOf parsed.entry.body).returns &&
        parsed.entry.body.any Statement.isUnbroken) = true := by decide +kernel
  cases compiled : Program.compile source with
  | error rejection =>
      rw [compiled] at accepted
      cases accepted
  | ok program =>
      obtain ⟨parsed, parses, -⟩ := Program.emits_of_compile compiled
      rw [parses] at shaped
      simp only [Except.toOption, Option.any_some, Bool.and_eq_true, Bool.not_eq_true',
        List.any_eq_true] at shaped
      obtain ⟨returns, statement, member, unbroken⟩ := shaped
      obtain ⟨condition, body, position, rfl, truth, breaks⟩ :=
        Statement.exists_of_isUnbroken unbroken
      exact ⟨program, rfl, fun memory limits actions =>
        (performAll_unbroken compiled parses member truth returns breaks memory limits actions).1⟩

end Task

end LineRobot
