import Mathlib.Data.List.Induction
import LineRobot.Proofs.Delegation.Waiter
import LineRobot.Proofs.Execution.Programs
import LineRobot.Proofs.Task.Schedule

/-! # Delegated waits under a host

A host that ticks two tasks at the same times and writes the same sensor channels cannot tell them
apart but for the places of faults, if it cannot tell their machines apart when it resumes them by
hand (`Task.inStep_performAll`). So it cannot tell a program from the same program with some waits
delegated to a new subroutine, unless one of them hits a limit
(`Program.transparent_of_delegates`). -/

namespace LineRobot

variable {helper parameter : String}

/-- A state without the place of a fault. -/
def TaskState.withoutPlace : TaskState → TaskState
  | .faulted fault => .faulted ⟨fault.cause, .start⟩
  | state => state

namespace Task

/-- The task has faulted for the limits of its machine. -/
def HitsLimit (task : Task) : Prop :=
  ∃ fault, task.state = .faulted fault ∧ fault.cause.isLimit = true

/-- Two tasks that a host cannot tell apart but for the places of faults. -/
structure SameButPlaces (task other : Task) : Prop where
  /-- They stand the same. -/
  state : task.state.withoutPlace = other.state.withoutPlace
  /-- They have been resumed as often. -/
  resumes : task.resumes = other.resumes
  /-- The variable slots hold the same. -/
  slots : task.machine.memory.slots = other.machine.memory.slots
  /-- The motors have been given the same commands. -/
  commands : task.machine.memory.commands = other.machine.memory.commands

/-- How a task stands after a resume depends on the time and on how the program has stopped. -/
theorem withoutPlace_stateAfter (now : Nat) (outcome : Outcome) (machine other : Machine) :
    (stateAfter now outcome machine).withoutPlace =
      (stateAfter now outcome.withoutPlace other).withoutPlace := by
  cases outcome with
  | completed | faulted fault => rfl
  | suspended suspension =>
      cases suspension with
      | tick => rfl
      | wait duration =>
          show (waitState machine now duration).withoutPlace =
            (waitState other now duration).withoutPlace
          unfold waitState
          split
          · rfl
          · split <;> rfl

/-- Whether a tick is due does not depend on the place of a fault. -/
theorem isDue_eq_of_withoutPlace {task other : Task}
    (same : task.state.withoutPlace = other.state.withoutPlace) (now : Nat) :
    task.isDue now = other.isDue now := by
  have erased (task : Task) : task.isDue now =
      (⟨task.machine, task.state.withoutPlace, task.resumes⟩ : Task).isDue now := by
    unfold isDue
    cases task.state <;> rfl
  rw [erased task, erased other, same]
  rfl

/-- A task that faults at some resumption stays so. -/
theorem state_of_faulted {task : Task} {actions : List HostAction} {resumption : Resumption}
    {fault : Fault} (member : resumption ∈ task.resumptions actions)
    (faulted : resumption.outcome = .faulted fault) :
    (task.performAll actions).state = .faulted fault := by
  induction actions generalizing task with
  | nil => exact absurd member List.not_mem_nil
  | cons action later ih =>
      rw [resumptions, List.mem_append, Option.mem_toList] at member
      rcases member with here | there
      · cases action with
        | sense channels => exact absurd here (by simp [resumption?])
        | tick now =>
            rw [resumption?] at here
            split at here
            case isTrue due =>
              cases here
              have stopped : task.machine.resume.1 = .faulted fault := faulted
              have ended : (task.tick now).state = .faulted fault := by
                rw [tick_of_isDue task due]
                show stateAfter now task.machine.resume.1 _ = _
                rw [stopped]
                rfl
              -- the task has ended with this tick, and the other actions do not change that
              rw [performAll_cons, perform, ← ended]
              exact (performAll_of_isTerminal _ (by rw [ended]; rfl) later).2
            case isFalse => exact absurd here (by simp)
      · exact ih there

/-- What a host sees at the resumptions. -/
theorem map_observation_resumptions (task : Task) (actions : List HostAction) :
    (task.resumptions actions).map (Machine.observation ∘ Resumption.result) =
      task.machine.observations ((task.resumptions actions).map Resumption.channels) := by
  rw [← List.map_map, map_result_resumptions]
  rfl

/-- A task that has not faulted for its limits has never hit one. -/
theorem not_hitsLimit_observations {task : Task} {actions : List HostAction}
    (free : ¬ (task.performAll actions).HitsLimit) :
    ¬ LineRobot.HitsLimit
      (task.machine.observations ((task.resumptions actions).map Resumption.channels)) := by
  rintro ⟨observation, seen, fault, faulted, isLimit⟩
  rw [← map_observation_resumptions] at seen
  obtain ⟨resumption, member, rfl⟩ := List.mem_map.mp seen
  exact free ⟨fault, state_of_faulted member faulted, isLimit⟩

/-- A task that has hit a limit stays so. -/
theorem HitsLimit.performAll {task : Task} (hits : task.HitsLimit) (actions : List HostAction) :
    (task.performAll actions).HitsLimit := by
  obtain ⟨fault, faulted, isLimit⟩ := hits
  have ended : task.state.isTerminal = true := by
    rw [faulted]
    rfl
  exact ⟨fault, (performAll_of_isTerminal task ended actions).2.trans faulted, isLimit⟩

/-- The resumption at a tick that resumes the program. -/
def resumption (task : Task) (now : Nat) : Resumption :=
  ⟨now, task.machine.memory.sensors, task.machine.resume.1, task.advance now⟩

/-- A further tick that is due resumes the program. -/
theorem append_tick_of_isDue {task : Task} {actions : List HostAction} {now : Nat}
    (due : (task.performAll actions).isDue now = true) :
    task.performAll (actions ++ [.tick now]) = (task.performAll actions).advance now ∧
      task.resumptions (actions ++ [.tick now]) =
        task.resumptions actions ++ [(task.performAll actions).resumption now] := by
  refine ⟨?_, ?_⟩
  · rw [performAll_append]
    exact tick_of_isDue _ due
  · rw [resumptions_append, resumptions, resumption?, if_pos due]
    rfl

/-- A further tick that is not due changes nothing. -/
theorem append_tick_of_not_isDue {task : Task} {actions : List HostAction} {now : Nat}
    (early : ¬ (task.performAll actions).isDue now = true) :
    task.performAll (actions ++ [.tick now]) = task.performAll actions ∧
      task.resumptions (actions ++ [.tick now]) = task.resumptions actions := by
  refine ⟨?_, ?_⟩
  · rw [performAll_append]
    exact tick_of_not_isDue _ early
  · rw [resumptions_append, resumptions, resumption?, if_neg early]
    exact List.append_nil _

/-- The invariant of two tasks in step: a host cannot tell them apart, and their programs have seen
the same sensor channels at their resumes and see the same now. -/
structure InStep (task other : Task) (actions : List HostAction) : Prop where
  /-- A host cannot tell them apart. -/
  same : (task.performAll actions).SameButPlaces (other.performAll actions)
  /-- They have been resumed with the same sensor channels. -/
  script : (task.resumptions actions).map Resumption.channels =
    (other.resumptions actions).map Resumption.channels
  /-- The sensor channels hold the same. -/
  sensors : (task.performAll actions).machine.memory.sensors =
    (other.performAll actions).machine.memory.sensors

variable {task other : Task} {actions : List HostAction}

/-- Tasks stay in step at new contents of the sensor channels. -/
theorem InStep.sense (inStep : InStep task other actions) (channels : Cells) :
    InStep task other (actions ++ [.sense channels]) := by
  obtain ⟨⟨state, resumes, slots, commands⟩, script, sensors⟩ := inStep
  refine ⟨?_, ?_, ?_⟩
  · rw [performAll_append, performAll_append]
    exact ⟨state, resumes, slots, commands⟩
  · rw [resumptions_append, resumptions_append]
    simpa [resumptions, resumption?] using script
  · rw [performAll_append, performAll_append]
    rfl

/-- Tasks stay in step at a tick that resumes neither of them. -/
theorem InStep.tick_of_not_isDue {now : Nat} (inStep : InStep task other actions)
    (early : ¬ (task.performAll actions).isDue now = true) :
    InStep task other (actions ++ [.tick now]) := by
  have early' : ¬ (other.performAll actions).isDue now = true := by
    rw [← isDue_eq_of_withoutPlace inStep.same.state]
    exact early
  obtain ⟨stays, resumed⟩ := append_tick_of_not_isDue early
  obtain ⟨stays', resumed'⟩ := append_tick_of_not_isDue early'
  refine ⟨?_, ?_, ?_⟩
  · rw [stays, stays']
    exact inStep.same
  · rw [resumed, resumed']
    exact inStep.script
  · rw [stays, stays']
    exact inStep.sensors

/-- Tasks stay in step at a tick that resumes both of them, if a host cannot tell their machines
apart when it resumes them by hand, with the sensor channels in force at the resumes until then. -/
theorem InStep.tick_of_isDue {now : Nat} (inStep : InStep task other actions)
    (due : (task.performAll actions).isDue now = true)
    (agree : ∀ script,
      script = (task.resumptions (actions ++ [.tick now])).map Resumption.channels →
      script = (other.resumptions (actions ++ [.tick now])).map Resumption.channels →
        LineRobot.SameButPlaces (task.machine.observations script)
          (other.machine.observations script)) :
    InStep task other (actions ++ [.tick now]) := by
  have due' : (other.performAll actions).isDue now = true := by
    rw [← isDue_eq_of_withoutPlace inStep.same.state]
    exact due
  obtain ⟨advances, resumed⟩ := append_tick_of_isDue due
  obtain ⟨advances', resumed'⟩ := append_tick_of_isDue due'
  have script : (task.resumptions (actions ++ [.tick now])).map Resumption.channels =
      (other.resumptions (actions ++ [.tick now])).map Resumption.channels := by
    rw [resumed, resumed', List.map_append, List.map_append, inStep.script, List.map_singleton,
      List.map_singleton, resumption, resumption, inStep.sensors]
  -- the last resume of both machines is that of this tick
  have seen := agree _ rfl script
  rw [← map_observation_resumptions task, script, ← map_observation_resumptions other, resumed,
    resumed', LineRobot.SameButPlaces, List.map_append, List.map_append, List.map_append,
    List.map_append] at seen
  have last := List.singleton_inj.mp (List.append_inj' seen rfl).2
  have outcome : (task.performAll actions).machine.resume.1.withoutPlace =
      (other.performAll actions).machine.resume.1.withoutPlace := congrArg Observation.outcome last
  have fixed (machine : Machine) : machine.resume.2.SameSetting machine :=
    machine.run_fixed machine.limits.instructions
  refine ⟨⟨?_, ?_, ?_, ?_⟩, script, ?_⟩ <;> rw [advances, advances']
  · show (stateAfter now (task.performAll actions).machine.resume.1 _).withoutPlace =
      (stateAfter now (other.performAll actions).machine.resume.1 _).withoutPlace
    rw [withoutPlace_stateAfter now _ _ task.machine, outcome,
      ← withoutPlace_stateAfter now _ _ task.machine]
  · exact congrArg (· + 1) inStep.same.resumes
  · exact congrArg Observation.slots last
  · exact congrArg Observation.commands last
  · exact (fixed _).sensors.trans (inStep.sensors.trans (fixed _).sensors.symm)

/-- **A host cannot tell two tasks apart** if it cannot tell their machines apart when it resumes
them by hand, as long as neither of them hits a limit. -/
theorem inStep_performAll {machine machine' : Machine} (actions : List HostAction)
    (slots : machine.memory.slots = machine'.memory.slots)
    (commands : machine.memory.commands = machine'.memory.commands)
    (sensors : machine.memory.sensors = machine'.memory.sensors)
    (agree : ∀ script, ¬ LineRobot.HitsLimit (machine.observations script) →
      ¬ LineRobot.HitsLimit (machine'.observations script) →
        LineRobot.SameButPlaces (machine.observations script) (machine'.observations script))
    (free : ¬ ((Task.start machine).performAll actions).HitsLimit)
    (free' : ¬ ((Task.start machine').performAll actions).HitsLimit) :
    InStep (Task.start machine) (Task.start machine') actions := by
  induction actions using List.reverseRecOn with
  | nil => exact ⟨⟨rfl, rfl, slots, commands⟩, rfl, sensors⟩
  | append_singleton actions action ih =>
      -- no limit was hit before the last action, as a limit that is hit stays so
      have earlier {task : Task} (free : ¬ (task.performAll (actions ++ [action])).HitsLimit) :
          ¬ (task.performAll actions).HitsLimit := by
        rw [performAll_append] at free
        exact fun hits => free (hits.performAll [action])
      have inStep := ih (earlier free) (earlier free')
      cases action with
      | sense channels => exact inStep.sense channels
      | tick now =>
          by_cases due : ((Task.start machine).performAll actions).isDue now = true
          · refine inStep.tick_of_isDue due fun script made made' => agree script ?_ ?_
            · rw [made]
              exact not_hitsLimit_observations free
            · rw [made']
              exact not_hitsLimit_observations free'
          · exact inStep.tick_of_not_isDue due

end Task

/-- A host that resumes a program and the same program with delegated waits by hand sees the same
but for the places of faults, unless one of them hits a limit. -/
theorem ParsedProgram.Delegates.sameButPlaces_observations {first second : ParsedProgram}
    {program program' : Program} (delegates : first.Delegates helper parameter second)
    (emits : first.Emits program) (emits' : second.Emits program') (memory : Memory)
    (limits limits' : Limits) (script : List Cells)
    (free : ¬ HitsLimit ((Machine.start program memory limits).observations script))
    (free' : ¬ HitsLimit ((Machine.start program' memory limits').observations script)) :
    SameButPlaces ((Machine.start program memory limits).observations script)
      ((Machine.start program' memory limits').observations script) := by
  obtain ⟨allowed, run⟩ := emits.exists_run_eq_observations memory limits script free
  obtain ⟨others, run', same⟩ := delegates.run run
  have length (program : Program) (limits : Limits) :
      ((Machine.start program memory limits).observations script).length = script.length := by
    rw [Machine.observations, List.length_map, Machine.length_resumeAll]
  have sameLength : others.length = script.length := by
    rw [← length program limits]
    simpa using congrArg List.length same.symm
  have whole : ((Machine.start program' memory limits').observations script).take script.length =
      (Machine.start program' memory limits').observations script :=
    List.take_of_length_le (Nat.le_of_eq (length program' limits'))
  -- the second program does what its meaning says for the whole script
  have agrees := emits'.take_observations run' limits' script.length (by rwa [whole])
  rw [whole, List.take_of_length_le (Nat.le_of_eq sameLength)] at agrees
  rw [agrees]
  exact same

/-- A host cannot tell the tasks of a program and of the same program with delegated waits apart but
for the places of faults, unless one of them hits a limit. -/
theorem ParsedProgram.Delegates.sameButPlaces_performAll {first second : ParsedProgram}
    {program program' : Program} (delegates : first.Delegates helper parameter second)
    (emits : first.Emits program) (emits' : second.Emits program') (memory : Memory)
    (limits limits' : Limits) (actions : List HostAction)
    (free : ¬ ((Task.start (.start program memory limits)).performAll actions).HitsLimit)
    (free' : ¬ ((Task.start (.start program' memory limits')).performAll actions).HitsLimit) :
    ((Task.start (.start program memory limits)).performAll actions).SameButPlaces
      ((Task.start (.start program' memory limits')).performAll actions) := by
  have agree := delegates.sameButPlaces_observations emits emits' memory limits limits'
  have inStep : Task.InStep (.start (.start program memory limits))
      (.start (.start program' memory limits')) actions :=
    Task.inStep_performAll actions rfl rfl rfl agree free free'
  exact inStep.same

/-- **Delegated waits are transparent.** Let a source be accepted, and let another source be the
same but for two things: some waits are calls of a new subroutine, and the subroutine stands
somewhere, which does nothing but wait for as long as its parameter says. Neither name is a keyword
or reserved, and that of the parameter is not made of capital letters only. Then the other source is
accepted, too; and whatever a host does to the tasks of the two programs, as long as neither of them
has hit a limit, they stand the same but for the places of faults, have been resumed as often, and
have the same contents of the variable slots and the same commands to the motors. -/
theorem Program.transparent_of_delegates {source source' helper parameter : String}
    {program : Program} (compiled : Program.compile source = .ok program)
    (isHelper : Text.isIdentifier helper = true) (isParameter : Text.isIdentifier parameter = true)
    (helperFree : Vocabulary.isReserved helper = false)
    (parameterFree : Vocabulary.isReserved parameter = false)
    (mixed : ¬ parameter.toList.all Char.isUpper = true)
    (fresh : ∀ definitions, Definition.all (Source.clean source.toList) = .ok definitions →
      helper ∉ definitions.map Definition.name)
    (delegates : Source.Delegates helper parameter (Source.clean source.toList)
      (Source.clean source'.toList)) :
    ∃ program', Program.compile source' = .ok program' ∧
      ∀ (memory : Memory) (limits limits' : Limits) (actions : List HostAction),
        let task := (Task.start (Machine.start program memory limits)).performAll actions
        let task' := (Task.start (Machine.start program' memory limits')).performAll actions
        ¬ task.HitsLimit → ¬ task'.HitsLimit → task.SameButPlaces task' := by
  obtain ⟨first, read, emits⟩ := Program.emits_of_compile compiled
  obtain ⟨second, read', delegates⟩ := delegates.exists_read isHelper isParameter helperFree
    parameterFree mixed fresh read emits
  obtain ⟨program', compiled'⟩ := delegates.exists_compile emits read'
  obtain ⟨parsed, parsedRead, emits'⟩ := Program.emits_of_compile compiled'
  obtain rfl : second = parsed := Except.ok.inj (read'.symm.trans parsedRead)
  exact ⟨program', compiled', fun memory limits limits' actions =>
    delegates.sameButPlaces_performAll emits emits' memory limits limits' actions⟩

/-- A name that is not among those of the definitions. -/
theorem Definition.notMem_of_names {text : List Char} {names : List String} {name : String}
    (known : (all text).toOption.map (·.map Definition.name) = some names) (absent : name ∉ names) :
    ∀ definitions, all text = .ok definitions → name ∉ definitions.map Definition.name := by
  intro definitions found
  rw [found] at known
  have same : definitions.map Definition.name = names := Option.some.inj known
  rwa [same]

/-- A wait in a loop, and the same one delegated: both programs wait until 31 milliseconds after
three ticks, and a host cannot tell them apart. -/
theorem Program.transparent_of_delegates_hold :
    let source := "void user_main(void) \x7b while (TRUE) \x7b gV[0]++; wait_ms(30); \x7d \x7d"
    let source' := "void hold(int ms) \x7b wait_ms(ms); \x7d " ++
      "void user_main(void) \x7b while (TRUE) \x7b gV[0]++; hold(30); \x7d \x7d"
    let actions : List HostAction := [.tick 0, .tick 1000000, .tick 5000000]
    let after := fun program => (Task.start (Machine.start program {} {})).performAll actions
    ∃ program program', Program.compile source = .ok program ∧
      Program.compile source' = .ok program' ∧ (after program).state = .waiting 31000000 ∧
        (after program).SameButPlaces (after program') := by
  intro source source' actions after
  have waits : ((Program.compile source).toOption.map fun program => (after program).state) =
      some (.waiting 31000000) := by decide +kernel
  have waits' : ((Program.compile source').toOption.map fun program => (after program).state) =
      some (.waiting 31000000) := by decide +kernel
  have names : (Definition.all (Source.clean source.toList)).toOption.map (·.map Definition.name) =
      some ["user_main"] := by decide +kernel
  -- both sources in parts: the loop, with another name in it, and the new subroutine
  let loop := "void user_main(void) ".toList
  let inside :=
    " while (TRUE) \x7b gV[0]++;".toList ++ ' ' :: ("wait_ms".toList ++ "(30); \x7d ".toList)
  let inside' :=
    " while (TRUE) \x7b gV[0]++;".toList ++ ' ' :: ("hold".toList ++ "(30); \x7d ".toList)
  have cleaned : Source.clean source.toList = loop ++ '\x7b' :: (inside ++ '\x7d' :: []) := by
    decide +kernel
  have cleaned' : Source.clean source'.toList = "void hold(int ms) ".toList ++
      '\x7b' :: (" wait_ms(ms); ".toList ++
        '\x7d' :: (' ' :: loop ++ '\x7b' :: (inside' ++ '\x7d' :: []))) := by
    decide +kernel
  have waiter : Source.Waiter "hold" "ms" "void hold(int ms) ".toList " wait_ms(ms); ".toList :=
    ⟨by decide +kernel, by decide +kernel, [' '], [' '], by decide +kernel, rfl, rfl⟩
  have block : Source.Block "hold" loop inside (' ' :: loop) inside' :=
    ⟨by decide +kernel, by decide +kernel, by decide +kernel, by decide +kernel,
      .append rfl (.replace rfl (.refl _)) _⟩
  have delegates : Source.Delegates "hold" "ms" (Source.clean source.toList)
      (Source.clean source'.toList) := by
    rw [cleaned, cleaned']
    exact .added waiter (.block block (.rest List.not_mem_nil List.not_mem_nil))
  have free {task : Task} {deadline : Nat} (waits : task.state = .waiting deadline) :
      ¬ task.HitsLimit := by
    rintro ⟨fault, faulted, -⟩
    rw [waits] at faulted
    cases faulted
  cases compiled : Program.compile source with
  | error rejection =>
      rw [compiled] at waits
      cases waits
  | ok program =>
      obtain ⟨program', compiled', agree⟩ := Program.transparent_of_delegates compiled
        (by decide +kernel) (by decide +kernel) (by decide +kernel) (by decide +kernel)
        (by decide +kernel) (Definition.notMem_of_names names (by decide)) delegates
      rw [compiled] at waits
      rw [compiled'] at waits'
      have waiting := Option.some.inj waits
      exact ⟨program, program', rfl, compiled', waiting,
        agree {} {} {} actions (free waiting) (free (Option.some.inj waits'))⟩

/-- A parameter whose name is made of capital letters only cannot be waited for: `(MS)` is taken for
a cast. A wait by itself is accepted, and the same one delegated is not, as its subroutine has a
bare name in the place of the wait. -/
theorem Program.not_transparent_capitals :
    let alone := "void user_main(void) \x7b wait_ms(30); \x7d"
    let delegated := "void h(int MS) \x7b wait_ms(MS); \x7d void user_main(void) \x7b h(30); \x7d"
    (∀ name ∈ ["h", "MS"],
      Text.isIdentifier name = true ∧ Vocabulary.isReserved name = false) ∧
      (∀ definitions, Definition.all (Source.clean alone.toList) = .ok definitions →
        "h" ∉ definitions.map Definition.name) ∧
      Source.Delegates "h" "MS" (Source.clean alone.toList) (Source.clean delegated.toList) ∧
      Source.clean "wait_ms(MS);".toList = "wait_ms;".toList ∧
      Succeeds (Program.compile alone) ∧ ¬ Succeeds (Program.compile delegated) := by
  intro alone delegated
  have names : (Definition.all (Source.clean alone.toList)).toOption.map (·.map Definition.name) =
      some ["user_main"] := by decide +kernel
  let wait := ' ' :: ("wait_ms".toList ++ "(30); ".toList)
  let wait' := ' ' :: ("h".toList ++ "(30); ".toList)
  let entry := "void user_main(void) ".toList
  have cleaned : Source.clean alone.toList = entry ++ '\x7b' :: (wait ++ '\x7d' :: []) := by
    decide +kernel
  have cleaned' : Source.clean delegated.toList = "void h(int MS) ".toList ++
      '\x7b' ::
        (" wait_ms; ".toList ++ '\x7d' :: (' ' :: entry ++ '\x7b' :: (wait' ++ '\x7d' :: []))) := by
    decide +kernel
  have waiter : Source.Waiter "h" "MS" "void h(int MS) ".toList " wait_ms; ".toList :=
    ⟨by decide +kernel, by decide +kernel, [' '], [' '], by decide +kernel, rfl, rfl⟩
  have block : Source.Block "h" entry wait (' ' :: entry) wait' :=
    ⟨by decide +kernel, by decide +kernel, by decide +kernel, by decide +kernel,
      .append rfl (.replace rfl (.refl _)) []⟩
  have delegates : Source.Delegates "h" "MS" (Source.clean alone.toList)
      (Source.clean delegated.toList) := by
    rw [cleaned, cleaned']
    exact .added waiter (.block block (.rest List.not_mem_nil List.not_mem_nil))
  exact ⟨by decide +kernel, Definition.notMem_of_names names (by decide), delegates,
    by decide +kernel, by decide +kernel, by decide +kernel⟩

end LineRobot
