import LineRobot.Proofs.Delegation.Schedule
import LineRobot.Proofs.Meaning.Indices
import LineRobot.Proofs.Simulation.Sensors
import LineRobot.Proofs.Simulation.Wheels

/-! # Sound setups and channels

A setup is sound only if its sensors and its channel constants have channels that exist. Hence no
sensor of a robot is passed over when the sensors are read, and no program stops because of an index
that is just a channel constant or a variable slot: `Simulation.channels_performAll` says so of
every robot, whatever a host does with it. -/

namespace LineRobot

/-- In a sound setup every channel constant has a channel. -/
theorem Setup.IsSound.channels_inRange {setup : Setup} (sound : setup.IsSound) :
    setup.channels.InRange := by
  obtain ⟨center, left, right⟩ := sound.constant_lt
  exact ⟨center, left, right⟩

/-- Reading one more sensor, whose channel exists, writes this channel. -/
theorem Calibration.refresh_append_singleton (calibration : Calibration) (course : Course)
    (pose : Pose) (mounts : List SensorMount) (channels : Cells) {mount : SensorMount}
    (inside : mount.channel < bankSize) :
    calibration.refresh course pose (mounts ++ [mount]) channels =
      (calibration.refresh course pose mounts channels).set mount.channel
        (calibration.readingAt course pose mount) inside := by
  refine Vector.ext fun channel _ => ?_
  rw [refresh, List.foldl_append, List.foldl_cons, List.foldl_nil, Vector.getElem_setIfInBounds,
    Vector.getElem_set]
  rfl

/-- In a sound setup each sensor writes its channel, which in the end holds the reading of the last
sensor that writes it. -/
theorem Setup.IsSound.writes {setup : Setup} (sound : setup.IsSound) (course : Course) (pose : Pose)
    (channels : Cells) {earlier later : List SensorMount} {mount : SensorMount}
    (split : setup.mounts = earlier ++ mount :: later) :
    let read := fun mounts => setup.calibration.refresh course pose mounts channels
    ∃ inside : mount.channel < bankSize,
      read (earlier ++ [mount]) =
        (read earlier).set mount.channel (setup.calibration.readingAt course pose mount) inside ∧
      ∃ last, setup.mountOf? mount.channel = some last ∧
        (read setup.mounts)[mount.channel] = setup.calibration.readingAt course pose last := by
  have mounted : mount ∈ setup.mounts := by
    rw [split]
    exact List.mem_append_right _ List.mem_cons_self
  have inside := sound.channel_lt mounted
  refine ⟨inside, Calibration.refresh_append_singleton .., ?_⟩
  have found : (setup.mountOf? mount.channel).isSome = true :=
    List.find?_isSome.mpr ⟨mount, List.mem_reverse.mpr mounted, beq_self_eq_true _⟩
  obtain ⟨last, found⟩ := Option.isSome_iff_exists.mp found
  refine ⟨last, found, ?_⟩
  rw [Calibration.getElem_refresh _ _ _ _ _ inside]
  rw [Setup.mountOf?] at found
  rw [found]

/-- A task that has faulted has done so at one of its resumptions, or before. -/
theorem Task.exists_resumption_of_faulted {task : Task} {actions : List HostAction} {fault : Fault}
    (faulted : (task.performAll actions).state = .faulted fault) :
    task.state = .faulted fault ∨
      ∃ resumption ∈ task.resumptions actions, resumption.after.state = .faulted fault := by
  induction actions generalizing task with
  | nil => exact .inl faulted
  | cons action later ih =>
      rw [resumptions]
      rcases ih faulted with here | ⟨resumption, member, there⟩
      · cases action with
        | sense channels => exact .inl here
        | tick now =>
            by_cases due : task.isDue now = true
            · rw [resumption?, if_pos due]
              rw [perform, tick_of_isDue task due] at here
              exact .inr ⟨_, List.mem_append_left _ (List.mem_singleton_self _), here⟩
            · rw [perform, tick_of_not_isDue task due] at here
              exact .inl here
      · exact .inr ⟨resumption, List.mem_append_right _ member, there⟩

/-- A fault for an index in the state of a task is how its program has stopped. -/
theorem Task.outcome_of_stateAfter {now : Nat} {outcome : Outcome} {machine : Machine} {bank : Bank}
    {index : Float} {position : Position}
    (faulted : stateAfter now outcome machine = .faulted ⟨.indexOutOfBounds bank index, position⟩) :
    outcome = .faulted ⟨.indexOutOfBounds bank index, position⟩ := by
  cases outcome with
  | completed => cases faulted
  | faulted fault =>
      cases faulted
      rfl
  | suspended suspension =>
      cases suspension with
      | tick => cases faulted
      | wait duration =>
          rw [stateAfter, waitState] at faulted
          split at faulted
          · cases faulted
          · split at faulted <;> cases faulted

/-- A task stops for an index only at the place of an access with another index than a fixed one. -/
theorem ParsedProgram.Emits.exists_access_of_faulted {parsed : ParsedProgram} {program : Program}
    (emits : parsed.Emits program) {memory : Memory} (inRange : memory.channels.InRange)
    {limits : Limits} {actions : List HostAction} {bank : Bank} {index : Float}
    {position : Position}
    (faulted : ((Task.start (.start program memory limits)).performAll actions).state =
      .faulted ⟨.indexOutOfBounds bank index, position⟩) :
    ∃ access ∈ parsed.accesses, access.subscript.isFixedIndex = false ∧
      access.position = position := by
  let places := fun place => ∃ access ∈ parsed.accesses, access.subscript.isFixedIndex = false ∧
    access.position = place
  have located : Access.Within places parsed.accesses :=
    fun access member other => ⟨access, member, other, rfl⟩
  -- the task has not hit a limit, so that its program does what it means
  have free : ¬ ((Task.start (.start program memory limits)).performAll actions).HitsLimit := by
    rintro ⟨fault, same, isLimit⟩
    rw [faulted] at same
    cases same
    cases isLimit
  obtain ⟨allowed, run⟩ :=
    emits.exists_run_eq_observations memory limits _ (Task.not_hitsLimit_observations free)
  have seen := emits.indexFaultsAt located inRange run
  rcases Task.exists_resumption_of_faulted faulted with atStart | ⟨resumption, member, after⟩
  · cases atStart
  · rw [Task.state_of_mem_resumptions _ member] at after
    have observed := List.mem_map_of_mem (f := Machine.observation ∘ Resumption.result) member
    rw [Task.map_observation_resumptions] at observed
    exact seen _ observed bank index position (Task.outcome_of_stateAfter after)

namespace Simulation

/-- **A robot has all the channels that it needs.** Let operations be performed on a new robot.

* Whenever the sensors are read, each sensor writes its channel, which then holds the reading of
  the last sensor that writes it.
* Whenever a source is compiled and started, and operations are performed that let its program go
  on, the program stops for an index only at the place of an access whose index is not just the name
  of a channel constant or of a variable slot. No access with such an index has this place. -/
theorem channels_performAll {setup : Setup} {robot : Simulation} (made : new setup = .ok robot)
    (before : List Operation) :
    let simulation := robot.performAll before
    (∀ now course,
      let reading := setup.calibration.readingAt course simulation.pose
      let read := fun mounts =>
        setup.calibration.refresh course simulation.pose mounts simulation.channels
      (simulation.refresh course).channels = read setup.mounts ∧
      (simulation.tick now course).channels = read setup.mounts ∧
      ∀ earlier mount later, setup.mounts = earlier ++ mount :: later →
        ∃ inside : mount.channel < bankSize,
          read (earlier ++ [mount]) = (read earlier).set mount.channel (reading mount) inside ∧
          ∃ last, setup.mountOf? mount.channel = some last ∧
            (read setup.mounts)[mount.channel] = reading last) ∧
    ∀ source program, Program.compile source = .ok program →
      ∃ parsed, ParsedProgram.ofSource source = .ok parsed ∧
        ∀ pose start, start = .start source pose ∨ start = .startProgram program pose →
          ∀ later : List Operation, (∀ operation ∈ later, operation.keepsProgram = true) →
            ∀ bank index position,
              (simulation.performAll (start :: later)).state =
                .faulted ⟨.indexOutOfBounds bank index, position⟩ →
              (∃ access ∈ parsed.accesses, access.position = position) ∧
              ∀ access ∈ parsed.accesses, access.position = position →
                access.subscript.isFixedIndex = false := by
  intro simulation
  have same : simulation.setup = setup := by
    obtain ⟨_, rfl⟩ := eq_of_new made
    exact setup_performAll _ before
  have sound : setup.IsSound := by
    rw [← same]
    exact simulation.sound
  refine ⟨fun now course => ?_, fun source program compiled => ?_⟩
  · rw [← same]
    refine ⟨rfl, rfl, fun earlier mount later split => ?_⟩
    rw [same] at split ⊢
    exact sound.writes course simulation.pose simulation.channels split
  · obtain ⟨parsed, read, emits⟩ := Program.emits_of_compile compiled
    refine ⟨parsed, read, fun pose start started later keeps bank index position faulted => ?_⟩
    have begun : simulation.perform start = simulation.startProgram program pose := by
      rcases started with rfl | rfl
      · exact congrArg Prod.snd (start_of_accepted simulation compiled pose)
      · rfl
    rw [performAll_cons, begun] at faulted
    have steers := (steers_startProgram simulation program pose).performAll keeps
    rw [steers.state_eq] at faulted
    have inRange : simulation.setup.channels.InRange := by
      rw [same]
      exact sound.channels_inRange
    obtain ⟨access, member, other, placed⟩ := emits.exists_access_of_faulted inRange faulted
    refine ⟨⟨access, member, placed⟩, fun second secondMember secondPlaced => ?_⟩
    rw [ParsedProgram.eq_of_position_eq read secondMember member (secondPlaced.trans placed.symm)]
    exact other

/-- A robot with two sensors for the last channel, on a white course with a black spot where the
second one looks: the channel holds what is read of black. Its program reads this channel and writes
the last variable slot by their names, and then the slot behind it, which does not exist: the fault
is not at an access by a name. -/
theorem channels_performAll_last :
    let setup : Setup := { mounts := [⟨9, 0, 10⟩, ⟨9, 1, 20⟩], channels := ⟨9, 0, 5⟩ }
    let source := "void user_main(void) \x7b gV[VAR_J] = gAD[CN2]; gV[VAR_J + 1] = 0; \x7d"
    let course : Course := ⟨fun x y =>
      if x = 0 + (0 + 1 : Float).cos * 20 ∧
        y = 0 + (0 + 1 : Float).sin * 20 then some (Color.gray 0)
      else some (Color.gray 255)⟩
    ∃ robot, new setup = .ok robot ∧
      (∃ inside : 9 < bankSize, (robot.refresh course).channels[9] = 1023) ∧
      ∃ parsed position, ParsedProgram.ofSource source = .ok parsed ∧
        (robot.performAll [.start source {}, .tick 0 course]).state =
          .faulted ⟨.indexOutOfBounds .slots 10, position⟩ ∧
        ∀ access ∈ parsed.accesses, access.position = position →
          access.subscript.isFixedIndex = false := by
  intro setup source course
  have made := new_of_isSound (show setup.IsSound by decide +kernel)
  refine ⟨_, made, ?_, ?_⟩
  · obtain ⟨read, -, written⟩ := (channels_performAll made []).1 0 course
    obtain ⟨inside, -, last, found, holds⟩ := written [] ⟨9, 0, 10⟩ [⟨9, 1, 20⟩] rfl
    cases found
    refine ⟨inside, ?_⟩
    simp only [performAll_nil] at read holds
    have black : setup.calibration.reading (some (Color.gray 0)) = 1023 := by decide +kernel
    have spot : course.sample (0 + (0 + 1 : Float).cos * 20) (0 + (0 + 1 : Float).sin * 20) =
        some (Color.gray 0) := if_pos ⟨rfl, rfl⟩
    simp only [read]
    exact holds.trans ((congrArg setup.calibration.reading spot).trans black)
  · have accepted : (Program.compile source).isOk = true := by decide +kernel
    cases compiled : Program.compile source with
    | error rejection =>
        rw [compiled] at accepted
        cases accepted
    | ok program =>
        obtain ⟨parsed, read, faults⟩ := (channels_performAll made []).2 source program compiled
        have faulted : (Simulation.performAll { setup, sound := by decide +kernel }
            [.start source {}, .tick 0 course]).state =
              .faulted ⟨.indexOutOfBounds .slots 10, ⟨1, 60⟩⟩ := by decide +kernel
        have keeps : ∀ operation ∈ [Operation.tick 0 course], operation.keepsProgram = true := by
          simp [Operation.keepsProgram]
        exact ⟨parsed, ⟨1, 60⟩, read, faulted,
          (faults {} (.start source {}) (.inl rfl) [.tick 0 course] keeps .slots 10 ⟨1,
            60⟩ faulted).2⟩

end Simulation

end LineRobot
