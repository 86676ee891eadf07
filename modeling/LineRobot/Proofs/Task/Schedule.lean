import Mathlib.Algebra.Group.Nat.Defs
import LineRobot.Machine.Task
import LineRobot.Proofs.Machine.Script

/-! # Tasks under a host

A host gives a task its ticks, at times of its own choice, and writes the sensor channels in between
(`HostAction`). `Task.resumptions` lists the ticks of a run that resume the program, each with the
sensor channels in force then.

The main statement, `Task.performAll_stretches`, says that such a run is the machine's own run with
pauses: a tick resumes the program once or changes nothing, the resuming ticks give what resuming
the machine by hand gives, a wait ends at the first tick that is not before its deadline, and a task
that has ended stays as it is. -/

namespace LineRobot

/-- What a host does to a task. -/
inductive HostAction where
  /-- A tick at a time, in nanoseconds. -/
  | tick (now : Nat)
  /-- New contents for the sensor channels. -/
  | sense (channels : Cells)
deriving DecidableEq

/-- A tick that resumes the program. -/
structure Resumption where
  /-- The time of the tick. -/
  now : Nat
  /-- The sensor channels that the program sees. -/
  channels : Cells
  /-- How the program stops. -/
  outcome : Outcome
  /-- The task after the tick. -/
  after : Task

/-- How the program stops at a resumption, and its machine then. -/
def Resumption.result (resumption : Resumption) : Outcome × Machine :=
  (resumption.outcome, resumption.after.machine)

namespace Task

/-- The task after an action of the host. -/
def perform (task : Task) : HostAction → Task
  | .tick now => task.tick now
  | .sense channels => task.withMemory { task.machine.memory with sensors := channels }

/-- The task after actions of the host. -/
def performAll (task : Task) (actions : List HostAction) : Task :=
  actions.foldl perform task

/-- The resumption at an action of the host: a tick is one if it is due, writing the sensor channels
never is. -/
def resumption? (task : Task) : HostAction → Option Resumption
  | .tick now =>
      if task.isDue now then
        some ⟨now, task.machine.memory.sensors, task.machine.resume.1, task.advance now⟩
      else none
  | .sense _ => none

/-- The resumptions at actions of the host, in order. -/
def resumptions (task : Task) : List HostAction → List Resumption
  | [] => []
  | action :: later => (task.resumption? action).toList ++ (task.perform action).resumptions later

/-- The nanoseconds of a number of milliseconds, rounded to the nearest. -/
def nanoseconds (duration : Float) : Nat :=
  (Number.integer .nearest (duration * 1000000)).toNat

section Run

variable (task : Task)

@[simp] theorem performAll_nil : task.performAll [] = task := rfl

@[simp] theorem performAll_cons (action : HostAction) (later : List HostAction) :
    task.performAll (action :: later) = (task.perform action).performAll later := rfl

/-- Actions one after the other are performed one after the other. -/
theorem performAll_append (first later : List HostAction) :
    task.performAll (first ++ later) = (task.performAll first).performAll later :=
  List.foldl_append ..

/-- The resumptions at actions one after the other. -/
theorem resumptions_append (first later : List HostAction) :
    task.resumptions (first ++ later) =
      task.resumptions first ++ (task.performAll first).resumptions later := by
  induction first generalizing task with
  | nil => rfl
  | cons action others ih =>
      rw [List.cons_append, resumptions, resumptions, ih, performAll_cons, List.append_assoc]

/-! ## Which ticks resume -/

/-- A tick is due before the first resume, while the program runs, and from the deadline of a wait
on. -/
theorem isDue_iff (now : Nat) :
    task.isDue now = true ↔ task.state = .idle ∨ task.state = .running ∨
      ∃ deadline, task.state = .waiting deadline ∧ deadline ≤ now := by
  unfold isDue
  cases task.state <;> simp

/-- A tick that is due resumes the program. -/
theorem tick_of_isDue {now : Nat} (due : task.isDue now = true) :
    task.tick now = task.advance now :=
  if_pos due

/-- A tick that is not due changes nothing. -/
theorem tick_of_not_isDue {now : Nat} (due : ¬ task.isDue now = true) : task.tick now = task :=
  if_neg due

/-- A host preserves what is preserved by new contents of the sensor channels and by every
resume. -/
theorem performAll_preserves (invariant : Task → Prop)
    (sensed : ∀ task channels, invariant task → invariant (task.perform (.sense channels)))
    (resumed : ∀ task now, invariant task → invariant (task.advance now))
    (begins : invariant task) (actions : List HostAction) :
    invariant (task.performAll actions) := by
  induction actions generalizing task with
  | nil => exact begins
  | cons action later ih =>
      refine ih (task.perform action) ?_
      cases action with
      | sense channels => exact sensed task channels begins
      | tick now =>
          by_cases due : task.isDue now = true
          · rw [perform, tick_of_isDue task due]
            exact resumed task now begins
          · rw [perform, tick_of_not_isDue task due]
            exact begins

/-- A tick counts one resume if it is due, and none otherwise. -/
theorem resumes_tick (now : Nat) :
    (task.tick now).resumes = task.resumes + if task.isDue now then 1 else 0 := by
  by_cases due : task.isDue now = true
  · rw [tick_of_isDue task due, if_pos due]
    rfl
  · rw [tick_of_not_isDue task due, if_neg due, Nat.add_zero]

/-- The number of resumes goes up by the number of resumptions. -/
theorem resumes_performAll (actions : List HostAction) :
    (task.performAll actions).resumes = task.resumes + (task.resumptions actions).length := by
  induction actions generalizing task with
  | nil => rfl
  | cons action later ih =>
      rw [performAll_cons, ih, resumptions, List.length_append, ← Nat.add_assoc]
      congr 1
      cases action with
      | sense channels => rfl
      | tick now =>
          show (task.tick now).resumes = _
          rw [resumes_tick, resumption?]
          split <;> rfl

/-! ## The resumptions are the machine's own run -/

/-- What the resumptions give is what the machine gives by itself when it is resumed with the sensor
channels in force at them. -/
theorem map_result_resumptions (actions : List HostAction) :
    (task.resumptions actions).map Resumption.result =
      task.machine.resumeAll ((task.resumptions actions).map Resumption.channels) := by
  induction actions generalizing task with
  | nil => rfl
  | cons action later ih =>
      rw [resumptions, List.map_append, ih, List.map_append]
      cases action with
      | sense channels => exact Machine.resumeAll_withSensors task.machine channels _
      | tick now =>
          by_cases due : task.isDue now = true
          · rw [resumption?, if_pos due, perform, tick_of_isDue task due]
            rfl
          · rw [resumption?, if_neg due, perform, tick_of_not_isDue task due]
            rfl

/-- The state after a resumption is read off its outcome and its time. -/
theorem state_of_mem_resumptions {actions : List HostAction} {resumption : Resumption}
    (member : resumption ∈ task.resumptions actions) :
    resumption.after.state =
      stateAfter resumption.now resumption.outcome resumption.after.machine := by
  induction actions generalizing task with
  | nil => exact absurd member List.not_mem_nil
  | cons action later ih =>
      rw [resumptions, List.mem_append, Option.mem_toList] at member
      rcases member with here | there
      · cases action with
        | sense channels => exact absurd here (by simp [resumption?])
        | tick now =>
            rw [resumption?] at here
            split at here
            · obtain rfl := Option.some.inj here
              rfl
            · exact absurd here (by simp)
      · exact ih (task.perform action) there

/-! ## Times without a resume -/

/-- No tick before the deadline of a wait resumes the program, and the wait goes on. -/
theorem performAll_of_waiting {deadline : Nat} {actions : List HostAction}
    (waiting : task.state = .waiting deadline)
    (early : ∀ now, .tick now ∈ actions → now < deadline) :
    task.resumptions actions = [] ∧ (task.performAll actions).state = .waiting deadline := by
  induction actions generalizing task with
  | nil => exact ⟨rfl, waiting⟩
  | cons action later ih =>
      have still {after : Task} (state : after.state = .waiting deadline) :
          after.resumptions later = [] ∧ (after.performAll later).state = .waiting deadline :=
        ih after state fun now member => early now (List.mem_cons_of_mem action member)
      rw [resumptions, performAll_cons]
      cases action with
      | sense channels => exact still waiting
      | tick now =>
          have before : now < deadline := early now List.mem_cons_self
          have idle : ¬ task.isDue now = true := by simp [isDue, waiting, before]
          rw [resumption?, if_neg idle, perform, tick_of_not_isDue task idle]
          exact still waiting

/-- A task that has ended is never resumed again, and its state is never left. -/
theorem performAll_of_isTerminal (ended : task.state.isTerminal = true)
    (actions : List HostAction) :
    task.resumptions actions = [] ∧ (task.performAll actions).state = task.state := by
  induction actions generalizing task with
  | nil => exact ⟨rfl, rfl⟩
  | cons action later ih =>
      rw [resumptions, performAll_cons]
      cases action with
      | sense channels => exact ih (task.perform (.sense channels)) ended
      | tick now =>
          have idle : ¬ task.isDue now = true := by
            rw [isDue_iff]
            cases state : task.state <;> simp_all [TaskState.isTerminal]
          rw [resumption?, if_neg idle, perform, tick_of_not_isDue task idle]
          exact ih task ended

end Run

/-! ## The deadline of a wait -/

/-- A double above zero is not below or at zero. -/
theorem not_le_zero_of_pos {value : Float} (positive : 0 < value) : ¬ value ≤ 0 := by
  have zero : (0 : Float).toModel.unpack = .zero .positive := rfl
  have above : (0 : Float).toModel.unpack.lt value.toModel.unpack = true :=
    of_decide_eq_true positive
  intro notPositive
  have below : value.toModel.unpack.le (0 : Float).toModel.unpack = true :=
    of_decide_eq_true notPositive
  rw [zero, Float.Model.UnpackedFloat.lt] at above
  rw [zero, Float.Model.UnpackedFloat.le] at below
  generalize value.toModel.unpack = unpacked at above below
  cases unpacked with
  | notANumber => cases below
  | zero sign => cases above
  | infinity sign | finite sign significand exponent nonzero =>
      -- with a negative sign it is not above zero, with a positive one not below
      cases sign with
      | negative => cases above
      | positive => cases below

/-- A wait of a positive duration whose nanoseconds are below `2 ^ 64` has its deadline that many
nanoseconds after the tick at which it begins. -/
theorem waitState_of_pos (machine : Machine) (now : Nat) {duration : Float}
    (positive : 0 < duration) (finite : (duration * 1000000).isFinite = true)
    (small : nanoseconds duration < 2 ^ 64) :
    waitState machine now duration = .waiting (now + nanoseconds duration) := by
  have time : waitTime? duration = some (nanoseconds duration) := by
    rw [waitTime?, if_pos finite]
    exact if_pos small
  rw [waitState, if_neg (not_le_zero_of_pos positive), time]

/-- A wait of a positive duration is followed by no resume before its deadline, and by one resume at
the first tick from then on. -/
theorem resumptions_after_wait (task : Task) {now : Nat} {duration : Float}
    (due : task.isDue now = true)
    (waits : task.machine.resume.1 = .suspended (.wait duration)) (positive : 0 < duration)
    (finite : (duration * 1000000).isFinite = true) (small : nanoseconds duration < 2 ^ 64)
    {later : List HostAction}
    (early : ∀ time, .tick time ∈ later → time < now + nanoseconds duration) :
    (task.tick now).resumptions later = [] ∧
      ∀ time, now + nanoseconds duration ≤ time →
        ((task.tick now).resumptions (later ++ [.tick time])).length = 1 := by
  have waiting : (task.tick now).state = .waiting (now + nanoseconds duration) := by
    rw [tick_of_isDue task due]
    show stateAfter now task.machine.resume.1 task.machine.resume.2 = _
    rw [waits]
    exact waitState_of_pos _ now positive finite small
  obtain ⟨none, still⟩ := performAll_of_waiting (task.tick now) waiting early
  refine ⟨none, fun time late => ?_⟩
  have ready : ((task.tick now).performAll later).isDue time = true :=
    (isDue_iff _ time).mpr (.inr (.inr ⟨_, still, late⟩))
  rw [resumptions_append, none, resumptions, resumption?, if_pos ready]
  rfl

/-! ## Runs are stretched machine runs -/

/-- Runs that show the program the same sensor channels at their first resumes let a host see the
same at these resumes. -/
theorem take_observations_eq (task : Task) (actions others : List HostAction) (count : Nat)
    (same : ((task.resumptions actions).map Resumption.channels).take count =
      ((task.resumptions others).map Resumption.channels).take count) :
    ((task.resumptions actions).map (Machine.observation ∘ Resumption.result)).take count =
      ((task.resumptions others).map (Machine.observation ∘ Resumption.result)).take count := by
  rw [← List.map_map, ← List.map_map, map_result_resumptions, map_result_resumptions,
    ← List.map_take, ← List.map_take, ← Machine.resumeAll_take, ← Machine.resumeAll_take, same]

/-- **A run of a task is its machine's own run, stretched in time.** Let a host give any actions to
the task of a program that has not begun.

* A tick resumes the program once if the task is idle or running, or waits for a deadline that is
  not after the tick; any other tick changes nothing.
* What the resumes give is what resuming the machine by hand gives, with the sensor channels in
  force at them; the state after each is read off its outcome.
* A wait of a positive duration is followed by no resume before its deadline, and by one at the
  first tick from then on.
* A task that has ended is not resumed again and keeps its state.
* Two runs whose first resumes show the program the same sensor channels let the host see the same
  at these resumes. -/
theorem performAll_stretches (program : Program) (memory : Memory) (limits : Limits)
    (actions : List HostAction) :
    let machine := Machine.start program memory limits
    let task := (Task.start machine).performAll actions
    let resumptions := (Task.start machine).resumptions actions
    (∀ now,
      let ready := task.state = .idle ∨ task.state = .running ∨
        ∃ deadline, task.state = .waiting deadline ∧ deadline ≤ now
      (ready → (task.tick now).machine = task.machine.resume.2 ∧
        (task.tick now).resumes = task.resumes + 1) ∧
      (¬ ready → task.tick now = task)) ∧
    (task.resumes = resumptions.length ∧
      resumptions.map Resumption.result =
        machine.resumeAll (resumptions.map Resumption.channels) ∧
      ∀ resumption ∈ resumptions, resumption.after.state =
        stateAfter resumption.now resumption.outcome resumption.after.machine) ∧
    (∀ now duration, task.isDue now = true →
      task.machine.resume.1 = .suspended (.wait duration) → 0 < duration →
      (duration * 1000000).isFinite = true → nanoseconds duration < 2 ^ 64 →
      ∀ later, (∀ time, .tick time ∈ later → time < now + nanoseconds duration) →
        (task.tick now).resumptions later = [] ∧
          ∀ time, now + nanoseconds duration ≤ time →
            ((task.tick now).resumptions (later ++ [.tick time])).length = 1) ∧
    (task.state.isTerminal = true →
      ∀ later, task.resumptions later = [] ∧ (task.performAll later).state = task.state) ∧
    (∀ others count,
      let otherResumptions := (Task.start machine).resumptions others
      (resumptions.map Resumption.channels).take count =
        (otherResumptions.map Resumption.channels).take count →
      (resumptions.map (Machine.observation ∘ Resumption.result)).take count =
        (otherResumptions.map (Machine.observation ∘ Resumption.result)).take count) := by
  intro machine task resumptions
  refine ⟨?_, ⟨?_, ?_, ?_⟩, ?_, ?_, ?_⟩
  -- which ticks resume
  · intro now ready
    have ready_iff : task.isDue now = true ↔ ready := isDue_iff task now
    rw [← ready_iff]
    refine ⟨fun due => ?_, tick_of_not_isDue task⟩
    rw [tick_of_isDue task due]
    exact ⟨rfl, rfl⟩
  -- what the resumes give
  · rw [resumes_performAll]
    exact Nat.zero_add _
  · exact map_result_resumptions (Task.start machine) actions
  · intro resumption member
    exact state_of_mem_resumptions (Task.start machine) member
  -- waits, ends and other runs
  · intro now duration due waits positive finite small later early
    exact resumptions_after_wait task due waits positive finite small early
  · exact performAll_of_isTerminal task
  · exact take_observations_eq (Task.start machine) actions

/-- A program that waits for five milliseconds, from a tick at 7 ns on: a tick one nanosecond before
the deadline does not resume it, the first one from the deadline on does. -/
theorem performAll_stretches_wait :
    let program : Program :=
      ⟨⟨"user_main", 0, 0, #[⟨.push 5, ⟨1, 1⟩⟩, ⟨.wait, ⟨1, 1⟩⟩, ⟨.push 0, ⟨1, 1⟩⟩,
        ⟨.giveBack, ⟨1, 1⟩⟩], ⟨1, 1⟩⟩, #[]⟩
    let task := Task.start (Machine.start program {} ⟨10, 1⟩)
    (task.tick 7).resumptions [.tick 5000006] = [] ∧
      ∀ time, 7 + nanoseconds 5 ≤ time →
        ((task.tick 7).resumptions ([.tick 5000006] ++ [.tick time])).length = 1 := by
  intro program task
  have early : ∀ time, HostAction.tick time ∈ [HostAction.tick 5000006] →
      time < 7 + nanoseconds 5 := by
    intro time member
    rw [List.mem_singleton, HostAction.tick.injEq] at member
    rw [member]
    decide +kernel
  exact (performAll_stretches program {} ⟨10, 1⟩ []).2.2.1 7 5 (by decide +kernel)
    (by decide +kernel) (by decide +kernel) (by decide +kernel) (by decide +kernel) _ early

end Task

end LineRobot
