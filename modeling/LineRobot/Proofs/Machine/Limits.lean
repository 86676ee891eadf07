import LineRobot.Proofs.Machine.Session
import LineRobot.Proofs.Machine.Turns

/-! # Limits only cut runs short

A program that hits no limit does the same under all limits that are larger: a resume with a larger
budget gives the same outcome and the same machine but for the limits (`Machine.run_withLimits`),
and so do all resumes of a script. Within its limits a resume applies the effects of no more
instructions than allowed, and there are never more frames than allowed, but for the one of the
entry function (`Machine.limits_cut_short`). -/

namespace LineRobot

namespace Machine

/-! ## Other limits -/

/-- **A resume that hits no limit gives the same under larger limits.** -/
theorem run_withLimits {machine : Machine} {limits : Limits} {budget more : Nat}
    (enough : budget ≤ more) (deeper : machine.limits.depth ≤ limits.depth)
    (free : ¬ (observation (machine.run budget)).HitsLimit) :
    (machine.withLimits limits).run more =
      ((machine.run budget).1, (machine.run budget).2.withLimits limits) := by
  have runs := machine.runs_run budget
  generalize machine.run budget = result at runs free ⊢
  refine Runs.run_eq ?_
  induction runs generalizing more with
  | halted fetched => exact .halted fetched
  | missing fetched => exact .missing fetched
  | exhausted => exact absurd ⟨_, rfl, rfl⟩ free
  | @fails machine _ frame callers placed cause fetched failed =>
      obtain ⟨more, rfl⟩ := Nat.exists_eq_add_one_of_ne_zero (Nat.ne_zero_of_lt enough)
      have executed := machine.execute_withLimits frame callers placed.instruction deeper
      rw [failed] at executed
      have isOther : cause.isLimit = false := by
        rw [← Bool.not_eq_true]
        exact fun isLimit => free ⟨_, rfl, isLimit⟩
      exact .fails fetched (executed isOther)
  | @stops machine _ _ frame callers placed _ fetched result =>
      obtain ⟨more, rfl⟩ := Nat.exists_eq_add_one_of_ne_zero (Nat.ne_zero_of_lt enough)
      have executed := machine.execute_withLimits frame callers placed.instruction deeper
      rw [result] at executed
      exact .stops fetched executed
  | @next machine middle _ frame callers placed _ fetched result _ ih =>
      obtain ⟨more, rfl⟩ := Nat.exists_eq_add_one_of_ne_zero (Nat.ne_zero_of_lt enough)
      have executed := machine.execute_withLimits frame callers placed.instruction deeper
      rw [result] at executed
      have limitsEq : middle.limits = machine.limits := (execute_fixed result).limits
      exact .next fetched executed (ih (Nat.le_of_succ_le_succ enough)
        (by rw [limitsEq]; exact deeper) free)

/-- The resumes of a script that hit no limit give the same under larger limits. -/
theorem resumeAll_withLimits {machine : Machine} {limits : Limits} {script : List Cells}
    (instructions : machine.limits.instructions ≤ limits.instructions)
    (deeper : machine.limits.depth ≤ limits.depth)
    (free : ¬ HitsLimit (machine.observations script)) :
    (machine.withLimits limits).resumeAll script =
      (machine.resumeAll script).map fun result => (result.1, result.2.withLimits limits) := by
  induction script generalizing machine with
  | nil => rfl
  | cons channels later ih =>
      have limitsAfter : (machine.withSensors channels).resume.2.limits = machine.limits :=
        (run_fixed _ _).limits
      have deeperHere : (machine.withSensors channels).limits.depth ≤ limits.depth := deeper
      have freeHere : ¬ (observation (machine.withSensors channels).resume).HitsLimit :=
        fun hits => free ⟨_, List.mem_cons_self, hits⟩
      have freeLater : ¬ HitsLimit ((machine.withSensors channels).resume.2.observations later) :=
        fun ⟨seen, member, hits⟩ => free ⟨seen, List.mem_cons_of_mem _ member, hits⟩
      have here : ((machine.withLimits limits).withSensors channels).resume =
          ((machine.withSensors channels).resume.1,
            (machine.withSensors channels).resume.2.withLimits limits) :=
        run_withLimits instructions deeperHere freeHere
      have rest := ih (by rw [limitsAfter]; exact instructions) (by rw [limitsAfter]; exact deeper)
        freeLater
      rw [resumeAll, resumeAll, here, List.map_cons, rest]

/-! ## What the limits allow -/

section Reachable

variable {program : Program} {memory : Memory} {limits : Limits} {machine : Machine}

/-- A machine keeps its limits. -/
theorem Reachable.limits_eq (reachable : Reachable program memory limits machine) :
    machine.limits = limits := by
  induction reachable with
  | start => rfl
  | write _ _ ih => exact ih
  | execute _ _ executed ih => exact (execute_fixed executed).limits.trans ih
  | fault _ _ _ ih => exact ih

/-- There are no more frames than allowed, apart from that of the entry function. -/
theorem Reachable.length_frames_le (reachable : Reachable program memory limits machine) :
    machine.frames.length ≤ max 1 limits.depth := by
  induction reachable with
  | start => exact Nat.le_max_left 1 limits.depth
  | write _ _ ih => exact ih
  | fault => exact Nat.zero_le _
  | @execute machine frame callers placed turn before fetched executed ih =>
      obtain ⟨current, code, frames, -, -, rfl⟩ := exists_of_fetch_ready fetched
      rw [frames, List.length_cons] at ih
      have moved := framesAfter_of_execute
        (rfl : (current.jump (current.counter + 1)).counter = current.counter + 1) executed
      generalize turn.machine.frames = framesAfter at moved ⊢
      cases moved with
      | within => exact ih
      | entered _ _ notTooDeep =>
          rw [before.limits_eq] at notTooDeep
          exact Nat.le_trans notTooDeep (Nat.le_max_right 1 limits.depth)
      | left => exact Nat.le_of_succ_le ih

end Reachable

/-- **Limits only cut runs short.** Let a program be started with the same memory under limits and
under other ones that are at least as large.

* If it hits no limit under the former, it gives the same at each resume of a script under the
  latter: the outcome is the same, and the machine is so but for its limits, with its memory, its
  frames and the place that it has reached.
* In each state that it can reach, a resume applies the effects of no more instructions than
  allowed, and there are no more frames than allowed, apart from that of the entry function. -/
theorem limits_cut_short (program : Program) (memory : Memory) {limits larger : Limits}
    (instructions : limits.instructions ≤ larger.instructions)
    (depth : limits.depth ≤ larger.depth) :
    (∀ script, ¬ HitsLimit ((start program memory limits).observations script) →
      (start program memory larger).resumeAll script =
        ((start program memory limits).resumeAll script).map
          fun result => (result.1, result.2.withLimits larger)) ∧
    ∀ machine, Reachable program memory limits machine →
      (∃ count, count ≤ limits.instructions ∧ machine.Applies count machine.resume) ∧
        machine.depth ≤ max 1 limits.depth := by
  refine ⟨fun script free => resumeAll_withLimits instructions depth free,
    fun machine reachable => ?_⟩
  have applies := exists_applies_run machine machine.limits.instructions
  rw [reachable.limits_eq] at applies
  refine ⟨?_, reachable.length_frames_le⟩
  rw [resume, reachable.limits_eq]
  exact applies

/-- A program that calls a function in each round of its loop. Six instructions and two frames are
just enough for it. -/
theorem limits_cut_short_exactly :
    let place : Position := ⟨1, 1⟩
    let program : Program :=
      ⟨⟨"user_main", 0, 0, #[⟨.tick, place⟩, ⟨.call 1 0, place⟩, ⟨.pop, place⟩, ⟨.jump 0, place⟩],
        place⟩, #[⟨"one", 0, 0, #[⟨.push 1, place⟩, ⟨.giveBack, place⟩], place⟩]⟩
    let script := [Cells.zero, Cells.zero]
    ¬ HitsLimit ((start program {} ⟨6, 2⟩).observations script) ∧
      (start program {} ⟨1000, 256⟩).resumeAll script =
        ((start program {} ⟨6, 2⟩).resumeAll script).map
          fun result => (result.1, result.2.withLimits ⟨1000, 256⟩) := by
  intro place program script
  have ticks : ∀ seen ∈ (start program {} ⟨6, 2⟩).observations script,
      seen.outcome = .suspended .tick := by decide +kernel
  have free : ¬ HitsLimit ((start program {} ⟨6, 2⟩).observations script) := by
    rintro ⟨seen, member, fault, faulted, -⟩
    rw [ticks seen member] at faulted
    cases faulted
  exact ⟨free, (limits_cut_short program {} (by decide) (by decide)).1 script free⟩

end Machine

end LineRobot
