import LineRobot.Proofs.Machine.Script
import LineRobot.Proofs.Machine.Turn

/-! # Machines and their host, one instruction at a time

A `Session` is a machine in the middle of a resume, together with the part of the script that is
still to come and with what the host has seen. `Session.step` is one instruction. If the instruction
suspends the program, the host sees it and resumes the machine at once, so that a whole script is
one sequence of steps, without a budget of instructions.

Three lemmas connect such a sequence to the resumes of the script. If it ends, the host sees the
same unless the budget of a resume is too small (`Session.finish_of_ends`), and budgets as large as
the number of steps are not (`Session.finish_of_ends_of_le`). If it goes on for long enough, the
budget of some resume is too small (`Session.hitsLimit_of_runs`). -/

namespace LineRobot

/-- The program has stopped for the limits of its machine. -/
def Observation.HitsLimit (observation : Observation) : Prop :=
  ∃ fault, observation.outcome = .faulted fault ∧ fault.cause.isLimit = true

/-- Some resume has hit a limit. -/
def HitsLimit (seen : List Observation) : Prop :=
  ∃ observation ∈ seen, observation.HitsLimit

/-- A machine in the middle of a resume. -/
structure Session where
  /-- The machine. -/
  machine : Machine
  /-- The sensor channels at the resumes to come. -/
  script : List Cells
  /-- What the host has seen, in order. -/
  seen : List Observation

namespace Session

/-- The session after a resume has stopped: the next one begins, if there is one and the program can
go on. If not, all that the host sees. -/
def afterStop (session : Session) (result : Outcome × Machine) :
    Except (List Observation) Session :=
  match result.1, session.script with
  | .suspended _, channels :: later =>
      .ok ⟨result.2.withSensors channels, later, session.seen ++ [Machine.observation result]⟩
  | _, script =>
      .error (session.seen ++ Machine.observation result :: result.2.observations script)

/-- If the program is over, all that the host sees is that, and the end at each further resume. -/
theorem afterStop_of_halted (session : Session) {outcome : Outcome} {machine : Machine}
    (halted : machine.frames = []) (ended : ∀ suspension, outcome ≠ .suspended suspension) :
    session.afterStop (outcome, machine) =
      .error (session.seen ++ Machine.observation (outcome, machine) ::
        session.script.map fun _ =>
          ⟨.completed, machine.memory.slots, machine.memory.commands⟩) := by
  rw [← Machine.observations_of_halted halted]
  cases outcome with
  | completed => rfl
  | faulted fault => rfl
  | suspended suspension => exact absurd rfl (ended suspension)

/-- The session after one instruction, or all that the host sees if that was the last one. -/
def step (session : Session) : Except (List Observation) Session :=
  match session.machine.fetch with
  | .halted => session.afterStop (.completed, session.machine)
  | .missing position => session.afterStop (session.machine.fault .stackUnderflow position)
  | .ready frame callers placed =>
      match session.machine.execute frame callers placed.instruction with
      | .error cause => session.afterStop (session.machine.fault cause placed.position)
      | .ok (.stop outcome machine) => session.afterStop (outcome, machine)
      | .ok (.next machine) => .ok { session with machine }

/-- The session after a number of instructions. -/
def steps : Nat → Session → Except (List Observation) Session
  | 0, session => .ok session
  | count + 1, session => session.step >>= steps count

/-- All that the host sees if the resume goes on with a budget of instructions. -/
def finish (budget : Nat) (session : Session) : List Observation :=
  let result := session.machine.run budget
  session.seen ++ Machine.observation result :: result.2.observations session.script

/-- The session of a script whose first resume begins. -/
def start (machine : Machine) (channels : Cells) (later : List Cells) : Session :=
  ⟨machine.withSensors channels, later, []⟩

/-- What the host sees at the resumes of a script. -/
theorem observations_eq_finish (machine : Machine) (channels : Cells) (later : List Cells) :
    machine.observations (channels :: later) =
      (start machine channels later).finish machine.limits.instructions :=
  rfl

/-! ## Steps -/

/-- Some steps, and then further ones. -/
theorem steps_add {session middle : Session} {first : Nat}
    (reached : session.steps first = .ok middle) (count : Nat) :
    session.steps (first + count) = middle.steps count := by
  induction first generalizing session with
  | zero =>
      cases reached
      rw [Nat.zero_add]
  | succ first ih =>
      obtain ⟨next, stepped, rest⟩ := bind_eq_ok.mp reached
      rw [Nat.add_right_comm, steps, stepped]
      exact ih rest

/-- A session that makes a number of steps makes any smaller number. -/
theorem steps_of_le {session after : Session} {count fewer : Nat}
    (reached : session.steps count = .ok after) (le : fewer ≤ count) :
    ∃ middle, session.steps fewer = .ok middle := by
  induction fewer generalizing session count with
  | zero => exact ⟨session, rfl⟩
  | succ fewer ih =>
      obtain ⟨count, rfl⟩ : ∃ more, count = more + 1 := ⟨count - 1, by omega⟩
      obtain ⟨next, stepped, rest⟩ := bind_eq_ok.mp reached
      obtain ⟨middle, reached⟩ := ih rest (Nat.le_of_succ_le_succ le)
      exact ⟨middle, by rw [steps, stepped]; exact reached⟩

/-- A session reaches another one. -/
def Reaches (session after : Session) : Prop :=
  ∃ count, session.steps count = .ok after

/-- A session ends, and this is all that the host sees. -/
def Ends (session : Session) (seen : List Observation) : Prop :=
  ∃ count, session.steps count = .error seen

/-- A session reaches itself. -/
theorem Reaches.refl (session : Session) : session.Reaches session :=
  ⟨0, rfl⟩

/-- A session reaches what comes next. -/
theorem Reaches.single {session next : Session} (stepped : session.step = .ok next) :
    session.Reaches next :=
  ⟨1, by rw [steps, stepped]; rfl⟩

/-- What is reached from a reached session is reached. -/
theorem Reaches.trans {session middle after : Session} (first : session.Reaches middle)
    (second : middle.Reaches after) : session.Reaches after := by
  obtain ⟨firstCount, first⟩ := first
  obtain ⟨secondCount, second⟩ := second
  exact ⟨firstCount + secondCount, by rw [steps_add first, second]⟩

/-- A session ends as a session that it reaches. -/
theorem Reaches.ends {session middle : Session} {seen : List Observation}
    (first : session.Reaches middle) (second : middle.Ends seen) : session.Ends seen := by
  obtain ⟨firstCount, first⟩ := first
  obtain ⟨secondCount, second⟩ := second
  exact ⟨firstCount + secondCount, by rw [steps_add first, second]⟩

/-- A session ends with its last instruction. -/
theorem Ends.single {session : Session} {seen : List Observation}
    (stepped : session.step = .error seen) : session.Ends seen :=
  ⟨1, by rw [steps, stepped]; rfl⟩

/-- A session makes at least as many steps as one that it reaches. -/
theorem Reaches.runs {session middle after : Session} {count : Nat}
    (first : session.Reaches middle) (second : middle.steps count = .ok after) :
    ∃ last, session.steps count = .ok last := by
  obtain ⟨firstCount, first⟩ := first
  have reached : session.steps (firstCount + count) = .ok after := by rw [steps_add first, second]
  exact steps_of_le reached (Nat.le_add_left count firstCount)

/-! ## Steps and budgets -/

/-- A stopped resume is the last one, or the next one begins with a full budget. -/
theorem finish_afterStop (session : Session) (result : Outcome × Machine) :
    match session.afterStop result with
    | .error seen =>
        session.seen ++ Machine.observation result :: result.2.observations session.script = seen
    | .ok next =>
        next.machine.limits = result.2.limits ∧
          next.script.length + 1 = session.script.length ∧
          session.seen ++ Machine.observation result :: result.2.observations session.script =
            next.finish result.2.limits.instructions := by
  obtain ⟨machine, script, seen⟩ := session
  obtain ⟨outcome, after⟩ := result
  cases outcome with
  | completed => exact rfl
  | faulted fault => exact rfl
  | suspended suspension =>
      cases script with
      | nil => exact rfl
      | cons channels later =>
          refine ⟨rfl, rfl, ?_⟩
          show _ = (seen ++ [_]) ++ _
          rw [List.append_assoc, observations_eq_finish]
          rfl

/-- With a budget left, a resume goes on with the next step: in the same resume with one instruction
less, or in the next one with a full budget. -/
theorem finish_step (session : Session) (budget : Nat) :
    match session.step with
    | .error seen => session.finish (budget + 1) = seen
    | .ok next =>
        next.machine.limits = session.machine.limits ∧
          ((next.script = session.script ∧ session.finish (budget + 1) = next.finish budget) ∨
            (next.script.length + 1 = session.script.length ∧
              session.finish (budget + 1) = next.finish session.machine.limits.instructions)) := by
  -- a resume that stops now, with the limits of the machine unchanged
  have stops (result : Outcome × Machine) (ran : session.machine.run (budget + 1) = result)
      (limits : result.2.limits = session.machine.limits) :
      match session.afterStop result with
      | .error seen => session.finish (budget + 1) = seen
      | .ok next =>
          next.machine.limits = session.machine.limits ∧
            ((next.script = session.script ∧ session.finish (budget + 1) = next.finish budget) ∨
              (next.script.length + 1 = session.script.length ∧
                session.finish (budget + 1) =
                  next.finish session.machine.limits.instructions)) := by
    have finished := finish_afterStop session result
    rw [finish, ran, ← limits]
    split at finished
    · exact finished
    · exact ⟨finished.1, .inr finished.2⟩
  rw [step]
  cases fetched : session.machine.fetch with
  | halted => exact stops (.completed, session.machine) (by rw [Machine.run, fetched]) rfl
  | missing position =>
      exact stops (session.machine.fault .stackUnderflow position)
        (by rw [Machine.run, fetched]) rfl
  | ready frame callers placed =>
      cases executed : session.machine.execute frame callers placed.instruction with
      | error cause =>
          simp only [executed]
          exact stops (session.machine.fault cause placed.position)
            (by simp only [Machine.run, fetched, executed]) rfl
      | ok turn =>
          have limits := (Machine.execute_fixed executed).limits
          cases turn with
          | stop outcome machine =>
              simp only [executed]
              exact stops (outcome, machine) (by simp only [Machine.run, fetched, executed]) limits
          | next machine =>
              simp only [executed]
              refine ⟨limits, .inl ⟨trivial, ?_⟩⟩
              rw [finish, show session.machine.run (budget + 1) = machine.run budget by
                rw [Machine.run]; simp only [fetched, executed]]
              rfl

/-- A step keeps the limits. -/
theorem limits_of_step {session next : Session} (stepped : session.step = .ok next) :
    next.machine.limits = session.machine.limits := by
  have finished := finish_step session 0
  rw [stepped] at finished
  exact finished.1

/-- Without a budget a resume stops: it would have stopped anyway, or it hits the limit. -/
theorem finish_zero (session : Session) :
    session.step = .error (session.finish 0) ∨ HitsLimit (session.finish 0) := by
  unfold step finish
  rw [Machine.run]
  cases session.machine.fetch with
  | halted => exact .inl rfl
  | missing position => exact .inl rfl
  | ready frame callers placed =>
      exact .inr ⟨_, List.mem_append_right _ List.mem_cons_self, _, rfl, rfl⟩

/-- If a session ends, the host sees the same whatever the budgets are, unless one is too small. -/
theorem finish_of_ends {session : Session} {seen : List Observation} {count : Nat}
    (ends : session.steps count = .error seen) (budget : Nat) :
    session.finish budget = seen ∨ HitsLimit (session.finish budget) := by
  induction count generalizing session budget with
  | zero => cases ends
  | succ count ih =>
      rw [steps] at ends
      cases budget with
      | zero =>
          rcases finish_zero session with stopped | hit
          · rw [stopped] at ends
            exact .inl (Except.error.inj ends)
          · exact .inr hit
      | succ budget =>
          have finished := finish_step session budget
          cases stepped : session.step with
          | error all =>
              rw [stepped] at ends finished
              exact .inl (finished.trans (Except.error.inj ends))
          | ok next =>
              rw [stepped] at ends finished
              -- in the same resume with one instruction less, or in the next one
              obtain ⟨-, ⟨-, same⟩ | ⟨-, same⟩⟩ := finished
              · rw [same]
                exact ih ends budget
              · rw [same]
                exact ih ends _

/-- If a session ends after some number of steps, budgets of that number are large enough. -/
theorem finish_of_ends_of_le {session : Session} {seen : List Observation} {count budget : Nat}
    (ends : session.steps count = .error seen) (enough : count ≤ budget)
    (full : count ≤ session.machine.limits.instructions) : session.finish budget = seen := by
  induction count generalizing session budget with
  | zero => cases ends
  | succ count ih =>
      obtain ⟨budget, rfl⟩ : ∃ less, budget = less + 1 := ⟨budget - 1, by omega⟩
      rw [steps] at ends
      have finished := finish_step session budget
      cases stepped : session.step with
      | error all =>
          rw [stepped] at ends finished
          exact finished.trans (Except.error.inj ends)
      | ok next =>
          rw [stepped] at ends finished
          obtain ⟨limits, ⟨-, same⟩ | ⟨-, same⟩⟩ := finished
          · rw [same]
            exact ih ends (by omega) (by rw [limits]; omega)
          · rw [same]
            exact ih ends (by omega) (by rw [limits]; omega)

/-- If a session goes on for more steps than all budgets together, some resume hits a limit. -/
theorem hitsLimit_of_runs {session after : Session} {count budget : Nat}
    (runs : session.steps count = .ok after)
    (long : budget + session.script.length * session.machine.limits.instructions < count) :
    HitsLimit (session.finish budget) := by
  induction count generalizing session budget with
  | zero => omega
  | succ count ih =>
      obtain ⟨next, stepped, rest⟩ := bind_eq_ok.mp runs
      cases budget with
      | zero =>
          rcases finish_zero session with stopped | hit
          · rw [stepped] at stopped
            cases stopped
          · exact hit
      | succ budget =>
          have finished := finish_step session budget
          rw [stepped] at finished
          obtain ⟨limits, ⟨script, same⟩ | ⟨script, same⟩⟩ := finished
          · rw [same]
            exact ih rest (by rw [script, limits]; omega)
          · rw [same]
            refine ih rest ?_
            -- the next resume takes its budget out of the bound
            rw [← script, Nat.add_mul, Nat.one_mul] at long
            rw [limits]
            omega

/-! ## Other limits -/

/-- The session under other limits. -/
def withLimits (session : Session) (limits : Limits) : Session :=
  { session with machine := session.machine.withLimits limits }

/-- What comes after a stop does not depend on the limits. -/
theorem afterStop_withLimits (session : Session) (outcome : Outcome) (machine : Machine)
    (stops : (∃ suspension, outcome = .suspended suspension) ∨
      (∀ suspension, outcome ≠ .suspended suspension) ∧ machine.frames = []) (limits : Limits) :
    (session.withLimits limits).afterStop (outcome, machine.withLimits limits) =
      (session.afterStop (outcome, machine)).map fun next => next.withLimits limits := by
  rcases stops with ⟨suspension, rfl⟩ | ⟨ended, halted⟩
  · obtain ⟨current, script, seen⟩ := session
    cases script <;> rfl
  · have same : (machine.withLimits limits).frames = [] := halted
    rw [afterStop_of_halted session halted ended, afterStop_of_halted _ same ended]
    rfl

/-- A fault does not depend on the limits. -/
theorem afterStop_fault_withLimits (session : Session) (cause : FaultCause) (position : Position)
    (limits : Limits) :
    (session.withLimits limits).afterStop
      ((session.withLimits limits).machine.fault cause position) =
      (session.afterStop (session.machine.fault cause position)).map
        fun next => next.withLimits limits :=
  afterStop_withLimits session (.faulted ⟨cause, position⟩) (session.machine.withFrames [] [])
    (.inr ⟨nofun, rfl⟩) limits

/-- The next instruction fails for the limits. -/
def FailsAtLimit (session : Session) : Prop :=
  ∃ frame callers placed cause, session.machine.fetch = .ready frame callers placed ∧
    session.machine.execute frame callers placed.instruction = .error cause ∧ cause.isLimit = true

/-- A step does not depend on the limits, as long as they allow at least as many calls and it does
not fail for them. -/
theorem step_withLimits {session : Session} (free : ¬ session.FailsAtLimit) {limits : Limits}
    (deeper : session.machine.limits.depth ≤ limits.depth) :
    (session.withLimits limits).step = session.step.map fun next => next.withLimits limits := by
  have same : (session.withLimits limits).machine.fetch = session.machine.fetch := rfl
  rw [step, step, same]
  cases fetched : session.machine.fetch with
  | halted =>
      have halted := session.machine.frames_of_fetch_halted fetched
      exact afterStop_withLimits session .completed _ (.inr ⟨nofun, halted⟩) limits
  | missing position => exact session.afterStop_fault_withLimits _ position limits
  | ready frame callers placed =>
      have executed := session.machine.execute_withLimits frame callers placed.instruction deeper
      cases result : session.machine.execute frame callers placed.instruction with
      | error cause =>
          rw [result] at executed
          have isOther : cause.isLimit = false := by
            rw [← Bool.not_eq_true]
            exact fun isLimit => free ⟨frame, callers, placed, cause, fetched, result, isLimit⟩
          have failed : (session.withLimits limits).machine.execute frame callers
            placed.instruction = .error cause := executed isOther
          simp only [result, failed]
          exact session.afterStop_fault_withLimits cause placed.position limits
      | ok turn =>
          rw [result] at executed
          have succeeded : (session.withLimits limits).machine.execute frame callers
            placed.instruction = .ok (turn.withLimits limits) := executed
          simp only [result, succeeded]
          cases turn with
          | next machine => rfl
          | stop outcome machine =>
              refine afterStop_withLimits session outcome machine ?_ limits
              rcases Machine.frames_of_stop result with suspended | ⟨rfl, halted⟩
              · exact .inl suspended
              · exact .inr ⟨nofun, halted⟩

/-- A step after which the program goes on is no failure. -/
theorem not_failsAtLimit_of_step {session next : Session} (stepped : session.step = .ok next) :
    ¬ session.FailsAtLimit := by
  rintro ⟨frame, callers, placed, cause, fetched, failed, -⟩
  rw [step, fetched] at stepped
  simp only [failed] at stepped
  cases stepped

/-- A session that makes some steps makes them under limits that allow at least as many calls. -/
theorem steps_withLimits {session after : Session} {limits : Limits} {count : Nat}
    (reached : session.steps count = .ok after)
    (deeper : session.machine.limits.depth ≤ limits.depth) :
    (session.withLimits limits).steps count = .ok (after.withLimits limits) ∧
      after.machine.limits = session.machine.limits := by
  induction count generalizing session with
  | zero =>
      cases reached
      exact ⟨rfl, rfl⟩
  | succ count ih =>
      obtain ⟨next, stepped, rest⟩ := bind_eq_ok.mp reached
      obtain ⟨onward, limits⟩ := ih rest (by rw [limits_of_step stepped]; exact deeper)
      rw [steps, step_withLimits (not_failsAtLimit_of_step stepped) deeper, stepped]
      exact ⟨onward, limits.trans (limits_of_step stepped)⟩

/-- A session ends, and this is all that the host sees; it ends after as many steps under all limits
that allow at least as many calls. -/
def EndsFreely (session : Session) (seen : List Observation) : Prop :=
  ∃ count, ∀ limits : Limits, session.machine.limits.depth ≤ limits.depth →
    (session.withLimits limits).steps count = .error seen

/-- A session that ends under all limits ends. -/
theorem EndsFreely.ends {session : Session} {seen : List Observation}
    (freely : session.EndsFreely seen) : session.Ends seen := by
  obtain ⟨count, ends⟩ := freely
  exact ⟨count, ends session.machine.limits (Nat.le_refl _)⟩

/-- A session that ends with its last instruction, but not for the limits. -/
theorem EndsFreely.single {session : Session} {seen : List Observation}
    (stepped : session.step = .error seen) (free : ¬ session.FailsAtLimit) :
    session.EndsFreely seen := by
  refine ⟨1, fun limits deeper => ?_⟩
  rw [steps, step_withLimits free deeper, stepped]
  rfl

/-- A session ends freely if one that it reaches does. -/
theorem Reaches.endsFreely {session middle : Session} {seen : List Observation}
    (reaches : session.Reaches middle) (freely : middle.EndsFreely seen) :
    session.EndsFreely seen := by
  obtain ⟨first, reached⟩ := reaches
  obtain ⟨second, ends⟩ := freely
  refine ⟨first + second, fun limits deeper => ?_⟩
  obtain ⟨onward, same⟩ := steps_withLimits reached deeper
  rw [steps_add onward]
  exact ends limits (by rw [same]; exact deeper)

end Session

end LineRobot
