import LineRobot.Proofs.Number.Zero
import LineRobot.Proofs.Simulation.Operations

/-! # Robots without a program

Without a program a robot goes on as its wheels are set, so it should only be without one when they
are at rest. Stopping and resetting see to that. A start discards the program from before, too; but
if the new source is rejected, the wheels stay as they are. `Simulation.standsStill_performAll` says
that this is the only way for a robot to move without a program, and that one whose wheels are at
rest stays where it is; `Simulation.standsStill_performAll_rejected` is a robot that does move. -/

namespace LineRobot

open Number (IsZero SameButSign)

/-- In a sound setup the speed and the distance between the wheels are finite, and the latter is not
zero. -/
theorem Setup.IsSound.drive {setup : Setup} (sound : setup.IsSound) :
    setup.drive.maxSpeed.isFinite = true ∧ setup.drive.wheelBase.isFinite = true ∧
      ¬ IsZero setup.drive.wheelBase := by
  have clean := (isSound_iff.mp sound).2.2.1
  unfold driveFlaw? at clean
  split at clean
  case isTrue => cases clean
  case isFalse base =>
    split at clean
    case isTrue => cases clean
    case isFalse speed =>
      simp only [Bool.not_eq_true', Bool.not_eq_false, Bool.and_eq_true,
        decide_eq_true_eq] at base speed
      refine ⟨speed, base.2, fun isZero => ?_⟩
      -- a zero is not above zero
      obtain ⟨sign, unpacked⟩ := Number.isZero_iff.mp isZero
      have above : (0 : Float).toModel.unpack.lt setup.drive.wheelBase.toModel.unpack = true :=
        of_decide_eq_true base.1
      rw [unpacked] at above
      cases sign <;> cases above

namespace Pose

/-- Both wheels are at rest. -/
def StandsStill (pose : Pose) : Prop :=
  IsZero pose.left ∧ IsZero pose.right

/-- Two poses at the same place and with the same heading, but for the signs of zeros. -/
structure SamePlace (first second : Pose) : Prop where
  /-- The first coordinates agree. -/
  x : SameButSign first.x second.x
  /-- The second coordinates agree. -/
  y : SameButSign first.y second.y
  /-- The headings agree. -/
  heading : SameButSign first.heading second.heading

/-- A pose with the wheels at rest. -/
theorem standsStill_atRest (pose : Pose) : pose.atRest.StandsStill :=
  ⟨Number.isZero_zero, Number.isZero_zero⟩

variable {setup : Setup} {pose : Pose}

/-- Wheels at rest make no motion. -/
theorem StandsStill.motion (stands : pose.StandsStill) (sound : setup.IsSound) :
    IsZero (setup.drive.motion pose.left pose.right).forward ∧
      IsZero (setup.drive.motion pose.left pose.right).angular := by
  obtain ⟨speed, base, baseNotZero⟩ := sound.drive
  have atRest {magnitude : Float} (isZero : IsZero magnitude) :
      IsZero (magnitude / maxMagnitude * setup.drive.maxSpeed) :=
    (isZero.div rfl (by decide)).mul speed
  have left := atRest stands.1
  have right := atRest stands.2
  exact ⟨(left.add right).div rfl (by decide), (right.sub left).div base baseNotZero⟩

/-- A robot whose wheels are at rest stays where it is, if its heading has a sine and a cosine. -/
theorem StandsStill.samePlace_advance (stands : pose.StandsStill) (sound : setup.IsSound)
    (cosine : pose.heading.cos.isFinite = true) (sine : pose.heading.sin.isFinite = true) :
    pose.SamePlace (pose.advance setup.drive) := by
  obtain ⟨forward, angular⟩ := stands.motion sound
  exact ⟨(forward.mul cosine).sameButSign_add, (forward.mul sine).sameButSign_add,
    angular.sameButSign_add⟩

end Pose

namespace Simulation

/-- The wheels were at rest at the last start, and they are now, unless there is a program. -/
structure Rests (simulation : Simulation) : Prop where
  /-- The wheels were at rest at the last start. -/
  startPose : simulation.startPose.StandsStill
  /-- The wheels are at rest without a program. -/
  pose : simulation.pilot = none → simulation.pose.StandsStill

/-- A robot that is new rests. -/
theorem rests_of_new {setup : Setup} {robot : Simulation} (made : new setup = .ok robot) :
    robot.Rests := by
  obtain ⟨sound, rfl⟩ := eq_of_new made
  have stands : Pose.StandsStill {} := Pose.standsStill_atRest {}
  exact ⟨stands, fun _ => stands⟩

variable {simulation : Simulation}

/-- A tick neither starts nor discards a program. -/
theorem pilot_tick_eq_none_iff (now : Nat) (course : Course) :
    (simulation.tick now course).pilot = none ↔ simulation.pilot = none :=
  Option.map_eq_none_iff.trans Option.map_eq_none_iff

/-- A robot without a program that stands still does so after a tick, too, and it stays where it is,
if its heading has a sine and a cosine. -/
theorem standsStill_tick (discarded : simulation.pilot = none)
    (stands : simulation.pose.StandsStill) (now : Nat) (course : Course) :
    (simulation.tick now course).pilot = none ∧ (simulation.tick now course).pose.StandsStill ∧
      (simulation.pose.heading.cos.isFinite = true → simulation.pose.heading.sin.isFinite = true →
        simulation.pose.SamePlace (simulation.tick now course).pose) := by
  have pilot := (pilot_tick_eq_none_iff now course).mpr discarded
  have pose : (simulation.tick now course).pose =
      simulation.pose.advance simulation.setup.drive := by
    show moved simulation.setup.drive simulation.pose (simulation.tick now course).pilot = _
    rw [pilot]
    rfl
  rw [pose]
  exact ⟨pilot, stands, stands.samePlace_advance simulation.sound⟩

/-- An operation lets a robot rest, if it does not set the wheels going by hand and is not the start
of a rejected source while they are going. -/
theorem Rests.perform (rests : simulation.Rests) {operation : Operation}
    (posed : ∀ pose, operation = .setPose pose → pose.StandsStill)
    (rejected : ∀ source pose rejection, operation = .start source pose →
      Program.compile source = .error rejection → simulation.pose.StandsStill) :
    (simulation.perform operation).Rests := by
  have started (program : Program) (pose : Pose) : (simulation.startProgram program pose).Rests :=
    ⟨pose.standsStill_atRest, nofun⟩
  cases operation with
  | start source pose =>
      rcases simulation.perform_start source pose with ⟨program, after⟩ |
        ⟨⟨rejection, compiled⟩, after⟩
      · rw [after]
        exact started program pose
      · rw [after]
        exact ⟨rests.startPose, fun _ => rejected source pose rejection rfl compiled⟩
  | startProgram program pose => exact started program pose
  | tick now course =>
      refine ⟨rests.startPose, fun discarded => ?_⟩
      have discarded := (pilot_tick_eq_none_iff now course).mp discarded
      exact (standsStill_tick discarded (rests.pose discarded) now course).2.1
  | refresh course =>
      exact ⟨rests.startPose, fun discarded => rests.pose (Option.map_eq_none_iff.mp discarded)⟩
  | stop => exact ⟨rests.startPose, fun _ => simulation.pose.standsStill_atRest⟩
  | reset => exact ⟨rests.startPose, fun _ => rests.startPose⟩
  | setPose pose => exact ⟨rests.startPose, fun _ => posed pose rfl⟩

/-- Operations let a robot rest, if none of them sets the wheels going by hand or is the start of a
rejected source while they are going. -/
theorem Rests.performAll (rests : simulation.Rests) {operations : List Operation}
    (posed : ∀ pose, .setPose pose ∈ operations → pose.StandsStill)
    (rejected : ∀ before source pose rejection, before ++ [.start source pose] <+: operations →
      Program.compile source = .error rejection → (simulation.performAll before).pose.StandsStill) :
    (simulation.performAll operations).Rests := by
  induction operations generalizing simulation with
  | nil => exact rests
  | cons operation later ih =>
      refine ih (rests.perform ?_ ?_) ?_ ?_
      · rintro pose rfl
        exact posed pose List.mem_cons_self
      · rintro source pose rejection rfl
        exact rejected [] source pose rejection ⟨later, rfl⟩
      · exact fun pose member => posed pose (List.mem_cons_of_mem operation member)
      · intro before source pose rejection inside
        exact rejected (operation :: before) source pose rejection
          (List.cons_prefix_cons.mpr ⟨rfl, inside⟩)

/-- **Without a program a robot stands still**, unless a start has discarded one and was rejected.
Let operations be performed on a new robot, none of which sets the wheels going by hand. The wheels
are at rest whenever there is no program, just if they are at rest whenever a source is to be
started that is rejected. A robot without a program whose wheels are at rest goes on like this at
every tick, and stays where it is, as long as the sine and the cosine of its heading are finite. -/
theorem standsStill_performAll {setup : Setup} {robot : Simulation} (made : new setup = .ok robot)
    {operations : List Operation}
    (posed : ∀ pose, .setPose pose ∈ operations → pose.StandsStill) :
    ((∀ before, before <+: operations → (robot.performAll before).pilot = none →
        (robot.performAll before).pose.StandsStill) ↔
      ∀ before source pose rejection, before ++ [.start source pose] <+: operations →
        Program.compile source = .error rejection → (robot.performAll before).pose.StandsStill) ∧
    ∀ simulation : Simulation, simulation.pilot = none → simulation.pose.StandsStill →
      ∀ now course, (simulation.tick now course).pilot = none ∧
        (simulation.tick now course).pose.StandsStill ∧
        (simulation.pose.heading.cos.isFinite = true → simulation.pose.heading.sin.isFinite = true →
          simulation.pose.SamePlace (simulation.tick now course).pose) := by
  refine ⟨⟨fun always before source pose rejection inside rejected => ?_,
    fun rejected before inside => ?_⟩, fun simulation => standsStill_tick⟩
  · -- the start leaves the robot without a program, and the wheels as they are
    have after := always _ inside
    rw [performAll_append, performAll_cons, performAll_nil, Simulation.perform,
      start_of_rejected _ rejected] at after
    exact after rfl
  · refine ((rests_of_new made).performAll (fun pose member => ?_) ?_).pose
    · exact posed pose (inside.subset member)
    · intro earlier source pose rejection started
      exact rejected earlier source pose rejection (started.trans inside)

/-- A program sets the wheels going, and is stopped before a start that is rejected. -/
theorem standsStill_performAll_stopped :
    let source := "void user_main(void) \x7b motor(10, 10); while (TRUE) \x7b \x7d \x7d"
    let course : Course := ⟨fun _ _ => none⟩
    ∃ robot, new {} = .ok robot ∧
      let after := robot.performAll
        [.start source {}, .tick 0 course, .stop, .start "void user_main(void) \x7b" {}]
      after.pilot = none ∧ after.pose.StandsStill ∧ (after.tick 1 course).pose.StandsStill := by
  intro source course
  have made := new_of_isSound (show Setup.IsSound {} by decide +kernel)
  refine ⟨_, made, ?_⟩
  intro after
  let operations : List Operation :=
    [.start source {}, .tick 0 course, .stop, .start "void user_main(void) \x7b" {}]
  have posed : ∀ pose, .setPose pose ∈ operations → pose.StandsStill := by simp [operations]
  obtain ⟨always, goesOn⟩ := standsStill_performAll made posed
  have accepted : (Program.compile source).isOk = true := by decide +kernel
  have discarded : after.pilot = none := Option.isNone_iff_eq_none.mp (by decide +kernel)
  have stands : after.pose.StandsStill := by
    refine always.mpr (fun before started pose rejection inside rejected => ?_) operations
      (List.prefix_refl operations) discarded
    rcases before with _ | ⟨_, _ | ⟨_, _ | ⟨_, before⟩⟩⟩
    all_goals simp only [operations, List.nil_append, List.cons_append,
      List.cons_prefix_cons] at inside
    · obtain ⟨same, -⟩ := inside
      cases same
      rw [rejected] at accepted
      cases accepted
    · exact nomatch inside.2.1
    · exact nomatch inside.2.2.1
    · cases before with
      | nil =>
          obtain ⟨rfl, rfl, rfl, -⟩ := inside
          exact Pose.standsStill_atRest _
      | cons => simp at inside
  exact ⟨discarded, stands, (goesOn after discarded stands 1 course).2.1⟩

/-- Without the stop, the robot goes on at the pace of the program that the start has discarded. -/
theorem standsStill_performAll_rejected :
    let source := "void user_main(void) \x7b motor(10, 10); while (TRUE) \x7b \x7d \x7d"
    let course : Course := ⟨fun _ _ => none⟩
    ∃ robot, new {} = .ok robot ∧
      let after := robot.performAll
        [.start source {}, .tick 0 course, .start "void user_main(void) \x7b" {}]
      after.pilot = none ∧ ¬ after.pose.StandsStill ∧
        ¬ IsZero (after.setup.drive.motion after.pose.left after.pose.right).forward := by
  intro source course
  refine ⟨_, new_of_isSound (show Setup.IsSound {} by decide +kernel), ?_⟩
  intro after
  have discarded : after.pilot.isNone = true := by decide +kernel
  have left : ¬ IsZero after.pose.left := by decide +kernel
  have forward : ¬ IsZero (after.setup.drive.motion after.pose.left after.pose.right).forward := by
    decide +kernel
  exact ⟨Option.isNone_iff_eq_none.mp discarded, fun stands => left stands.1, forward⟩

end Simulation

end LineRobot
