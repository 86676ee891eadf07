import LineRobot.Proofs.Machine.Session
import LineRobot.Proofs.Meaning.Interpreter

/-! # Sessions that realize a meaning

`Session.Realizes` says that a session does what a meaning says: it reaches a session that fits the
value and the situation in which the meaning ends, or it ends and lets the host see the same. Where
the meaning is unfinished, the session runs for a number of instructions that grows with what has
been allowed for. Only the limit on calls inside each other can come in between, and only if it is
low.

The rules below follow the ways in which meanings are put together. `Session.Realizes.bind` is the
one for meanings in sequence, `Session.Realizes.rounds` the one for loops. -/

namespace LineRobot

namespace Session

variable {α β : Type} {deep : Prop} {least : Nat} {session middle : Session}
  {meaning : Meaning α} {situation : Situation} {goal : α → Situation → Session → Prop}

/-- A session does what a meaning does in a situation, and then fits a goal. With `deep` calls it
may hit a limit instead; if the meaning is unfinished, it makes at least `least` steps. -/
def Realizes (deep : Prop) (least : Nat) (session : Session) (meaning : Meaning α)
    (situation : Situation) (goal : α → Situation → Session → Prop) : Prop :=
  (deep ∧ ∃ seen, session.Ends seen ∧ HitsLimit seen) ∨
    match meaning situation with
    | .ok (value, after) => ∃ later, session.Reaches later ∧ goal value after later
    | .error (.halted seen) => session.EndsFreely seen
    | .error .unfinished => ∃ later, session.steps least = .ok later
    | .error .meaningless => False

namespace Realizes

/-- A value is realized at once. -/
theorem pure {value : α} (fits : goal value situation session) :
    session.Realizes deep least (Pure.pure value) situation goal :=
  .inr ⟨session, .refl session, fits⟩

/-- A meaning that gives a value is realized by a session that reaches a fitting one. -/
theorem of_ok {value : α} {after : Situation} {later : Session}
    (gives : meaning situation = .ok (value, after)) (reaches : session.Reaches later)
    (fits : goal value after later) : session.Realizes deep least meaning situation goal := by
  right
  rw [gives]
  exact ⟨later, reaches, fits⟩

/-- The end of a run is realized by a session that ends with it. -/
theorem halted {seen : List Observation} (ends : session.EndsFreely seen)
    (stops : meaning situation = .error (.halted seen)) :
    session.Realizes deep least meaning situation goal := by
  right
  rw [stops]
  exact ends

/-- The steps before a realizing session count. -/
theorem of_steps {count : Nat} (reached : session.steps count = .ok middle)
    (realizes : middle.Realizes deep least meaning situation goal) :
    session.Realizes deep (count + least) meaning situation goal := by
  have reaches : session.Reaches middle := ⟨count, reached⟩
  rcases realizes with ⟨isDeep, seen, ends, hits⟩ | realizes
  · exact .inl ⟨isDeep, seen, reaches.ends ends, hits⟩
  · right
    split at realizes
    · obtain ⟨later, onward, fits⟩ := realizes
      exact ⟨later, reaches.trans onward, fits⟩
    · exact reaches.endsFreely realizes
    · obtain ⟨later, runs⟩ := realizes
      exact ⟨later, by rw [steps_add reached, runs]⟩
    · exact realizes

/-- A session that makes some number of steps makes any smaller number. -/
theorem of_le {fewer : Nat} (le : fewer ≤ least)
    (realizes : session.Realizes deep least meaning situation goal) :
    session.Realizes deep fewer meaning situation goal := by
  rcases realizes with low | realizes
  · exact .inl low
  · right
    split at realizes
    · exact realizes
    · exact realizes
    · obtain ⟨later, runs⟩ := realizes
      exact steps_of_le runs le
    · exact realizes

/-- A session that reaches a realizing one realizes the same. -/
theorem of_reaches (reaches : session.Reaches middle)
    (realizes : middle.Realizes deep least meaning situation goal) :
    session.Realizes deep least meaning situation goal := by
  obtain ⟨count, reached⟩ := reaches
  exact (of_steps reached realizes).of_le (Nat.le_add_left least count)

/-- A step before a realizing session counts. -/
theorem of_step_succ (stepped : session.step = .ok middle)
    (realizes : middle.Realizes deep least meaning situation goal) :
    session.Realizes deep (least + 1) meaning situation goal := by
  have once : session.steps 1 = .ok middle := by
    rw [steps, stepped]
    rfl
  rw [Nat.add_comm]
  exact of_steps once realizes

/-- A session whose next step gives a realizing one realizes the same. -/
theorem of_step (stepped : session.step = .ok middle)
    (realizes : middle.Realizes deep least meaning situation goal) :
    session.Realizes deep least meaning situation goal :=
  of_reaches (.single stepped) realizes

/-- Meanings in sequence are realized one after the other. -/
theorem bind {next : α → Meaning β} {final : β → Situation → Session → Prop}
    (first : session.Realizes deep least meaning situation goal)
    (rest : ∀ value after later, goal value after later →
      later.Realizes deep least (next value) after final) :
    session.Realizes deep least (meaning >>= next) situation final := by
  rcases first with low | first
  · exact .inl low
  · have split : (meaning >>= next) situation =
        (meaning situation).bind fun result => next result.1 result.2 := rfl
    cases result : meaning situation with
    | ok result =>
        rw [result] at first
        obtain ⟨later, reaches, fits⟩ := first
        have onward := of_reaches reaches (rest _ _ _ fits)
        rw [Realizes] at onward ⊢
        rw [split, result]
        exact onward
    -- a meaning that ends does not go on to the next one
    | error ending =>
        rw [result] at first
        right
        rw [split, result]
        cases ending with
        | halted seen => exact first
        | unfinished => exact first
        | meaningless => exact first

/-- A meaning that only gives a value and another situation takes no step. -/
theorem bind_of_ok {next : α → Meaning β} {final : β → Situation → Session → Prop} {value : α}
    {after : Situation} (gives : meaning situation = .ok (value, after))
    (rest : session.Realizes deep least (next value) after final) :
    session.Realizes deep least (meaning >>= next) situation final := by
  have same : (meaning >>= next) situation = next value after := by
    show (meaning situation).bind (fun result => next result.1 result.2) = _
    rw [gives]
    rfl
  rw [Realizes] at rest ⊢
  rwa [same]

/-- What a session realizes it also realizes with the steps that come after. -/
theorem and_then {further : α → Situation → Session → Prop}
    (realizes : session.Realizes deep least meaning situation goal)
    (rest : ∀ value after later, goal value after later →
      ∃ last, later.Reaches last ∧ further value after last) :
    session.Realizes deep least meaning situation further := by
  rw [← bind_pure meaning]
  refine realizes.bind fun value after later fits => ?_
  obtain ⟨last, reaches, fits⟩ := rest value after later fits
  exact of_reaches reaches (pure fits)

/-- A meaning in a block of its own is realized if it is realized there. -/
theorem inBlock
    (realizes : session.Realizes deep least meaning
      { situation with blocks := [] :: situation.blocks }
      fun value after later => goal value { after with blocks := after.blocks.tail } later) :
    session.Realizes deep least (Meaning.inBlock meaning) situation goal := by
  rw [Realizes] at realizes ⊢
  rw [Meaning.inBlock]
  cases result : meaning { situation with blocks := [] :: situation.blocks } with
  | ok result => rwa [result] at realizes
  | error ending =>
      rw [result] at realizes
      cases ending <;> exact realizes

/-- A meaning in a call of its own is realized if it is realized there. -/
theorem inCall {parameters : Block}
    (realizes : session.Realizes deep least meaning { situation with blocks := [parameters] }
      fun value after later => goal value { after with blocks := situation.blocks } later) :
    session.Realizes deep least (Meaning.inCall parameters meaning) situation goal := by
  rw [Realizes] at realizes ⊢
  rw [Meaning.inCall]
  cases result : meaning { situation with blocks := [parameters] } with
  | ok result => rwa [result] at realizes
  | error ending =>
      rw [result] at realizes
      cases ending <;> exact realizes

/-- A meaning whose value is dropped is realized if it is realized with any value. -/
theorem discard {final : Unit → Situation → Session → Prop}
    (realizes : session.Realizes deep least meaning situation fun _ => final ()) :
    session.Realizes deep least (discard meaning) situation final := by
  rw [Meaning.discard_eq]
  exact realizes.bind fun _ _ _ fits => pure fits

/-! ## Primitive meanings -/

variable {position : Position}

/-- Reading a variable takes no step of its own. -/
theorem readLocal {name : String} {value : Float} {next : Float → Meaning α}
    (known : Block.lookup? situation.blocks name = some value)
    (rest : session.Realizes deep least (next value) situation goal) :
    session.Realizes deep least (Meaning.readLocal name >>= next) situation goal := by
  refine bind_of_ok ?_ rest
  rw [Meaning.readLocal, known]
  rfl

/-- Assigning to a variable takes no step of its own. -/
theorem writeLocal {name : String} {value : Float} {blocks : List Block} {next : Unit → Meaning α}
    (assigned : Block.assign? name value situation.blocks = some blocks)
    (rest : session.Realizes deep least (next ()) { situation with blocks } goal) :
    session.Realizes deep least (Meaning.writeLocal name value >>= next) situation goal := by
  refine bind_of_ok ?_ rest
  rw [Meaning.writeLocal, assigned]

/-- Checking that an expression names the variable slots takes no step. -/
theorem needSlots {array : Expression String} {next : Unit → Meaning α}
    (named : array.bank? = some .slots)
    (rest : session.Realizes deep least (next ()) situation goal) :
    session.Realizes deep least (array.needSlots >>= next) situation goal := by
  refine bind_of_ok ?_ rest
  rw [Expression.needSlots, if_pos named]
  rfl

/-- An access to an array is realized if both a missing element and each element are. -/
theorem element {bank : Bank} {index : Float} {next : Fin bankSize → Meaning α}
    (missing : Memory.index? index = none →
      session.EndsFreely
        (situation.world.ended (.faulted ⟨.indexOutOfBounds bank index, position⟩)))
    (found : ∀ cell, Memory.index? index = some cell →
      session.Realizes deep least (next cell) situation goal) :
    session.Realizes deep least (Meaning.element bank index position >>= next) situation goal := by
  cases checked : Memory.index? index with
  | none =>
      refine halted (missing checked) ?_
      rw [Meaning.element, checked]
      rfl
  | some cell =>
      have same : Meaning.element bank index position >>= next = next cell := by
        rw [Meaning.element, checked]
        rfl
      rw [same]
      exact found cell checked

/-- An operator is realized if both a missing value and each value are. -/
theorem operate {operator : Operator} {left right : Float} {next : Float → Meaning α}
    (missing : operator.apply left right = none →
      session.EndsFreely (situation.world.ended (.faulted ⟨.divisionByZero, position⟩)))
    (found : ∀ value, operator.apply left right = some value →
      session.Realizes deep least (next value) situation goal) :
    session.Realizes deep least (Meaning.operate operator left right position >>= next) situation
      goal := by
  cases applied : operator.apply left right with
  | none =>
      refine halted (missing applied) ?_
      rw [Meaning.operate, applied]
      rfl
  | some value =>
      have same : Meaning.operate operator left right position >>= next = next value := by
        rw [Meaning.operate, applied]
        rfl
      rw [same]
      exact found value applied

end Realizes

/-! ## Loops -/

/-- How a round of a loop may end: before an instruction that begins the next round, where the loop
is left, or with a value to be given back. -/
def EndsRound (begins : Situation → Session → Prop) (goal : Signal → Situation → Session → Prop) :
    Signal → Situation → Session → Prop
  | .next, after, later => ∃ again, later.step = .ok again ∧ begins after again
  | .nextRound, after, later => ∃ again, later.step = .ok again ∧ begins after again
  | .leaveLoop, after, later => ∃ out, later.Reaches out ∧ goal .next after out
  | .giveBack value, after, later => goal (.giveBack value) after later

/-- A loop is realized if each of its rounds is. As a step leads from one round to the next, rounds
that are not enough are at least as many steps. -/
theorem Realizes.rounds {round : Meaning Signal} {allowed : Nat}
    {begins : Situation → Session → Prop} {goal : Signal → Situation → Session → Prop}
    (each : ∀ situation session, begins situation session →
      session.Realizes deep allowed round situation (EndsRound begins goal))
    (begin : begins situation session) :
    session.Realizes deep allowed (Meaning.rounds round allowed) situation goal := by
  -- by induction on the rounds that are left, at most as many as allowed
  have some_left (left : Nat) (le : left ≤ allowed) :
      session.Realizes deep left (Meaning.rounds round left) situation goal := by
    induction left generalizing situation session with
    | zero => exact .inr ⟨session, rfl⟩
    | succ left ih =>
        rw [Meaning.rounds]
        refine bind ((each situation session begin).of_le le) fun signal after later fits => ?_
        cases signal with
        | next =>
            obtain ⟨again, stepped, begin⟩ := fits
            exact of_step_succ stepped (ih begin (by omega))
        | nextRound =>
            obtain ⟨again, stepped, begin⟩ := fits
            exact of_step_succ stepped (ih begin (by omega))
        | leaveLoop =>
            obtain ⟨out, reaches, fits⟩ := fits
            exact of_reaches reaches (pure fits)
        | giveBack value => exact pure fits
  exact some_left allowed (Nat.le_refl allowed)

end Session

end LineRobot
