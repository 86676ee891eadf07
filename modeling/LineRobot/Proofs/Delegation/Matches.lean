import LineRobot.Proofs.Meaning.Interpreter

/-! # Meanings that match

One meaning matches another one if, wherever the first one comes to an end with the rounds and calls
it is allowed, the second one comes to the same end, with the same value and in the same situation;
if it is the end of the program, the host has seen the same but for the places of faults. The second
meaning may be allowed more. Matching is kept by all that meanings are put together with. -/

namespace LineRobot

/-- An outcome without the place of a fault. -/
def Outcome.withoutPlace : Outcome → Outcome
  | .faulted fault => .faulted ⟨fault.cause, .start⟩
  | outcome => outcome

/-- What a host sees of one resume, without the place of a fault. -/
def Observation.withoutPlace (observation : Observation) : Observation :=
  { observation with outcome := observation.outcome.withoutPlace }

/-- A host sees the same but for the places of faults. -/
def SameButPlaces (first second : List Observation) : Prop :=
  first.map Observation.withoutPlace = second.map Observation.withoutPlace

/-- A fault at another place is the same but for the place. -/
theorem World.sameButPlaces_ended (world : World) (cause : FaultCause) (here there : Position) :
    SameButPlaces (world.ended (.faulted ⟨cause, here⟩))
      (world.ended (.faulted ⟨cause, there⟩)) := by
  unfold SameButPlaces ended
  rw [List.map_append, List.map_append, List.map_cons, List.map_cons]
  rfl

namespace Meaning

variable {α β : Type}

/-- The second result is that of a meaning which the meaning of the first result matches. -/
inductive Follows : Except Ending α → Except Ending α → Prop
  /-- Both have come to the same value. -/
  | ok {result : α} : Follows (.ok result) (.ok result)
  /-- Both have ended the program, and the host has seen the same. -/
  | halted {seen others : List Observation} :
      SameButPlaces seen others → Follows (.error (.halted seen)) (.error (.halted others))
  /-- The first one has been allowed too little. -/
  | unfinished {result : Except Ending α} : Follows (.error .unfinished) result
  /-- The first one has no meaning. -/
  | meaningless {result : Except Ending α} : Follows (.error .meaningless) result

/-- Wherever the first meaning comes to an end, the second one comes to the same end. -/
def Matches (first second : Meaning α) : Prop :=
  ∀ situation, Follows (first situation) (second situation)

/-- A result follows itself. -/
theorem Follows.refl (result : Except Ending α) : Follows result result := by
  cases result with
  | ok value => exact .ok
  | error ending =>
      cases ending with
      | halted seen => exact .halted rfl
      | unfinished => exact .unfinished
      | meaningless => exact .meaningless

/-- Results that follow each other do so after the same continuation, too. -/
theorem Follows.bind {first second : Except Ending α} (follows : Follows first second)
    {next other : α → Except Ending β} (onward : ∀ value, Follows (next value) (other value)) :
    Follows (first >>= next) (second >>= other) := by
  cases follows with
  | ok => exact onward _
  | halted same => exact .halted same
  | unfinished => exact .unfinished
  | meaningless => exact .meaningless

namespace Matches

/-- A meaning matches itself. -/
theorem refl (meaning : Meaning α) : Matches meaning meaning :=
  fun situation => .refl (meaning situation)

/-- What is not finished matches anything. -/
theorem unfinished {meaning : Meaning α} : Matches (stop .unfinished) meaning :=
  fun _ => .unfinished

/-- What has no meaning matches anything. -/
theorem meaningless {meaning : Meaning α} : Matches (stop .meaningless) meaning :=
  fun _ => .meaningless

/-- Meanings one after the other. -/
theorem bind {first second : Meaning α} (same : Matches first second)
    {next other : α → Meaning β} (onward : ∀ value, Matches (next value) (other value)) :
    Matches (first >>= next) (second >>= other) :=
  fun situation => (same situation).bind fun result => onward result.1 result.2

/-- The same meaning, followed by meanings that match. -/
theorem andThen (meaning : Meaning α) {next other : α → Meaning β}
    (onward : ∀ value, Matches (next value) (other value)) :
    Matches (meaning >>= next) (meaning >>= other) :=
  (refl meaning).bind onward

/-- A value that is dropped. -/
theorem discard {first second : Meaning α} (same : Matches first second) :
    Matches (Functor.discard first) (Functor.discard second) := by
  rw [discard_eq, discard_eq]
  exact same.bind fun _ => refl _

/-- A block. -/
theorem inBlock {first second : Meaning α} (same : Matches first second) :
    Matches (Meaning.inBlock first) (Meaning.inBlock second) := by
  intro situation
  have inside := same { situation with blocks := [] :: situation.blocks }
  unfold Meaning.inBlock
  generalize first _ = result at inside
  generalize second _ = other at inside
  cases inside with
  | ok => exact .ok
  | halted seen => exact .halted seen
  | unfinished => exact .unfinished
  | meaningless => exact .meaningless

/-- A call. -/
theorem inCall {first second : Meaning α} (parameters : Block) (same : Matches first second) :
    Matches (Meaning.inCall parameters first) (Meaning.inCall parameters second) := by
  intro situation
  have inside := same { situation with blocks := [parameters] }
  unfold Meaning.inCall
  generalize first _ = result at inside
  generalize second _ = other at inside
  cases inside with
  | ok => exact .ok
  | halted seen => exact .halted seen
  | unfinished => exact .unfinished
  | meaningless => exact .meaningless

/-! ## Places of faults -/

variable (here there : Position)

/-- A fault. -/
theorem fault (cause : FaultCause) :
    Matches (Meaning.fault cause here : Meaning α) (Meaning.fault cause there) :=
  fun situation => .halted (situation.world.sameButPlaces_ended cause here there)

/-- An operator on two values. -/
theorem operate (operator : Operator) (left right : Float) :
    Matches (Meaning.operate operator left right here)
      (Meaning.operate operator left right there) := by
  unfold Meaning.operate
  cases operator.apply left right with
  | none => exact fault here there _
  | some value => exact refl _

/-- An element of an array. -/
theorem element (bank : Bank) (index : Float) :
    Matches (Meaning.element bank index here) (Meaning.element bank index there) := by
  unfold Meaning.element
  cases Memory.index? index with
  | none => exact fault here there _
  | some index => exact refl _

/-- A wait. -/
theorem waitFor (duration : Float) :
    Matches (Meaning.waitFor duration here) (Meaning.waitFor duration there) := by
  unfold Meaning.waitFor
  by_cases finite : duration.isFinite
  · rw [if_pos finite, if_pos finite]
    exact refl _
  · rw [if_neg finite, if_neg finite]
    exact fault here there _

/-! ## Loops and functions -/

/-- The rounds of a loop. The second one may be allowed more of them. -/
theorem rounds {first second : Meaning Signal} (same : Matches first second) {few many : Nat}
    (enough : few ≤ many) : Matches (Meaning.rounds first few) (Meaning.rounds second many) := by
  induction few generalizing many with
  | zero => exact unfinished
  | succ few ih =>
      obtain ⟨more, rfl⟩ := Nat.exists_eq_succ_of_ne_zero (Nat.ne_zero_of_lt enough)
      refine same.bind fun signal => ?_
      cases signal with
      | next | nextRound => exact ih (Nat.le_of_succ_le_succ enough)
      | leaveLoop | giveBack => exact refl _

/-- What follows the body of a loop. -/
theorem afterBody {body body' rest rest' : Meaning Signal} (same : Matches body body')
    (onward : Matches rest rest') :
    Matches (Meaning.afterBody body rest) (Meaning.afterBody body' rest') := by
  refine same.bind fun signal => ?_
  cases signal with
  | next | nextRound => exact onward
  | leaveLoop | giveBack => exact refl _

/-- A condition that leaves a loop. -/
theorem whileTrue {condition condition' : Meaning Float} {body body' : Meaning Signal}
    (same : Matches condition condition') (onward : Matches body body') :
    Matches (Meaning.whileTrue condition body) (Meaning.whileTrue condition' body') := by
  refine same.bind fun value => ?_
  by_cases truth : Value.isTrue value
  · rw [if_pos truth, if_pos truth]
    exact onward
  · rw [if_neg truth, if_neg truth]
    exact refl _

/-- A function body. -/
theorem givenBack {body body' : Meaning Signal} (same : Matches body body') :
    Matches (Meaning.givenBack body) (Meaning.givenBack body') :=
  same.bind fun _ => refl _

end Matches

end Meaning

end LineRobot
