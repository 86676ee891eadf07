/-! # Computations that succeed

A computation made of two parts succeeds if and only if both parts do, and fails as the first of
them that fails. -/

namespace LineRobot

variable {ε α β : Type}

/-- A sequence of two computations succeeds just if the first one does and then the second one. -/
theorem bind_eq_ok {first : Except ε α} {next : α → Except ε β} {result : β} :
    first >>= next = .ok result ↔ ∃ value, first = .ok value ∧ next value = .ok result := by
  constructor
  · intro succeeds
    cases first with
    | error error => exact nomatch succeeds
    | ok value => exact ⟨value, rfl, succeeds⟩
  · rintro ⟨value, rfl, succeeds⟩
    exact succeeds

/-- A computation that only gives a value succeeds with that value. -/
theorem pure_eq_ok {value result : α} : (pure value : Except ε α) = .ok result ↔ value = result :=
  ⟨Except.ok.inj, congrArg Except.ok⟩

/-- What is made of a result is made of one. -/
theorem exists_of_map_eq_ok {first : Except ε α} {next : α → β} {result : β}
    (succeeds : first.map next = .ok result) : ∃ value,
      first = .ok value ∧ next value = result := by
  cases first with
  | error error => exact nomatch succeeds
  | ok value => exact ⟨value, rfl, Except.ok.inj succeeds⟩

/-! ## Success without the result -/

/-- A computation has a result. -/
def Succeeds (computation : Except ε α) : Prop :=
  ∃ result, computation = .ok result

/-- A failed computation has no result. -/
@[simp] theorem not_succeeds_error {error : ε} : ¬ Succeeds (.error error : Except ε α) :=
  fun ⟨_, same⟩ => nomatch same

/-- A value is a result. -/
@[simp] theorem succeeds_ok {value : α} : Succeeds (.ok value : Except ε α) :=
  ⟨value, rfl⟩

instance Succeeds.decidable : (computation : Except ε α) → Decidable (Succeeds computation)
  | .error _ => .isFalse not_succeeds_error
  | .ok _ => .isTrue succeeds_ok

/-- A computation that only gives a value has a result. -/
@[simp] theorem succeeds_pure {value : α} : Succeeds (pure value : Except ε α) :=
  succeeds_ok

/-- A sequence of two computations has a result just if the first one has and then the second
one. -/
theorem succeeds_bind {first : Except ε α} {next : α → Except ε β} :
    Succeeds (first >>= next) ↔ ∃ value, first = .ok value ∧ Succeeds (next value) := by
  constructor
  · rintro ⟨result, done⟩
    obtain ⟨value, done, succeeds⟩ := bind_eq_ok.mp done
    exact ⟨value, done, result, succeeds⟩
  · rintro ⟨value, done, result, succeeds⟩
    exact ⟨result, bind_eq_ok.mpr ⟨value, done, succeeds⟩⟩

/-- A sequence of two computations has a result just if both have, if what the first one gives does
not matter for the success of the second one. -/
theorem succeeds_bind_iff {first : Except ε α} {next : α → Except ε β} {holds : Prop}
    (same : ∀ value, first = .ok value → (Succeeds (next value) ↔ holds)) :
    Succeeds (first >>= next) ↔ Succeeds first ∧ holds := by
  rw [succeeds_bind]
  constructor
  · rintro ⟨value, done, succeeds⟩
    exact ⟨⟨value, done⟩, (same value done).mp succeeds⟩
  · rintro ⟨⟨value, done⟩, succeeds⟩
    exact ⟨value, done, (same value done).mpr succeeds⟩

/-- What is made of a result does not matter for success. -/
theorem succeeds_bind_pure {first : Except ε α} {next : α → β} :
    Succeeds (first >>= fun value => pure (next value)) ↔ Succeeds first :=
  (succeeds_bind_iff fun _ _ => iff_true_intro succeeds_pure).trans (and_iff_left trivial)

end LineRobot
