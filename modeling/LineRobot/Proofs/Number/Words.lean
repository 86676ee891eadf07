import LineRobot.Proofs.Number.Exact

/-! # Doubles wrapped to words

A double is wrapped to a signed 32-bit word in three steps: it is cut towards zero, the remainder by
`2 ^ 32` is taken, which has the sign of the dividend, and the 64-bit word of that loses its upper
half. None of them rounds:

* `Number.isExactly_rounded_towardZero`: a finite double is cut to its integral part,
* `Number.isExactly_remainder`: the remainder of an integer by a natural number with at most 53
  digits is exact,
* `Number.IsExactly.saturated_eq`: an integral double is made the word nearest to the integer,
  which is that of the same value for such a remainder.

So the word is the only integer in its range that the double wraps to (`Number.wrapsTo_iff`), where
to wrap is said of values alone (`Number.WrapsTo`). -/

namespace LineRobot

namespace Number

/-! ## Cutting towards zero -/

/-- The integral part of a number: of the integers next to it, the one that is nearer to zero. -/
def truncated (exact : ℚ) : ℤ :=
  if exact < 0 then ⌈exact⌉ else ⌊exact⌋

section Truncated

variable {exact : ℚ} {number : Float}

/-- Numbers that are not negative are cut downwards. -/
theorem truncated_of_nonneg (nonneg : 0 ≤ exact) : truncated exact = ⌊exact⌋ :=
  if_neg nonneg.not_gt

/-- The integral part of the negative number is the negative integral part. -/
theorem truncated_neg (exact : ℚ) : truncated (-exact) = -truncated exact := by
  rcases lt_trichotomy exact 0 with negative | rfl | positive
  · rw [truncated_of_nonneg (by linarith), Int.floor_neg, truncated, if_pos negative]
  · simp [truncated]
  · rw [truncated_of_nonneg positive.le, truncated, if_pos (by linarith), Int.ceil_neg]

/-- An integer is its own integral part. -/
theorem truncated_intCast (integer : ℤ) : truncated integer = integer := by
  rw [truncated, Int.ceil_intCast, Int.floor_intCast, ite_self]

/-- Cutting towards zero gives the integral part. -/
theorem truncated_eq_magnitude (negative : Bool) (significand places : Nat) :
    truncated ((if negative then -1 else 1) * (significand / (2 ^ places : Nat))) =
      (if negative then -1 else 1) *
        (Rounding.towardZero.magnitude negative significand places : ℤ) := by
  have whole : truncated (significand / (2 ^ places : Nat)) =
      Rounding.towardZero.magnitude negative significand places := by
    rw [truncated_of_nonneg (by positivity), floor_div]
    rfl
  cases negative with
  | false => simpa using whole
  | true => simpa [truncated_neg] using whole

/-- A finite double is cut towards zero to the integral part of its value. -/
theorem isExactly_rounded_towardZero (finite : number.isFinite = true) :
    IsExactly (rounded .towardZero number) (truncated (value number)) :=
  isExactly_rounded .towardZero truncated finite truncated_intCast truncated_eq_magnitude

end Truncated

/-! ## Remainders -/

section Remainder

variable {number dividend divisor : Float} {integral : ℤ} {natural : Nat}

/-- The digits of an integral double are worth the magnitude of the integer. -/
theorem IsExactly.exists_parts (isExactly : IsExactly number integral) :
    ∃ (negative : Bool) (significand : Nat) (exponent : Int) (magnitude : Nat),
      Binary64.of number = .finite negative significand exponent ∧
        (significand * 2 ^ exponent : ℚ) = magnitude ∧
          integral = (if negative then -1 else 1) * (magnitude : ℤ) := by
  obtain ⟨negative, significand, exponent, stands, -⟩ := exists_of_eq_finite isExactly.finite
  have valueEq : (integral : ℚ) = (if negative then -1 else 1) * (significand * 2 ^ exponent) := by
    rw [← isExactly.value_eq, value, stands]
    rfl
  have nonneg : (0 : ℚ) ≤ significand * 2 ^ exponent := by positivity
  have digits : (significand * 2 ^ exponent : ℚ) =
      ((if negative then -1 else 1) * integral : ℤ) := by
    cases negative <;> simp [valueEq]
  rw [digits, Int.cast_nonneg_iff] at nonneg
  obtain ⟨magnitude, same⟩ := Int.eq_ofNat_of_zero_le nonneg
  refine ⟨negative, significand, exponent, magnitude, stands, by
    rw [digits, same, Int.cast_natCast], ?_⟩
  rw [← same]
  cases negative <;> simp

/-- Digits are worth as much in a lower place, with zeros behind them. -/
theorem mul_zpow_lower (significand : Nat) {place lower : Int} (isLower : lower ≤ place) :
    ((significand * 2 ^ (place - lower).toNat : Nat) * 2 ^ lower : ℚ) =
      significand * 2 ^ place := by
  push_cast
  rw [mul_assoc, ← zpow_natCast, ← zpow_add₀ two_ne_zero, Int.toNat_of_nonneg (by omega),
    Int.sub_add_cancel]

/-- The remainder of two numbers in the unit of both is that of the numbers. -/
theorem mod_mul_zpow {left right first second : Nat} {place : Int}
    (same : (left * 2 ^ place : ℚ) = first) (otherSame : (right * 2 ^ place : ℚ) = second) :
    ((left % right : Nat) * 2 ^ place : ℚ) = (first % second : Nat) := by
  have unit : (0 : ℚ) < 2 ^ place := by positivity
  -- the unit cancels out in the quotient
  have quotient : left / right = first / second := by
    rw [← Nat.floor_div_eq_div (K := ℚ), ← Nat.floor_div_eq_div (K := ℚ), ← same, ← otherSame,
      mul_div_mul_right _ _ unit.ne']
  have digits : ((right * (left / right) + left % right : Nat) : ℚ) = left := by
    rw [Nat.div_add_mod]
  have otherDigits : ((second * (first / second) + first % second : Nat) : ℚ) = first := by
    rw [Nat.div_add_mod]
  push_cast at digits otherDigits
  rw [quotient] at digits
  rw [← same, ← otherSame, ← digits] at otherDigits
  linear_combination -otherDigits

/-- The remainder of a signed number by a natural one has its sign. -/
theorem tmod_signed (negative : Bool) (first second : Nat) :
    ((if negative then -1 else 1) * (first : ℤ)).tmod second =
      (if negative then -1 else 1) * ((first % second : Nat) : ℤ) := by
  cases negative <;> simp [Int.neg_tmod, Int.tmod_eq_emod_of_nonneg]

/-- The remainder of an integer by a natural number with at most 53 digits is exact. -/
theorem isExactly_remainder (isExactly : IsExactly dividend integral)
    (divisorIsExactly : IsExactly divisor natural) (some : 0 < natural) (small : natural < 2 ^ 53) :
    IsExactly (remainder dividend divisor) (integral.tmod natural : ℤ) := by
  rw [← Int.cast_natCast] at divisorIsExactly
  obtain ⟨negative, left, leftPlace, magnitude, stands, worth, rfl⟩ := isExactly.exists_parts
  obtain ⟨otherNegative, right, rightPlace, _, otherStands, otherWorth, same⟩ :=
    divisorIsExactly.exists_parts
  obtain rfl : natural = _ := by
    cases otherNegative with
    | false => simpa using same
    | true =>
        -- a divisor above zero is not negative
        simp only [↓reduceIte, neg_one_mul] at same
        omega
  have notZero : right ≠ 0 := by
    rintro rfl
    rw [Nat.cast_zero, zero_mul] at otherWorth
    exact Nat.ne_of_gt some (by exact_mod_cast otherWorth.symm)
  -- both are divided in the lower one of their places
  have digits := mod_mul_zpow ((mul_zpow_lower left (min_le_left _ _)).trans worth)
    ((mul_zpow_lower right (min_le_right _ _)).trans otherWorth)
  have exactly := isExactly_nearest_of_eq negative digits ((Nat.mod_lt _ some).trans small)
  have made : remainder dividend divisor = Binary64.nearest negative
      (left * 2 ^ (leftPlace - min leftPlace rightPlace).toNat %
        (right * 2 ^ (rightPlace - min leftPlace rightPlace).toNat))
          (min leftPlace rightPlace) := by
    rw [remainder, stands, otherStands]
    exact if_neg notZero
  rw [made, tmod_signed, Int.cast_mul, Int.cast_natCast]
  convert exactly using 1
  cases negative <;> simp

end Remainder

/-! ## Words -/

section Words

variable {number : Float} {integral integer : ℤ}

/-- An integral double is made the word nearest to the integer. -/
theorem IsExactly.saturated_eq (isExactly : IsExactly number integral) :
    saturated number = Int64.ofIntClamp integral := by
  obtain ⟨_, _, _, stands, -⟩ := exists_of_eq_finite isExactly.finite
  rw [saturated, stands, ← isExactly.integer_eq]

/-- The lower half of a 64-bit word. -/
theorem toInt32_toUInt32 (word : Int64) : word.toUInt64.toUInt32.toInt32 = word.toInt32 := by
  refine Int32.toBitVec_inj.mp ?_
  show word.toUInt64.toUInt32.toBitVec = BitVec.signExtend 32 word.toBitVec
  rw [BitVec.signExtend_eq_setWidth_of_le _ (by omega)]
  exact BitVec.eq_of_toNat_eq (by simp)

/-- Remainders by `2 ^ 32` do not change the word of an integer. -/
theorem ofInt_tmod (integer : ℤ) : Int32.ofInt (integer.tmod 4294967296) = Int32.ofInt integer := by
  rw [← Int32.toInt_inj, Int32.toInt_ofInt, Int32.toInt_ofInt, Int.tmod_def]
  exact Int.sub_mul_bmod_self_left _ _ _

/-- A finite double is wrapped to the word of its integral part. -/
theorem wrapped_of_isFinite (finite : number.isFinite = true) :
    wrapped number = Int32.ofInt (truncated (value number)) := by
  have divisor : IsExactly 4294967296 (4294967296 : Nat) := isExactly_ofNat (by norm_num)
  have exactly :=
    isExactly_remainder (isExactly_rounded_towardZero finite) divisor (by norm_num) (by norm_num)
  -- the remainder is in the range of 64-bit words, however large the number is
  have low := Int.lt_tmod_of_pos (truncated (value number)) (show (0 : ℤ) < 4294967296 by norm_num)
  have high := Int.tmod_lt_of_pos (truncated (value number)) (show (0 : ℤ) < 4294967296 by norm_num)
  rw [wrapped, if_pos finite, toInt32_toUInt32, exactly.saturated_eq]
  exact (Int64.toInt32_ofIntClamp (by push_cast; omega) (by push_cast; omega)).trans (ofInt_tmod _)

/-- A double that is not finite is wrapped to zero. -/
theorem wrapped_of_not_isFinite (notFinite : number.isFinite = false) : wrapped number = 0 := by
  rw [wrapped, notFinite]
  rfl

/-- A double wraps to an integer in the range of 32-bit words: to zero if it is not finite, and else
to the one that differs from its integral part by a multiple of `2 ^ 32`. -/
structure WrapsTo (number : Float) (integer : ℤ) : Prop where
  /-- The integer is not below the least word. -/
  low : -2 ^ 31 ≤ integer
  /-- The integer is not above the greatest word. -/
  high : integer < 2 ^ 31
  /-- A double that is not finite wraps to zero. -/
  eq_zero : number.isFinite = false → integer = 0
  /-- A finite double wraps to its integral part modulo `2 ^ 32`. -/
  modEq : number.isFinite = true → integer ≡ truncated (value number) [ZMOD 2 ^ 32]

/-- A double wraps to the value of its word. -/
theorem wrapsTo_wrapped (number : Float) : WrapsTo number (wrapped number).toInt := by
  refine ⟨Int32.le_toInt _, Int32.toInt_lt _, fun notFinite => ?_, fun finite => ?_⟩
  · rw [wrapped_of_not_isFinite notFinite]
    rfl
  · rw [wrapped_of_isFinite finite, Int32.toInt_ofInt]
    exact Int.bmod_emod

/-- Integers in the range of 32-bit words that a double wraps to are the same. -/
theorem WrapsTo.unique (wraps : WrapsTo number integer) (otherWraps : WrapsTo number integral) :
    integer = integral := by
  cases finite : number.isFinite with
  | false => rw [wraps.eq_zero finite, otherWraps.eq_zero finite]
  | true =>
      -- integers in the range that differ by a multiple of its length are the same
      have same := (wraps.modEq finite).trans (otherWraps.modEq finite).symm
      have := wraps.low
      have := wraps.high
      have := otherWraps.low
      have := otherWraps.high
      unfold Int.ModEq at same
      omega

/-- **A double wraps to just one integer, and that is the value of its word.** -/
theorem wrapsTo_iff : WrapsTo number integer ↔ integer = (wrapped number).toInt := by
  constructor
  · intro wraps
    exact wraps.unique (wrapsTo_wrapped number)
  · rintro rfl
    exact wrapsTo_wrapped number

end Words

end Number

end LineRobot
