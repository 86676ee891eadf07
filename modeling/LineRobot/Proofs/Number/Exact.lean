import LineRobot.Proofs.Number.Nearest

/-! # Doubles with exact values

An integer with at most 53 digits is a double without rounding (`Number.isExactly_ofNat`,
`Number.isExactly_ofInt`, `Number.isExactly_nearest`). So is each double that is cut to an integer,
downwards or upwards (`Number.isExactly_rounded_down`, `Number.isExactly_rounded_up`). -/

namespace LineRobot

open Float.Model (UnpackedFloat Format totalExponent)
open Float.Model.UnpackedFloat (Sign)

namespace Number

variable {sign : Sign} {significand : Nat} {exponent : Int}

/-! ## Exact values -/

/-- The double is finite and has just the given value. -/
structure IsExactly (number : Float) (exact : ℚ) : Prop where
  /-- The double is finite. -/
  finite : number.isFinite = true
  /-- The value is the given one. -/
  value_eq : value number = exact

section IsExactly

variable {first second : Float} {exact other : ℚ}

/-- Finite doubles are in the order of their values. -/
theorem IsExactly.lt_iff (isExactly : IsExactly first exact)
    (otherIsExactly : IsExactly second other) :
    first < second ↔ exact < other := by
  rw [lt_iff_value_lt isExactly.finite otherIsExactly.finite, isExactly.value_eq,
    otherIsExactly.value_eq]

/-- Finite doubles are in the order of their values. -/
theorem IsExactly.le_iff (isExactly : IsExactly first exact)
    (otherIsExactly : IsExactly second other) :
    first ≤ second ↔ exact ≤ other := by
  rw [le_iff_value_le isExactly.finite otherIsExactly.finite, isExactly.value_eq,
    otherIsExactly.value_eq]

/-- The double that canonical parts are packed to. -/
theorem isExactly_pack (canonical : IsCanonical significand exponent) :
    IsExactly (.ofModel (.pack (.finite sign significand exponent canonical.positive)))
      ((if Binary64.isNegative sign then -1 else 1) * (significand * 2 ^ exponent)) := by
  have unpacked :
      (Float.Model.pack (.finite sign significand exponent canonical.positive)).unpack = _ :=
    unpack_pack_finite canonical
  refine ⟨?_, value_of_unpack unpacked⟩
  show (Float.Model.pack _).unpack.isFinite = true
  rw [unpacked]
  rfl

/-- A zero has the value zero. -/
theorem isExactly_pack_zero (sign : Sign) : IsExactly (.ofModel (.pack (.zero sign))) 0 := by
  have unpacked := unpack_pack_zero sign
  refine ⟨?_, value_of_unpack_zero unpacked⟩
  show (Float.Model.pack _).unpack.isFinite = true
  rw [unpacked]
  rfl

end IsExactly

/-! ## Natural numbers -/

/-- Each natural number with at most 53 digits has canonical parts. -/
theorem exists_isCanonical {natural : Nat} (some : 0 < natural) (small : natural < 2 ^ 53) :
    ∃ significand exponent, IsCanonical significand exponent ∧
      (significand * 2 ^ exponent : ℚ) = natural := by
  have notZero := Nat.ne_of_gt some
  have digits : natural.log2 ≤ 52 := Nat.le_of_lt_succ ((Nat.log2_lt notZero).mpr small)
  -- the number is shifted up until its first digit is the one of a normal significand
  obtain ⟨places, count⟩ := Nat.exists_eq_add_of_le digits
  have log2 : (natural * 2 ^ places).log2 = 52 := by rw [log2_mul_two_pow notZero, ← count]
  have bounds :=
    (Nat.log2_eq_iff (Nat.mul_ne_zero notZero (Nat.ne_of_gt (Nat.two_pow_pos places)))).mp log2
  refine ⟨natural * 2 ^ places, -places, ⟨?_, bounds.2, ?_, ?_, .inl bounds.1⟩, ?_⟩
  · exact Nat.mul_pos some (Nat.two_pow_pos places)
  · omega
  · omega
  · rw [zpow_neg, zpow_natCast]
    push_cast
    field_simp

/-- Digits with the value of a natural number with at most 53 digits are not rounded. -/
theorem isExactly_nearest_of_eq (negative : Bool) {mantissa natural : Nat} {place : Int}
    (same : (mantissa * 2 ^ place : ℚ) = natural) (small : natural < 2 ^ 53) :
    IsExactly (Binary64.nearest negative mantissa place)
      ((if negative then -1 else 1) * natural) := by
  have unit : (2 ^ place : ℚ) ≠ 0 := by positivity
  rcases Nat.eq_zero_or_pos natural with rfl | some
  · obtain rfl : mantissa = 0 := by simpa [unit] using same
    rw [Binary64.nearest, round_zero, Nat.cast_zero, mul_zero]
    exact isExactly_pack_zero _
  · obtain ⟨significand, exponent, canonical, exactly⟩ := exists_isCanonical some small
    have notZero : mantissa ≠ 0 := by
      rintro rfl
      rw [Nat.cast_zero, zero_mul] at same
      exact Nat.ne_of_gt some (by exact_mod_cast same.symm)
    have rounds : RoundsTo significand exponent (mantissa * 2 ^ place) := by
      rw [same, ← exactly]
      exact roundsTo_self _ _
    rw [Binary64.nearest, round_eq canonical notZero rounds, ← exactly]
    cases negative
    · exact isExactly_pack canonical
    · exact isExactly_pack canonical

/-- The double nearest to a natural number with at most 53 digits is exact. -/
theorem isExactly_nearest (negative : Bool) {natural : Nat} (small : natural < 2 ^ 53) :
    IsExactly (Binary64.nearest negative natural 0) ((if negative then -1 else 1) * natural) :=
  isExactly_nearest_of_eq negative (by rw [zpow_zero, mul_one]) small

/-- The double of a word with at most 53 digits has their canonical parts. -/
theorem toFloat_toUInt64 {natural : Nat} (some : 0 < natural) (small : natural < 2 ^ 53)
    (canonical : IsCanonical significand exponent)
    (same : (significand * 2 ^ exponent : ℚ) = natural) :
    natural.toUInt64.toFloat =
      .ofModel (.pack (.finite .positive significand exponent canonical.positive)) := by
  have word : natural.toUInt64.toNat = natural := by
    rw [Nat.toUInt64_eq, UInt64.toNat_ofNat']
    omega
  have rounds : RoundsTo significand exponent (natural * 2 ^ (0 : Int)) := by
    rw [zpow_zero, mul_one, ← same]
    exact roundsTo_self _ _
  have normalized : UnpackedFloat.normalize .binary64 natural 0 .positive =
      UnpackedFloat.round .binary64 .positive natural 0 := by
    rw [UnpackedFloat.normalize, compare_gt_iff_gt.mpr (by exact_mod_cast some)]
    rfl
  have made : natural.toUInt64.toFloat =
      .ofModel (.pack (UnpackedFloat.normalize .binary64 natural.toUInt64.toNat 0 .positive)) := rfl
  rw [made, word, normalized, round_eq canonical (Nat.ne_of_gt some) rounds]

/-- A double is multiplied by one without a loss. -/
theorem mul_one_eq (canonical : IsCanonical significand exponent) {positive : 0 < 2 ^ 52} :
    UnpackedFloat.mul .binary64 (.finite .positive significand exponent canonical.positive)
        (.finite .positive (2 ^ 52) (-52) positive) =
      .finite .positive significand exponent canonical.positive := by
  have notZero := Nat.ne_of_gt canonical.positive
  refine roundWithAccuracy_eq canonical (significand * 2 ^ exponent) ?_ ?_ (roundsTo_self _ _)
  · have same : (significand * 2 ^ exponent / 2 ^ (exponent + -52) : ℚ) =
        (significand * 2 ^ 52 : Nat) := by
      rw [zpow_add₀ two_ne_zero, zpow_neg]
      push_cast
      field_simp
    rw [same]
    exact represents_exact _
  · rw [targetExponent_eq, totalExponent, log2_mul_two_pow notZero]
    omega

/-- The double of a natural number with at most 53 digits is exact. -/
theorem isExactly_ofNat {natural : Nat} (small : natural < 2 ^ 53) :
    IsExactly (Float.ofNat natural) natural := by
  -- a number with few digits is converted as a word, and then scaled by one
  have fast : Float.ofNat natural =
      natural.toUInt64.toFloat * Float.exactlyRepresentablePowersOfTen[0] :=
    dif_pos ⟨small, Nat.zero_le 22⟩
  rcases Nat.eq_zero_or_pos natural with rfl | some
  · exact isExactly_pack_zero .positive
  · obtain ⟨significand, exponent, canonical, same⟩ := exists_isCanonical some small
    have product : natural.toUInt64.toFloat * Float.exactlyRepresentablePowersOfTen[0] =
        .ofModel (.pack (.mul .binary64 natural.toUInt64.toFloat.toModel.unpack
          (.finite .positive (2 ^ 52) (-52) (Nat.two_pow_pos 52)))) := rfl
    rw [fast, product, toFloat_toUInt64 some small canonical same, unpack_pack_finite canonical,
      mul_one_eq canonical, ← same]
    have packed :
        IsExactly
          (.ofModel (.pack (.finite .positive significand exponent canonical.positive))) _ :=
      isExactly_pack canonical
    simpa [Binary64.isNegative] using packed

/-! ## Negative numbers -/

/-- The negative double has the negative value. -/
theorem IsExactly.neg {number : Float} {exact : ℚ} (isExactly : IsExactly number exact) :
    IsExactly (-number) (-exact) := by
  have made : -number = .ofModel (.pack number.toModel.unpack.neg) := rfl
  rcases unpack_of_isFinite isExactly.finite with
    ⟨sign, unpacked⟩ | ⟨sign, significand, exponent, positive, unpacked⟩
  · have zero : exact = 0 := isExactly.value_eq.symm.trans (value_of_unpack_zero unpacked)
    rw [made, unpacked, zero, neg_zero]
    exact isExactly_pack_zero (-sign)
  · have signed : Binary64.isNegative (-sign) = !Binary64.isNegative sign := by cases sign <;> rfl
    have exactly : IsExactly (-number)
        ((if Binary64.isNegative (-sign) then -1 else 1) * (significand * 2 ^ exponent)) := by
      rw [made, unpacked]
      exact isExactly_pack (isCanonical_of_unpack unpacked)
    rw [← isExactly.value_eq, value_of_unpack unpacked]
    convert exactly using 1
    rw [signed]
    cases Binary64.isNegative sign <;> simp

/-- An integer with at most 53 digits is a double without rounding. -/
theorem isExactly_ofInt {integer : ℤ} (small : integer.natAbs < 2 ^ 53) :
    IsExactly (Float.ofInt integer) integer := by
  cases integer with
  | ofNat natural => exact isExactly_ofNat small
  | negSucc natural =>
      have exactly : IsExactly (-Float.ofNat (natural + 1)) (-(natural + 1 : Nat)) :=
        (isExactly_ofNat small).neg
      rw [Int.cast_negSucc]
      exact exactly

/-! ## Integers -/

section Integers

variable {number : Float}

/-- What a finite double stands for. -/
theorem exists_of_eq_finite (finite : number.isFinite = true) :
    ∃ negative significand exponent, Binary64.of number = .finite negative significand exponent ∧
      significand < 2 ^ 53 := by
  rcases unpack_of_isFinite finite with ⟨sign, unpacked⟩ |
    ⟨sign, significand, exponent, positive, unpacked⟩
  · exact ⟨Binary64.isNegative sign, 0, 0, by rw [Binary64.of, unpacked], Nat.two_pow_pos 53⟩
  · exact ⟨Binary64.isNegative sign, significand, exponent, by rw [Binary64.of, unpacked],
      (isCanonical_of_unpack unpacked).small⟩

/-- A value with binary places below the unit is a quotient. -/
theorem mul_zpow_negSucc (significand places : Nat) :
    (significand * 2 ^ Int.negSucc places : ℚ) = significand / (2 ^ (places + 1) : Nat) := by
  rw [zpow_negSucc]
  push_cast
  rfl

/-- The integer below a quotient leaves out its part. -/
theorem floor_div (significand places : Nat) :
    ⌊(significand / (2 ^ places : Nat) : ℚ)⌋ = (significand / 2 ^ places : Nat) := by
  rw [← Int.natCast_floor_eq_floor (by positivity), Nat.floor_div_eq_div]

/-- The integer above a quotient is the next one if there is a part to leave out. -/
theorem ceil_div (significand places : Nat) :
    ⌈(significand / (2 ^ places : Nat) : ℚ)⌉ =
      (if significand % 2 ^ places = 0 then significand / 2 ^ places
        else significand / 2 ^ places + 1 : Nat) := by
  have unit : (0 : ℚ) < (2 ^ places : Nat) := by positivity
  have digits := Nat.div_add_mod significand (2 ^ places)
  split
  case isTrue none =>
    rw [none, Nat.add_zero] at digits
    have whole : (significand / (2 ^ places : Nat) : ℚ) = (significand / 2 ^ places : Nat) := by
      rw [div_eq_iff unit.ne', mul_comm]
      exact_mod_cast digits.symm
    rw [whole, Int.ceil_natCast]
  case isFalse some =>
    have small := Nat.mod_lt significand (Nat.two_pow_pos places)
    rw [Int.ceil_eq_iff, lt_div_iff₀ unit, div_le_iff₀ unit]
    constructor
    · push_cast
      rw [add_sub_cancel_right]
      have : significand / 2 ^ places * 2 ^ places < significand := by
        rw [Nat.mul_comm]
        omega
      exact_mod_cast this
    · have : significand ≤ (significand / 2 ^ places + 1) * 2 ^ places := by
        rw [Nat.add_mul, Nat.mul_comm, Nat.one_mul]
        omega
      exact_mod_cast this

/-- Cutting downwards gives the integer below. -/
theorem floor_eq_magnitude (negative : Bool) (significand places : Nat) :
    ⌊((if negative then -1 else 1) * (significand / (2 ^ places : Nat)) : ℚ)⌋ =
      (if negative then -1 else 1) * (Rounding.down.magnitude negative significand places : ℤ) := by
  cases negative with
  | false =>
      simp only [Bool.false_eq_true, ↓reduceIte, one_mul, floor_div, Rounding.magnitude,
        Bool.false_and, Nat.pow_eq]
  | true =>
      simp only [↓reduceIte, neg_one_mul, Int.floor_neg, ceil_div,
        Rounding.magnitude, Bool.true_and, Nat.pow_eq, bne_iff_ne, ite_not]

/-- Cutting upwards gives the integer above. -/
theorem ceil_eq_magnitude (negative : Bool) (significand places : Nat) :
    ⌈((if negative then -1 else 1) * (significand / (2 ^ places : Nat)) : ℚ)⌉ =
      (if negative then -1 else 1) * (Rounding.up.magnitude negative significand places : ℤ) := by
  cases negative with
  | true =>
      simp only [↓reduceIte, neg_one_mul, Int.ceil_neg, floor_div,
        Rounding.magnitude, Bool.not_true, Bool.false_and, Bool.false_eq_true, Nat.pow_eq]
  | false =>
      simp only [Bool.false_eq_true, ↓reduceIte, one_mul, ceil_div, Rounding.magnitude,
        Bool.not_false, Bool.true_and, Nat.pow_eq, bne_iff_ne, ite_not]

/-- Cutting halves a significand at least. -/
theorem magnitude_lt (direction : Rounding) (negative : Bool) {significand places : Nat}
    (small : significand < 2 ^ 53) (some : 0 < places) :
    direction.magnitude negative significand places < 2 ^ 53 := by
  have two : 2 ^ 1 ≤ 2 ^ places := Nat.pow_le_pow_right Nat.two_pos some
  have halved : significand / 2 ^ places ≤ significand / 2 := Nat.div_le_div_left two Nat.two_pos
  -- the part that is cut off adds one at most, for which there is room behind the halving
  unfold Rounding.magnitude
  extract_lets whole part away
  have wholeLe : whole ≤ significand / 2 := halved
  cases away
  · show whole < 2 ^ 53
    omega
  · show whole + 1 < 2 ^ 53
    omega

/-- A double is cut to an integer without rounding, if cutting its digits gives that integer. -/
theorem isExactly_rounded (direction : Rounding) (integral : ℚ → ℤ)
    (finite : number.isFinite = true) (fixes : ∀ integer : ℤ, integral integer = integer)
    (cuts : ∀ (negative : Bool) (significand places : Nat),
      integral ((if negative then -1 else 1) * (significand / (2 ^ places : Nat))) =
        (if negative then -1 else 1) * (direction.magnitude negative significand places : ℤ)) :
    IsExactly (rounded direction number) (integral (value number)) := by
  obtain ⟨negative, significand, exponent, stands, small⟩ := exists_of_eq_finite finite
  have valueEq : value number = (if negative then -1 else 1) * (significand * 2 ^ exponent) := by
    rw [value, stands]
    rfl
  -- without binary places behind the point there is nothing to cut
  cases exponent with
  | ofNat places =>
      have same : rounded direction number = number := by rw [rounded, stands]
      have whole :
          value number = (((if negative then -1 else 1) * (significand * 2 ^ places) : ℤ) : ℚ) := by
        rw [valueEq]
        cases negative <;> simp
      rw [same]
      refine ⟨finite, ?_⟩
      rw [whole, fixes]
  | negSucc places =>
      have cut : rounded direction number =
          Binary64.nearest negative (direction.magnitude negative significand (places + 1)) 0 := by
        rw [rounded, stands]
      have exactly := isExactly_nearest negative
        (magnitude_lt direction negative small (Nat.succ_pos places))
      rw [cut, valueEq, mul_zpow_negSucc, cuts]
      convert exactly using 1
      cases negative <;> simp

/-- A finite double is cut downwards to the integer below its value. -/
theorem isExactly_rounded_down (finite : number.isFinite = true) :
    IsExactly (rounded .down number) ⌊value number⌋ :=
  isExactly_rounded .down Int.floor finite Int.floor_intCast floor_eq_magnitude

/-- A finite double is cut upwards to the integer above its value. -/
theorem isExactly_rounded_up (finite : number.isFinite = true) :
    IsExactly (rounded .up number) ⌈value number⌉ :=
  isExactly_rounded .up Int.ceil finite Int.ceil_intCast ceil_eq_magnitude

/-- An integral double is cut to its value. -/
theorem IsExactly.integer_eq {integral : ℤ} (isExactly : IsExactly number integral) :
    integer .towardZero number = integral := by
  obtain ⟨finite, valueEq⟩ := isExactly
  obtain ⟨negative, significand, exponent, stands, small⟩ := exists_of_eq_finite finite
  rw [value, stands, Binary64.value] at valueEq
  rw [integer, stands]
  cases exponent with
  | ofNat places =>
      have whole : (((if negative then -1 else 1) * (significand * 2 ^ places) : ℤ) : ℚ) =
          integral := by
        rw [← valueEq]
        cases negative <;> simp
      have same := Int.cast_injective whole
      rw [← same]
      cases negative <;> simp
  | negSucc places =>
      rw [mul_zpow_negSucc] at valueEq
      have cut := floor_div significand (places + 1)
      cases negative with
      | false =>
          have whole : (significand / (2 ^ (places + 1) : Nat) : ℚ) = integral := by
            simpa using valueEq
          rw [whole, Int.floor_intCast] at cut
          simpa [Rounding.magnitude] using cut.symm
      | true =>
          have whole : (significand / (2 ^ (places + 1) : Nat) : ℚ) = (-integral : ℤ) := by
            rw [Int.cast_neg, ← valueEq]
            simp
          rw [whole, Int.floor_intCast] at cut
          simp [Rounding.magnitude, ← cut]

end Integers

/-! ## Doubles that are not finite -/

section NotFinite

variable {number other : Float}

/-- A double is finite, infinite or no number. -/
theorem isFinite_or (number : Float) :
    number.isFinite = true ∨ (∃ sign, number.toModel.unpack = .infinity sign) ∨
      number.toModel.unpack = .notANumber := by
  show number.toModel.unpack.isFinite = true ∨ _
  cases number.toModel.unpack with
  | notANumber => exact .inr (.inr rfl)
  | infinity sign => exact .inr (.inl ⟨sign, rfl⟩)
  | zero | finite => exact .inl rfl

/-- What is no number is unpacked to that. -/
theorem isNaN_iff : number.isNaN = true ↔ number.toModel.unpack = .notANumber := by
  show number.toModel.unpack.isNaN = true ↔ _
  cases number.toModel.unpack <;> simp [UnpackedFloat.isNaN]

/-- A finite double is a number. -/
theorem isNaN_of_isFinite (finite : number.isFinite = true) : number.isNaN = false := by
  have isFinite : number.toModel.unpack.isFinite = true := finite
  show number.toModel.unpack.isNaN = false
  cases unpacked : number.toModel.unpack with
  | notANumber =>
      rw [unpacked] at isFinite
      cases isFinite
  | infinity | zero | finite => rfl

/-- An infinity is a number. -/
theorem isNaN_of_infinity (infinite : number.toModel.unpack = .infinity sign) :
    number.isNaN = false := by
  show number.toModel.unpack.isNaN = false
  rw [infinite]
  rfl

/-- A number equals itself. -/
theorem beq_self (isNumber : number.isNaN = false) : (number == number) = true := by
  show (number.toModel.unpack.compare number.toModel.unpack == some .eq) = true
  rcases isFinite_or number with finite | ⟨sign, infinite⟩ | none
  · rw [compare_eq finite finite, compare_eq_iff_eq.mpr rfl]
    rfl
  · rw [infinite]
    cases sign <;> rfl
  · rw [isNaN_iff.mpr none] at isNumber
    cases isNumber

/-- An infinity is compared with a finite double by its sign. -/
theorem compare_infinity_left (infinite : number.toModel.unpack = .infinity sign)
    (finite : other.isFinite = true) :
    number.toModel.unpack.compare other.toModel.unpack =
      some (if Binary64.isNegative sign then .lt else .gt) := by
  rw [infinite]
  rcases unpack_of_isFinite finite with ⟨_, shape⟩ | ⟨_, _, _, _, shape⟩ <;>
    rw [shape] <;> cases sign <;> rfl

/-- A finite double is compared with an infinity by the sign of that. -/
theorem compare_infinity_right (finite : number.isFinite = true)
    (infinite : other.toModel.unpack = .infinity sign) :
    number.toModel.unpack.compare other.toModel.unpack =
      some (if Binary64.isNegative sign then .gt else .lt) := by
  rw [infinite]
  rcases unpack_of_isFinite finite with ⟨_, shape⟩ | ⟨_, _, _, _, shape⟩ <;>
    rw [shape] <;> cases sign <;> rfl

/-- What is no number is in no order with others. -/
theorem compare_of_isNaN (none : number.isNaN = true ∨ other.isNaN = true) :
    number.toModel.unpack.compare other.toModel.unpack = Option.none := by
  rw [isNaN_iff, isNaN_iff] at none
  rcases none with none | none <;> rw [none]
  · rfl
  · cases number.toModel.unpack <;> rfl

/-- A double that is not finite is not cut. -/
theorem rounded_of_not_isFinite (direction : Rounding) (notFinite : number.isFinite = false) :
    rounded direction number = number := by
  have isFinite : number.toModel.unpack.isFinite = false := notFinite
  rw [rounded, Binary64.of]
  cases unpacked : number.toModel.unpack with
  | notANumber | infinity => rfl
  | zero | finite => cases isFinite.symm.trans (congrArg UnpackedFloat.isFinite unpacked)

/-- Between numbers, what is not above is below. -/
theorem not_le_iff_lt (isNumber : number.isNaN = false) (otherIsNumber : other.isNaN = false) :
    ¬ number ≤ other ↔ other < number := by
  rcases isFinite_or number with finite | ⟨sign, infinite⟩ | none
  · rcases isFinite_or other with otherFinite | ⟨sign, infinite⟩ | none
    · rw [le_iff_value_le finite otherFinite, lt_iff_value_lt otherFinite finite, not_le]
    · rw [le_iff_compare, lt_iff_compare, compare_infinity_left infinite finite,
        compare_infinity_right finite infinite]
      cases sign <;> decide
    · rw [isNaN_iff.mpr none] at otherIsNumber
      cases otherIsNumber
  · rcases isFinite_or other with otherFinite | ⟨otherSign, otherInfinite⟩ | none
    · rw [le_iff_compare, lt_iff_compare, compare_infinity_left infinite otherFinite,
        compare_infinity_right otherFinite infinite]
      cases sign <;> decide
    · rw [le_iff_compare, lt_iff_compare, infinite, otherInfinite]
      cases sign <;> cases otherSign <;> decide
    · rw [isNaN_iff.mpr none] at otherIsNumber
      cases otherIsNumber
  · rw [isNaN_iff.mpr none] at isNumber
    cases isNumber

/-- A sum that is a number has a first summand that is one. -/
theorem isNaN_of_add (isNumber : (number + other).isNaN = false) : number.isNaN = false := by
  by_contra none
  rw [Bool.not_eq_false, isNaN_iff] at none
  have sum : (number + other).toModel.unpack =
      (Float.Model.pack (.add .binary64 number.toModel.unpack other.toModel.unpack)).unpack := rfl
  have absorbed : (Float.Model.pack .notANumber).unpack = .notANumber := rfl
  rw [none, UnpackedFloat.add, absorbed] at sum
  exact Bool.false_ne_true (isNumber.symm.trans (isNaN_iff.mpr sum))

end NotFinite

/-! ## The larger and the smaller of two doubles -/

section Larger

variable {first second : Float} {exact other : ℚ}

/-- A double that is no number is passed over for the larger one. -/
theorem larger_of_isNaN (none : first.isNaN = true) : larger first second = second :=
  if_pos none

/-- A double that is no number is passed over for the smaller one. -/
theorem smaller_of_isNaN (none : first.isNaN = true) : smaller first second = second :=
  if_pos none

/-- The larger of two doubles that are numbers. -/
theorem larger_of_number (isNumber : first.isNaN = false) (otherIsNumber : second.isNaN = false) :
    larger first second = if first < second then second else first := by
  rw [larger, isNumber, otherIsNumber]
  rfl

/-- The smaller of two doubles that are numbers. -/
theorem smaller_of_number (isNumber : first.isNaN = false) (otherIsNumber : second.isNaN = false) :
    smaller first second = if second < first then second else first := by
  rw [smaller, isNumber, otherIsNumber]
  rfl

/-- The larger of two finite doubles has the larger value. -/
theorem IsExactly.larger (isExactly : IsExactly first exact)
    (otherIsExactly : IsExactly second other) :
    IsExactly (larger first second) (max exact other) := by
  rw [larger_of_number (isNaN_of_isFinite isExactly.finite)
    (isNaN_of_isFinite otherIsExactly.finite)]
  split
  case isTrue less =>
    rw [max_eq_right ((isExactly.lt_iff otherIsExactly).mp less).le]
    exact otherIsExactly
  case isFalse notLess =>
    rw [isExactly.lt_iff otherIsExactly, not_lt] at notLess
    rw [max_eq_left notLess]
    exact isExactly

/-- The smaller of two finite doubles has the smaller value. -/
theorem IsExactly.smaller (isExactly : IsExactly first exact)
    (otherIsExactly : IsExactly second other) :
    IsExactly (smaller first second) (min exact other) := by
  rw [smaller_of_number (isNaN_of_isFinite isExactly.finite)
    (isNaN_of_isFinite otherIsExactly.finite)]
  split
  case isTrue less =>
    rw [min_eq_right ((otherIsExactly.lt_iff isExactly).mp less).le]
    exact otherIsExactly
  case isFalse notLess =>
    rw [otherIsExactly.lt_iff isExactly, not_lt] at notLess
    rw [min_eq_left notLess]
    exact isExactly

/-- Of an infinity and a finite double, the larger one is the infinity if it is positive. -/
theorem larger_infinity (infinite : first.toModel.unpack = .infinity sign)
    (finite : second.isFinite = true) :
    larger first second = if Binary64.isNegative sign then second else first := by
  rw [larger_of_number (isNaN_of_infinity infinite) (isNaN_of_isFinite finite)]
  refine if_congr ?_ rfl rfl
  rw [lt_iff_compare, compare_infinity_left infinite finite]
  cases sign <;> simp [Binary64.isNegative]

/-- Of an infinity and a finite double, the smaller one is the infinity if it is negative. -/
theorem smaller_infinity (infinite : first.toModel.unpack = .infinity sign)
    (finite : second.isFinite = true) :
    smaller first second = if Binary64.isNegative sign then first else second := by
  rw [smaller_of_number (isNaN_of_infinity infinite) (isNaN_of_isFinite finite)]
  have less : second < first ↔ ¬ Binary64.isNegative sign = true := by
    rw [lt_iff_compare, compare_infinity_right finite infinite]
    cases sign <;> simp [Binary64.isNegative]
  cases negative : Binary64.isNegative sign with
  | true => rw [if_neg fun isLess => less.mp isLess negative, if_pos rfl]
  | false =>
      rw [if_pos (less.mpr (by rw [negative]; exact Bool.false_ne_true)), if_neg Bool.false_ne_true]

end Larger

end Number

end LineRobot
