import LineRobot.Proofs.Number.Canonical

/-! # Rounding to the nearest double

Arithmetic on doubles ends with `roundWithAccuracy`: of an exact result it is given the integral
part in some binary place, and how what is left compares with half a unit of that place. This is
enough to round in any higher place (`Number.Represents`), so the result is the double whose
interval the exact number lies in (`Number.roundWithAccuracy_eq`). The interval of a double reaches
half a unit of its last place to either side, or below it a quarter, if it is the least of its
binade; the ends belong to it if its significand is even (`Number.RoundsTo`).

Exact numbers are rounded by `round` (`Number.round_eq`). -/

namespace LineRobot

open Float.Model (UnpackedFloat Format totalExponent)
open Float.Model.UnpackedFloat (Sign Accuracy ExtendedMantissa shiftToExponent shiftToTargetExponent
  roundWithAccuracy decreaseExponent accuracyOfFraction divCore)

namespace Number

/-! ## Residual bits -/

/-- A mantissa with its residual bits stands for a number: it is the integral part, the first bit is
the next binary digit, and the second one says whether there are others. -/
structure Represents (extended : ExtendedMantissa) (number : ℚ) : Prop where
  /-- The digits kept do not exceed the number. -/
  le : 2 * extended.mantissa + extended.roundBit.toNat ≤ 2 * number
  /-- The digits dropped are worth less than a unit of the last digit kept. -/
  lt : 2 * number < 2 * extended.mantissa + extended.roundBit.toNat + 1
  /-- There are no others if the digits kept are the number. -/
  sticky : extended.stickyBit = false ↔ 2 * number = 2 * extended.mantissa + extended.roundBit.toNat

/-- A natural number is one of those nearest to the given number; of two nearest ones it is the even
one. -/
def IsNearest (whole : Nat) (number : ℚ) : Prop :=
  (2 * whole - 1 ≤ 2 * number ∧ 2 * number ≤ 2 * whole + 1) ∧
    (whole % 2 = 0 ∨ 2 * whole - 1 < 2 * number ∧ 2 * number < 2 * whole + 1)

variable {extended : ExtendedMantissa} {number : ℚ}

/-- A mantissa without residual bits stands for itself. -/
theorem represents_exact (mantissa : Nat) :
    Represents (.ofMantissaAndAccuracy mantissa .exact) mantissa := by
  refine ⟨?_, ?_, ?_⟩ <;> simp [ExtendedMantissa.ofMantissaAndAccuracy]

/-- Shifting by one place halves the number. -/
theorem Represents.shiftRightOne (represents : Represents extended number) :
    Represents extended.shiftRightOne (number / 2) := by
  obtain ⟨mantissa, roundBit, stickyBit⟩ := extended
  obtain ⟨le, lt, sticky⟩ := represents
  have digits : (mantissa : ℚ) = 2 * (mantissa / 2 : Nat) + (mantissa % 2 : Nat) := by
    exact_mod_cast (Nat.div_add_mod mantissa 2).symm
  have last : (mantissa % 2 != 0).toNat = mantissa % 2 := by
    rcases Nat.mod_two_eq_zero_or_one mantissa with even | odd
    · rw [even]; rfl
    · rw [odd]; rfl
  have bit : (0 : ℚ) ≤ roundBit.toNat ∧ (roundBit.toNat : ℚ) ≤ 1 := by cases roundBit <;> simp
  dsimp only at le lt sticky
  refine ⟨?_, ?_, ?_⟩ <;> simp only [ExtendedMantissa.shiftRightOne, last]
  · linarith
  · linarith
  · -- nothing is dropped if neither bit is set
    rw [Bool.or_eq_false_iff, sticky]
    cases roundBit with
    | false =>
        simp only [Bool.toNat_false, Nat.cast_zero, true_and] at le ⊢
        constructor <;> intro same <;> linarith
    | true =>
        simp only [Bool.toNat_true, Nat.cast_one] at le ⊢
        constructor
        · rintro ⟨impossible, -⟩
          cases impossible
        · intro same
          linarith

/-- Shifting divides the number by a power of two. -/
theorem Represents.shiftRight (represents : Represents extended number) (places : Nat) :
    Represents (extended >>> places) (number / 2 ^ places) := by
  show Represents (places.repeat ExtendedMantissa.shiftRightOne extended) _
  induction places with
  | zero => simpa [Nat.repeat] using represents
  | succ places ih =>
      rw [Nat.repeat, pow_succ, ← div_div]
      exact ih.shiftRightOne

/-- The mantissa is the integral part. -/
theorem Represents.mantissa_le (represents : Represents extended number) :
    extended.mantissa ≤ number := by
  have bit : (0 : ℚ) ≤ extended.roundBit.toNat := by positivity
  linarith [represents.le]

/-- The mantissa is the integral part. -/
theorem Represents.lt_mantissa_add_one (represents : Represents extended number) :
    number < extended.mantissa + 1 := by
  have bit : (extended.roundBit.toNat : ℚ) ≤ 1 := by cases extended.roundBit <;> simp
  linarith [represents.lt]

/-- A sticky bit stands for something beyond the round bit. -/
theorem Represents.lt_of_stickyBit (represents : Represents extended number)
    (sticky : extended.stickyBit = true) :
    2 * (extended.mantissa : ℚ) + extended.roundBit.toNat < 2 * number := by
  refine lt_of_le_of_ne represents.le fun same => ?_
  rw [represents.sticky.mpr same.symm] at sticky
  cases sticky

/-- The rounded mantissa is the nearest natural number. -/
theorem Represents.roundedMantissa_eq (represents : Represents extended number) {whole : Nat}
    (nearest : IsNearest whole number) : extended.roundedMantissa = whole := by
  have beyond := represents.lt_of_stickyBit
  obtain ⟨mantissa, roundBit, stickyBit⟩ := extended
  obtain ⟨le, lt, sticky⟩ := represents
  obtain ⟨⟨low, high⟩, parity⟩ := nearest
  dsimp only at le lt sticky beyond
  -- only with the round bit and without the sticky bit does the parity decide
  cases roundBit <;> cases stickyBit <;> simp at le lt sticky beyond
  case false.false =>
    have below : 2 * whole < 2 * mantissa + 2 := by
      have : (2 * whole : ℚ) < 2 * mantissa + 2 := by linarith
      exact_mod_cast this
    have above : 2 * mantissa < 2 * whole + 2 := by
      have : (2 * mantissa : ℚ) < 2 * whole + 2 := by linarith
      exact_mod_cast this
    show mantissa = whole
    omega
  case false.true =>
    have below : 2 * whole < 2 * mantissa + 2 := by
      have : (2 * whole : ℚ) < 2 * mantissa + 2 := by linarith
      exact_mod_cast this
    have above : 2 * mantissa < 2 * whole + 1 := by
      have : (2 * mantissa : ℚ) < 2 * whole + 1 := by linarith
      exact_mod_cast this
    show mantissa = whole
    omega
  case true.false =>
    have near : whole = mantissa ∨ whole = mantissa + 1 := by
      have below : 2 * whole ≤ 2 * mantissa + 2 := by
        have : (2 * whole : ℚ) ≤ 2 * mantissa + 2 := by linarith
        exact_mod_cast this
      have above : 2 * mantissa + 1 ≤ 2 * whole + 1 := by
        have : (2 * mantissa + 1 : ℚ) ≤ 2 * whole + 1 := by linarith
        exact_mod_cast this
      omega
    show mantissa + mantissa % 2 = whole
    rcases parity with even | ⟨strictLow, strictHigh⟩
    · omega
    · -- a number halfway between two natural numbers is not nearer to one of them
      rcases near with rfl | rfl
      · linarith
      · push_cast at strictLow
        linarith
  case true.true =>
    have below : 2 * whole < 2 * mantissa + 3 := by
      have : (2 * whole : ℚ) < 2 * mantissa + 3 := by linarith
      exact_mod_cast this
    have above : 2 * mantissa + 1 < 2 * whole + 1 := by
      have : (2 * mantissa + 1 : ℚ) < 2 * whole + 1 := by linarith
      exact_mod_cast this
    show mantissa + 1 = whole
    omega

/-! ## The interval of a double -/

/-- How far the numbers that are rounded to a double reach below it, in units of its last place. The
doubles below the least one of a binade are closer to one another. -/
def reachBelow (significand : Nat) (exponent : Int) : ℚ :=
  if significand = 2 ^ 52 ∧ -1074 < exponent then 1 / 4 else 1 / 2

/-- The number is rounded to the double with the given parts. -/
def RoundsTo (significand : Nat) (exponent : Int) (number : ℚ) : Prop :=
  ((significand - reachBelow significand exponent) * 2 ^ exponent ≤ number ∧
      number ≤ (significand + 1 / 2) * 2 ^ exponent) ∧
    (significand % 2 = 0 ∨
      (significand - reachBelow significand exponent) * 2 ^ exponent < number ∧
        number < (significand + 1 / 2) * 2 ^ exponent)

variable {sign : Sign} {significand : Nat} {exponent : Int} {mantissa : Nat} {place target : Int}
  {accuracy : Accuracy}

/-- A double is rounded to itself. -/
theorem roundsTo_self (significand : Nat) (exponent : Int) :
    RoundsTo significand exponent (significand * 2 ^ exponent) := by
  have unit : (0 : ℚ) < 2 ^ exponent := by positivity
  have reach : (0 : ℚ) < reachBelow significand exponent := by
    unfold reachBelow
    split <;> norm_num
  have below : (significand - reachBelow significand exponent) * 2 ^ exponent <
      (significand * 2 ^ exponent : ℚ) := mul_lt_mul_of_pos_right (by linarith) unit
  have above : (significand * 2 ^ exponent : ℚ) < (significand + 1 / 2) * 2 ^ exponent :=
    mul_lt_mul_of_pos_right (by linarith) unit
  exact ⟨⟨below.le, above.le⟩, .inr ⟨below, above⟩⟩

/-- In the last place of a double that is not the least of its binade, it is the nearest natural
number. -/
theorem RoundsTo.isNearest (rounds : RoundsTo significand exponent number)
    (reach : reachBelow significand exponent = 1 / 2 ∨ (significand : ℚ) * 2 ^ exponent ≤ number) :
    IsNearest significand (number / 2 ^ exponent) := by
  have unit : (0 : ℚ) < 2 ^ exponent := by positivity
  obtain ⟨⟨low, high⟩, parity⟩ := rounds
  have scaled : number = number / 2 ^ exponent * 2 ^ exponent := by field_simp
  rw [scaled] at low high parity reach
  simp only [mul_le_mul_iff_of_pos_right unit,
    mul_lt_mul_iff_of_pos_right unit] at low high parity reach
  rcases reach with half | inside
  · rw [half] at low parity
    refine ⟨⟨by linarith, by linarith⟩, parity.imp_right fun strict => ?_⟩
    exact ⟨by linarith [strict.1], by linarith [strict.2]⟩
  · refine ⟨⟨by linarith, by linarith⟩, parity.imp_right fun strict => ?_⟩
    exact ⟨by linarith, by linarith [strict.2]⟩

/-- A power of two is a unit of the last place of a double, so many places up. -/
theorem two_zpow_add (places : Nat) (exponent : Int) :
    (2 : ℚ) ^ (places + exponent) = 2 ^ places * 2 ^ exponent := by
  rw [zpow_add₀ two_ne_zero, zpow_natCast]

/-- A number that is rounded to a double is below the power of two above all its digits. -/
theorem RoundsTo.lt_zpow (rounds : RoundsTo significand exponent number)
    (small : significand < 2 ^ 53) :
    number < 2 ^ (53 + exponent) := by
  have unit : (0 : ℚ) < 2 ^ exponent := by positivity
  have digits : (significand + 1 : ℚ) ≤ 2 ^ 53 := by exact_mod_cast small
  have scale : (2 : ℚ) ^ (53 + exponent) = 2 ^ 53 * 2 ^ exponent := two_zpow_add 53 exponent
  calc number ≤ (significand + 1 / 2) * 2 ^ exponent := rounds.1.2
    _ < 2 ^ 53 * 2 ^ exponent := mul_lt_mul_of_pos_right (by linarith) unit
    _ = 2 ^ (53 + exponent) := scale.symm

/-- In its binade a number is nearest to the significand of the double that it is rounded to. -/
theorem RoundsTo.isNearest_of_full (rounds : RoundsTo significand exponent number)
    (full : 2 ^ (52 + exponent) ≤ number) : IsNearest significand (number / 2 ^ exponent) := by
  refine rounds.isNearest ?_
  unfold reachBelow
  split
  case isTrue first =>
    have scale : (2 : ℚ) ^ (52 + exponent) = 2 ^ 52 * 2 ^ exponent := two_zpow_add 52 exponent
    rw [scale] at full
    rw [first.1]
    exact .inr (by exact_mod_cast full)
  case isFalse => exact .inl rfl

/-- Only to the least double of a binade numbers below the binade are rounded. -/
theorem RoundsTo.eq_two_pow (rounds : RoundsTo significand exponent number)
    (full : 2 ^ 52 ≤ significand) (short : number < 2 ^ (52 + exponent)) :
    significand = 2 ^ 52 := by
  have unit : (0 : ℚ) < 2 ^ exponent := by positivity
  have scale : (2 : ℚ) ^ (52 + exponent) = 2 ^ 52 * 2 ^ exponent := two_zpow_add 52 exponent
  have reach : reachBelow significand exponent ≤ 1 / 2 := by
    unfold reachBelow
    split <;> norm_num
  have digits : significand - reachBelow significand exponent < (2 ^ 52 : ℚ) := by
    rw [scale] at short
    exact lt_of_mul_lt_mul_right (rounds.1.1.trans_lt short) unit.le
  have few : (significand : ℚ) < 2 ^ 52 + 1 := by linarith
  have fewer : significand < 2 ^ 52 + 1 := by exact_mod_cast few
  omega

/-- Below its binade, where the places are half as wide, a number is rounded up to the least double
of the binade. -/
theorem RoundsTo.isNearest_of_short (rounds : RoundsTo (2 ^ 52) exponent number)
    (above : -1074 < exponent) (short : number < 2 ^ (52 + exponent)) :
    2 ^ (51 + exponent) ≤ number ∧ IsNearest (2 ^ 53) (number / 2 ^ (exponent - 1)) := by
  have unit : (0 : ℚ) < 2 ^ exponent := by positivity
  have reach : reachBelow (2 ^ 52) exponent = 1 / 4 := if_pos ⟨rfl, above⟩
  have high := rounds.1.1
  rw [reach] at high
  push_cast at high
  have scale : (2 : ℚ) ^ (52 + exponent) = 2 ^ 52 * 2 ^ exponent := two_zpow_add 52 exponent
  have halfScale : (2 : ℚ) ^ (51 + exponent) = 2 ^ 51 * 2 ^ exponent := two_zpow_add 51 exponent
  have scaled : number / 2 ^ (exponent - 1) * 2 ^ exponent = 2 * number := by
    rw [zpow_sub_one₀ two_ne_zero]
    field_simp
  rw [scale] at short
  refine ⟨?_, ⟨?_, ?_⟩, .inl rfl⟩
  · rw [halfScale]
    nlinarith
  · push_cast
    nlinarith
  · push_cast
    nlinarith

/-! ## Rounding -/

/-- The exponent that rounding aims at. -/
theorem targetExponent_eq (total : Int) :
    Format.binary64.targetExponent total = max (total - 53) (-1074) := rfl

/-- Shifting to a higher exponent keeps the number. -/
theorem represents_shiftToExponent
    (represents : Represents (.ofMantissaAndAccuracy mantissa accuracy) (number / 2 ^ place))
    (higher : place ≤ target) :
    Represents (shiftToExponent mantissa place accuracy target).1 (number / 2 ^ target) ∧
      (shiftToExponent mantissa place accuracy target).2 = target := by
  obtain ⟨places, rfl⟩ := Int.le.dest higher
  have count : (place + places - place : Int).toNat = places := by omega
  rw [shiftToExponent, count]
  refine ⟨?_, rfl⟩
  have shifted := represents.shiftRight places
  rw [div_div, ← zpow_natCast, ← zpow_add₀ two_ne_zero] at shifted
  exact shifted

/-- The residual bits leave the mantissa as it is. -/
theorem mantissa_ofMantissaAndAccuracy (mantissa : Nat) (accuracy : Accuracy) :
    (ExtendedMantissa.ofMantissaAndAccuracy mantissa accuracy).mantissa = mantissa := by
  cases accuracy with
  | exact => rfl
  | inexact relation => cases relation <;> rfl

/-- A number is below the power of two above its integral part. -/
theorem Represents.lt_zpow
    (represents : Represents (.ofMantissaAndAccuracy mantissa accuracy) (number / 2 ^ place)) :
    number < 2 ^ (totalExponent mantissa place) := by
  have unit : (0 : ℚ) < 2 ^ place := by positivity
  have below := represents.lt_mantissa_add_one
  rw [mantissa_ofMantissaAndAccuracy, div_lt_iff₀ unit] at below
  have digits : (mantissa + 1 : ℚ) ≤ 2 ^ (mantissa.log2 + 1) := by
    exact_mod_cast Nat.lt_log2_self
  calc number < (mantissa + 1) * 2 ^ place := below
    _ ≤ 2 ^ (mantissa.log2 + 1) * 2 ^ place := mul_le_mul_of_nonneg_right digits unit.le
    _ = 2 ^ totalExponent mantissa place := by
        rw [totalExponent, zpow_add₀ two_ne_zero]
        norm_cast

/-- A number is not below the power of two that its integral part begins with. -/
theorem Represents.zpow_le
    (represents : Represents (.ofMantissaAndAccuracy mantissa accuracy) (number / 2 ^ place))
    (some : mantissa ≠ 0) : (2 : ℚ) ^ (totalExponent mantissa place - 1) ≤ number := by
  have unit : (0 : ℚ) < 2 ^ place := by positivity
  have above := represents.mantissa_le
  rw [mantissa_ofMantissaAndAccuracy, le_div_iff₀ unit] at above
  have digits : (2 ^ mantissa.log2 : ℚ) ≤ mantissa := by
    exact_mod_cast Nat.log2_self_le some
  calc (2 : ℚ) ^ (totalExponent mantissa place - 1) = 2 ^ mantissa.log2 * 2 ^ place := by
        rw [totalExponent, ← zpow_natCast, ← zpow_add₀ two_ne_zero]
        congr 1
        ring
    _ ≤ mantissa * 2 ^ place := mul_le_mul_of_nonneg_right digits unit.le
    _ ≤ number := above

/-- The exponent of a number that is not too small for its digits. -/
theorem Represents.totalExponent_le
    (represents : Represents (.ofMantissaAndAccuracy mantissa accuracy) (number / 2 ^ place))
    (low : place ≤ Format.binary64.targetExponent (totalExponent mantissa place)) {total : Int}
    (below : number < 2 ^ total) (least : -1073 ≤ total) :
    totalExponent mantissa place ≤ total := by
  by_cases none : mantissa = 0
  · rw [targetExponent_eq] at low
    rw [totalExponent, none, Nat.log2_zero] at low ⊢
    omega
  · have less := (zpow_lt_zpow_iff_right₀ one_lt_two).mp ((represents.zpow_le none).trans_lt below)
    omega

/-- The exponent of a number is above that of each power of two that does not exceed it. -/
theorem Represents.lt_totalExponent
    (represents : Represents (.ofMantissaAndAccuracy mantissa accuracy) (number / 2 ^ place))
    {total : Int} (above : 2 ^ total ≤ number) : total < totalExponent mantissa place :=
  (zpow_lt_zpow_iff_right₀ one_lt_two).mp (above.trans_lt represents.lt_zpow)

/-- A mantissa with few digits is not shifted. -/
theorem shiftToTargetExponent_of_le (least : -1074 ≤ place) (small : mantissa < 2 ^ 53) :
    shiftToTargetExponent .binary64 mantissa place .exact =
      (.ofMantissaAndAccuracy mantissa .exact, place) := by
  have digits : mantissa.log2 < 53 := by
    by_cases none : mantissa = 0
    · rw [none, Nat.log2_zero]
      omega
    · exact (Nat.log2_lt none).mpr small
  have still :
      (Format.binary64.targetExponent (totalExponent mantissa place) - place).toNat = 0 := by
    rw [targetExponent_eq, totalExponent]
    omega
  rw [shiftToTargetExponent, shiftToExponent, still]
  exact congrArg _ (Int.add_zero place)

/-- A mantissa that rounding has given one more digit is shifted by it. -/
theorem shiftToTargetExponent_two_pow (place : Int) (least : -1074 ≤ place) :
    shiftToTargetExponent .binary64 (2 ^ 53) place .exact =
      (.ofMantissaAndAccuracy (2 ^ 52) .exact, place + 1) := by
  have once :
      (Format.binary64.targetExponent (totalExponent (2 ^ 53) place) - place).toNat = 1 := by
    rw [targetExponent_eq, totalExponent, Nat.log2_two_pow]
    omega
  rw [shiftToTargetExponent, shiftToExponent, once]
  rfl

/-- Rounding goes to the nearest natural number in the place aimed at. -/
theorem roundWithAccuracy_of_isNearest
    (represents : Represents (.ofMantissaAndAccuracy mantissa accuracy) (number / 2 ^ place))
    (low : place ≤ target)
    (aims : Format.binary64.targetExponent (totalExponent mantissa place) = target) {whole : Nat}
    (nearest : IsNearest whole (number / 2 ^ target))
    (shifted : shiftToTargetExponent .binary64 whole target .exact =
      (.ofMantissaAndAccuracy significand .exact, exponent)) (positive : 0 < significand) :
    roundWithAccuracy .binary64 sign mantissa place accuracy =
      .finite sign significand exponent positive := by
  obtain ⟨there, reached⟩ := represents_shiftToExponent represents low
  rw [roundWithAccuracy, shiftToTargetExponent, aims]
  dsimp only
  rw [reached, there.roundedMantissa_eq nearest, shifted]
  exact dif_neg (Nat.ne_of_gt positive)

/-- **Rounding gives the double whose interval a number lies in.** -/
theorem roundWithAccuracy_eq (canonical : IsCanonical significand exponent) (number : ℚ)
    (represents : Represents (.ofMantissaAndAccuracy mantissa accuracy) (number / 2 ^ place))
    (low : place ≤ Format.binary64.targetExponent (totalExponent mantissa place))
    (rounds : RoundsTo significand exponent number) :
    roundWithAccuracy .binary64 sign mantissa place accuracy =
      .finite sign significand exponent canonical.positive := by
  obtain ⟨positive, small, least, -, normal⟩ := canonical
  have still := shiftToTargetExponent_of_le least small
  rcases le_or_gt (2 ^ (52 + exponent)) number with full | short
  · -- all digits of the significand
    have aims : Format.binary64.targetExponent (totalExponent mantissa place) = exponent := by
      have total := represents.totalExponent_le low (rounds.lt_zpow small) (by omega)
      have above := represents.lt_totalExponent full
      rw [targetExponent_eq]
      omega
    exact roundWithAccuracy_of_isNearest represents (aims ▸ low) aims
      (rounds.isNearest_of_full full) still positive
  · rcases Int.le_iff_lt_or_eq.mp least with above | bottom
    · -- below the least double of a binade, where the places are half as wide
      obtain rfl := rounds.eq_two_pow (normal.resolve_right (by omega)) short
      obtain ⟨half, nearest⟩ := rounds.isNearest_of_short above short
      have aims : Format.binary64.targetExponent (totalExponent mantissa place) = exponent - 1 := by
        have total := represents.totalExponent_le low short (by omega)
        have above := represents.lt_totalExponent half
        rw [targetExponent_eq]
        omega
      have shifted := shiftToTargetExponent_two_pow (exponent - 1) (by omega)
      rw [Int.sub_add_cancel] at shifted
      exact roundWithAccuracy_of_isNearest represents (aims ▸ low) aims nearest shifted positive
    · -- the least exponent
      subst bottom
      have aims : Format.binary64.targetExponent (totalExponent mantissa place) = -1074 := by
        have total := represents.totalExponent_le low short (by omega)
        rw [targetExponent_eq]
        omega
      have reach : reachBelow significand (-1074) = 1 / 2 := if_neg fun first => lt_irrefl _ first.2
      exact roundWithAccuracy_of_isNearest represents (aims ▸ low) aims
        (rounds.isNearest (.inl reach)) still positive

/-- Zeros behind a number shift its first digit. -/
theorem log2_mul_two_pow (some : mantissa ≠ 0) (places : Nat) :
    (mantissa * 2 ^ places).log2 = mantissa.log2 + places := by
  have unit := Nat.two_pow_pos places
  rw [Nat.log2_eq_iff (Nat.mul_ne_zero some (Nat.ne_of_gt unit)), Nat.pow_add, Nat.add_right_comm,
    Nat.pow_add]
  exact ⟨Nat.mul_le_mul_right _ (Nat.log2_self_le some),
    Nat.mul_lt_mul_of_pos_right Nat.lt_log2_self unit⟩

/-- Rounding an exact number gives the double whose interval it lies in. -/
theorem round_eq (canonical : IsCanonical significand exponent) (some : mantissa ≠ 0)
    (rounds : RoundsTo significand exponent (mantissa * 2 ^ place)) :
    UnpackedFloat.round .binary64 sign mantissa place =
      .finite sign significand exponent canonical.positive := by
  rw [UnpackedFloat.round]
  generalize aim : Format.binary64.targetExponent (totalExponent mantissa place) = target
  dsimp only [decreaseExponent]
  rw [Nat.shiftLeft_eq]
  generalize count : (place - target).toNat = places
  have total : totalExponent (mantissa * 2 ^ places) (place - places) =
      totalExponent mantissa place := by
    rw [totalExponent, totalExponent, log2_mul_two_pow some]
    omega
  refine roundWithAccuracy_eq canonical (mantissa * 2 ^ place) ?_ ?_ rounds
  · -- shifted digits stand for the same number
    have same : (mantissa * 2 ^ place / 2 ^ (place - places : Int) : ℚ) =
        (mantissa * 2 ^ places : Nat) := by
      rw [zpow_sub₀ two_ne_zero, zpow_natCast]
      push_cast
      field_simp
    rw [same]
    exact represents_exact _
  · rw [total, aim]
    omega

/-- No digits stay none when they are shifted. -/
theorem shiftToTargetExponent_zero (place : Int) :
    (shiftToTargetExponent .binary64 0 place .exact).1 = ⟨0, false, false⟩ := by
  rw [shiftToTargetExponent, shiftToExponent]
  generalize (Format.binary64.targetExponent (totalExponent 0 place) - place).toNat = places
  show places.repeat ExtendedMantissa.shiftRightOne ⟨0, false, false⟩ = _
  induction places with
  | zero => rfl
  | succ places ih =>
      rw [Nat.repeat, ih]
      rfl

/-- No digits are rounded to a zero. -/
theorem round_zero (sign : Sign) (place : Int) :
    UnpackedFloat.round .binary64 sign 0 place = .zero sign := by
  rw [UnpackedFloat.round]
  dsimp only [decreaseExponent]
  rw [Nat.zero_shiftLeft, roundWithAccuracy]
  dsimp only
  rw [shiftToTargetExponent_zero]
  have rounded : ExtendedMantissa.roundedMantissa ⟨0, false, false⟩ = 0 := rfl
  rw [rounded]
  simp only [shiftToTargetExponent_zero, ↓reduceDIte]

end Number

end LineRobot
