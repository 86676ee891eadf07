import LineRobot.Number.Decimal
import LineRobot.Proofs.Number.Exact

/-! # Rounding of quotients and decimals

A quotient of doubles is the double whose interval the exact quotient lies in (`Number.div_eq`). So
is the double of a decimal with a fraction, which is read as such a quotient (`Decimal.toFloat_eq`):
of two doubles without a loss, if its digits and its power of ten are small enough for that, and
otherwise of the numbers as they are. -/

namespace LineRobot

open Float.Model (UnpackedFloat Format totalExponent)
open Float.Model.UnpackedFloat (Sign ExtendedMantissa accuracyOfFraction divCore)

namespace Number

variable {significand : Nat} {exponent : Int}

/-! ## Quotients -/

/-- A quotient with what is left of the division stands for the exact quotient. -/
theorem represents_div (dividend : Nat) {divisor : Nat} (positive : 0 < divisor) :
    Represents (.ofMantissaAndAccuracy (dividend / divisor)
      (accuracyOfFraction (dividend % divisor) divisor))
      (dividend / divisor : ℚ) := by
  have divisorPositive : (0 : ℚ) < divisor := by exact_mod_cast positive
  have split : (dividend : ℚ) = divisor * (dividend / divisor : Nat) +
      (dividend % divisor : Nat) := by
    exact_mod_cast (Nat.div_add_mod dividend divisor).symm
  have below : ((dividend % divisor : Nat) : ℚ) < divisor := by exact_mod_cast Nat.mod_lt _ positive
  generalize dividend / divisor = whole at split
  generalize dividend % divisor = part at split below
  have number : (dividend / divisor : ℚ) = whole + part / divisor := by
    rw [split]
    field_simp
  have fraction : (part : ℚ) / divisor < 1 := (div_lt_one divisorPositive).mpr below
  rw [number]
  unfold accuracyOfFraction
  split
  case isTrue none =>
    rw [none, Nat.cast_zero, zero_div, add_zero]
    exact represents_exact whole
  case isFalse some =>
    have partPositive : (0 : ℚ) < part / divisor :=
      div_pos (by exact_mod_cast Nat.pos_of_ne_zero some) divisorPositive
    -- the accuracy says on which side of a half the part lies
    cases order : compare (2 * part) divisor with
    | lt =>
        have half : (part : ℚ) / divisor < 1 / 2 := by
          rw [div_lt_iff₀ divisorPositive]
          have : (2 * part : ℚ) < divisor := by exact_mod_cast compare_lt_iff_lt.mp order
          linarith
        refine ⟨?_, ?_, iff_of_false Bool.true_eq_false.mp fun same => ?_⟩
        all_goals simp only [ExtendedMantissa.ofMantissaAndAccuracy, Bool.toNat_false,
          Nat.cast_zero] at *
        all_goals linarith
    | eq =>
        have half : (part : ℚ) / divisor = 1 / 2 := by
          rw [div_eq_iff (ne_of_gt divisorPositive)]
          have : (2 * part : ℚ) = divisor := by exact_mod_cast compare_eq_iff_eq.mp order
          linarith
        rw [half]
        refine ⟨?_, ?_, iff_of_true rfl ?_⟩
        all_goals simp only [ExtendedMantissa.ofMantissaAndAccuracy, Bool.toNat_true, Nat.cast_one]
        all_goals linarith
    | gt =>
        have half : 1 / 2 < (part : ℚ) / divisor := by
          rw [lt_div_iff₀ divisorPositive]
          have : (divisor : ℚ) < 2 * part := by exact_mod_cast compare_gt_iff_gt.mp order
          linarith
        refine ⟨?_, ?_, iff_of_false Bool.true_eq_false.mp fun same => ?_⟩
        all_goals simp only [ExtendedMantissa.ofMantissaAndAccuracy, Bool.toNat_true,
          Nat.cast_one] at *
        all_goals linarith

/-- Digits before binary places are at least the power of two that they begin with. -/
theorem zpow_totalExponent_le {mantissa : Nat} (positive : 0 < mantissa) (place : Int) :
    (2 : ℚ) ^ (totalExponent mantissa place - 1) ≤ mantissa * 2 ^ place := by
  have digits : (2 ^ mantissa.log2 : ℚ) ≤ mantissa := by
    exact_mod_cast Nat.log2_self_le (Nat.ne_of_gt positive)
  have split : (2 : ℚ) ^ (totalExponent mantissa place - 1) = 2 ^ mantissa.log2 * 2 ^ place := by
    rw [totalExponent, ← zpow_natCast, ← zpow_add₀ two_ne_zero]
    congr 1
    ring
  rw [split]
  exact mul_le_mul_of_nonneg_right digits (by positivity)

/-- Digits before binary places are below the power of two above them. -/
theorem lt_zpow_totalExponent (mantissa : Nat) (place : Int) :
    (mantissa * 2 ^ place : ℚ) < 2 ^ totalExponent mantissa place := by
  have digits : (mantissa : ℚ) < 2 ^ (mantissa.log2 + 1) := by exact_mod_cast Nat.lt_log2_self
  have split : (2 : ℚ) ^ totalExponent mantissa place = 2 ^ (mantissa.log2 + 1) * 2 ^ place := by
    rw [totalExponent, zpow_add₀ two_ne_zero]
    norm_cast
  rw [split]
  exact mul_lt_mul_of_pos_right digits (by positivity)

/-- **Division gives the double whose interval the quotient lies in.** -/
theorem div_eq (canonical : IsCanonical significand exponent) {first second : Nat}
    {firstPlace secondPlace : Int} (firstPositive : 0 < first) (secondPositive : 0 < second)
    (rounds : RoundsTo significand exponent (first * 2 ^ firstPlace / (second * 2 ^ secondPlace))) :
    UnpackedFloat.div .binary64 (.finite .positive first firstPlace firstPositive)
        (.finite .positive second secondPlace secondPositive) =
      .finite .positive significand exponent canonical.positive := by
  have above := zpow_totalExponent_le firstPositive firstPlace
  have below := lt_zpow_totalExponent second secondPlace
  have divisor : (0 : ℚ) < second * 2 ^ secondPlace := by positivity
  rw [UnpackedFloat.div, divCore]
  dsimp only
  generalize totalExponent first firstPlace = firstTotal at above
  generalize totalExponent second secondPlace = secondTotal at below
  generalize aim : min (firstPlace - secondPlace)
    (Format.binary64.targetExponent (firstTotal - secondTotal)) = target
  have aimLe : target ≤ firstPlace - secondPlace := by omega
  rw [targetExponent_eq] at aim
  obtain ⟨places, shift⟩ := Int.le.dest aimLe
  have count : (firstPlace - secondPlace - target).toNat = places := by omega
  rw [count, Nat.shiftLeft_eq]
  have scaled : (first * 2 ^ firstPlace / (second * 2 ^ secondPlace) / 2 ^ target : ℚ) =
      ((first * 2 ^ places : Nat) : ℚ) / second := by
    have power : (2 : ℚ) ^ firstPlace = 2 ^ places * 2 ^ secondPlace * 2 ^ target := by
      rw [← zpow_natCast, ← zpow_add₀ two_ne_zero, ← zpow_add₀ two_ne_zero]
      congr 1
      omega
    rw [power]
    push_cast
    field_simp
  have represents := represents_div (first * 2 ^ places) secondPositive
  rw [← scaled] at represents
  refine roundWithAccuracy_eq canonical _ represents ?_ rounds
  -- the quotient has enough digits, or ends at the least place
  rw [targetExponent_eq]
  have large : (2 : ℚ) ^ (firstTotal - secondTotal - 1) ≤
      first * 2 ^ firstPlace / (second * 2 ^ secondPlace) := by
    rw [le_div_iff₀ divisor]
    calc (2 : ℚ) ^ (firstTotal - secondTotal - 1) * (second * 2 ^ secondPlace)
        ≤ 2 ^ (firstTotal - secondTotal - 1) * 2 ^ secondTotal :=
          mul_le_mul_of_nonneg_left below.le (by positivity)
      _ = 2 ^ (firstTotal - 1) := by
          rw [← zpow_add₀ two_ne_zero]
          congr 1
          ring
      _ ≤ first * 2 ^ firstPlace := above
  have total := represents.lt_totalExponent large
  omega

/-! ## Powers of ten -/

/-- Whether a double stands for a power of ten. -/
def isPowerOfTen (places : Nat) : Binary64 → Bool
  | .finite false power place =>
      0 < power && power * 2 ^ place.toNat == 10 ^ places * 2 ^ (-place).toNat
  | _ => false

/-- A power on both sides of a fraction is one with a whole exponent. -/
theorem pow_toNat_eq {base : ℚ} (some : base ≠ 0) (place : Int) :
    base ^ place.toNat = base ^ (-place).toNat * base ^ place := by
  rw [← zpow_natCast, ← zpow_natCast, ← zpow_add₀ some]
  congr 1
  omega

/-- Binary places on both sides of an equation are those of the exponent. -/
theorem mul_zpow_eq {power whole : Nat} {place : Int}
    (same : power * 2 ^ place.toNat = whole * 2 ^ (-place).toNat) :
    (power * 2 ^ place : ℚ) = whole := by
  have exact : (power * 2 ^ place.toNat : ℚ) = whole * 2 ^ (-place).toNat := by exact_mod_cast same
  have positive : (0 : ℚ) < 2 ^ (-place).toNat := by positivity
  rw [pow_toNat_eq two_ne_zero, mul_left_comm, mul_comm] at exact
  exact mul_right_cancel₀ (ne_of_gt positive) exact

/-- Powers of ten up to the twenty-second are doubles without rounding. -/
theorem exists_unpack_powerOfTen {places : Nat} (small : places ≤ 22)
    (inside : places < Float.exactlyRepresentablePowersOfTen.size) :
    ∃ power place, ∃ positive : 0 < power,
      Float.exactlyRepresentablePowersOfTen[places].toModel.unpack =
        .finite .positive power place positive ∧
        (power * 2 ^ place : ℚ) = 10 ^ places := by
  have all : ∀ places : Fin 23,
      isPowerOfTen places (Binary64.of Float.exactlyRepresentablePowersOfTen[places]) = true := by
    decide +kernel
  have here := all ⟨places, Nat.lt_succ_of_le small⟩
  simp only [Fin.getElem_fin] at here
  rw [Binary64.of] at here
  cases unpacked : Float.exactlyRepresentablePowersOfTen[places].toModel.unpack with
  | notANumber | infinity =>
      rw [unpacked] at here
      cases here
  | zero sign =>
      rw [unpacked] at here
      cases sign <;> cases here
  | finite sign power place positive =>
      rw [unpacked] at here
      cases sign with
      | negative => cases here
      | positive =>
          refine ⟨power, place, positive, rfl, ?_⟩
          have same := beq_iff_eq.mp (Bool.and_eq_true_iff.mp here).2
          exact_mod_cast mul_zpow_eq same

/-! ## Decimals -/

/-- A decimal with a fraction is the double whose interval it lies in. -/
theorem ofScientific_eq (canonical : IsCanonical significand exponent) {digits places : Nat}
    (some : 0 < digits) (fraction : 0 < places) (few : places ≤ 2048)
    (rounds : RoundsTo significand exponent (digits / 10 ^ places)) :
    Float.ofScientific digits true places =
      .ofModel (.pack (.finite .positive significand exponent canonical.positive)) := by
  rw [Float.ofScientific]
  split
  case isTrue fast =>
    obtain ⟨first, firstPlace, firstCanonical, firstSame⟩ := exists_isCanonical some fast.1
    obtain ⟨second, secondPlace, secondPositive, unpacked, secondSame⟩ :=
      exists_unpack_powerOfTen fast.2
      (by simp [Float.exactlyRepresentablePowersOfTen]; omega)
    have quotient (dividend divisor : Float) : dividend / divisor =
        .ofModel (.pack (.div .binary64 dividend.toModel.unpack divisor.toModel.unpack)) := rfl
    rw [if_pos rfl, quotient, unpacked, toFloat_toUInt64 some fast.1 firstCanonical firstSame,
      unpack_pack_finite firstCanonical, div_eq canonical firstCanonical.positive secondPositive]
    rw [firstSame, secondSame]
    exact rounds
  case isFalse =>
    have tens : 0 < 10 ^ places := Nat.pow_pos (by decide)
    have made : UnpackedFloat.ofScientific .binary64 digits (-(places : Int)) =
        .div .binary64 (.finite .positive digits 0 some)
          (.finite .positive (10 ^ places) 0 tens) := by
      have bits : (2 : Int) ^ Format.binary64.exponentBits = 2048 := rfl
      rw [UnpackedFloat.ofScientific, dif_neg (Nat.ne_of_gt some), bits, if_neg (by omega),
        if_neg (by omega), if_neg (by omega)]
      simp only [Int.neg_neg, Int.toNat_natCast]
    have model : Float.Model.ofScientific digits (Int.negOfNat places) =
        .pack (UnpackedFloat.ofScientific .binary64 digits (-(places : Int))) := by
      rw [← Int.ofNat_eq_natCast, ← Int.negOfNat_eq]
      rfl
    rw [if_pos rfl]
    dsimp only
    rw [model, made, div_eq canonical some tens]
    rw [zpow_zero, mul_one, mul_one]
    exact_mod_cast rounds

end Number

namespace Decimal

/-- The exact value of a decimal. -/
def value (decimal : Decimal) : ℚ :=
  decimal.digits * 10 ^ decimal.place

/-- **A decimal with a fraction is read as the double whose interval it lies in.** -/
theorem toFloat_eq {significand : Nat} {exponent : Int}
    (canonical : Number.IsCanonical significand exponent) {decimal : Decimal}
    (some : 0 < decimal.digits) (fraction : decimal.place < 0) (few : -2048 ≤ decimal.place)
    (rounds : Number.RoundsTo significand exponent decimal.value) :
    decimal.toFloat =
      .ofModel (.pack (.finite .positive significand exponent canonical.positive)) := by
  obtain ⟨digits, place⟩ := decimal
  dsimp only at some fraction few
  obtain ⟨places, rfl⟩ : ∃ places : Nat, place = -places := ⟨place.natAbs, by omega⟩
  rw [toFloat, decide_eq_true fraction, Int.natAbs_neg, Int.natAbs_natCast]
  refine Number.ofScientific_eq canonical some (by omega) (by omega) ?_
  rw [value, zpow_neg, zpow_natCast] at rounds
  exact rounds

end Decimal

end LineRobot
