import LineRobot.Proofs.Number.Zero

/-! # Values of doubles

A finite double other than a zero is unpacked to a significand below `2 ^ 53` and an exponent of the
format; the significand has all its digits, unless the exponent is the least one
(`Number.IsCanonical`). Such parts are packed and unpacked without a loss.

`Binary64.value` is the exact value of a double. Finite doubles are compared as their values are
(`Number.lt_iff_value_lt`, `Number.le_iff_value_le`). -/

namespace LineRobot

open Float.Model (UnpackedFloat Format)
open Float.Model.UnpackedFloat (Sign packComponents unpackSign unpackExponent unpackMantissa)

namespace Number

/-- A significand and an exponent to which a finite double other than a zero is unpacked. -/
structure IsCanonical (significand : Nat) (exponent : Int) : Prop where
  /-- The significand is not zero. -/
  positive : 0 < significand
  /-- The significand has at most 53 digits. -/
  small : significand < 2 ^ 53
  /-- The exponent is not below the least one. -/
  least : -1074 ≤ exponent
  /-- The exponent is not above the greatest one. -/
  greatest : exponent ≤ 971
  /-- The significand has just 53 digits, unless the exponent is the least one. -/
  normal : 2 ^ 52 ≤ significand ∨ exponent = -1074

variable {sign : Sign} {significand : Nat} {exponent : Int} {positive : 0 < significand}

/-- Unpacked numbers with the same parts are the same. -/
theorem finite_congr {other : Nat} {place : Int} {otherPositive : 0 < other}
    (same : significand = other) (samePlace : exponent = place) :
    UnpackedFloat.finite sign significand exponent positive =
      .finite sign other place otherPositive := by
  subst same samePlace
  rfl

/-- What a word is unpacked to is canonical. -/
theorem isCanonical_of_unpack_word {word : BitVec Format.binary64.numBits}
    (unpacked : UnpackedFloat.unpack .binary64 word = .finite sign significand exponent positive) :
    IsCanonical significand exponent := by
  have bias : Format.binary64.exponentBias = 1023 := rfl
  have exponentLt : (unpackExponent word).toNat < 2 ^ 11 := (unpackExponent word).isLt
  have mantissaLt : (unpackMantissa word).toNat < 2 ^ 52 := (unpackMantissa word).isLt
  unfold UnpackedFloat.unpack at unpacked
  dsimp only at unpacked
  rw [bias] at unpacked
  split at unpacked
  case isTrue => split at unpacked <;> cases unpacked
  case isFalse notTop =>
    have below : (unpackExponent word).toNat ≠ 2047 := fun last =>
      notTop (BitVec.eq_of_toNat_eq last)
    split at unpacked
    case isTrue bottom =>
      split at unpacked
      case isTrue => cases unpacked
      case isFalse =>
        have zero : (unpackExponent word).toNat = 0 := by rw [bottom]; rfl
        injection unpacked with _ same place
        have digits : (unpackMantissa word).toNat = significand := same
        refine ⟨positive, ?_, ?_, ?_, .inr ?_⟩ <;> omega
    case isFalse notBottom =>
      have above : (unpackExponent word).toNat ≠ 0 := fun zero =>
        notBottom (BitVec.eq_of_toNat_eq zero)
      injection unpacked with _ same place
      have implicit := toNat_one_append (unpackMantissa word)
      have digits : (1#1 ++ unpackMantissa word).toNat = significand := same
      refine ⟨positive, ?_, ?_, ?_, .inl ?_⟩ <;> omega

/-- What a double is unpacked to is canonical. -/
theorem isCanonical_of_unpack {model : Float.Model}
    (unpacked : model.unpack = .finite sign significand exponent positive) :
    IsCanonical significand exponent :=
  isCanonical_of_unpack_word unpacked

/-- The sign is unpacked from a word that has been made up of its parts. -/
theorem unpackSign_packComponents (sign : Sign) (exponent : BitVec 11) (mantissa : BitVec 52) :
    Sign.ofBitVec (unpackSign (packComponents .binary64 sign exponent mantissa)) = sign := by
  have bit : unpackSign (packComponents .binary64 sign exponent mantissa) = sign.toBitVec := by
    refine BitVec.eq_of_getElem_eq fun place inside => ?_
    simp only [unpackSign, packComponents, BitVec.getElem_cast, BitVec.extractLsb,
      BitVec.getElem_extractLsb', BitVec.getLsbD_append]
    grind
  rw [bit]
  cases sign <;> rfl

/-- A word with the given biased exponent and mantissa is unpacked to a normal or to a subnormal
number. -/
theorem unpack_packComponents (sign : Sign) {biased mantissa : Nat} (inside : biased < 2047)
    (small : mantissa < 2 ^ 52) (some : biased = 0 → 0 < mantissa) :
    UnpackedFloat.unpack .binary64
        (packComponents .binary64 sign (BitVec.ofNat 11 biased) (BitVec.ofNat 52 mantissa)) =
      if zero : biased = 0 then .finite sign mantissa (-1074) (some zero)
      else .finite sign (2 ^ 52 + mantissa) (biased - 1075)
        (Nat.add_pos_left (Nat.two_pow_pos 52) mantissa) := by
  have bias : Format.binary64.exponentBias = 1023 := rfl
  have biasedValue : (BitVec.ofNat 11 biased).toNat = biased := by
    rw [BitVec.toNat_ofNat]
    omega
  have mantissaValue : (BitVec.ofNat 52 mantissa).toNat = mantissa := by
    rw [BitVec.toNat_ofNat]
    omega
  -- the top exponent is that of the infinities, and the bottom one that of the subnormals
  have notTop : BitVec.ofNat 11 biased ≠ -1#11 := fun top => by
    have last := congrArg BitVec.toNat top
    rw [biasedValue] at last
    exact Nat.ne_of_lt inside last
  unfold UnpackedFloat.unpack
  simp only [UnpackedFloat.unpackExponent_packComponents,
    UnpackedFloat.unpackMantissa_packComponents, unpackSign_packComponents]
  rw [bias, if_neg notTop]
  split
  case isTrue bottom =>
    have zero : biased = 0 := by
      rw [← biasedValue, bottom]
      rfl
    have mantissaNotZero : BitVec.ofNat 52 mantissa ≠ 0#52 := fun none => by
      have last := congrArg BitVec.toNat none
      rw [mantissaValue] at last
      exact Nat.ne_of_gt (some zero) last
    rw [dif_neg mantissaNotZero, dif_pos zero]
    simp only [mantissaValue, zero]
    rfl
  case isFalse notBottom =>
    have notZero : biased ≠ 0 := fun zero => notBottom (by rw [zero])
    rw [dif_neg notZero]
    simp only [toNat_one_append, mantissaValue, biasedValue]
    rfl

/-- A canonical significand and exponent are unpacked again after they have been packed. -/
theorem unpack_pack_finite (canonical : IsCanonical significand exponent) :
    (Float.Model.pack (.finite sign significand exponent positive)).unpack =
      .finite sign significand exponent positive := by
  obtain ⟨-, small, least, greatest, normal⟩ := canonical
  show UnpackedFloat.unpack .binary64 (UnpackedFloat.pack .binary64 _) = _
  obtain ⟨biased, rfl⟩ : ∃ biased : Nat, exponent = biased - 1075 :=
    ⟨(exponent + 1075).toNat, by omega⟩
  rw [pack_finite sign positive (show biased < 2047 by omega)]
  split
  case isTrue full =>
    have bounds := (Nat.log2_eq_iff (Nat.ne_of_gt positive)).mp full
    have digits : BitVec.ofNat 52 significand = BitVec.ofNat 52 (significand - 2 ^ 52) :=
      BitVec.eq_of_toNat_eq (by simp only [BitVec.toNat_ofNat]; omega)
    have packed := unpack_packComponents sign (show biased < 2047 by omega)
      (show significand - 2 ^ 52 < 2 ^ 52 by omega) (by omega)
    rw [dif_neg (show biased ≠ 0 by omega)] at packed
    rw [digits]
    exact packed.trans (finite_congr (by omega) rfl)
  case isFalse short =>
    have subnormal : significand < 2 ^ 52 := by
      by_contra large
      exact short ((Nat.log2_eq_iff (Nat.ne_of_gt positive)).mpr ⟨by omega, small⟩)
    have packed := unpack_packComponents sign (show 0 < 2047 by omega) subnormal fun _ => positive
    rw [dif_pos rfl] at packed
    exact packed.trans (finite_congr rfl (by omega))

end Number

/-! ## Values -/

/-- The exact value of what a double stands for; zero if that is not finite. -/
def Binary64.value : Binary64 → ℚ
  | .finite negative significand exponent =>
      (if negative then -1 else 1) * (significand * 2 ^ exponent)
  | _ => 0

namespace Number

/-- The exact value of a double; zero for one that is not finite. -/
def value (number : Float) : ℚ :=
  (Binary64.of number).value

variable {first second number : Float} {sign : Sign} {significand : Nat} {exponent : Int}
  {positive : 0 < significand}

/-- The value of a finite double other than a zero. -/
theorem value_of_unpack
    (unpacked : number.toModel.unpack = .finite sign significand exponent positive) :
    value number = (if Binary64.isNegative sign then -1 else 1) * (significand * 2 ^ exponent) := by
  rw [value, Binary64.of, unpacked]
  rfl

/-- The value of a zero. -/
theorem value_of_unpack_zero (unpacked : number.toModel.unpack = .zero sign) :
    value number = 0 := by
  rw [value, Binary64.of, unpacked]
  simp [Binary64.value]

/-- The greater exponent means the greater number. -/
theorem IsCanonical.lt_of_exponent_lt {other : Nat} {place : Int}
    (canonical : IsCanonical significand exponent) (otherCanonical : IsCanonical other place)
    (lower : exponent < place) :
    (significand * 2 ^ exponent : ℚ) < other * 2 ^ place := by
  have full : 2 ^ 52 ≤ other := by
    have least := canonical.least
    rcases otherCanonical.normal with full | bottom
    · exact full
    · omega
  calc (significand * 2 ^ exponent : ℚ)
      < 2 ^ 53 * 2 ^ exponent := by
        refine mul_lt_mul_of_pos_right ?_ (by positivity)
        exact_mod_cast canonical.small
    _ = 2 ^ 52 * 2 ^ (exponent + 1) := by
        rw [zpow_add_one₀ two_ne_zero]
        ring
    _ ≤ other * 2 ^ place := by
        refine mul_le_mul (by exact_mod_cast full) ?_ (by positivity) (by positivity)
        exact zpow_le_zpow_right₀ one_le_two lower

/-- Canonical parts are compared by their exponents first, and then by their significands. -/
theorem IsCanonical.compare_then {other : Nat} {place : Int}
    (canonical : IsCanonical significand exponent) (otherCanonical : IsCanonical other place) :
    (compare exponent place).then (compare significand other) =
      compare (significand * 2 ^ exponent : ℚ) (other * 2 ^ place) := by
  rcases lt_trichotomy exponent place with lower | rfl | higher
  · rw [compare_lt_iff_lt.mpr lower,
      compare_lt_iff_lt.mpr (canonical.lt_of_exponent_lt otherCanonical lower)]
    rfl
  · rw [compare_eq_iff_eq.mpr rfl, Ordering.eq_then]
    have unit : (0 : ℚ) < 2 ^ exponent := by positivity
    rcases lt_trichotomy significand other with less | rfl | more
    · rw [compare_lt_iff_lt.mpr less, compare_lt_iff_lt.mpr]
      exact mul_lt_mul_of_pos_right (by exact_mod_cast less) unit
    · rw [compare_eq_iff_eq.mpr rfl, compare_eq_iff_eq.mpr rfl]
    · rw [compare_gt_iff_gt.mpr more, compare_gt_iff_gt.mpr]
      exact mul_lt_mul_of_pos_right (by exact_mod_cast more) unit
  · rw [compare_gt_iff_gt.mpr higher,
      compare_gt_iff_gt.mpr (otherCanonical.lt_of_exponent_lt canonical higher)]
    rfl

/-- The signs turn the order around. -/
theorem compare_neg_neg (first second : ℚ) :
    compare (-first) (-second) = (compare first second).swap := by
  rcases lt_trichotomy first second with less | rfl | more
  · rw [compare_lt_iff_lt.mpr less, compare_gt_iff_gt.mpr (neg_lt_neg less)]
    rfl
  · rw [compare_eq_iff_eq.mpr rfl, compare_eq_iff_eq.mpr rfl]
    rfl
  · rw [compare_gt_iff_gt.mpr more, compare_lt_iff_lt.mpr (neg_lt_neg more)]
    rfl

/-- Finite doubles are compared as their values are. -/
theorem compare_eq (finite : first.isFinite = true) (otherFinite : second.isFinite = true) :
    first.toModel.unpack.compare second.toModel.unpack =
      some (compare (value first) (value second)) := by
  have magnitude (exponent : Int) {significand : Nat} (positive : 0 < significand) :
      (0 : ℚ) < significand * 2 ^ exponent := by positivity
  rcases unpack_of_isFinite finite with ⟨sign, unpacked⟩ |
    ⟨sign, mantissa, exponent, positive, unpacked⟩ <;>
    rcases unpack_of_isFinite otherFinite with
      ⟨otherSign, otherUnpacked⟩ | ⟨otherSign, other, place, otherPositive, otherUnpacked⟩
  · rw [value_of_unpack_zero unpacked, value_of_unpack_zero otherUnpacked, unpacked, otherUnpacked,
      compare_eq_iff_eq.mpr rfl]
    rfl
  · have above := magnitude place otherPositive
    rw [value_of_unpack_zero unpacked, value_of_unpack otherUnpacked, unpacked, otherUnpacked]
    cases otherSign with
    | positive => rw [compare_lt_iff_lt.mpr (by simpa [Binary64.isNegative] using above)]; rfl
    | negative => rw [compare_gt_iff_gt.mpr (by simpa [Binary64.isNegative] using above)]; rfl
  · have above := magnitude exponent positive
    rw [value_of_unpack unpacked, value_of_unpack_zero otherUnpacked, unpacked, otherUnpacked]
    cases sign with
    | positive => rw [compare_gt_iff_gt.mpr (by simpa [Binary64.isNegative] using above)]; rfl
    | negative => rw [compare_lt_iff_lt.mpr (by simpa [Binary64.isNegative] using above)]; rfl
  · have above := magnitude exponent positive
    have otherAbove := magnitude place otherPositive
    have order :=
      (isCanonical_of_unpack unpacked).compare_then (isCanonical_of_unpack otherUnpacked)
    rw [value_of_unpack unpacked, value_of_unpack otherUnpacked, unpacked, otherUnpacked]
    cases sign <;> cases otherSign
    case positive.positive =>
      simpa [UnpackedFloat.compare, Binary64.isNegative] using order
    case positive.negative =>
      rw [compare_gt_iff_gt.mpr (by simp [Binary64.isNegative]; linarith)]; rfl
    case negative.positive =>
      rw [compare_lt_iff_lt.mpr (by simp [Binary64.isNegative]; linarith)]; rfl
    case negative.negative =>
      simpa [UnpackedFloat.compare, Binary64.isNegative, compare_neg_neg] using order

/-- What it means for a double to be below another one. -/
theorem lt_iff_compare :
    first < second ↔ first.toModel.unpack.compare second.toModel.unpack = some .lt := by
  have compared : first < second ↔
      (first.toModel.unpack.compare second.toModel.unpack == some .lt) = true := decide_eq_true_iff
  rw [compared, beq_iff_eq]

/-- What it means for a double not to be above another one. -/
theorem le_iff_compare :
    first ≤ second ↔ (first.toModel.unpack.compare second.toModel.unpack).any (·.isLE) = true :=
  decide_eq_true_iff

/-- Finite doubles are in the order of their values. -/
theorem lt_iff_value_lt (finite : first.isFinite = true) (otherFinite : second.isFinite = true) :
    first < second ↔ value first < value second := by
  rw [lt_iff_compare, compare_eq finite otherFinite, Option.some_inj, compare_lt_iff_lt]

/-- Finite doubles are in the order of their values. -/
theorem le_iff_value_le (finite : first.isFinite = true) (otherFinite : second.isFinite = true) :
    first ≤ second ↔ value first ≤ value second := by
  rw [le_iff_compare, compare_eq finite otherFinite, Option.any_some, ← compare_le_iff_le,
    Ordering.isLE_iff_ne_gt]

end Number

end LineRobot
