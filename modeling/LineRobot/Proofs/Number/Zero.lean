import Mathlib
import LineRobot.Number.Binary64

/-! # Zeros among the doubles

There are two zeros, of either sign (`Number.IsZero`). Sums and differences of zeros are zeros, and
so are products with finite doubles and quotients by finite ones other than zero. A zero that is
added to a double leaves it as it is, but for the sign of a zero (`Number.IsZero.sameButSign_add`).

The last one needs that a double is packed again from its parts without a loss
(`Number.pack_unpack`). -/

namespace LineRobot

open Float.Model (UnpackedFloat Format)
open Float.Model.UnpackedFloat (Sign packComponents unpackSign unpackExponent unpackMantissa)

namespace Number

/-! ## Packing and unpacking -/

section Pack

variable (word : BitVec Format.binary64.numBits)

/-- A sign bit is that of its sign. -/
theorem toBitVec_ofBitVec (bit : BitVec 1) : (Sign.ofBitVec bit).toBitVec = bit := by
  revert bit
  decide

/-- A word is made up of its sign, its exponent and its mantissa. -/
theorem packComponents_parts :
    packComponents .binary64 (Sign.ofBitVec (unpackSign word)) (unpackExponent word)
      (unpackMantissa word) = word := by
  rw [packComponents, toBitVec_ofBitVec]
  refine BitVec.eq_of_getElem_eq fun place inside => ?_
  simp only [unpackSign, unpackExponent, unpackMantissa, BitVec.getElem_append, BitVec.getElem_cast,
    BitVec.extractLsb, BitVec.getElem_extractLsb']
  grind

/-- A word is made up of its sign and of what its exponent and its mantissa are. -/
theorem packComponents_eq {word : BitVec Format.binary64.numBits} {exponent : BitVec 11}
    {mantissa : BitVec 52} (hasExponent : unpackExponent word = exponent)
    (hasMantissa : unpackMantissa word = mantissa) :
    packComponents .binary64 (Sign.ofBitVec (unpackSign word)) exponent mantissa = word := by
  rw [← hasExponent, ← hasMantissa, packComponents_parts]

/-- The implicit bit stands above the others. -/
theorem toNat_one_append (mantissa : BitVec 52) :
    (1#1 ++ mantissa).toNat = 2 ^ 52 + mantissa.toNat := by
  rw [BitVec.toNat_append, ← Nat.shiftLeft_add_eq_or_of_lt mantissa.isLt]
  rfl

/-- A finite double with the given biased exponent is packed as a normal or as a subnormal one,
which its mantissa decides. -/
theorem pack_finite (sign : Sign) {mantissa biased : Nat} (positive : 0 < mantissa)
    (finite : biased < 2047) :
    UnpackedFloat.pack .binary64 (.finite sign mantissa (biased - 1075) positive) =
      if mantissa.log2 = 52 then
        packComponents .binary64 sign (BitVec.ofNat 11 biased) (BitVec.ofNat 52 mantissa)
      else packComponents .binary64 sign 0#11 (BitVec.ofNat 52 mantissa) := by
  have bias : Format.binary64.exponentBias = 1023 := rfl
  have bits : Format.binary64.mantissaBits = 53 := rfl
  have exponent : ((biased : Int) - 1075 + Format.binary64.exponentBias +
      Format.binary64.mantissaBitsWithoutImplicit).toNat = biased := by
    rw [bias]
    dsimp only
    omega
  unfold UnpackedFloat.pack
  dsimp only
  rw [exponent, if_neg (show ¬ 2 ^ 11 ≤ biased + 1 by omega), bits]
  simp only [Nat.succ_inj]

/-- A subnormal mantissa has no implicit bit. -/
theorem log2_ne_of_lt {mantissa : Nat} (small : mantissa < 2 ^ 52) : mantissa.log2 ≠ 52 := by
  intro large
  by_cases zero : mantissa = 0
  · rw [zero, Nat.log2_zero] at large
    cases large
  · have := (Nat.log2_eq_iff zero).mp large
    omega

/-- A word that is valid is packed again from its parts. -/
theorem pack_unpack_word (valid : Format.binary64.Valid word) :
    UnpackedFloat.pack .binary64 (UnpackedFloat.unpack .binary64 word) = word := by
  have bias : Format.binary64.exponentBias = 1023 := rfl
  have exponentLt : (unpackExponent word).toNat < 2 ^ 11 := (unpackExponent word).isLt
  have mantissaLt : (unpackMantissa word).toNat < 2 ^ 52 := (unpackMantissa word).isLt
  unfold UnpackedFloat.unpack
  dsimp only
  rw [bias]
  split
  case isTrue top =>
    split
    case isTrue none => exact packComponents_eq top none
    case isFalse some => exact (valid.eq_packedNaN top some).symm
  case isFalse notTop =>
    split
    case isTrue bottom =>
      split
      case isTrue none => exact packComponents_eq bottom none
      case isFalse some =>
        -- a subnormal number, with the exponent of the smallest normal ones
        have positive : 0 < (unpackMantissa word).toNat :=
          Nat.pos_of_ne_zero fun none => some (BitVec.eq_of_toNat_eq none)
        rw [bottom]
        refine (pack_finite _ positive (show 1 < 2047 by omega)).trans ?_
        rw [if_neg (log2_ne_of_lt mantissaLt), BitVec.ofNat_toNat, BitVec.setWidth_eq]
        exact packComponents_eq bottom rfl
    case isFalse notBottom =>
      -- a normal number, with an implicit bit
      have implicit := toNat_one_append (unpackMantissa word)
      have notLast : (unpackExponent word).toNat ≠ 2047 := fun last =>
        notTop (BitVec.eq_of_toNat_eq last)
      have log2 : (1#1 ++ unpackMantissa word).toNat.log2 = 52 := by
        rw [Nat.log2_eq_iff (by omega)]
        omega
      refine (pack_finite _ _ (show (unpackExponent word).toNat < 2047 by omega)).trans ?_
      rw [if_pos log2, BitVec.ofNat_toNat, BitVec.setWidth_eq]
      refine packComponents_eq rfl (BitVec.eq_of_toNat_eq ?_)
      rw [BitVec.toNat_ofNat, implicit]
      exact ((Nat.add_mod_left (2 ^ 52) _).trans (Nat.mod_eq_of_lt mantissaLt)).symm

end Pack

/-- A double is packed again from its parts. -/
theorem pack_unpack (number : Float.Model) : Float.Model.pack number.unpack = number := by
  obtain ⟨⟨word⟩, valid⟩ := number
  have packed := pack_unpack_word word valid
  simp only [Float.Model.pack, Float.Model.unpack, packed]

/-- A zero is unpacked again after it has been packed. -/
theorem unpack_pack_zero (sign : Sign) : (Float.Model.pack (.zero sign)).unpack = .zero sign := by
  cases sign <;> rfl

/-! ## Zeros -/

/-- A double that is a zero, of either sign. -/
def IsZero (number : Float) : Prop :=
  (number == 0) = true

instance (number : Float) : Decidable (IsZero number) :=
  inferInstanceAs (Decidable ((number == 0) = true))

/-- Two doubles that are the same but for the sign of a zero. -/
def SameButSign (first second : Float) : Prop :=
  first = second ∨ IsZero first ∧ IsZero second

variable {zero other number : Float}

/-- The literal is a zero. -/
theorem isZero_zero : IsZero 0 := by
  decide +kernel

/-- What a zero is unpacked to. -/
theorem isZero_iff : IsZero number ↔ ∃ sign, number.toModel.unpack = .zero sign := by
  have compares : IsZero number ↔ (number.toModel.unpack.beq (.zero .positive)) = true := Iff.rfl
  rw [compares]
  cases number.toModel.unpack with
  | zero sign => exact ⟨fun _ => ⟨sign, rfl⟩, fun _ => rfl⟩
  | notANumber => exact ⟨nofun, nofun⟩
  | infinity sign | finite sign => cases sign <;> exact ⟨nofun, nofun⟩

/-- A double that a zero has been packed to is a zero. -/
theorem isZero_of_pack {model : Float.Model} {sign : Sign} (packed : model = .pack (.zero sign)) :
    IsZero (.ofModel model) :=
  isZero_iff.mpr ⟨sign, by rw [packed, unpack_pack_zero]⟩

/-- What a finite double is unpacked to. -/
theorem unpack_of_isFinite (finite : number.isFinite = true) :
    (∃ sign, number.toModel.unpack = .zero sign) ∨
      ∃ sign mantissa exponent positive,
        number.toModel.unpack = .finite sign mantissa exponent positive := by
  have isFinite : number.toModel.unpack.isFinite = true := finite
  cases unpacked : number.toModel.unpack with
  | zero sign => exact .inl ⟨sign, rfl⟩
  | finite sign mantissa exponent positive => exact .inr ⟨sign, mantissa, exponent, positive, rfl⟩
  | notANumber | infinity =>
      rw [unpacked] at isFinite
      cases isFinite

/-- The sum of two zeros is a zero. -/
theorem IsZero.add (isZero : IsZero zero) (otherIsZero : IsZero other) : IsZero (zero + other) := by
  obtain ⟨sign, unpacked⟩ := isZero_iff.mp isZero
  obtain ⟨otherSign, otherUnpacked⟩ := isZero_iff.mp otherIsZero
  have sum : (zero + other).toModel =
      .pack (.add .binary64 zero.toModel.unpack other.toModel.unpack) := rfl
  rw [unpacked, otherUnpacked] at sum
  cases sign <;> cases otherSign <;> exact isZero_of_pack sum

/-- The difference of two zeros is a zero. -/
theorem IsZero.sub (isZero : IsZero zero) (otherIsZero : IsZero other) : IsZero (zero - other) := by
  obtain ⟨sign, unpacked⟩ := isZero_iff.mp isZero
  obtain ⟨otherSign, otherUnpacked⟩ := isZero_iff.mp otherIsZero
  have difference : (zero - other).toModel =
      .pack (.sub .binary64 zero.toModel.unpack other.toModel.unpack) := rfl
  rw [unpacked, otherUnpacked] at difference
  cases sign <;> cases otherSign <;> exact isZero_of_pack difference

/-- The product of a zero and a finite double is a zero. -/
theorem IsZero.mul (isZero : IsZero zero) (finite : number.isFinite = true) :
    IsZero (zero * number) := by
  obtain ⟨sign, unpacked⟩ := isZero_iff.mp isZero
  have product : (zero * number).toModel =
      .pack (.mul .binary64 zero.toModel.unpack number.toModel.unpack) := rfl
  rcases unpack_of_isFinite finite with ⟨numberSign, shape⟩ | ⟨numberSign, _, _, _, shape⟩
  all_goals
    rw [unpacked, shape] at product
    exact isZero_of_pack product

/-- The quotient of a zero by a finite double other than zero is a zero. -/
theorem IsZero.div (isZero : IsZero zero) (finite : number.isFinite = true)
    (notZero : ¬ IsZero number) : IsZero (zero / number) := by
  obtain ⟨sign, unpacked⟩ := isZero_iff.mp isZero
  have quotient : (zero / number).toModel =
      .pack (.div .binary64 zero.toModel.unpack number.toModel.unpack) := rfl
  rcases unpack_of_isFinite finite with ⟨numberSign, shape⟩ | ⟨numberSign, _, _, _, shape⟩
  · exact absurd (isZero_iff.mpr ⟨numberSign, shape⟩) notZero
  · rw [unpacked, shape] at quotient
    exact isZero_of_pack quotient

/-- A zero that is added to a double leaves it as it is, but for the sign of a zero. -/
theorem IsZero.sameButSign_add (isZero : IsZero zero) : SameButSign number (number + zero) := by
  by_cases numberIsZero : IsZero number
  · exact .inr ⟨numberIsZero, numberIsZero.add isZero⟩
  · obtain ⟨sign, unpacked⟩ := isZero_iff.mp isZero
    have sum : number + zero =
        .ofModel (.pack (.add .binary64 number.toModel.unpack zero.toModel.unpack)) := rfl
    rw [unpacked] at sum
    have same : UnpackedFloat.add .binary64 number.toModel.unpack (.zero sign) =
        number.toModel.unpack := by
      cases shape : number.toModel.unpack with
      | zero numberSign => exact absurd (isZero_iff.mpr ⟨numberSign, shape⟩) numberIsZero
      | notANumber | infinity | finite => rfl
    rw [same, pack_unpack] at sum
    exact .inl sum.symm

end Number

end LineRobot
