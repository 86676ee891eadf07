import LineRobot.Machine.Value
import LineRobot.Proofs.Number.Words

/-! # Bit operators

The bit operators work on the 32-bit words that their operands are wrapped to. What they give is
said here of integers: of the digits of two's complement, which go on to the left with the sign, and
of products and quotients by powers of two (`BitOperatorsAgree`). It holds for all doubles, whether
they are integers or not, large, infinite or no numbers (`bitOperatorsAgree_wrapped`).

The results are words again. As doubles they are exact and are wrapped to themselves
(`Value.isWord_ofWord`), so bit operators can be put one around the other without a loss. -/

namespace LineRobot

open Number

/-! ## Digits of words -/

namespace Word

section Digits

variable {width : Nat}

/-- The digits of a word are those of its signed value, which goes on with the first of them. -/
theorem testBit_toInt (word : BitVec width) (place : Nat) :
    word.toInt.testBit place = if place < width then word.getLsbD place else word.msb := by
  rw [BitVec.toInt_eq_msb_cond]
  split
  case isTrue negative =>
    -- a negative integer has the opposite digits of the
    -- natural number that counts down from minus one
    have small := word.isLt
    have shape : (word.toNat : ℤ) - (2 ^ width : Nat) =
        Int.negSucc (2 ^ width - (word.toNat + 1)) := by omega
    rw [shape, Int.testBit, Nat.testBit_two_pow_sub_succ small, negative]
    by_cases inside : place < width <;> simp [inside, BitVec.getLsbD]
  case isFalse nonneg =>
    have digits : (word.toNat : ℤ).testBit place = word.getLsbD place := rfl
    rw [digits, Bool.eq_false_of_not_eq_true nonneg]
    split
    case isTrue => rfl
    case isFalse outside => exact BitVec.getLsbD_of_ge word place (Nat.le_of_not_lt outside)

/-- A digit of the conjunction is set if both digits are. -/
theorem testBit_toInt_and (first second : BitVec width) (place : Nat) :
    (first &&& second).toInt.testBit place =
      (first.toInt.testBit place && second.toInt.testBit place) := by
  simp only [testBit_toInt, BitVec.getLsbD_and, BitVec.msb_and]
  split <;> rfl

/-- A digit of the disjunction is set if one of the digits is. -/
theorem testBit_toInt_or (first second : BitVec width) (place : Nat) :
    (first ||| second).toInt.testBit place =
      (first.toInt.testBit place || second.toInt.testBit place) := by
  simp only [testBit_toInt, BitVec.getLsbD_or, BitVec.msb_or]
  split <;> rfl

/-- A digit of the exclusive disjunction is set if just one of the digits is. -/
theorem testBit_toInt_xor (first second : BitVec width) (place : Nat) :
    (first ^^^ second).toInt.testBit place =
      (first.toInt.testBit place ^^ second.toInt.testBit place) := by
  simp only [testBit_toInt, BitVec.getLsbD_xor, BitVec.msb_xor]
  split <;> rfl

end Digits

/-- The complement is the distance from minus one. -/
theorem toInt_complement (word : Int32) : (~~~word).toInt = -word.toInt - 1 := by
  have low := word.le_toInt
  have high := word.toInt_lt
  rw [Int32.toInt_not]
  exact Int.bmod_eq_of_le (by omega) (by omega)

/-! ## Shifts -/

/-- By how many places a shift by an integer goes: by its remainder modulo 32, also for a negative
one. -/
def shiftPlaces (integer : ℤ) : Nat :=
  (integer % 32).toNat

/-- The remainder of a word modulo 32 has the sign of the divisor. -/
theorem toNat_smod (word : BitVec 32) : (word.smod 32).toNat = shiftPlaces word.toInt := by
  have same : (word.smod 32).toInt = word.toInt % 32 := by
    rw [BitVec.toInt_smod]
    exact Int.fmod_eq_emod_of_nonneg _ (by decide)
  -- a remainder below 32 is the same number without a sign
  rw [BitVec.toInt_eq_toNat_cond] at same
  rw [shiftPlaces]
  split at same <;> omega

/-- A shift to the left multiplies by a power of two, modulo `2 ^ 32`. -/
theorem toInt_shiftLeft (left right : Int32) :
    (left <<< right).toInt ≡ left.toInt * 2 ^ shiftPlaces right.toInt [ZMOD 2 ^ 32] := by
  have word : left.toBitVec.toNat ≡ left.toBitVec.toInt [ZMOD 2 ^ 32] := by
    rw [BitVec.toInt_eq_toNat_bmod]
    exact Int.bmod_emod.symm
  show (left <<< right).toBitVec.toInt ≡ left.toBitVec.toInt * 2 ^ shiftPlaces right.toBitVec.toInt
    [ZMOD 2 ^ 32]
  rw [Int32.toBitVec_shiftLeft, BitVec.shiftLeft_eq', toNat_smod, BitVec.toInt_shiftLeft,
    Nat.shiftLeft_eq]
  push_cast
  exact Int.bmod_emod.trans (word.mul_right _)

/-- A shift to the right divides by a power of two, downwards. -/
theorem toInt_shiftRight (left right : Int32) :
    (left >>> right).toInt = left.toInt / 2 ^ shiftPlaces right.toInt := by
  show (left >>> right).toBitVec.toInt = left.toBitVec.toInt / 2 ^ shiftPlaces right.toBitVec.toInt
  rw [Int32.toBitVec_shiftRight, BitVec.sshiftRight', toNat_smod, BitVec.toInt_sshiftRight,
    Int.shiftRight_eq_div_pow]
  push_cast
  rfl

end Word

/-! ## Values that are words -/

namespace Value

/-- The value is an integer in the range of 32-bit words, and is wrapped to itself. -/
structure IsWord (value : Float) (integer : ℤ) : Prop where
  /-- The value is just the integer. -/
  exactly : IsExactly value integer
  /-- The integer is not below the least word. -/
  low : -2 ^ 31 ≤ integer
  /-- The integer is not above the greatest word. -/
  high : integer < 2 ^ 31
  /-- The value is wrapped to the integer. -/
  toInt_wrapped : (wrapped value).toInt = integer

/-- A word as a value is a word. -/
theorem isWord_ofWord (word : Int32) : IsWord (ofWord word) word.toInt := by
  have low := word.le_toInt
  have high := word.toInt_lt
  have exactly : IsExactly (ofWord word) word.toInt := isExactly_ofInt (by omega)
  refine ⟨exactly, low, high, ?_⟩
  rw [wrapped_of_isFinite exactly.finite, exactly.value_eq, truncated_intCast, Int32.ofInt_toInt]

end Value

/-! ## Bit operators -/

open Value Word

/-- The operator has a value, which is a word with the given property. -/
def Operator.GivesWord (operator : Operator) (left right : Float) (property : ℤ → Prop) : Prop :=
  ∃ result integer, operator.apply left right = some result ∧ IsWord result integer ∧
    property integer

/-- The bit operators on two values give the words that belong to the two integers. -/
structure BitOperatorsAgree (left right : Float) (first second : ℤ) : Prop where
  /-- The complement has all digits of the first integer the other way. -/
  complement : IsWord (UnaryOperator.complement.apply left) (-first - 1)
  /-- A digit is set if both digits are. -/
  bitAnd : Operator.bitAnd.GivesWord left right fun integer =>
    ∀ place, integer.testBit place = (first.testBit place && second.testBit place)
  /-- A digit is set if one of the digits is. -/
  bitOr : Operator.bitOr.GivesWord left right fun integer =>
    ∀ place, integer.testBit place = (first.testBit place || second.testBit place)
  /-- A digit is set if just one of the digits is. -/
  bitXor : Operator.bitXor.GivesWord left right fun integer =>
    ∀ place, integer.testBit place = (first.testBit place ^^ second.testBit place)
  /-- A shift to the left multiplies by a power of two, modulo `2 ^ 32`. -/
  shiftLeft : Operator.shiftLeft.GivesWord left right fun integer =>
    integer ≡ first * 2 ^ shiftPlaces second [ZMOD 2 ^ 32]
  /-- A shift to the right divides by a power of two, downwards. -/
  shiftRight : Operator.shiftRight.GivesWord left right fun integer =>
    integer = first / 2 ^ shiftPlaces second

/-- An operator that gives a word gives one with the properties of that. -/
theorem Operator.givesWord {operator : Operator} {left right : Float} {word : Int32}
    {property : ℤ → Prop} (gives : operator.apply left right = some (ofWord word))
    (holds : property word.toInt) :
    operator.GivesWord left right property :=
  ⟨ofWord word, word.toInt, gives, isWord_ofWord word, holds⟩

/-- **The bit operators calculate on 32-bit words.** Each double wraps to just one integer, and for
all operands the bit operators give what belongs to the integers that these wrap to. -/
theorem bitOperatorsAgree_wrapped :
    (∀ value integer, WrapsTo value integer ↔ integer = (wrapped value).toInt) ∧
      ∀ left right, BitOperatorsAgree left right (wrapped left).toInt (wrapped right).toInt := by
  refine ⟨fun value integer => wrapsTo_iff, fun left right => ?_⟩
  have complement := isWord_ofWord (~~~wrapped left)
  rw [toInt_complement] at complement
  exact {
    complement
    bitAnd := Operator.givesWord rfl (testBit_toInt_and _ _)
    bitOr := Operator.givesWord rfl (testBit_toInt_or _ _)
    bitXor := Operator.givesWord rfl (testBit_toInt_xor _ _)
    shiftLeft := Operator.givesWord rfl (toInt_shiftLeft _ _)
    shiftRight := Operator.givesWord rfl (toInt_shiftRight _ _) }

/-- A shift by minus one goes by 31 places. -/
example : Operator.shiftLeft.apply 1 (-1) = some (-2147483648) := by decide +kernel

end LineRobot
