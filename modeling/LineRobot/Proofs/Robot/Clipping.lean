import LineRobot.Proofs.Number.Exact
import LineRobot.Robot.Canvas

/-! # Clipped ranges of pixels

A range of pixels is found with a floor, a ceiling, a larger, a smaller and two casts. It comes to a
test of each single pixel (`PixelRange.contains_covering`): a pixel is in the range unless it ends
at or before the lower end, or begins at or after the upper one. For ends that are numbers, this is
that the pixel overlaps the interval between them (`PixelRange.meets_eq_overlaps`).

An end that is no number is compared with nothing, and so it does not bound the range: the larger
and the smaller of two doubles pass over it, before the range asks whether its ends are numbers. -/

namespace LineRobot

open Number

namespace PixelRange

/-! ## The ends of a range -/

/-- The double at which a range begins. -/
def lowerEnd (low : Float) : Float :=
  larger (rounded .down low) 0

/-- The double before which a range ends. -/
def upperEnd (high : Float) (limit : Nat) : Float :=
  smaller (rounded .up high) (Float.ofNat limit)

/-- A range goes from its lower end to its upper end, if that is above. -/
theorem covering_eq (low high : Float) (limit : Nat) :
    covering low high limit =
      if (lowerEnd low).isNaN || (upperEnd high limit).isNaN || upperEnd high limit ≤
        lowerEnd low then ⟨0, 0⟩
      else ⟨(integer .towardZero (lowerEnd low)).toNat,
        (integer .towardZero (upperEnd high limit)).toNat⟩ :=
  rfl

/-- No pixel is in a range that is empty. -/
theorem contains_empty (pixel : Nat) : contains ⟨0, 0⟩ pixel = false := by
  rw [contains, decide_eq_false (Nat.not_lt_zero pixel), Bool.and_false]

/-- The lower end is a natural number, from which on the pixels end after the given double; or it is
infinite, and no pixel ends after the given double. -/
theorem lowerEnd_cases (low : Float) :
    (∃ first : Nat, IsExactly (lowerEnd low) first ∧
      ∀ pixel, pixel + 1 < 2 ^ 53 → (first ≤ pixel ↔ ¬ Float.ofNat (pixel + 1) ≤ low)) ∨
    ((lowerEnd low).toModel.unpack = .infinity .positive ∧
      ∀ pixel, pixel + 1 < 2 ^ 53 → Float.ofNat (pixel + 1) ≤ low) := by
  have zero : IsExactly 0 ((0 : Nat) : ℚ) := isExactly_ofNat (Nat.two_pow_pos 53)
  rcases isFinite_or low with finite | ⟨sign, infinite⟩ | none
  · refine .inl ⟨⌊value low⌋.toNat, ?_, fun pixel small => ?_⟩
    · have exactly := (isExactly_rounded_down finite).larger zero
      rwa [Nat.cast_zero, ← Int.cast_zero, ← Int.cast_max, ← Int.toNat_eq_max,
        Int.cast_natCast] at exactly
    · rw [(isExactly_ofNat small).le_iff ⟨finite, rfl⟩, not_le, Int.toNat_le, Int.floor_le_iff]
      push_cast
      rfl
  · have notFinite : low.isFinite = false := by
      show low.toModel.unpack.isFinite = false
      rw [infinite]
      rfl
    have compared {pixel : Nat} (small : pixel + 1 < 2 ^ 53) :=
      compare_infinity_right (isExactly_ofNat small).finite infinite
    rw [lowerEnd, rounded_of_not_isFinite .down notFinite, larger_infinity infinite zero.finite]
    cases sign with
    | positive =>
        refine .inr ⟨infinite, fun pixel small => ?_⟩
        rw [le_iff_compare, compared small]
        rfl
    | negative =>
        refine .inl ⟨0, zero, fun pixel small => iff_of_true (Nat.zero_le pixel) ?_⟩
        rw [le_iff_compare, compared small]
        exact Bool.false_ne_true
  · -- a NaN is no bound: the larger of it and zero is zero, and no comparison with it holds
    have isNaN := isNaN_iff.mpr none
    have same : rounded .down low = low := by rw [rounded, Binary64.of, none]
    rw [lowerEnd, same, larger_of_isNaN isNaN]
    refine .inl ⟨0, zero, fun pixel small => iff_of_true (Nat.zero_le pixel) ?_⟩
    rw [le_iff_compare, compare_of_isNaN (.inr isNaN)]
    exact Bool.false_ne_true

/-- The upper end is an integer, before which the pixels begin before the given double; or it is
infinite, and no pixel begins before the given double. -/
theorem upperEnd_cases (high : Float) {limit : Nat} (small : limit < 2 ^ 53) :
    (∃ stop : ℤ, IsExactly (upperEnd high limit) stop ∧ stop ≤ limit ∧
      ∀ pixel < limit, (pixel < stop ↔ ¬ high ≤ Float.ofNat pixel)) ∨
    ((upperEnd high limit).toModel.unpack = .infinity .negative ∧
      ∀ pixel < limit, high ≤ Float.ofNat pixel) := by
  have last := isExactly_ofNat small
  rcases isFinite_or high with finite | ⟨sign, infinite⟩ | none
  · refine .inl ⟨min ⌈value high⌉ limit, ?_, min_le_right _ _, fun pixel inside => ?_⟩
    · have exactly := (isExactly_rounded_up finite).smaller last
      rwa [← Int.cast_natCast limit, ← Int.cast_min] at exactly
    · have first := isExactly_ofNat (inside.trans small)
      rw [IsExactly.le_iff ⟨finite, rfl⟩ first, not_le, lt_min_iff, Int.lt_ceil, Int.cast_natCast]
      exact and_iff_left (by exact_mod_cast inside)
  · have notFinite : high.isFinite = false := by
      show high.toModel.unpack.isFinite = false
      rw [infinite]
      rfl
    have compared {pixel : Nat} (inside : pixel < limit) :=
      compare_infinity_left infinite (isExactly_ofNat (inside.trans small)).finite
    rw [upperEnd, rounded_of_not_isFinite .up notFinite, smaller_infinity infinite last.finite]
    cases sign with
    | negative =>
        refine .inr ⟨infinite, fun pixel inside => ?_⟩
        rw [le_iff_compare, compared inside]
        rfl
    | positive =>
        refine .inl ⟨limit, last, le_rfl, fun pixel inside =>
          iff_of_true (by exact_mod_cast inside) ?_⟩
        rw [le_iff_compare, compared inside]
        exact Bool.false_ne_true
  · -- likewise the smaller of a NaN and the limit is the limit
    have isNaN := isNaN_iff.mpr none
    have same : rounded .up high = high := by rw [rounded, Binary64.of, none]
    rw [upperEnd, same, smaller_of_isNaN isNaN]
    refine .inl ⟨limit, last, le_rfl, fun pixel inside => iff_of_true (by exact_mod_cast inside) ?_⟩
    rw [le_iff_compare, compare_of_isNaN (.inl isNaN)]
    exact Bool.false_ne_true

/-! ## Ranges -/

/-- Whether a pixel neither ends at or before the lower end nor begins at or after the upper one. -/
def meets (low high : Float) (pixel : Nat) : Bool :=
  !decide (Float.ofNat (pixel + 1) ≤ low) && !decide (high ≤ Float.ofNat pixel)

/-- Whether a pixel ends after the lower end and begins before the upper one. -/
def overlaps (low high : Float) (pixel : Nat) : Bool :=
  decide (low < Float.ofNat (pixel + 1)) && decide (Float.ofNat pixel < high)

section Covering

variable {low high : Float} {limit pixel : Nat}

/-- A range between ends that are integers has the pixels from the one to before the other. -/
theorem covering_of_isExactly {first : Nat} {stop : ℤ} (lower : IsExactly (lowerEnd low) first)
    (upper : IsExactly (upperEnd high limit) stop) :
    covering low high limit = if stop ≤ first then ⟨0, 0⟩ else ⟨first, stop.toNat⟩ := by
  have integral : IsExactly (lowerEnd low) (first : ℤ) := by rwa [Int.cast_natCast]
  rw [covering_eq, isNaN_of_isFinite lower.finite, isNaN_of_isFinite upper.finite,
    integral.integer_eq, upper.integer_eq, Int.toNat_natCast]
  refine if_congr ?_ rfl rfl
  rw [Bool.false_or, Bool.false_or, decide_eq_true_iff, upper.le_iff integral, Int.cast_le]

/-- A range whose upper end is not above its lower end is empty. -/
theorem covering_of_le (inverted : upperEnd high limit ≤ lowerEnd low) :
    covering low high limit = ⟨0, 0⟩ := by
  rw [covering_eq, decide_eq_true inverted, Bool.or_true, if_pos rfl]

/-- A range stays within its limit, and has just the pixels that meet its interval. -/
theorem covering_spec (low high : Float) (small : limit < 2 ^ 53) :
    (covering low high limit).stop ≤ limit ∧
      ∀ pixel < limit, (covering low high limit).contains pixel = meets low high pixel := by
  rcases lowerEnd_cases low with ⟨first, lower, above⟩ | ⟨lower, above⟩
  · rcases upperEnd_cases high small with ⟨stop, upper, bounded, below⟩ | ⟨upper, below⟩
    · -- both ends are integers
      rw [covering_of_isExactly lower upper]
      constructor
      · split
        · exact Nat.zero_le limit
        · exact Int.toNat_le.mpr bounded
      · intro pixel inside
        have inRange :
            meets low high pixel = (decide (first ≤ pixel) && decide (pixel < stop)) := by
          rw [meets, ← decide_not, ← decide_not, decide_eq_decide.mpr (above pixel (by omega)),
            decide_eq_decide.mpr (below pixel inside)]
        rw [inRange, contains]
        grind
    · have inverted : upperEnd high limit ≤ lowerEnd low := by
        rw [le_iff_compare, compare_infinity_left upper lower.finite]
        rfl
      rw [covering_of_le inverted]
      refine ⟨Nat.zero_le limit, fun pixel inside => ?_⟩
      rw [contains_empty, meets, decide_eq_true (below pixel inside), Bool.not_true, Bool.and_false]
  · -- no pixel ends after an infinite lower end
    have inverted : upperEnd high limit ≤ lowerEnd low := by
      rw [le_iff_compare]
      rcases upperEnd_cases high small with ⟨stop, upper, -⟩ | ⟨upper, -⟩
      · rw [compare_infinity_right upper.finite lower]
        rfl
      · rw [upper, lower]
        rfl
    rw [covering_of_le inverted]
    refine ⟨Nat.zero_le limit, fun pixel inside => ?_⟩
    rw [contains_empty, meets, decide_eq_true (above pixel (by omega)), Bool.not_true,
      Bool.false_and]

/-- A range stays within its limit. -/
theorem stop_covering_le (low high : Float) (small : limit < 2 ^ 53) :
    (covering low high limit).stop ≤ limit :=
  (covering_spec low high small).1

/-- A range has just the pixels that meet its interval. -/
theorem contains_covering (low high : Float) (small : limit < 2 ^ 53) (inside : pixel < limit) :
    (covering low high limit).contains pixel = meets low high pixel :=
  (covering_spec low high small).2 pixel inside

/-- A pixel meets an interval between numbers just if it overlaps it. -/
theorem meets_eq_overlaps (lowIsNumber : low.isNaN = false) (highIsNumber : high.isNaN = false)
    (small : pixel + 1 < 2 ^ 53) : meets low high pixel = overlaps low high pixel := by
  have first := isNaN_of_isFinite (isExactly_ofNat ((Nat.lt_succ_self pixel).trans small)).finite
  have next := isNaN_of_isFinite (isExactly_ofNat small).finite
  rw [meets, overlaps, ← decide_not, ← decide_not,
    decide_eq_decide.mpr (not_le_iff_lt next lowIsNumber),
    decide_eq_decide.mpr (not_le_iff_lt highIsNumber first)]

end Covering

end PixelRange

end LineRobot
