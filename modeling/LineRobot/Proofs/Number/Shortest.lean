import LineRobot.Proofs.Number.Quotient

/-! # The shortest decimal of a double

The search for the shortest decimal of a double looks at coarser grids first and takes a point of
the first one that has a point in the interval of the double. The point after the value of the
double is in the interval, if the grid is finer than half a unit of the last binary place
(`Decimal.roundsTo_next`); the last grid that the search looks at is so fine. Hence the search comes
to a decimal that is read back to the double (`Decimal.roundsTo_shortest`). -/

namespace LineRobot.Decimal

open Number (IsCanonical RoundsTo reachBelow)

variable {significand : Nat} {exponent place : Int}

/-! ## Grids -/

/-- Whether a point of a grid lies in the interval of a double, in quarters of its last binary
place. -/
def hits (significand : Nat) (exponent place : Int) (digits : Nat) : Bool :=
  let quarters := 4 * significand
  let below := if significand = Nat.pow 2 52 ∧ -1074 < exponent then quarters - 1 else quarters - 2
  let above := quarters + 2
  let scale := Nat.pow 2 (exponent - 2).toNat * Nat.pow 10 (-place).toNat
  let point := digits * (Nat.pow 2 (2 - exponent).toNat * Nat.pow 10 place.toNat)
  if significand % 2 = 0 then decide (below * scale ≤ point ∧ point ≤ above * scale)
  else decide (below * scale < point ∧ point < above * scale)

/-- The number of points of a grid up to the value of a double. -/
def pointsUpTo (significand : Nat) (exponent place : Int) : Nat :=
  4 * significand * (2 ^ (exponent - 2).toNat * 10 ^ (-place).toNat) /
    (2 ^ (2 - exponent).toNat * 10 ^ place.toNat)

/-- A point that is found lies in the interval, and there is one if the point after the value
does. -/
theorem onGrid?_cases (significand : Nat) (exponent place : Int) :
    (∃ digits, onGrid? significand exponent place = some digits ∧
      hits significand exponent place digits = true) ∨
      onGrid? significand exponent place = none ∧
        hits significand exponent place (pointsUpTo significand exponent place + 1) = false := by
  have whole : onGrid? significand exponent place =
      let lower := pointsUpTo significand exponent place
      let value := 4 * significand * (2 ^ (exponent - 2).toNat * 10 ^ (-place).toNat)
      let unit := 2 ^ (2 - exponent).toNat * 10 ^ place.toNat
      if hits significand exponent place lower && hits significand exponent place (lower + 1) then
        some (if value - lower * unit < (lower + 1) * unit - value then lower else lower + 1)
      else if hits significand exponent place lower then some lower
      else if hits significand exponent place (lower + 1) then some (lower + 1)
      else none := rfl
  rw [whole]
  dsimp only
  cases low : hits significand exponent place (pointsUpTo significand exponent place) with
  | true =>
      cases high : hits significand exponent place (pointsUpTo significand exponent place + 1) with
      | true =>
          refine .inl ⟨_, if_pos rfl, ?_⟩
          split
          · exact low
          · exact high
      | false => exact .inl ⟨_, rfl, low⟩
  | false =>
      cases high : hits significand exponent place (pointsUpTo significand exponent place + 1) with
      | true => exact .inl ⟨_, rfl, high⟩
      | false => exact .inr ⟨rfl, rfl⟩

/-- The points of a grid and the quarters of the last binary place are counted in one unit. -/
theorem exists_common_unit (exponent place : Int) :
    ∃ common : ℚ, 0 < common ∧
      (∀ digits : Nat, ((digits * (2 ^ (2 - exponent).toNat * 10 ^ place.toNat) : Nat) : ℚ) =
        common * (digits * 10 ^ place)) ∧
      ∀ quarters : Nat, ((quarters * (2 ^ (exponent - 2).toNat * 10 ^ (-place).toNat) : Nat) : ℚ) =
        common * (quarters * 2 ^ (exponent - 2)) := by
  have twos := Number.pow_toNat_eq two_ne_zero (exponent - 2)
  rw [neg_sub] at twos
  refine ⟨2 ^ (2 - exponent).toNat * 10 ^ (-place).toNat, by
    positivity, fun digits => ?_, fun quarters => ?_⟩
  · push_cast
    rw [Number.pow_toNat_eq (by norm_num) place]
    ring
  · push_cast
    rw [twos]
    ring

/-- A point is not below some quarters just if it is not so as a number. -/
theorem quarters_le_iff (quarters digits : Nat) :
    quarters * (2 ^ (exponent - 2).toNat * 10 ^ (-place).toNat) ≤
        digits * (2 ^ (2 - exponent).toNat * 10 ^ place.toNat) ↔
      (quarters * 2 ^ (exponent - 2) : ℚ) ≤ digits * 10 ^ place := by
  obtain ⟨common, positive, points, steps⟩ := exists_common_unit exponent place
  rw [← Nat.cast_le (α := ℚ), points, steps, mul_le_mul_iff_of_pos_left positive]

/-- A point is not above some quarters just if it is not so as a number. -/
theorem le_quarters_iff (quarters digits : Nat) :
    digits * (2 ^ (2 - exponent).toNat * 10 ^ place.toNat) ≤
        quarters * (2 ^ (exponent - 2).toNat * 10 ^ (-place).toNat) ↔
      (digits * 10 ^ place : ℚ) ≤ quarters * 2 ^ (exponent - 2) := by
  obtain ⟨common, positive, points, steps⟩ := exists_common_unit exponent place
  rw [← Nat.cast_le (α := ℚ), points, steps, mul_le_mul_iff_of_pos_left positive]

/-- A unit of the last binary place has four quarters. -/
theorem zpow_eq_quarters (exponent : Int) : (2 : ℚ) ^ exponent = 4 * 2 ^ (exponent - 2) := by
  have split : (2 : ℚ) ^ exponent = 2 ^ (2 : Int) * 2 ^ (exponent - 2) := by
    rw [← zpow_add₀ two_ne_zero]
    congr 1
    ring
  rw [split]
  norm_num

/-- **A point lies in the interval of a double just if it is rounded to the double.** -/
theorem hits_iff (positive : 0 < significand) (digits : Nat) :
    hits significand exponent place digits = true ↔
      RoundsTo significand exponent (digits * 10 ^ place) := by
  have unit := zpow_eq_quarters exponent
  -- the ends of the interval in quarters
  have low :
      ((if significand = 2 ^ 52 ∧ -1074 < exponent then 4 * significand - 1
        else 4 * significand - 2 : Nat) *
      2 ^ (exponent - 2) : ℚ) = (significand - reachBelow significand exponent) * 2 ^ exponent := by
    rw [unit, reachBelow]
    split
    · rw [Nat.cast_sub (by omega)]
      push_cast
      ring
    · rw [Nat.cast_sub (by omega)]
      push_cast
      ring
  have high : ((4 * significand + 2 : Nat) * 2 ^ (exponent - 2) : ℚ) =
      (significand + 1 / 2) * 2 ^ exponent := by
    rw [unit]
    push_cast
    ring
  generalize least : (if significand = 2 ^ 52 ∧ -1074 < exponent then 4 * significand - 1
    else 4 * significand - 2 : Nat) = below at low
  have whole : hits significand exponent place digits =
      let scale := 2 ^ (exponent - 2).toNat * 10 ^ (-place).toNat
      let point := digits * (2 ^ (2 - exponent).toNat * 10 ^ place.toNat)
      if significand % 2 = 0 then decide (below * scale ≤ point ∧
        point ≤ (4 * significand + 2) * scale)
      else decide (below * scale < point ∧ point < (4 * significand + 2) * scale) := by
    rw [← least]
    rfl
  rw [whole, RoundsTo, ← low, ← high]
  dsimp only
  split
  case isTrue even =>
    rw [decide_eq_true_iff, quarters_le_iff, le_quarters_iff]
    exact ⟨fun inside => ⟨inside, .inl even⟩, And.left⟩
  case isFalse odd =>
    rw [decide_eq_true_iff, ← not_le, ← not_le, quarters_le_iff, le_quarters_iff, not_le, not_le]
    exact ⟨fun inside => ⟨⟨inside.1.le, inside.2.le⟩, .inr inside⟩, fun rounds =>
      rounds.2.resolve_left odd⟩

/-- **The point after the value of a double is rounded to it**, if the grid is finer than half a
unit of the last binary place. -/
theorem roundsTo_next (fine : (10 : ℚ) ^ place < 2 ^ (exponent - 1)) :
    RoundsTo significand exponent ((pointsUpTo significand exponent place + 1 : Nat) *
      10 ^ place) := by
  have unitPositive : 0 < 2 ^ (2 - exponent).toNat * 10 ^ place.toNat :=
    Nat.mul_pos (Nat.two_pow_pos _) (Nat.pow_pos (by decide))
  have upTo : (pointsUpTo significand exponent place * 10 ^ place : ℚ) ≤
      (4 * significand : Nat) * 2 ^ (exponent - 2) :=
    (le_quarters_iff _ _).mp (Nat.div_mul_le_self _ _)
  have after : ((4 * significand : Nat) * 2 ^ (exponent - 2) : ℚ) <
      (pointsUpTo significand exponent place + 1 : Nat) * 10 ^ place := by
    rw [← not_le, ← le_quarters_iff, not_le]
    exact Nat.lt_mul_of_div_lt (Nat.lt_succ_self _) unitPositive
  have number : (significand * 2 ^ exponent : ℚ) = 4 * significand * 2 ^ (exponent - 2) := by
    rw [zpow_eq_quarters]
    ring
  have half : (2 : ℚ) ^ (exponent - 1) = 2 * 2 ^ (exponent - 2) := by
    rw [← zpow_one_add₀ two_ne_zero]
    congr 1
    ring
  have quarter : (0 : ℚ) < 2 ^ (exponent - 2) := by positivity
  have reach : (0 : ℚ) < reachBelow significand exponent * 2 ^ exponent := by
    unfold reachBelow
    split <;> positivity
  push_cast at upTo after ⊢
  -- the point is above the value, and by less than a step of the grid
  have low : (significand - reachBelow significand exponent) * 2 ^ exponent <
      ((pointsUpTo significand exponent place + 1) * 10 ^ place : ℚ) := by
    rw [sub_mul, number]
    linarith
  have high : ((pointsUpTo significand exponent place + 1) * 10 ^ place : ℚ) <
      (significand + 1 / 2) * 2 ^ exponent := by
    rw [add_mul (significand : ℚ), number, zpow_eq_quarters exponent]
    linarith
  exact ⟨⟨low.le, high.le⟩, .inr ⟨low, high⟩⟩

/-! ## The search -/

/-- Grids are searched down to one that is fine enough. -/
theorem roundsTo_search (positive : 0 < significand) {tries : Nat}
    (fine : (10 : ℚ) ^ (place - tries) < 2 ^ (exponent - 1)) :
    RoundsTo significand exponent (search significand exponent (tries + 1) place).value ∧
      place - tries ≤ (search significand exponent (tries + 1) place).place ∧
      (search significand exponent (tries + 1) place).place ≤ place := by
  induction tries generalizing place with
  | zero =>
      rw [Nat.cast_zero, sub_zero] at fine
      rw [search]
      rcases onGrid?_cases significand exponent place with ⟨digits, found, hit⟩ | ⟨_, missed⟩
      · rw [found]
        exact ⟨(hits_iff positive digits).mp hit, by simp, le_rfl⟩
      · rw [(hits_iff positive _).mpr (roundsTo_next fine)] at missed
        cases missed
  | succ tries ih =>
      rw [search]
      rcases onGrid?_cases significand exponent place with ⟨digits, found, hit⟩ | ⟨missed, -⟩
      · rw [found]
        exact ⟨(hits_iff positive digits).mp hit, by dsimp only; omega, le_rfl⟩
      · rw [missed]
        dsimp only
        rw [Nat.cast_succ, add_comm (tries : Int) 1, ← sub_sub] at fine
        obtain ⟨rounds, low, high⟩ := ih fine
        exact ⟨rounds, by push_cast; omega, by omega⟩

/-- A power of ten below a power of two, in whole numbers. -/
theorem tens_lt_twos_of_whole {places exponent : Int}
    (whole : 10 ^ places.toNat * 2 ^ (-exponent).toNat <
      10 ^ (-places).toNat * 2 ^ exponent.toNat) :
    (10 : ℚ) ^ places < 2 ^ exponent := by
  have exact : (10 ^ places.toNat * 2 ^ (-exponent).toNat : ℚ) <
      10 ^ (-places).toNat * 2 ^ exponent.toNat := by
    exact_mod_cast whole
  have tens := Number.pow_toNat_eq (by norm_num : (10 : ℚ) ≠ 0) places
  have twos := Number.pow_toNat_eq (two_ne_zero : (2 : ℚ) ≠ 0) exponent
  have positive : (0 : ℚ) < 10 ^ (-places).toNat * 2 ^ (-exponent).toNat := by positivity
  refine lt_of_mul_lt_mul_left ?_ positive.le
  calc (10 ^ (-places).toNat * 2 ^ (-exponent).toNat * 10 ^ places : ℚ)
      = 10 ^ places.toNat * 2 ^ (-exponent).toNat := by rw [tens]; ring
    _ < 10 ^ (-places).toNat * 2 ^ exponent.toNat := exact
    _ = 10 ^ (-places).toNat * 2 ^ (-exponent).toNat * 2 ^ exponent := by rw [twos]; ring

/-- The last grid of the search for a double of any exponent is fine enough. -/
theorem last_grid_fine (exponent : Int) (least : -1074 ≤ exponent) (greatest : exponent ≤ 971) :
    (10 : ℚ) ^ ((52 + exponent) * 30103 / 100000 - 21) < 2 ^ (exponent - 1) := by
  have all : ∀ index : Fin 2046,
      let exponent : Int := (index.val : Int) - 1074
      let places := (52 + exponent) * 30103 / 100000 - 21
      10 ^ places.toNat * 2 ^ (-(exponent - 1)).toNat <
        10 ^ (-places).toNat * 2 ^ (exponent - 1).toNat := by
    decide +kernel
  obtain ⟨index, rfl⟩ : ∃ index : Nat, exponent = index - 1074 :=
    ⟨(exponent + 1074).toNat, by omega⟩
  exact tens_lt_twos_of_whole (all ⟨index, by omega⟩)

/-- **The shortest decimal of a double is rounded to it**, and its last place is not far out. -/
theorem roundsTo_shortest (canonical : Number.IsCanonical significand exponent) :
    RoundsTo significand exponent (shortest significand exponent).value ∧
      -2000 ≤ (shortest significand exponent).place := by
  have few : significand.log2 ≤ 52 :=
    Nat.le_of_lt_succ ((Nat.log2_lt (Nat.ne_of_gt canonical.positive)).mpr canonical.small)
  have least := canonical.least
  have greatest := canonical.greatest
  rw [shortest, if_neg (Nat.ne_of_gt canonical.positive), Int.fdiv_eq_ediv_of_nonneg _ (by decide)]
  generalize start : ((significand.log2 : Int) + exponent) * 30103 / 100000 + 2 = first
  have fine : (10 : ℚ) ^ (first - (23 : Nat)) < 2 ^ (exponent - 1) := by
    refine lt_of_le_of_lt (zpow_le_zpow_right₀ (by norm_num) ?_)
      (last_grid_fine exponent least greatest)
    omega
  obtain ⟨rounds, low, -⟩ := roundsTo_search canonical.positive fine
  exact ⟨rounds, le_trans (by omega) low⟩

/-- A number that is rounded to a double other than zero is not zero. -/
theorem digits_pos_of_roundsTo {decimal : Decimal} (positive : 0 < significand)
    (rounds : RoundsTo significand exponent decimal.value) : 0 < decimal.digits := by
  refine Nat.pos_of_ne_zero fun none => ?_
  have low := rounds.1.1
  rw [value, none, Nat.cast_zero, zero_mul] at low
  have least : (1 : ℚ) ≤ significand := by exact_mod_cast positive
  have reach : reachBelow significand exponent ≤ 1 / 2 := by
    unfold reachBelow
    split <;> norm_num
  have above : (0 : ℚ) < (significand - reachBelow significand exponent) * 2 ^ exponent :=
    mul_pos (by linarith) (by positivity)
  linarith

end LineRobot.Decimal
