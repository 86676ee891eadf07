import LineRobot.Proofs.Number.Shortest
import LineRobot.Toml.Document
import LineRobot.Toml.Written

/-! # Numbers as they are written

An integer is written with its decimal digits, and a finite double as a row of digits with a point
in it (`Toml.Scalar.IsFixed`). Both are read as what they were written for:
`Toml.Scalar.ofText?_integer` and `Toml.Scalar.ofText?_floatWritten`. For a double this is so since
the decimal of a written row has the value of the shortest decimal, and that one is rounded to the
double. -/

namespace LineRobot

/-! ## Digits -/

namespace Digits

/-- Decimal digits are digits. -/
theorem isDigit_of_mem_decimal {number : Nat} {digit : Char} (inside : digit ∈ decimal number) :
    digit.isDigit = true :=
  Nat.isDigit_of_mem_toDigits (by decide) (by decide) inside

/-- The value of decimal digits, taken together digit by digit. -/
theorem value_eq_ofDigitChars {digits : List Char} (all : ∀ digit ∈ digits, digit.isDigit = true) :
    value 10 digits = Nat.ofDigitChars 10 digits 0 := by
  have same (start : Nat) : digits.foldl (fun value digit => 10 * value + digitValue digit) start =
      Nat.ofDigitChars 10 digits start := by
    induction digits generalizing start with
    | nil => rfl
    | cons digit rest ih =>
        have first : digitValue digit = digit.toNat - '0'.toNat :=
          if_pos (all digit List.mem_cons_self)
        rw [List.foldl_cons, Nat.ofDigitChars_cons, first]
        exact ih (fun other inside => all other (List.mem_cons_of_mem _ inside)) _
  exact same 0

/-- The value of the decimal digits of a number is the number. -/
theorem value_decimal (number : Nat) : value 10 (decimal number) = number := by
  rw [value_eq_ofDigitChars fun _ => isDigit_of_mem_decimal]
  exact Nat.ofDigitChars_ten_toDigits

/-- Zeros behind digits are worth a factor ten each. -/
theorem value_append_replicate (digits : List Char) (zeros : Nat) :
    value 10 (digits ++ List.replicate zeros '0') = value 10 digits * 10 ^ zeros := by
  induction zeros with
  | zero => simp
  | succ zeros ih =>
      rw [List.replicate_succ', ← List.append_assoc, value_append_singleton, ih]
      simp [digitValue, Nat.pow_succ]
      ring

/-- Zeros before digits are worth nothing. -/
theorem value_replicate_append (digits : List Char) (zeros : Nat) :
    value 10 (List.replicate zeros '0' ++ digits) = value 10 digits := by
  have none : value 10 (List.replicate zeros '0') = 0 := by
    have zero := value_append_replicate [] zeros
    rw [List.nil_append] at zero
    rw [zero]
    simp [value]
  rw [value, List.foldl_append, ← value, none]
  rfl

/-- A number with more than one digit does not begin with a zero. -/
theorem head_decimal {number : Nat} (some : 0 < number) {rest : List Char} :
    decimal number ≠ '0' :: rest := by
  induction number using Nat.strong_induction_on generalizing rest with
  | _ number ih =>
      intro zero
      rw [decimal, Nat.toDigits_eq_if (by decide)] at zero
      split at zero
      case isTrue small =>
        rw [List.cons.injEq, Nat.digitChar_eq_zero] at zero
        omega
      case isFalse large =>
        have some : Nat.toDigits 10 (number / 10) ≠ [] := Nat.toDigits_ne_nil
        obtain ⟨first, others, split⟩ := List.exists_cons_of_ne_nil some
        rw [split, List.cons_append, List.cons.injEq] at zero
        rw [zero.1] at split
        exact ih (number / 10) (by omega) (by omega) split

end Digits

namespace Toml

/-! ## Rows -/

namespace Moment

/-- A mark that is not in a text is not found behind its first characters. -/
theorem after?_drop_eq_none {mark : Char} {text : List Char} (none : mark ∉ text) (count : Nat) :
    after? mark (text.drop count) = .none := by
  cases behind : text.drop count with
  | nil => rfl
  | cons first rest =>
      refine if_neg fun same => none (List.mem_of_mem_drop (i := count) ?_)
      rw [behind, same]
      exact List.mem_cons_self

/-- Behind a number is what follows its digits. -/
theorem rest_of_number? {count number : Nat} {text rest : List Char}
    (read : number? count text = some (number, rest)) :
    rest = text.drop count := by
  rw [number?] at read
  split at read
  · exact (congrArg Prod.snd (Option.some.inj read)).symm
  · cases read

/-- A text without a dash does not begin with a date. -/
theorem afterDate?_eq_none {text : List Char} (none : '-' ∉ text) : afterDate? text = .none := by
  rw [afterDate?]
  cases read : number? 4 text with
  | none => rfl
  | some parts => simp [rest_of_number? read, after?_drop_eq_none none]

/-- A text without a colon does not begin with a time. -/
theorem afterTime?_eq_none {text : List Char} (none : ':' ∉ text) : afterTime? text = .none := by
  rw [afterTime?]
  cases read : number? 2 text with
  | none => rfl
  | some parts => simp [rest_of_number? read, after?_drop_eq_none none]

/-- A text without a dash or a colon is no moment. -/
theorem isWritten_eq_false {text : List Char} (noDash : '-' ∉ text) (noColon : ':' ∉ text) :
    isWritten text = false := by
  rw [isWritten, afterDate?_eq_none noDash, afterTime?_eq_none noColon]
  rfl

/-- A text with a sign in front is no moment. -/
theorem isWritten_cons_eq_false {first : Char} (other : first.isDigit = false) (rest : List Char) :
    isWritten (first :: rest) = false := by
  have none (count : Nat) : number? (count + 1) (first :: rest) = .none := by
    rw [number?, List.take_succ_cons, List.all_cons, other]
    exact if_neg fun digits => Bool.false_ne_true digits.2
  rw [isWritten, afterDate?, afterTime?, none, none]
  rfl

end Moment

namespace Scalar

/-- A row without an underscore has digits if it is made of them. -/
theorem digits?_eq {row : List Char} (whole : '_' ∉ row) (isDigit : Char → Bool) :
    digits? isDigit row = if !row.isEmpty && row.all isDigit then some row else none := by
  have single : Text.splitAt '_' row = [row] := by
    induction row with
    | nil => rfl
    | cons first rest ih =>
        rw [List.mem_cons, not_or] at whole
        rw [Text.splitAt, if_neg (Ne.symm whole.1), ih whole.2]
  simp only [digits?, single, List.all_cons, List.all_nil, Bool.and_true, List.flatten_cons,
    List.flatten_nil, List.append_nil]

/-- A row of decimal digits. -/
structure IsDigits (row : List Char) : Prop where
  /-- There is a digit. -/
  some : row ≠ []
  /-- There is nothing but digits. -/
  all : ∀ digit ∈ row, digit.isDigit = true

variable {row whole fraction : List Char}

/-- Other characters are not among digits. -/
theorem IsDigits.not_mem (digits : IsDigits row) {other : Char}
    (different : other.isDigit = false) : other ∉ row :=
  fun inside => Bool.false_ne_true (different.symm.trans (digits.all other inside))

/-- A row of digits with zeros behind it. -/
theorem IsDigits.append_zeros (digits : IsDigits row) (zeros : Nat) :
    IsDigits (row ++ List.replicate zeros '0') where
  some := List.append_ne_nil_of_left_ne_nil digits.some _
  all := by
    intro digit inside
    rcases List.mem_append.mp inside with front | back
    · exact digits.all digit front
    · rw [List.eq_of_mem_replicate back]
      rfl

/-- Zeros in front of a row of digits. -/
theorem IsDigits.zeros_append (digits : IsDigits row) (zeros : Nat) :
    IsDigits (List.replicate zeros '0' ++ row) where
  some := List.append_ne_nil_of_right_ne_nil _ digits.some
  all := by
    intro digit inside
    rcases List.mem_append.mp inside with front | back
    · rw [List.eq_of_mem_replicate front]
      rfl
    · exact digits.all digit back

/-- Some of the first digits are a row of digits. -/
theorem IsDigits.take (digits : IsDigits row) {count : Nat} (some : 0 < count) :
    IsDigits (row.take count) where
  some := by
    rw [← List.length_pos_iff_ne_nil, List.length_take]
    exact lt_min some (List.length_pos_iff_ne_nil.mpr digits.some)
  all digit inside := digits.all digit (List.mem_of_mem_take inside)

/-- The digits behind the first ones are a row of digits, if there are any. -/
theorem IsDigits.drop (digits : IsDigits row) {count : Nat} (more : count < row.length) :
    IsDigits (row.drop count) where
  some := by
    rw [← List.length_pos_iff_ne_nil, List.length_drop]
    exact Nat.sub_pos_of_lt more
  all digit inside := digits.all digit (List.mem_of_mem_drop inside)

/-- A row of digits has its digits. -/
theorem IsDigits.digits?_eq (digits : IsDigits row) : digits? Char.isDigit row = .some row := by
  rw [Scalar.digits?_eq (digits.not_mem rfl), if_pos]
  rw [Bool.and_eq_true, List.all_eq_true, Bool.not_eq_true', List.isEmpty_eq_false_iff]
  exact ⟨digits.some, digits.all⟩

/-- A row of digits without a leading zero is a whole number. -/
theorem IsDigits.wholeDigits?_eq (digits : IsDigits row)
    (lead : ∀ rest, row = '0' :: rest → rest = []) :
    wholeDigits? row = .some row := by
  rw [wholeDigits?, digits.digits?_eq]
  split
  case h_1 second rest same =>
    cases lead _ (Option.some.inj same)
  case h_2 => rfl

/-- A row with a character that is none of the digits is no whole number. -/
theorem wholeDigits?_eq_none {other : Char} (inside : other ∈ row)
    (different : other.isDigit = false) (whole : '_' ∉ row) : wholeDigits? row = none := by
  have none : digits? Char.isDigit row = .none := by
    rw [digits?_eq whole, if_neg]
    rw [Bool.and_eq_true, List.all_eq_true]
    exact fun digits => Bool.false_ne_true (different.symm.trans (digits.2 other inside))
  rw [wholeDigits?, none]

/-- A row without the mark of a base is read in base ten. -/
theorem natural?_eq (none : ∀ mark ∈ ['x', 'o', 'b'], mark ∉ row) :
    natural? row = (wholeDigits? row).map (Digits.value 10) := by
  unfold natural?
  split
  case h_1 => exact absurd (by simp) (none 'x' (by decide))
  case h_2 => exact absurd (by simp) (none 'o' (by decide))
  case h_3 => exact absurd (by simp) (none 'b' (by decide))
  case h_4 => rfl

/-! ## Whole numbers -/

/-- No letter that marks a base is in a number. -/
theorem isDigit_mark {mark : Char} (inside : mark ∈ ['x', 'o', 'b']) :
    mark.isDigit = false ∧ mark ≠ '.' ∧ mark ≠ '-' := by
  simp only [List.mem_cons, List.not_mem_nil, or_false] at inside
  rcases inside with rfl | rfl | rfl <;> decide

/-- A row of digits without a leading zero is read as an integer. -/
theorem IsDigits.ofText?_eq (digits : IsDigits row) (lead : ∀ rest, row = '0' :: rest → rest = []) :
    ofText? row = .some (.integer (Digits.value 10 row)) := by
  have notTrue : ['t', 'r', 'u', 'e'] ≠ row :=
    ne_of_mem_of_not_mem' (by decide) (digits.not_mem (rfl : 't'.isDigit = false))
  have notFalse : ['f', 'a', 'l', 's', 'e'] ≠ row :=
    ne_of_mem_of_not_mem' (by decide) (digits.not_mem (rfl : 'f'.isDigit = false))
  have marks : ∀ mark ∈ ['x', 'o', 'b'], mark ∉ row := fun mark inside =>
    digits.not_mem (isDigit_mark inside).1
  rw [ofText?, if_neg notTrue.symm, if_neg notFalse.symm,
    Moment.isWritten_eq_false (digits.not_mem rfl) (digits.not_mem rfl), if_neg Bool.false_ne_true,
    natural?_eq marks, digits.wholeDigits?_eq lead]
  rfl

/-- A row of digits behind a minus is read as a negative integer. -/
theorem IsDigits.ofText?_minus (digits : IsDigits row)
    (lead : ∀ rest, row = '0' :: rest → rest = []) :
    ofText? ('-' :: row) = .some (.integer (-(Digits.value 10 row : Int))) := by
  have marks : ∀ mark ∈ ['x', 'o', 'b'], mark ∉ '-' :: row := by
    intro mark inside
    rw [List.mem_cons, not_or]
    exact ⟨(isDigit_mark inside).2.2, digits.not_mem (isDigit_mark inside).1⟩
  have noUnderscore : '_' ∉ '-' :: row := by
    rw [List.mem_cons, not_or]
    exact ⟨by decide, digits.not_mem rfl⟩
  have notInf : ['i', 'n', 'f'] ≠ row :=
    ne_of_mem_of_not_mem' (by decide) (digits.not_mem (rfl : 'n'.isDigit = false))
  have notNan : ['n', 'a', 'n'] ≠ row :=
    ne_of_mem_of_not_mem' (by decide) (digits.not_mem (rfl : 'n'.isDigit = false))
  rw [ofText?, if_neg (by simp), if_neg (by simp), Moment.isWritten_cons_eq_false rfl,
    if_neg Bool.false_ne_true, natural?_eq marks,
    wholeDigits?_eq_none List.mem_cons_self rfl noUnderscore, Option.map_none]
  show signed? true row = _
  rw [signed?, if_neg notInf.symm, if_neg notNan.symm, digits.wholeDigits?_eq lead]
  rfl

/-- The decimal digits of a number are a row of digits. -/
theorem isDigits_decimal (number : Nat) : IsDigits (Digits.decimal number) :=
  ⟨Nat.toDigits_ne_nil, fun _ => Digits.isDigit_of_mem_decimal⟩

/-- The decimal digits of a number have no leading zero. -/
theorem lead_decimal {number : Nat} (rest : List Char)
    (zero : Digits.decimal number = '0' :: rest) : rest = [] := by
  rcases Nat.eq_zero_or_pos number with rfl | some
  · exact (List.cons.inj zero).2.symm
  · exact absurd zero (Digits.head_decimal some)

/-- The text of a negative integer is a minus and digits. -/
theorem toList_negSucc (number : Nat) :
    (toString (Int.negSucc number)).toList = '-' :: Digits.decimal (number + 1) := by
  show ("-" ++ Nat.repr (number + 1)).toList = _
  rw [String.toList_append, Nat.toList_repr]
  rfl

/-- **An integer is read from its text**: its decimal digits, behind a minus if it is negative. -/
theorem ofText?_integer (number : Int) :
    ofText? (toString number).toList = some (.integer number) := by
  cases number with
  | ofNat number =>
      have text : (toString (Int.ofNat number)).toList = Digits.decimal number := Nat.toList_repr
      rw [text, (isDigits_decimal number).ofText?_eq lead_decimal, Digits.value_decimal]
      rfl
  | negSucc number =>
      rw [toList_negSucc, (isDigits_decimal _).ofText?_minus lead_decimal, Digits.value_decimal]
      rfl

/-! ## Rows with a point -/

/-- Digits with a point between them, without a leading zero. -/
structure IsFixed (whole fraction : List Char) : Prop where
  /-- There are digits before the point. -/
  before : IsDigits whole
  /-- There is no leading zero. -/
  lead : ∀ rest, whole = '0' :: rest → rest = []
  /-- There are digits behind the point. -/
  behind : IsDigits fraction

/-- The decimal that digits with a point between them are. -/
def fixed (whole fraction : List Char) : Decimal :=
  ⟨Digits.value 10 (whole ++ fraction), -fraction.length⟩

/-- Other characters are not in a row with a point. -/
theorem IsFixed.not_mem (isFixed : IsFixed whole fraction) {other : Char}
    (different : other.isDigit = false) (noPoint : other ≠ '.') :
    other ∉ whole ++ '.' :: fraction := by
  rw [List.mem_append, List.mem_cons, not_or, not_or]
  exact ⟨isFixed.before.not_mem different, noPoint, isFixed.behind.not_mem different⟩

/-- A row with a point is read as its decimal. -/
theorem IsFixed.decimal?_eq (isFixed : IsFixed whole fraction) :
    decimal? (whole ++ '.' :: fraction) = some (fixed whole fraction) := by
  have plain : ∀ character ∈ whole ++ '.' :: fraction, (!isExponentMark character) = true := by
    intro character inside
    rw [Bool.not_eq_true', isExponentMark, Bool.or_eq_false_iff, decide_eq_false_iff_not,
      decide_eq_false_iff_not]
    constructor
    · rintro rfl
      exact isFixed.not_mem rfl (by decide) inside
    · rintro rfl
      exact isFixed.not_mem rfl (by decide) inside
  have mantissa : (whole ++ '.' :: fraction).takeWhile (fun character =>
      !isExponentMark character) =
      whole ++ '.' :: fraction := List.takeWhile_eq_self_iff.mpr plain
  have noExponent : (whole ++ '.' :: fraction).dropWhile (fun character =>
      !isExponentMark character) = [] :=
    List.dropWhile_eq_nil_iff.mpr plain
  have noPoint : ∀ character ∈ whole, (character != '.') = true := fun character inside =>
    bne_iff_ne.mpr fun same => isFixed.before.not_mem rfl (same ▸ inside)
  have before : (whole ++ '.' :: fraction).takeWhile (· != '.') = whole := by
    rw [List.takeWhile_append_of_pos noPoint]
    simp
  have behind : (whole ++ '.' :: fraction).dropWhile (· != '.') = '.' :: fraction := by
    rw [List.dropWhile_append_of_pos noPoint]
    rfl
  rw [decimal?, mantissa, noExponent, before, behind, isFixed.before.wholeDigits?_eq isFixed.lead]
  simp [isFixed.behind.digits?_eq, fixed]

/-- The sign of a number as it is written. -/
def signWritten (negative : Bool) : List Char :=
  if negative then ['-'] else []

/-- The sign of a row with a point is split off. -/
theorem IsFixed.splitSign_eq (isFixed : IsFixed whole fraction) (negative : Bool) :
    splitSign (signWritten negative ++ (whole ++ '.' :: fraction)) =
      (negative, whole ++ '.' :: fraction) := by
  cases negative with
  | true => rfl
  | false =>
      rw [signWritten, if_neg Bool.false_ne_true, List.nil_append]
      unfold splitSign
      split
      case h_1 same => exact absurd List.mem_cons_self (same ▸ isFixed.not_mem rfl (by decide))
      case h_2 same => exact absurd List.mem_cons_self (same ▸ isFixed.not_mem rfl (by decide))
      case h_3 => rfl

/-- **A row with a point and a sign is read as a float.** -/
theorem IsFixed.ofText?_eq (isFixed : IsFixed whole fraction) (negative : Bool) :
    ofText? (signWritten negative ++ (whole ++ '.' :: fraction)) =
      some (float negative (whole ++ '.' :: fraction) (fixed whole fraction)) := by
  have missing {other : Char} (different : other.isDigit = false) (noPoint : other ≠ '.')
      (noSign : other ≠ '-') :
      other ∉ signWritten negative ++ (whole ++ '.' :: fraction) := by
    rw [List.mem_append, not_or]
    refine ⟨?_, isFixed.not_mem different noPoint⟩
    cases negative with
    | true => exact fun same => noSign (List.mem_singleton.mp same)
    | false => exact List.not_mem_nil
  -- the characters of the row rule out each reading that is tried before that of a float
  have noMoment : Moment.isWritten (signWritten negative ++ (whole ++ '.' :: fraction)) =
      false := by
    cases negative with
    | true => exact Moment.isWritten_cons_eq_false rfl _
    | false =>
        exact Moment.isWritten_eq_false (isFixed.not_mem rfl (by decide))
          (isFixed.not_mem rfl (by decide))
  have marks : ∀ mark ∈ ['x', 'o', 'b'],
      mark ∉ signWritten negative ++ (whole ++ '.' :: fraction) := by
    intro mark inside
    obtain ⟨different, noPoint, noSign⟩ := isDigit_mark inside
    exact missing different noPoint noSign
  have notTrue : ['t', 'r', 'u', 'e'] ≠ signWritten negative ++ (whole ++ '.' :: fraction) :=
    ne_of_mem_of_not_mem' (by decide) (missing (rfl : 't'.isDigit = false) (by decide) (by decide))
  have notFalse : ['f', 'a', 'l', 's', 'e'] ≠ signWritten negative ++ (whole ++ '.' :: fraction) :=
    ne_of_mem_of_not_mem' (by decide) (missing (rfl : 'f'.isDigit = false) (by decide) (by decide))
  have notInf : ['i', 'n', 'f'] ≠ whole ++ '.' :: fraction :=
    ne_of_mem_of_not_mem' (by decide) (isFixed.not_mem (rfl : 'n'.isDigit = false) (by decide))
  have notNan : ['n', 'a', 'n'] ≠ whole ++ '.' :: fraction :=
    ne_of_mem_of_not_mem' (by decide) (isFixed.not_mem (rfl : 'n'.isDigit = false) (by decide))
  have point : '.' ∈ whole ++ '.' :: fraction := by simp
  have noWhole : wholeDigits? (whole ++ '.' :: fraction) = none :=
    wholeDigits?_eq_none point rfl (isFixed.not_mem rfl (by decide))
  have noSigned : wholeDigits? (signWritten negative ++ (whole ++ '.' :: fraction)) = none :=
    wholeDigits?_eq_none (List.mem_append_right _ point) rfl (missing rfl (by decide) (by decide))
  rw [ofText?, if_neg notTrue.symm, if_neg notFalse.symm, noMoment, if_neg Bool.false_ne_true,
    natural?_eq marks, noSigned, Option.map_none]
  dsimp only
  rw [isFixed.splitSign_eq]
  dsimp only
  rw [signed?, if_neg notInf.symm, if_neg notNan.symm, noWhole, isFixed.decimal?_eq]
  rfl

/-! ## Decimals -/

/-- The text of a decimal with a point in it. -/
def pointed (decimal : Decimal) : List Char :=
  if decimal.text.contains '.' then decimal.text else decimal.text ++ ['.', '0']

/-- **The written decimal has the same value**, with at least one place behind the point. -/
theorem exists_isFixed {decimal : Decimal} (some : 0 < decimal.digits) :
    ∃ whole fraction, pointed decimal = whole ++ '.' :: fraction ∧ IsFixed whole fraction ∧
      (fixed whole fraction).value = decimal.value ∧ min decimal.place (-1) ≤
        (fixed whole fraction).place := by
  obtain ⟨number, place⟩ := decimal
  dsimp only at some
  have digits := isDigits_decimal number
  cases place with
  | ofNat zeros =>
      -- the zeros up to the unit, and one behind the point
      have before := digits.append_zeros zeros
      have text : (Decimal.mk number (.ofNat zeros)).text = Digits.decimal number ++
          List.replicate zeros '0' := rfl
      refine ⟨Digits.decimal number ++ List.replicate zeros '0', ['0'], ?_,
        ⟨before, ?_, by simp, by simp⟩, ?_, min_le_right _ _⟩
      · rw [pointed, text, if_neg]
        rw [List.contains_iff_mem]
        exact before.not_mem rfl
      · intro rest zero
        obtain ⟨first, others, same⟩ := List.exists_cons_of_ne_nil digits.some
        rw [same, List.cons_append, List.cons.injEq] at zero
        rw [zero.1] at same
        exact absurd same (Digits.head_decimal some)
      · rw [fixed, Decimal.value, Decimal.value, List.append_assoc, ← List.replicate_succ',
          Digits.value_append_replicate, Digits.value_decimal]
        simp only [List.length_singleton, Int.ofNat_eq_natCast, zpow_natCast]
        push_cast
        rw [pow_succ, zpow_neg_one]
        field_simp
  | negSucc places =>
      -- as many zeros in front as the point needs
      generalize zeros : places + 2 - (Digits.decimal number).length = count
      generalize padded : List.replicate count '0' ++ Digits.decimal number = row
      have length : row.length = count + (Digits.decimal number).length := by
        rw [← padded, List.length_append, List.length_replicate]
      generalize cut : row.length - (places + 1) = front
      have text : (Decimal.mk number (.negSucc places)).text = row.take front ++
          '.' :: row.drop front := by
        rw [← cut, ← padded, ← zeros]
        rfl
      have all := digits.zeros_append count
      rw [padded] at all
      have frontLength : (row.take front).length = front := by
        rw [List.length_take]
        omega
      have backLength : (row.drop front).length = places + 1 := by
        rw [List.length_drop]
        omega
      refine ⟨row.take front, row.drop front, ?_,
        ⟨all.take (by omega), ?_, all.drop (by omega)⟩, ?_, ?_⟩
      · rw [pointed, text, if_pos]
        rw [List.contains_iff_mem]
        simp
      · intro rest zero
        rcases Nat.eq_zero_or_pos count with rfl | pad
        · -- without zeros in front, the digits begin with the first digit of the number
          rw [List.replicate_zero, List.nil_append] at padded
          have first : row = '0' :: (rest ++ row.drop front) := by
            rw [← List.cons_append, ← zero, List.take_append_drop]
          exact absurd (padded.trans first) (Digits.head_decimal some)
        · rw [zero, List.length_cons] at frontLength
          exact List.length_eq_zero_iff.mp (by omega)
      · rw [fixed, Decimal.value, Decimal.value, List.take_append_drop, ← padded,
          Digits.value_replicate_append, Digits.value_decimal, padded, backLength]
        rfl
      · rw [fixed, backLength]
        exact min_le_left _ _

/-! ## Doubles -/

variable {number : Float} {sign : Float.Model.UnpackedFloat.Sign} {significand : Nat}
  {exponent : Int}

/-- A finite double is written with its sign and its shortest decimal. -/
theorem toList_floatWritten {negative : Bool} (finite : number.isFinite = true)
    (parts : Binary64.of number = .finite negative significand exponent) :
    (floatWritten number).toList = signWritten negative ++
      pointed (Decimal.shortest significand exponent) := by
  have text : (Number.text number).toList =
      signWritten negative ++ (Decimal.shortest significand exponent).text := by
    rw [Number.text, parts]
    cases negative with
    | true => simp [signWritten]
    | false => simp [signWritten]
  have point : (signWritten negative ++ (Decimal.shortest significand exponent).text).contains '.' =
      (Decimal.shortest significand exponent).text.contains '.' := by
    cases negative <;> simp [signWritten]
  rw [floatWritten, Number.isNaN_of_isFinite finite, if_neg Bool.false_ne_true]
  dsimp only
  rw [finite, Bool.true_and, text, point, pointed]
  cases (Decimal.shortest significand exponent).text.contains '.' with
  | true => simp [text]
  | false => simp [text]

/-- A double other than zero is written as a row with a point that is rounded to it. -/
theorem exists_floatWritten_eq {positive : 0 < significand}
    (unpacked : number.toModel.unpack = .finite sign significand exponent positive) :
    ∃ whole fraction, IsFixed whole fraction ∧
      (floatWritten number).toList = signWritten (Binary64.isNegative sign) ++
        (whole ++ '.' :: fraction) ∧
        (fixed whole fraction).toFloat =
          .ofModel (.pack (.finite .positive significand exponent positive)) := by
  have canonical := Number.isCanonical_of_unpack unpacked
  obtain ⟨rounds, place⟩ := Decimal.roundsTo_shortest canonical
  obtain ⟨whole, fraction, written, isFixed, same, least⟩ :=
    exists_isFixed (Decimal.digits_pos_of_roundsTo positive rounds)
  have finite : number.isFinite = true := by
    show number.toModel.unpack.isFinite = true
    rw [unpacked]
    rfl
  have parts : Binary64.of number = .finite (Binary64.isNegative sign) significand exponent := by
    rw [Binary64.of, unpacked]
  have behind : 0 < fraction.length := List.length_pos_iff_ne_nil.mpr isFixed.behind.some
  refine ⟨whole, fraction, isFixed, by rw [toList_floatWritten finite parts, written], ?_⟩
  rw [← same] at rounds
  refine Decimal.toFloat_eq canonical (Decimal.digits_pos_of_roundsTo positive rounds) ?_ ?_ rounds
  · rw [fixed]
    dsimp only
    omega
  · omega

/-- A double other than zero is read from its shortest decimal. -/
theorem ofText?_finite {positive : 0 < significand}
    (unpacked : number.toModel.unpack = .finite sign significand exponent positive) :
    ofText? (floatWritten number).toList = some (.float number) := by
  have canonical := Number.isCanonical_of_unpack unpacked
  obtain ⟨whole, fraction, isFixed, written, read⟩ := exists_floatWritten_eq unpacked
  have again : number = .ofModel (.pack (.finite sign significand exponent positive)) := by
    rw [← unpacked, Number.pack_unpack]
  rw [written, isFixed.ofText?_eq, float, read]
  rw [if_pos (Number.isExactly_pack canonical).finite]
  cases sign with
  | positive =>
      rw [again]
      rfl
  | negative =>
      have negated : -Float.ofModel (.pack (.finite .positive significand exponent positive)) =
          number := by
        have negation (other : Float) : -other = .ofModel (.pack (.neg other.toModel.unpack)) := rfl
        rw [negation, again, Number.unpack_pack_finite canonical]
        rfl
      rw [Binary64.isNegative, if_pos rfl, negated]

/-- **Every double is read from what is written for it.** -/
theorem ofText?_floatWritten (number : Float) :
    ofText? (floatWritten number).toList = some (.float number) := by
  have again : number = .ofModel (.pack number.toModel.unpack) := by rw [Number.pack_unpack]
  cases unpacked : number.toModel.unpack with
  | finite sign significand exponent positive => exact ofText?_finite unpacked
  | notANumber =>
      rw [unpacked] at again
      rw [again]
      rfl
  | infinity sign =>
      rw [unpacked] at again
      rw [again]
      cases sign <;> rfl
  | zero sign =>
      rw [unpacked] at again
      rw [again]
      cases sign <;> rfl

/-- A digit may stand in a value without quotes. -/
theorem isWritten_of_isDigit {digit : Char} (isDigit : digit.isDigit = true) :
    isWritten digit = true := by
  rw [isWritten, Char.isAlphanum, isDigit, Bool.or_true, Bool.true_or]

/-- Digits may stand in a value without quotes. -/
theorem IsDigits.all_isWritten (digits : IsDigits row) : row.all isWritten = true :=
  List.all_eq_true.mpr fun digit inside => isWritten_of_isDigit (digits.all digit inside)

/-- The text of an integer may stand in a value without quotes. -/
theorem all_isWritten_integer (number : Int) :
    (toString number).toList.all isWritten = true := by
  cases number with
  | ofNat number =>
      have text : (toString (Int.ofNat number)).toList = Digits.decimal number := Nat.toList_repr
      rw [text]
      exact (isDigits_decimal number).all_isWritten
  | negSucc number =>
      rw [toList_negSucc, List.all_cons, (isDigits_decimal _).all_isWritten]
      rfl

/-- What is written for a double may stand in a value without quotes. -/
theorem all_isWritten_floatWritten (number : Float) :
    (floatWritten number).toList.all isWritten = true := by
  have again : number = .ofModel (.pack number.toModel.unpack) := by rw [Number.pack_unpack]
  cases unpacked : number.toModel.unpack with
  | finite sign significand exponent positive =>
      obtain ⟨whole, fraction, isFixed, written, -⟩ := exists_floatWritten_eq unpacked
      rw [written, List.all_append, List.all_append, List.all_cons, isFixed.before.all_isWritten,
        isFixed.behind.all_isWritten]
      cases sign <;> rfl
  | notANumber =>
      rw [again, unpacked]
      rfl
  | infinity sign | zero sign =>
      rw [again, unpacked]
      cases sign <;> rfl

end Scalar

end Toml

end LineRobot
