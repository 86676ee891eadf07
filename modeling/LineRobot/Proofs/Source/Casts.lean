import LineRobot.Proofs.Source.Lines

/-! # Just the casts are removed

A cast is a word of upper-case letters in parentheses, other than `(TRUE)`. `IsCast` says where in a
text there is one, and `InCast` which of its characters stand in one. What `withoutCasts` leaves are
all the others in their order (`withoutCasts_eq_outsideCasts`). Where a character stands in the text
decides, so a group that only a deletion brings together stays. The copy that `withoutCasts?` makes
piece by piece is the same text. -/

namespace LineRobot.Source

/-- In a text a cast stands between two others: a word of upper-case letters in parentheses, other
than the one that is kept. -/
structure IsCast (text before word after : List Char) : Prop where
  /-- The word stands in parentheses. -/
  whole : text = before ++ '(' :: (word ++ ')' :: after)
  /-- The word has letters. -/
  nonempty : word ≠ []
  /-- They are upper-case letters. -/
  letters : ∀ character ∈ word, 'A' ≤ character ∧ character ≤ 'Z'
  /-- It is not the word for truth. -/
  removed : word ≠ "TRUE".toList

/-- The character of a text at an index stands in a cast: in its word, or it is one of the
parentheses. -/
def InCast (text : List Char) (index : Nat) : Prop :=
  ∃ before word after, IsCast text before word after ∧
    before.length ≤ index ∧ index < before.length + word.length + 2

variable {text rest before word after : List Char} {character : Char} {index : Nat}

/-! ## Casts at the front -/

/-- The upper-case letters are those from `A` to `Z`. -/
theorem isUpper_iff : character.isUpper = true ↔ 'A' ≤ character ∧ character ≤ 'Z' :=
  decide_eq_true_iff

/-- What comes after a cast is read just where a text begins with one. -/
theorem afterCast?_eq_some_iff :
    afterCast? rest = some after ↔ ∃ word, IsCast ('(' :: rest) [] word after := by
  constructor
  · intro cast
    have whole := List.takeWhile_append_dropWhile (p := Char.isUpper) (l := rest)
    simp only [afterCast?] at cast
    split at cast
    case h_2 => cases cast
    case h_1 behind closes =>
      split at cast
      case isTrue => cases cast
      case isFalse other =>
        cases cast
        rw [not_or] at other
        rw [closes] at whole
        have letters : ∀ character ∈ rest.takeWhile Char.isUpper, 'A' ≤ character ∧
            character ≤ 'Z' :=
          fun character member => isUpper_iff.mp (List.mem_takeWhile_imp member)
        exact ⟨rest.takeWhile Char.isUpper, congrArg ('(' :: ·) whole.symm, other.1,
          letters, other.2⟩
  · rintro ⟨word, whole, nonempty, letters, removed⟩
    obtain ⟨-, rfl⟩ := List.cons.inj whole
    have upper : ∀ character ∈ word, character.isUpper = true :=
      fun character member => isUpper_iff.mpr (letters character member)
    have kept : ¬ (word = [] ∨ word = keptGroup) := not_or.mpr ⟨nonempty, removed⟩
    simp [afterCast?, List.takeWhile_append_of_pos upper, List.dropWhile_append_of_pos upper, kept]

/-- A text that does not begin with a cast has none at the front. -/
theorem noCast_iff :
    (character = '(' → afterCast? rest = none) ↔ ∀ word after,
      ¬ IsCast (character :: rest) [] word after := by
  constructor
  · intro noCast word after cast
    obtain ⟨rfl, -⟩ := List.cons.inj cast.whole
    have found := afterCast?_eq_some_iff.mpr ⟨word, cast⟩
    rw [noCast rfl] at found
    cases found
  · rintro none rfl
    refine Option.eq_none_iff_forall_ne_some.mpr fun after found => ?_
    obtain ⟨word, cast⟩ := afterCast?_eq_some_iff.mp found
    exact none word after cast

/-- A cast stands at the front of a text, or behind its first character. -/
theorem isCast_cons :
    IsCast (character :: rest) before word after ↔
      (before = [] ∧ IsCast (character :: rest) [] word after) ∨
        ∃ earlier, before = character :: earlier ∧ IsCast rest earlier word after := by
  constructor
  · intro cast
    cases before with
    | nil => exact .inl ⟨rfl, cast⟩
    | cons first earlier =>
        obtain ⟨rfl, behind⟩ := List.cons.inj cast.whole
        exact .inr ⟨earlier, rfl, behind, cast.nonempty, cast.letters, cast.removed⟩
  · rintro (⟨rfl, cast⟩ | ⟨earlier, rfl, cast⟩)
    · exact cast
    · exact ⟨congrArg (character :: ·) cast.whole, cast.nonempty, cast.letters, cast.removed⟩

/-- The first character of a text stands in a cast just if the text begins with one. -/
theorem inCast_cons_zero :
    InCast (character :: rest) 0 ↔ ∃ word after, IsCast (character :: rest) [] word after := by
  constructor
  · rintro ⟨before, word, after, cast, begins, -⟩
    obtain rfl := List.eq_nil_of_length_eq_zero (Nat.le_zero.mp begins)
    exact ⟨word, after, cast⟩
  · rintro ⟨word, after, cast⟩
    exact ⟨[], word, after, cast, Nat.zero_le 0, Nat.succ_pos _⟩

/-- Any other character stands in the cast with which the text begins, or in one behind the first
character. -/
theorem inCast_cons_succ :
    InCast (character :: rest) (index + 1) ↔
      (∃ word after, IsCast (character :: rest) [] word after ∧ index < word.length + 1) ∨
        InCast rest index := by
  constructor
  · rintro ⟨before, word, after, cast, begins, ends⟩
    rcases isCast_cons.mp cast with ⟨rfl, front⟩ | ⟨earlier, rfl, behind⟩
    · rw [List.length_nil] at ends
      exact .inl ⟨word, after, front, by omega⟩
    · rw [List.length_cons] at begins ends
      exact .inr ⟨earlier, word, after, behind, by omega, by omega⟩
  · rintro (⟨word, after, front, ends⟩ | ⟨earlier, word, after, behind, begins, ends⟩)
    · exact ⟨[], word, after, front, Nat.zero_le _, by rw [List.length_nil]; omega⟩
    · refine ⟨character :: earlier, word, after, isCast_cons.mpr (.inr ⟨earlier, rfl, behind⟩),
        ?_, ?_⟩ <;>
        rw [List.length_cons] <;> omega

/-- Where a text begins with no cast, the first character does not matter for the others. -/
theorem inCast_cons_succ_of_noCast (noCast : character = '(' → afterCast? rest = none) :
    InCast (character :: rest) (index + 1) ↔ InCast rest index := by
  rw [inCast_cons_succ, or_iff_right]
  rintro ⟨word, after, cast, -⟩
  exact noCast_iff.mp noCast word after cast

/-- Characters that open no cast do not matter for those behind them. -/
theorem inCast_append_of_notMem {passed : List Char} (closed : '(' ∉ passed) :
    InCast (passed ++ rest) (passed.length + index) ↔ InCast rest index := by
  induction passed with
  | nil => rw [List.nil_append, List.length_nil, Nat.zero_add]
  | cons first passed ih =>
      rw [List.mem_cons, not_or] at closed
      rw [List.cons_append, List.length_cons, Nat.add_right_comm,
        inCast_cons_succ_of_noCast fun opens => absurd opens.symm closed.1]
      exact ih closed.2

/-- A cast and what comes behind it stand in the text one after the other. -/
theorem IsCast.length_eq (cast : IsCast text [] word after) :
    text.length = word.length + 2 + after.length := by
  rw [cast.whole]
  simp only [List.nil_append, List.length_cons, List.length_append]
  omega

/-- A cast at the front does not matter for what comes behind it. -/
theorem IsCast.inCast_add (cast : IsCast text [] word after) :
    InCast text (word.length + 2 + index) ↔ InCast after index := by
  have closed : '(' ∉ word ++ [')'] := by
    rw [List.mem_append, not_or]
    exact ⟨fun member => absurd (cast.letters '(' member) (by decide), by decide⟩
  have whole : text = '(' :: ((word ++ [')']) ++ after) := by
    rw [cast.whole, List.append_assoc]
    rfl
  have behind : word.length + 2 + index = (word ++ [')']).length + index + 1 := by
    rw [List.length_append, List.length_singleton]
    omega
  rw [whole] at cast ⊢
  rw [behind, inCast_cons_succ, inCast_append_of_notMem closed, or_iff_right]
  -- no other cast stands at the front, as what comes behind it is the same
  rintro ⟨otherWord, otherAfter, other, ends⟩
  have found := afterCast?_eq_some_iff.mpr ⟨otherWord, other⟩
  rw [afterCast?_eq_some_iff.mpr ⟨word, cast⟩] at found
  cases found
  have length := cast.length_eq
  rw [other.length_eq] at length
  rw [List.length_append, List.length_singleton] at ends
  omega

/-! ## What is left -/

/-- What comes behind the cast with which a text begins. -/
def behindCast? : List Char → Option (List Char)
  | [] => none
  | character :: rest => if character = '(' then afterCast? rest else none

/-- A cast is found just where a text begins with one. -/
theorem behindCast?_eq_some_iff : behindCast? text = some after ↔ ∃ word,
    IsCast text [] word after := by
  cases text with
  | nil =>
      constructor
      · intro found
        cases found
      · rintro ⟨word, cast⟩
        cases cast.whole
  | cons character rest =>
      by_cases opens : character = '('
      · subst opens
        rw [behindCast?, if_pos rfl, afterCast?_eq_some_iff]
      · rw [behindCast?, if_neg opens]
        constructor
        · intro found
          cases found
        · rintro ⟨word, cast⟩
          exact absurd (List.cons.inj cast.whole).1 opens

/-- A character stands in a cast just if one that begins there or before it ends behind it. -/
theorem inCast_iff :
    InCast text index ↔ ∃ start ∈ List.range (index + 1), ∃ after ∈ behindCast? (text.drop start),
      index + after.length < text.length := by
  constructor
  · rintro ⟨before, word, after, cast, begins, ends⟩
    have front : IsCast (text.drop before.length) [] word after := by
      refine ⟨?_, cast.nonempty, cast.letters, cast.removed⟩
      rw [cast.whole, List.drop_left, List.nil_append]
    refine ⟨before.length, List.mem_range.mpr (Nat.lt_succ_of_le begins), after,
      behindCast?_eq_some_iff.mpr ⟨word, front⟩, ?_⟩
    rw [cast.whole]
    simp only [List.length_append, List.length_cons]
    omega
  · rintro ⟨start, inside, after, found, ends⟩
    obtain ⟨word, front⟩ := behindCast?_eq_some_iff.mp found
    have length := front.length_eq
    rw [List.length_drop] at length
    have begins : (text.take start).length = start := by
      rw [List.length_take]
      omega
    refine ⟨text.take start, word, after, ⟨?_, front.nonempty, front.letters,
      front.removed⟩, ?_, ?_⟩
    · rw [← List.nil_append ('(' :: _), ← front.whole, List.take_append_drop]
    · rw [begins]
      exact Nat.le_of_lt_succ (List.mem_range.mp inside)
    · omega

instance : DecidablePred (InCast text) :=
  fun _ => decidable_of_iff' _ inCast_iff

/-- The characters of a text that stand in no cast, in their order. -/
def outsideCasts (text : List Char) : List Char :=
  (List.range text.length).filterMap fun index => if InCast text index then none else text[index]?

/-- A character at which no cast begins stays. -/
theorem outsideCasts_cons (noCast : character = '(' → afterCast? rest = none) :
    outsideCasts (character :: rest) = character :: outsideCasts rest := by
  have stays : ¬ InCast (character :: rest) 0 := by
    rw [inCast_cons_zero]
    rintro ⟨word, after, cast⟩
    exact noCast_iff.mp noCast word after cast
  unfold outsideCasts
  rw [List.length_cons, List.range_succ_eq_map, List.filterMap_cons, if_neg stays,
    List.filterMap_map]
  simp [inCast_cons_succ_of_noCast noCast]

/-- Of a text that begins with a cast, what stands behind the cast matters. -/
theorem IsCast.outsideCasts_eq (cast : IsCast text [] word after) :
    outsideCasts text = outsideCasts after := by
  have inside : ∀ index ∈ List.range (word.length + 2),
      (if InCast text index then none else text[index]?) = none := by
    intro index member
    have ends := List.mem_range.mp member
    exact if_pos ⟨[], word, after, cast, Nat.zero_le _, by rw [List.length_nil]; omega⟩
  have behind (index : Nat) : text[word.length + 2 + index]? = after[index]? := by
    have split : text = ('(' :: (word ++ [')'])) ++ after := by
      rw [cast.whole, List.nil_append, List.cons_append, List.append_assoc]
      rfl
    have length : ('(' :: (word ++ [')'])).length = word.length + 2 := by simp
    rw [split, ← length, List.getElem?_append_right (Nat.le_add_right _ _), Nat.add_sub_cancel_left]
  unfold outsideCasts
  rw [cast.length_eq, List.range_add, List.filterMap_append, List.filterMap_eq_nil_iff.mpr inside,
    List.nil_append, List.filterMap_map]
  simp [behind, cast.inCast_add]

/-- **Removing casts leaves the characters that stand in no cast of the text.** -/
theorem withoutCasts_eq_outsideCasts (text : List Char) :
    withoutCasts text = outsideCasts text := by
  induction text using withoutCasts.induct with
  | case1 =>
      rw [withoutCasts.eq_1]
      rfl
  | case2 rest after cast _ ih =>
      obtain ⟨word, front⟩ := afterCast?_eq_some_iff.mp cast
      rw [withoutCasts_cast cast, ih, front.outsideCasts_eq]
  | case3 rest noCast ih =>
      rw [withoutCasts_cons fun _ => noCast, outsideCasts_cons fun _ => noCast, ih]
  | case4 character rest noParenthesis ih =>
      have noCast (opens : character = '(') : afterCast? rest = none := absurd opens noParenthesis
      rw [withoutCasts_cons noCast, outsideCasts_cons noCast, ih]

/-- Only characters of the text stand in its casts. -/
theorem InCast.lt_length (inCast : InCast text index) : index < text.length := by
  obtain ⟨before, word, after, cast, -, ends⟩ := inCast
  rw [cast.whole]
  simp only [List.length_append, List.length_cons]
  omega

/-- A text is left as it is just if it has no cast. -/
theorem outsideCasts_eq_self_iff : outsideCasts text = text ↔ ∀ index, ¬ InCast text index := by
  constructor
  · intro same index inCast
    have all : (outsideCasts text).length = (List.range text.length).length := by
      rw [same, List.length_range]
    rw [outsideCasts, List.filterMap_length_eq_length] at all
    have found := all index (List.mem_range.mpr inCast.lt_length)
    rw [if_pos inCast] at found
    cases found
  · intro none
    induction text with
    | nil => rfl
    | cons character rest ih =>
        have noCast : character = '(' → afterCast? rest = Option.none :=
          noCast_iff.mpr fun word after cast => none 0 (inCast_cons_zero.mpr ⟨word, after, cast⟩)
        rw [outsideCasts_cons noCast, ih fun index inCast =>
          none (index + 1) (inCast_cons_succ.mpr (.inr inCast))]

/-- **Just the casts are removed.** What is left are the characters that stand in no cast of the
text, in their order, and it makes no difference that a copy is made only when there is a cast. -/
theorem withoutCasts_exact (text : List Char) :
    withoutCasts text = outsideCasts text ∧ (withoutCasts? text).getD text = outsideCasts text ∧
      (withoutCasts? text = none ↔ ∀ index, ¬ InCast text index) := by
  have left := withoutCasts_eq_outsideCasts text
  rw [withoutCasts?_eq, left, ← outsideCasts_eq_self_iff]
  by_cases same : outsideCasts text = text
  · rw [if_pos same]
    exact ⟨rfl, same.symm, iff_of_true rfl same⟩
  · rw [if_neg same]
    exact ⟨rfl, rfl, iff_of_false nofun same⟩

/-- Casts inside a group that is none, beside each other, unfinished, and the kept word. -/
example : outsideCasts "((A)B) (C)(D)(TRUE)(E (F2)()".toList = "(B) (TRUE)(E (F2)()".toList := by
  decide +kernel

end LineRobot.Source
