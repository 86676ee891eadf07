import LineRobot.Proofs.Token.Fragments

/-! # What a token depends on

How a token is read depends on what follows it, as a longer token may be there. It does not depend
on anything after the next layout character or comment: no token but a character in quotes goes on
over a character that `Breaks` others (`Piece.Reads.congr`). -/

namespace LineRobot

/-- What follows ends a token: nothing, a layout character or a slash. -/
def Breaks (rest : List Char) : Prop :=
  ∀ character ∈ rest.head?, Text.isLayout character = true ∨ character = '/'

namespace Breaks

/-- The characters that end a token. -/
def characters : List Char :=
  [' ', '\t', '\n', '\u000c', '\r', '/']

/-- What is not said of any character that ends a token is not said of a layout character. -/
theorem eq_false {accept : Char → Bool} {character : Char}
    (rejects : characters.all (fun character => !accept character) = true)
    (ends : Text.isLayout character = true ∨ character = '/') : accept character = false := by
  have member : character ∈ characters := by
    simpa [characters, Text.isLayout, or_assoc] using ends
  simpa using List.all_eq_true.mp rejects character member

variable {rest : List Char} (breaks : Breaks rest)

/-- Nothing ends a token. -/
theorem nil : Breaks [] :=
  fun _ isHead => nomatch isHead

include breaks

/-- What is not said of any character that ends a token is not said of the first one. -/
theorem eq_false_of_head? {accept : Char → Bool} {character : Char}
    (rejects : characters.all (fun character => !accept character) = true)
    (isHead : rest.head? = some character) : accept character = false :=
  eq_false rejects (breaks character isHead)

variable {accept : Char → Bool} (rejects : characters.all (fun character =>
  !accept character) = true)
  (text : List Char)

include rejects

/-- A run of characters does not go on over what ends a token. -/
theorem takeWhile_append : (text ++ rest).takeWhile accept = text.takeWhile accept := by
  induction text with
  | nil =>
      cases rest with
      | nil => rfl
      | cons first rest =>
          have stops := breaks.eq_false_of_head? rejects rfl
          exact List.takeWhile_cons_of_neg (by simp [stops])
  | cons character text ih => rw [List.cons_append, List.takeWhile_cons, List.takeWhile_cons, ih]

/-- What is left after a run of characters goes on with what ends a token. -/
theorem dropWhile_append : (text ++ rest).dropWhile accept = text.dropWhile accept ++ rest := by
  induction text with
  | nil =>
      cases rest with
      | nil => rfl
      | cons first rest =>
          have stops := breaks.eq_false_of_head? rejects rfl
          exact List.dropWhile_cons_of_neg (by simp [stops])
  | cons character text ih =>
      rw [List.cons_append, List.dropWhile_cons, List.dropWhile_cons, ih]
      split <;> rfl

end Breaks

namespace Piece

variable {rest : List Char} (breaks : Breaks rest)

include breaks

/-- An exponent ends there. -/
theorem readExponent_append (text : List Char) :
    readExponent (text ++ rest) = readExponent text := by
  have digits (text : List Char) : (text ++ rest).takeWhile Char.isDigit =
      text.takeWhile Char.isDigit :=
    breaks.takeWhile_append (by decide) text
  have noDigits : rest.takeWhile Char.isDigit = [] := digits []
  -- what comes after neither begins an exponent nor gives one its sign
  have other {character : Char} (isHead : rest.head? = some character) :
      character ≠ 'e' ∧ character ≠ 'E' ∧ character ≠ '-' ∧ character ≠ '+' := by
    rcases breaks character isHead with layout | rfl
    · refine ⟨?_, ?_, ?_, ?_⟩ <;> rintro rfl <;> cases layout
    · decide
  cases text with
  | nil =>
      cases rest with
      | nil => rfl
      | cons first rest =>
          obtain ⟨small, large, -⟩ := other rfl
          exact if_neg (not_or.mpr ⟨small, large⟩)
  | cons mark text =>
      rw [List.cons_append]
      unfold readExponent
      dsimp only
      congr 1
      cases text with
      | nil =>
          rw [List.nil_append]
          split
          case h_1 => exact absurd rfl (other rfl).2.2.1
          case h_2 => exact absurd rfl (other rfl).2.2.2
          case h_3 => exact if_pos noDigits
      | cons sign text =>
          rw [List.cons_append]
          by_cases minus : sign = '-'
          case pos => simp only [minus, digits]
          case neg =>
            by_cases plus : sign = '+'
            case pos => simp only [plus, digits]
            case neg =>
              have same := digits (sign :: text)
              rw [List.cons_append] at same
              split <;> simp_all

omit breaks in
/-- A decimal literal without a point. -/
theorem readDecimal_of_head?_ne (noPoint : rest.head? ≠ some '.') (whole : List Char) :
    readDecimal whole rest =
      ⟨some (.number (Decimal.toFloat ⟨Digits.value 10 whole, (readExponent rest).1⟩)),
        whole.length + (readExponent rest).2 +
          ((rest.drop (readExponent rest).2).takeWhile isNumberSuffix).length - 1⟩ := by
  unfold readDecimal
  dsimp only
  split
  case h_1 => exact absurd rfl noPoint
  case h_2 =>
    dsimp only
    rw [List.append_nil, List.length_nil, Int.natCast_zero, Int.sub_zero]
    rfl

omit breaks in
/-- A decimal literal with a point. -/
theorem readDecimal_point (whole after : List Char) :
    readDecimal whole ('.' :: after) =
      let fraction := after.takeWhile Char.isDigit
      let behind := after.dropWhile Char.isDigit
      ⟨some (.number (Decimal.toFloat
          ⟨Digits.value 10 (whole ++ fraction), (readExponent behind).1 - fraction.length⟩)),
        whole.length + 1 + fraction.length + (readExponent behind).2 +
          ((behind.drop (readExponent behind).2).takeWhile isNumberSuffix).length - 1⟩ := rfl

/-- A decimal literal ends there. -/
theorem readDecimal_append (whole text : List Char) :
    readDecimal whole (text ++ rest) = readDecimal whole text := by
  have suffix (text : List Char) :
      ((text ++ rest).drop (readExponent (text ++ rest)).2).takeWhile isNumberSuffix =
        (text.drop (readExponent text).2).takeWhile isNumberSuffix := by
    rw [readExponent_append breaks, List.drop_append_of_le_length (clear_readExponent text).1]
    exact breaks.takeWhile_append (by decide) _
  by_cases point : text.head? = some '.'
  case pos =>
    obtain ⟨after, rfl⟩ := List.head?_eq_some_iff.mp point
    rw [List.cons_append, readDecimal_point, readDecimal_point, breaks.takeWhile_append (by decide),
      breaks.dropWhile_append (by decide)]
    dsimp only
    rw [suffix, readExponent_append breaks]
  case neg =>
    have noPoint : (text ++ rest).head? ≠ some '.' := by
      cases text with
      | cons first text => exact point
      | nil =>
          intro isHead
          rcases breaks '.' isHead with layout | same
          · cases layout
          · cases same
    rw [readDecimal_of_head?_ne point, readDecimal_of_head?_ne noPoint, suffix,
      readExponent_append breaks]

/-- A hexadecimal literal ends there. -/
theorem readHexadecimal_append (text : List Char) :
    readHexadecimal (text ++ rest) = readHexadecimal text := by
  unfold readHexadecimal
  rw [breaks.takeWhile_append (by decide), breaks.dropWhile_append (by decide),
    breaks.takeWhile_append (by decide)]

/-- A number literal ends there. -/
theorem readNumber_append (first : Char) (text : List Char) :
    readNumber first (text ++ rest) = readNumber first text := by
  by_cases marked : first = '0' ∧ (text.head? = some 'x' ∨ text.head? = some 'X')
  case pos =>
    obtain ⟨rfl, isHead | isHead⟩ := marked
    all_goals
      obtain ⟨after, rfl⟩ := List.head?_eq_some_iff.mp isHead
      exact readHexadecimal_append breaks after
  case neg =>
    have noMark {mark : Char} (isMark : mark = 'x' ∨ mark = 'X') (after : List Char)
        (zero : first = '0')
        (same : text = mark :: after) : False := by
      subst same zero
      refine marked ⟨rfl, ?_⟩
      rcases isMark with rfl | rfl
      · exact .inl rfl
      · exact .inr rfl
    have stillNoMark {mark : Char} (isMark : mark = 'x' ∨ mark = 'X') (after : List Char)
        (zero : first = '0') (same : text ++ rest = mark :: after) : False := by
      cases text with
      | cons second text =>
          obtain ⟨rfl, rfl⟩ := List.cons.inj same
          exact noMark isMark text zero rfl
      | nil =>
          have rejected := breaks mark (List.head?_eq_some_iff.mpr ⟨after, same⟩)
          rcases isMark with rfl | rfl <;> rcases rejected with layout | same <;>
            first | cases layout | cases same
    rw [readNumber.eq_3 _ _ (noMark (.inl rfl)) (noMark (.inr rfl)),
      readNumber.eq_3 _ _ (stillNoMark (.inl rfl)) (stillNoMark (.inr rfl)),
      breaks.takeWhile_append (by decide), breaks.dropWhile_append (by decide),
        readDecimal_append breaks]

/-- A word ends there. -/
theorem readWord_append (first : Char) (text : List Char) :
    readWord first (text ++ rest) = readWord first text := by
  rw [readWord, readWord, breaks.takeWhile_append (by decide)]

/-- A sign ends there. -/
theorem readSign_append (first : Char) (text : List Char) :
    readSign first (text ++ rest) = readSign first text := by
  unfold readSign Sign.read?
  cases text with
  | cons second text => rfl
  | nil =>
      have noPair : rest.head?.bind (Sign.ofPair? first) = none := by
        rw [Option.bind_eq_none_iff]
        intro second isHead
        unfold Sign.ofPair?
        rcases breaks second isHead with layout | rfl
        · split <;> first | rfl | cases layout
        · split <;> first | rfl | trivial
      rw [List.nil_append, noPair]
      rfl

omit breaks in
/-- What is read where no comment opens. -/
theorem read_of_closed {first : Char} (closed : Source.opensComment (first :: rest) = false)
    (noHash : first ≠ '#') :
    read first rest =
      if Text.isLayout first then .ok ⟨none, 0⟩
      else if first = '"' then .error ⟨.stringLiteral, 0⟩
      else if first = '\'' then readCharacter rest
      else if first.isDigit then readNumber first rest
      else if first = '.' ∧ rest.head?.any Char.isDigit then .ok (readDecimal [] (first :: rest))
      else if Text.isWordStart first then .ok (readWord first rest)
      else readSign first rest := by
  have noLine : ¬ (first = '/' ∧ rest.head? = some '/') := by
    rintro ⟨rfl, isHead⟩
    obtain ⟨after, rfl⟩ := List.head?_eq_some_iff.mp isHead
    cases closed
  have noBlock : ¬ (first = '/' ∧ rest.head? = some '*') := by
    rintro ⟨rfl, isHead⟩
    obtain ⟨after, rfl⟩ := List.head?_eq_some_iff.mp isHead
    cases closed
  rw [read, if_neg noLine, if_neg noBlock, if_neg noHash]

/-- **A token that is no character in quotes ends there.** -/
theorem read_append {first : Char} {text : List Char} (noHash : first ≠ '#')
    (noQuote : first ≠ '\'') (closed : Source.opensComment (first :: (text ++ rest)) = false) :
    read first (text ++ rest) = read first text := by
  have noDigit : rest.head?.any Char.isDigit = false := by
    cases rest with
    | nil => rfl
    | cons character rest =>
        have stops : character.isDigit = false := breaks.eq_false_of_head? (by decide) rfl
        exact stops
  have sameDigit : (text ++ rest).head?.any Char.isDigit = text.head?.any Char.isDigit := by
    cases text with
    | nil => exact noDigit
    | cons second text => rfl
  rw [read_of_closed closed noHash, read_of_closed (Source.opensComment_of_append closed) noHash,
    if_neg noQuote, if_neg noQuote, readNumber_append breaks, readWord_append breaks,
      readSign_append breaks,
    sameDigit, ← List.cons_append, readDecimal_append breaks]

omit breaks

variable {kind : TokenKind} {text : List Char}

/-- A character in quotes is read whatever follows it. -/
theorem exists_quoted {piece : Piece} (done : readCharacter text = .ok piece) :
    ∃ tail after, text = tail ++ after ∧ tail.length = piece.length ∧
      ∀ other, readCharacter (tail ++ other) = .ok piece := by
  unfold readCharacter at done
  split at done
  case h_1 | h_2 => cases done
  case h_3 character rest =>
    split at done
    case h_2 => cases done
    case h_1 value escaped =>
      obtain ⟨rfl, after, rfl⟩ := eq_of_closeCharacter done
      refine ⟨['\\', character, '\''], after, rfl, rfl, fun other => ?_⟩
      show readCharacter ('\\' :: character :: ('\'' :: other)) = _
      rw [readCharacter.eq_3, escaped]
      rfl
  case h_4 character rest noEscape noEnd =>
    obtain ⟨rfl, after, rfl⟩ := eq_of_closeCharacter done
    refine ⟨[character, '\''], after, rfl, rfl, fun other => ?_⟩
    have plain : character ≠ '\\' := fun same => noEnd _ _ same rfl
    show readCharacter (character :: ('\'' :: other)) = _
    rw [readCharacter.eq_4 _ _ (fun same => absurd same plain) (fun _ _ same => absurd same plain)]
    rfl

/-- No token begins with a `#`. -/
theorem Reads.ne_hash {first : Char} {tail : List Char}
    (reads : Reads (some kind) (first :: tail) rest) :
    first ≠ '#' := by
  rintro rfl
  rw [Reads, read, if_neg (by decide), if_neg (by simp), if_neg (by simp), if_pos rfl] at reads
  cases reads

/-- A quote begins a character in quotes. -/
theorem read_quote (rest : List Char) : read '\'' rest = readCharacter rest := by
  rw [read, if_neg (by decide), if_neg (by simp), if_neg (by simp), if_neg (by decide),
    if_neg (by decide), if_pos rfl]

/-- **What a token depends on**: it is read as it is just up to what ends a token, if no comment
opens in it. -/
theorem Reads.congr {next other : List Char} (reads : Reads (some kind) text (next ++ rest))
    (breaks : Breaks rest) (otherBreaks : Breaks other)
    (uncommented : Source.Uncommented text (next ++ other)) :
    Reads (some kind) text (next ++ other) := by
  cases text with
  | nil => exact reads.elim
  | cons first tail =>
      have closed : Source.opensComment (first :: (tail ++ (next ++ rest))) = false := by
        cases reads.form with
        | token _ uncommented => exact uncommented.1
      have stillClosed := uncommented.1
      have noHash := reads.ne_hash
      rw [Reads] at reads ⊢
      by_cases quote : first = '\''
      case pos =>
        subst quote
        rw [read_quote] at reads ⊢
        obtain ⟨quoted, after, whole, length, same⟩ := exists_quoted reads
        obtain ⟨rfl, -⟩ := List.append_inj whole length.symm
        exact same _
      case neg =>
        rw [← List.append_assoc] at reads closed stillClosed ⊢
        rw [read_append otherBreaks noHash quote stillClosed,
          ← read_append breaks noHash quote closed, reads]

end Piece

end LineRobot
