import LineRobot.Proofs.Source.Comments
import LineRobot.Token.Scan

/-! # Forms of pieces

What a text can begin with (`Piece.Form`): a layout character, a comment, a `#` line or a token.
`Piece.read` reads nothing else (`exists_form_of_read`). The forms tell comments and tokens apart:
what is read as a comment is one by its marks, and no comment opens inside a token, since the only
tokens with a slash are the division signs and the slash in quotes. -/

namespace LineRobot

namespace Piece

/-! ## Runs without slashes -/

/-- A text begins with so many characters, and none of them is a slash. -/
def Clear (length : Nat) (text : List Char) : Prop :=
  length ≤ text.length ∧ '/' ∉ text.take length

variable {character : Char} {length : Nat} {text : List Char}

theorem clear_zero (text : List Char) : Clear 0 text :=
  ⟨Nat.zero_le _, by simp⟩

theorem Clear.cons (clear : Clear length text) (different : character ≠ '/') :
    Clear (length + 1) (character :: text) := by
  refine ⟨Nat.succ_le_succ clear.1, ?_⟩
  rw [List.take_succ_cons, List.mem_cons, not_or]
  exact ⟨different.symm, clear.2⟩

theorem Clear.tail (clear : Clear length (character :: text)) : Clear (length - 1) text := by
  cases length with
  | zero => exact clear_zero text
  | succ length =>
      obtain ⟨fits, absent⟩ := clear
      rw [List.take_succ_cons, List.mem_cons, not_or] at absent
      exact ⟨Nat.le_of_succ_le_succ fits, absent.2⟩

theorem Clear.add {more : Nat} {rest : List Char} (first : Clear length text)
    (left : text.drop length = rest) (later : Clear more rest) : Clear (length + more) text := by
  subst left
  refine ⟨?_, ?_⟩
  · have fits := later.1
    rw [List.length_drop] at fits
    have := first.1
    omega
  · rw [List.take_add, List.mem_append, not_or]
    exact ⟨first.2, later.2⟩

/-- The longest run of characters of a kind that slashes are not of. -/
theorem clear_takeWhile {accept : Char → Bool} (rejects : accept '/' = false) (text : List Char) :
    Clear (text.takeWhile accept).length text := by
  refine ⟨(List.takeWhile_sublist accept).length_le, fun member => ?_⟩
  rw [← List.prefix_iff_eq_take.mp (List.takeWhile_prefix accept)] at member
  rw [List.mem_takeWhile_imp member] at rejects
  cases rejects

/-! ## Numbers -/

/-- No slash is in an exponent. -/
theorem clear_readExponent (rest : List Char) : Clear (readExponent rest).2 rest := by
  have digits (rest : List Char) : Clear (rest.takeWhile Char.isDigit).length rest :=
    clear_takeWhile (by decide) rest
  have mark {character : Char} (isMark : character = 'e' ∨ character = 'E') : character ≠ '/' := by
    rcases isMark with rfl | rfl <;> decide
  unfold readExponent
  split
  case h_2 => exact clear_zero []
  case h_1 character after =>
    split
    case isFalse => exact clear_zero _
    case isTrue isMark =>
      split
      all_goals
        dsimp only
        split
      · exact clear_zero _
      · rw [Nat.add_comm]
        exact ((digits _).cons (by decide)).cons (mark isMark)
      · exact clear_zero _
      · rw [Nat.add_comm]
        exact ((digits _).cons (by decide)).cons (mark isMark)
      · exact clear_zero _
      · rw [Nat.add_comm]
        exact (digits _).cons (mark isMark)

/-- What is left after the longest run of characters of a kind. -/
theorem drop_length_takeWhile (accept : Char → Bool) (text : List Char) :
    text.drop (text.takeWhile accept).length = text.dropWhile accept := by
  have whole := List.takeWhile_append_dropWhile (p := accept) (l := text)
  calc text.drop (text.takeWhile accept).length
      = (text.takeWhile accept ++ text.dropWhile accept).drop (text.takeWhile accept).length := by
        rw [whole]
    _ = text.dropWhile accept := List.drop_left

/-- A decimal literal takes as many characters as its parts, and no slash. -/
theorem length_readDecimal (whole rest : List Char) :
    ∃ length, Clear length rest ∧ (readDecimal whole rest).length = whole.length + length - 1 ∧
      (readDecimal whole rest).kind.isSome = true := by
  have ending (rest : List Char) :
      Clear ((readExponent rest).2 +
        ((rest.drop (readExponent rest).2).takeWhile isNumberSuffix).length) rest :=
    (clear_readExponent rest).add rfl (clear_takeWhile (by decide) _)
  unfold readDecimal
  dsimp only
  split
  case h_1 after =>
    have fraction : Clear (after.takeWhile Char.isDigit).length after :=
      clear_takeWhile (by decide) after
    refine ⟨_, (fraction.add (drop_length_takeWhile Char.isDigit after) (ending _)).cons
      (by decide), ?_, rfl⟩
    dsimp only
    omega
  case h_2 =>
    refine ⟨_, ending rest, ?_, rfl⟩
    dsimp only [List.length_nil]
    omega

/-- A hexadecimal literal takes its mark, its digits and its suffixes. -/
theorem clear_readHexadecimal {rest : List Char} {piece : Piece}
    (read : readHexadecimal rest = .ok piece) :
    ∃ length, Clear length rest ∧ piece.length = length + 1 ∧ piece.kind.isSome = true := by
  have digits : Clear (rest.takeWhile Digits.isHexadecimal).length rest :=
    clear_takeWhile (by decide) rest
  have suffix : Clear ((rest.dropWhile Digits.isHexadecimal).takeWhile isNumberSuffix).length
      (rest.dropWhile Digits.isHexadecimal) := clear_takeWhile (by decide) _
  unfold readHexadecimal at read
  dsimp only at read
  split at read
  · cases read
  · cases read
    refine ⟨_, digits.add (drop_length_takeWhile Digits.isHexadecimal rest) suffix, ?_, rfl⟩
    dsimp only
    omega

/-- No slash is in a number literal. -/
theorem clear_readNumber {first : Char} {rest : List Char} {piece : Piece}
    (read : readNumber first rest = .ok piece) :
    Clear piece.length rest ∧ piece.kind.isSome = true := by
  unfold readNumber at read
  split at read
  case h_1 after | h_2 after =>
    obtain ⟨length, clear, same, isToken⟩ := clear_readHexadecimal read
    rw [same]
    exact ⟨clear.cons (by decide), isToken⟩
  case h_3 =>
    cases read
    obtain ⟨length, clear, same, isToken⟩ :=
      length_readDecimal (first :: rest.takeWhile Char.isDigit) (rest.dropWhile Char.isDigit)
    have digits : Clear (rest.takeWhile Char.isDigit).length rest :=
      clear_takeWhile (by decide) rest
    have whole := digits.add (drop_length_takeWhile Char.isDigit rest) clear
    refine ⟨?_, isToken⟩
    rw [same, List.length_cons]
    rwa [show (rest.takeWhile Char.isDigit).length + 1 + length - 1 =
      (rest.takeWhile Char.isDigit).length + length by omega]

/-! ## Forms of pieces -/

/-- What a piece looks like, and what can follow it. -/
inductive Form : Option TokenKind → (text rest : List Char) → Prop
  /-- A layout character. -/
  | layout {character : Char} {rest : List Char} :
      Text.isLayout character = true → Form none [character] rest
  /-- A line comment and its line end. -/
  | line {inside rest : List Char} :
      '\n' ∉ inside → Form none ('/' :: '/' :: (inside ++ ['\n'])) rest
  /-- A line comment in the last line. -/
  | lastLine {inside : List Char} : '\n' ∉ inside → Form none ('/' :: '/' :: inside) []
  /-- A block comment. -/
  | block {inside rest : List Char} :
      ¬ ['*', '/'] <:+: inside → Form none ('/' :: '*' :: (inside ++ ['*', '/'])) rest
  /-- A line that begins with `#`. -/
  | directive {inside rest : List Char} : Form none ('#' :: inside) rest
  /-- A token, in which no comment opens. -/
  | token {kind : TokenKind} {text rest : List Char} :
      text ≠ [] → Source.Uncommented text rest → Form (some kind) text rest

/-- A line up to its end, or up to the end of the text. -/
theorem exists_line (rest : List Char) :
    ∃ inside, '\n' ∉ inside ∧
      (rest = inside ∧ lineLength rest = inside.length ∨
        ∃ after, rest = inside ++ '\n' :: after ∧ lineLength rest = inside.length + 1) := by
  have whole :=
    List.takeWhile_append_dropWhile (p := fun character : Char => character != '\n') (l := rest)
  have stops := List.head?_dropWhile_not (fun character : Char => character != '\n') rest
  have inLine : '\n' ∉ rest.takeWhile fun character => character != '\n' := by
    intro member
    exact absurd (List.mem_takeWhile_imp member) (by decide)
  unfold lineLength
  dsimp only
  generalize rest.takeWhile (fun character => character != '\n') = inside at *
  cases left : rest.dropWhile fun character => character != '\n' with
  | nil =>
      rw [left, List.append_nil] at whole
      subst whole
      exact ⟨inside, inLine, .inl ⟨rfl, if_neg (Nat.lt_irrefl _)⟩⟩
  | cons character after =>
      rw [left] at whole stops
      obtain rfl : character = '\n' := by simpa using stops
      subst whole
      refine ⟨inside, inLine, .inr ⟨after, rfl, if_pos ?_⟩⟩
      rw [List.length_append, List.length_cons]
      omega

/-- The length of a comment is that of the text up to the first mark that closes it. -/
theorem commentLength?_eq_map (text : List Char) :
    commentLength? text = (Source.splitAtCommentEnd text).map fun parts => parts.1.length + 2 := by
  induction text using commentLength?.induct with
  | case1 => rfl
  | case2 rest => rfl
  | case3 character rest unclosed ih =>
      rw [commentLength?.eq_3 _ _ unclosed, Source.splitAtCommentEnd.eq_3 _ _ unclosed, ih,
        Option.map_map, Option.map_map]
      rfl

/-- A token without slashes. -/
theorem Clear.exists_form {first : Char} {rest : List Char} {piece : Piece}
    (clear : Clear piece.length rest) (isToken : piece.kind.isSome = true)
    (different : first ≠ '/') :
    ∃ tail after, rest = tail ++ after ∧ tail.length = piece.length ∧
      Form piece.kind (first :: tail) after := by
  obtain ⟨kind, same⟩ := Option.isSome_iff_exists.mp isToken
  refine ⟨rest.take piece.length, rest.drop piece.length, (List.take_append_drop _ rest).symm,
    List.length_take_of_le clear.1, ?_⟩
  rw [same]
  refine .token (List.cons_ne_nil _ _) (Source.uncommented_of_notMem ?_ _)
  rw [List.mem_cons, not_or]
  exact ⟨different.symm, clear.2⟩

/-- The end of a character literal. -/
theorem eq_of_closeCharacter {value : Char} {length : Nat} {rest : List Char} {piece : Piece}
    (read : closeCharacter value length rest = .ok piece) :
    piece = ⟨some (.character value), length + 1⟩ ∧ ∃ after, rest = '\'' :: after := by
  unfold closeCharacter at read
  split at read
  case h_1 after =>
    cases read
    exact ⟨rfl, after, rfl⟩
  all_goals cases read

/-- A character literal is a token. -/
theorem exists_form_of_readCharacter {rest : List Char} {piece : Piece}
    (read : readCharacter rest = .ok piece) :
    ∃ tail after, rest = tail ++ after ∧ tail.length = piece.length ∧
      Form piece.kind ('\'' :: tail) after := by
  unfold readCharacter at read
  split at read
  case h_1 | h_2 => cases read
  case h_3 character rest =>
    split at read
    case h_2 => cases read
    case h_1 value escaped =>
      obtain ⟨rfl, after, rfl⟩ := eq_of_closeCharacter read
      refine ⟨['\\', character, '\''], after, rfl, rfl, .token (List.cons_ne_nil _ _) ?_⟩
      have different : character ≠ '/' := by
        rintro rfl
        cases escaped
      refine Source.uncommented_of_notMem ?_ _
      simp [different.symm]
  case h_4 character rest _ _ =>
    obtain ⟨rfl, after, rfl⟩ := eq_of_closeCharacter read
    refine ⟨[character, '\''], after, rfl, rfl, .token (List.cons_ne_nil _ _) ?_⟩
    -- the character can be a slash, but a quote follows it
    simp [Source.Uncommented, Source.opensComment]

/-- A sign is a token, unless a comment opens at it. -/
theorem exists_form_of_readSign {first : Char} {rest : List Char} {piece : Piece}
    (read : readSign first rest = .ok piece)
    (closed : Source.opensComment (first :: rest) = false) :
    ∃ tail after, rest = tail ++ after ∧ tail.length = piece.length ∧
      Form piece.kind (first :: tail) after := by
  unfold readSign Sign.read? at read
  cases found : rest.head?.bind (Sign.ofPair? first) with
  | none =>
      rw [found] at read
      cases single : Sign.ofCharacter? first with
      | none =>
          rw [single] at read
          cases read
      | some mark =>
          rw [single] at read
          cases read
          exact ⟨[], rest, rfl, rfl, .token (List.cons_ne_nil _ _) ⟨closed, trivial⟩⟩
  | some mark =>
      rw [found] at read
      cases read
      obtain ⟨second, isHead, pair⟩ := Option.bind_eq_some_iff.mp found
      obtain ⟨after, rfl⟩ := List.head?_eq_some_iff.mp isHead
      refine ⟨[second], after, rfl, rfl, .token (List.cons_ne_nil _ _) ⟨closed, ?_, trivial⟩⟩
      -- no sign ends with a slash
      refine Source.opensComment_of_ne ?_ after
      rintro rfl
      unfold Sign.ofPair? at pair
      split at pair <;> simp_all

/-- A line comment is passed over together with its line end. -/
theorem exists_form_lineComment (rest : List Char) :
    ∃ tail after, '/' :: rest = tail ++ after ∧ tail.length = lineLength ('/' :: rest) ∧
      Form none ('/' :: tail) after := by
  obtain ⟨inside, inLine, ⟨whole, length⟩ | ⟨after, whole, length⟩⟩ := exists_line ('/' :: rest)
  · subst whole
    rw [List.mem_cons, not_or] at inLine
    exact ⟨'/' :: rest, [], (List.append_nil _).symm, length.symm, .lastLine inLine.2⟩
  · cases inside with
    | nil => cases whole
    | cons first inside =>
        obtain ⟨rfl, rfl⟩ := List.cons.inj whole
        rw [List.mem_cons, not_or] at inLine
        refine ⟨'/' :: (inside ++ ['\n']), after, by simp, ?_, .line inLine.2⟩
        rw [length, List.length_cons, List.length_append, List.length_singleton, List.length_cons]

/-- A `#` line is passed over together with its line end. -/
theorem exists_form_directive (rest : List Char) :
    ∃ tail after, rest = tail ++ after ∧ tail.length = lineLength rest ∧
      Form none ('#' :: tail) after := by
  obtain ⟨inside, -, ⟨whole, length⟩ | ⟨after, whole, length⟩⟩ := exists_line rest
  · exact ⟨inside, [], by rw [whole, List.append_nil], length.symm, .directive⟩
  · exact ⟨inside ++ ['\n'], after, by simp [whole], by simp [length], .directive⟩

/-- A block comment is passed over up to its end. -/
theorem exists_form_blockComment {rest : List Char} {length : Nat}
    (closed : commentLength? rest = some length) :
    ∃ tail after, '*' :: rest = tail ++ after ∧ tail.length = length + 1 ∧
      Form none ('/' :: tail) after := by
  rw [commentLength?_eq_map, Option.map_eq_some_iff] at closed
  obtain ⟨⟨inside, after⟩, split, rfl⟩ := closed
  obtain rfl := Source.eq_of_splitAtCommentEnd split
  exact ⟨'*' :: (inside ++ ['*', '/']), after, by simp, by simp,
    .block (Source.not_infix_of_splitAtCommentEnd split)⟩

/-- What can be read has a form. -/
theorem exists_form_of_read {first : Char} {rest : List Char} {piece : Piece}
    (done : read first rest = .ok piece) :
    ∃ tail after, rest = tail ++ after ∧ tail.length = piece.length ∧
      Form piece.kind (first :: tail) after := by
  unfold read at done
  -- the cases are in the order of the reader's tests, each of which excludes the forms before it
  by_cases layout : Text.isLayout first = true
  · rw [if_pos layout] at done
    cases done
    exact ⟨[], rest, rfl, rfl, .layout layout⟩
  rw [if_neg layout] at done
  by_cases isLine : first = '/' ∧ rest.head? = some '/'
  · rw [if_pos isLine] at done
    obtain ⟨rfl, isHead⟩ := isLine
    obtain ⟨rest, rfl⟩ := List.head?_eq_some_iff.mp isHead
    cases done
    exact exists_form_lineComment rest
  rw [if_neg isLine] at done
  by_cases isBlock : first = '/' ∧ rest.head? = some '*'
  · rw [if_pos isBlock] at done
    obtain ⟨rfl, isHead⟩ := isBlock
    obtain ⟨rest, rfl⟩ := List.head?_eq_some_iff.mp isHead
    split at done <;> cases done
    rename_i length closed
    exact exists_form_blockComment closed
  rw [if_neg isBlock] at done
  have closed : Source.opensComment (first :: rest) = false := by
    unfold Source.opensComment
    split <;> simp_all
  by_cases isHash : first = '#'
  · rw [if_pos isHash] at done
    subst isHash
    cases done
    exact exists_form_directive rest
  rw [if_neg isHash] at done
  by_cases isString : first = '"'
  · rw [if_pos isString] at done
    cases done
  rw [if_neg isString] at done
  by_cases isQuote : first = '\''
  · rw [if_pos isQuote] at done
    subst isQuote
    exact exists_form_of_readCharacter done
  rw [if_neg isQuote] at done
  by_cases isDigit : first.isDigit = true
  · rw [if_pos isDigit] at done
    obtain ⟨clear, isToken⟩ := clear_readNumber done
    exact clear.exists_form isToken (by rintro rfl; cases isDigit)
  rw [if_neg isDigit] at done
  by_cases isPoint : first = '.' ∧ rest.head?.any Char.isDigit
  · rw [if_pos isPoint] at done
    cases done
    obtain ⟨length, clear, same, isToken⟩ := length_readDecimal [] (first :: rest)
    rw [List.length_nil, Nat.zero_add] at same
    refine Clear.exists_form (same ▸ clear.tail) isToken ?_
    rw [isPoint.1]
    decide
  rw [if_neg isPoint] at done
  by_cases isStart : Text.isWordStart first = true
  · rw [if_pos isStart] at done
    cases done
    exact Clear.exists_form (clear_takeWhile (by decide) rest) rfl (by rintro rfl; cases isStart)
  rw [if_neg isStart] at done
  exact exists_form_of_readSign done closed

end Piece

end LineRobot
