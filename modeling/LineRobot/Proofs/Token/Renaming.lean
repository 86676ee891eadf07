import LineRobot.Proofs.Syntax.Grammar
import LineRobot.Proofs.Token.Spelling

/-! # Replacing a name in a text

Two texts may differ in that one of them has another name in the place of some occurrences of a name
(`Source.Renames`). They are cut into tokens in the same way: `Renames.exists_scanned` says that one
of them has a scan if the other one has, and that the tokens differ in these names and in their
places only.

Only words are replaced that do not go on something before them, so that no piece of a text gets
longer or shorter but the names themselves and the comments and `#` lines around them. -/

namespace LineRobot

namespace Text

/-- Whether a word or a number may go on behind a character. -/
def isJoined (character : Char) : Bool :=
  isWordCharacter character || character = '.'

/-- Whether a word is a name: it does not begin with a digit, and it is no keyword. -/
def isIdentifier (word : String) : Bool :=
  word.toList.head?.any isWordStart && word.toList.all isWordCharacter &&
    (Keyword.ofSpelling? word).isNone

/-- The characters of a name. -/
theorem exists_of_isIdentifier {word : String} (isName : isIdentifier word = true) :
    ∃ first tail, word = String.ofList (first :: tail) ∧ isWordStart first = true ∧
      (∀ character ∈ tail, isWordCharacter character = true) ∧ Keyword.ofSpelling? word = none := by
  obtain ⟨⟨start, inside⟩, free⟩ : (word.toList.head?.any isWordStart = true ∧
      word.toList.all isWordCharacter = true) ∧ (Keyword.ofSpelling? word).isNone = true := by
    simpa only [isIdentifier, Bool.and_eq_true] using isName
  cases characters : word.toList with
  | nil =>
      rw [characters] at start
      cases start
  | cons first tail =>
      rw [characters] at start inside
      refine ⟨first, tail, ?_, start, ?_, Option.isNone_iff_eq_none.mp free⟩
      · rw [← characters, String.ofList_toList]
      · exact fun character member =>
          List.all_eq_true.mp inside character (List.mem_cons_of_mem first member)

/-- A character that is in no word is not in a name. -/
theorem notMem_of_isIdentifier {word : String} (isName : isIdentifier word = true)
    {character : Char} (outside : isWordCharacter character = false) :
    character ∉ word.toList := by
  intro member
  have inside : word.toList.all isWordCharacter = true := by
    simp only [isIdentifier, Bool.and_eq_true] at isName
    exact isName.1.2
  rw [List.all_eq_true.mp inside character member] at outside
  cases outside

end Text

namespace Source

/-- The second text is the first one with another word in the place of some occurrences of a word.
The word is found whole only: it does not stand behind a character of a word or a number, for which
`joined` stands, and no word goes on behind it. -/
inductive Renames (word other : String) : (joined : Bool) → (text text' : List Char) → Prop
  /-- The end. -/
  | nil {joined : Bool} : Renames word other joined [] []
  /-- A character stays. -/
  | keep {joined : Bool} {character : Char} {rest rest' : List Char} :
      Renames word other (Text.isJoined character) rest rest' →
      Renames word other joined (character :: rest) (character :: rest')
  /-- The word is replaced. -/
  | replace {rest rest' : List Char} :
      rest.head?.any Text.isWordCharacter = false → Renames word other true rest rest' →
      Renames word other false (word.toList ++ rest) (other.toList ++ rest')

/-- A text is the same if nothing is replaced in it. -/
theorem Renames.refl {word other : String} (text : List Char) {joined : Bool} :
    Renames word other joined text text := by
  induction text generalizing joined with
  | nil => exact .nil
  | cons character text ih => exact .keep ih

/-- Words are replaced behind a text that ends with a character that no word goes on behind. -/
theorem Renames.append {word other : String} {last : Char} {rest rest' : List Char}
    (apart : Text.isJoined last = false) (renames : Renames word other false rest rest')
    (front : List Char) {joined : Bool} :
    Renames word other joined (front ++ last :: rest) (front ++ last :: rest') := by
  induction front generalizing joined with
  | nil => exact .keep (apart ▸ renames)
  | cons character front ih => exact .keep ih

/-- A name that stays or is replaced. -/
def Renaming (word other text text' : String) : Prop :=
  text' = text ∨ text = word ∧ text' = other

end Source

open Source

variable {word other : String} {joined : Bool} {text text' rest rest' : List Char}

/-- Pieces at the front of two texts that are the same but for a name, before texts that differ in
names only. -/
structure Piece.Renamed (word other : String) (rest rest' : List Char) (piece piece' : Piece) :
    Prop where
  /-- Both are a token, or neither is. -/
  kind : Option.Rel (TokenKind.Renamed (Renaming word other)) piece.kind piece'.kind
  /-- What follows them. -/
  after : ∃ joined, Renames word other joined (rest.drop piece.length) (rest'.drop piece'.length)

/-- The same piece at the front of two texts. -/
theorem Piece.Renamed.of_after {piece : Piece}
    (after : Renames word other joined (rest.drop piece.length) (rest'.drop piece.length)) :
    piece.Renamed word other rest rest' piece := by
  refine ⟨?_, joined, after⟩
  cases piece.kind with
  | none => exact .none
  | some kind => exact .some (TokenKind.renamed_self (fun _ => .inl rfl) kind)

namespace Source.Renames

/-! ## Runs of characters -/

/-- The first character stays, or the word is at the front and is replaced. -/
theorem cons_cases {first : Char} (renames : Renames word other joined (first :: rest) text') :
    (∃ rest', text' = first :: rest' ∧ Renames word other (Text.isJoined first) rest rest') ∨
      joined = false ∧ ∃ after after', first :: rest = word.toList ++ after ∧
        text' = other.toList ++ after' ∧ after.head?.any Text.isWordCharacter = false ∧
          Renames word other true after after' := by
  generalize whole : first :: rest = text at renames
  cases renames with
  | nil => cases whole
  | keep later =>
      cases whole
      exact .inl ⟨_, rfl, later⟩
  | replace ends later => exact .inr ⟨rfl, _, _, rfl, rfl, ends, later⟩

/-- Behind a word or a number nothing is replaced, so that the next character stays. -/
theorem head?_eq (renames : Renames word other true text text') : text'.head? = text.head? := by
  cases renames <;> rfl

/-- A run of characters that a word or a number can have stays behind one, and what is left after it
stands behind one again. -/
theorem run {accept : Char → Bool}
    (joins : ∀ character, accept character = true → Text.isJoined character = true)
    (renames : Renames word other true text text') :
    text'.takeWhile accept = text.takeWhile accept ∧
      Renames word other true (text.dropWhile accept) (text'.dropWhile accept) := by
  generalize behind : true = joined at renames
  -- behind a character of the run the next one is joined, so that nothing is replaced inside
  induction renames with
  | nil => exact ⟨rfl, .nil⟩
  | @keep joined character rest rest' later ih =>
      by_cases accepted : accept character = true
      · have goesOn := joins character accepted
        obtain ⟨taken, left⟩ := ih goesOn.symm
        simp only [List.takeWhile_cons_of_pos accepted, List.dropWhile_cons_of_pos accepted, taken]
        rw [goesOn] at left
        exact ⟨trivial, behind ▸ left⟩
      · simp only [List.takeWhile_cons_of_neg accepted, List.dropWhile_cons_of_neg accepted]
        exact ⟨trivial, .keep later⟩
  | replace => cases behind

/-- What is left after a run, as what is left after so many characters. -/
theorem drop_run {accept : Char → Bool}
    (joins : ∀ character, accept character = true → Text.isJoined character = true)
    (renames : Renames word other true text text') :
    Renames word other true (text.drop (text.takeWhile accept).length)
      (text'.drop (text.takeWhile accept).length) := by
  obtain ⟨taken, left⟩ := renames.run joins
  have dropped := Piece.drop_length_takeWhile accept text'
  rw [taken] at dropped
  rwa [Piece.drop_length_takeWhile, dropped]

/-! ## Numbers -/

/-- Numbers go on with digits. -/
theorem isJoined_of_isDigit (character : Char) (isDigit : character.isDigit = true) :
    Text.isJoined character = true := by
  simp [Text.isJoined, Text.isWordCharacter, Char.isAlphanum, isDigit]

/-- Numbers go on with suffixes. -/
theorem isJoined_of_isNumberSuffix (character : Char)
    (isSuffix : Piece.isNumberSuffix character = true) : Text.isJoined character = true := by
  have known : ['u', 'U', 'l', 'L', 'f', 'F'].all Text.isJoined = true := by decide
  exact List.all_eq_true.mp known character (List.contains_iff_mem.mp isSuffix)

/-- Words go on with their characters. -/
theorem isJoined_of_isWordCharacter (character : Char)
    (inWord : Text.isWordCharacter character = true) : Text.isJoined character = true := by
  rw [Text.isJoined, inWord, Bool.true_or]

/-- Numbers go on with hexadecimal digits. -/
theorem isJoined_of_isHexadecimal (character : Char)
    (isDigit : Digits.isHexadecimal character = true) : Text.isJoined character = true := by
  -- the first six letters are among all of them
  have isLetter (first last stop : Char) (within : (first ≤ character && character ≤ last) = true)
      (before : last ≤ stop) : (first ≤ character && character ≤ stop) = true := by
    simp only [Bool.and_eq_true, decide_eq_true_eq] at within ⊢
    exact ⟨within.1, Char.le_trans within.2 before⟩
  have ofAlpha (isAlpha : (character.isUpper || character.isLower) = true) :
      Text.isJoined character = true := by
    refine isJoined_of_isWordCharacter character ?_
    have isAlphanum : character.isAlphanum = true := Bool.or_eq_true_iff.mpr (.inl isAlpha)
    rw [Text.isWordCharacter, isAlphanum, Bool.true_or]
  rcases (Bool.or_eq_true _ _).mp isDigit with isDigit | isLarge
  · rcases (Bool.or_eq_true _ _).mp isDigit with isDigit | isSmall
    · exact isJoined_of_isDigit character isDigit
    · exact ofAlpha (Bool.or_eq_true_iff.mpr (.inr (isLetter 'a' 'f' 'z' isSmall (by decide))))
  · have within : 'A' ≤ character ∧ character ≤ 'Z' := by
      simpa only [Bool.and_eq_true, decide_eq_true_eq] using
        isLetter 'A' 'F' 'Z' isLarge (by decide)
    have isUpper : character.isUpper = true := decide_eq_true_iff.mpr within
    exact ofAlpha (Bool.or_eq_true_iff.mpr (.inl isUpper))

/-- An exponent behind its mark: a row of digits, perhaps with a sign before it. -/
theorem readExponent_mark {mark : Char} (isMark : mark = 'e' ∨ mark = 'E') (text : List Char) :
    ∃ (signs digits : List Char) (value : Nat → Int), text = signs ++ digits ∧
      (signs = [] ∨ ∃ sign, signs = [sign]) ∧
      ∀ other : List Char, (signs = [] → other.head? = text.head?) →
        Piece.readExponent (mark :: (signs ++ other)) =
          if other.takeWhile Char.isDigit = [] then (0, 0)
          else (value (Digits.value 10 (other.takeWhile Char.isDigit)),
            (mark :: signs).length + (other.takeWhile Char.isDigit).length) := by
  simp only [Piece.readExponent, if_pos isMark]
  by_cases signed : text.head? = some '-' ∨ text.head? = some '+'
  case pos =>
    rcases signed with isHead | isHead
    all_goals
      obtain ⟨digits, rfl⟩ := List.head?_eq_some_iff.mp isHead
    · exact ⟨['-'], digits, fun value => -(value : Int), rfl, .inr ⟨_, rfl⟩,
        fun other _ => rfl⟩
    · exact ⟨['+'], digits, Int.ofNat, rfl, .inr ⟨_, rfl⟩, fun other _ => rfl⟩
  case neg =>
    refine ⟨[], text, Int.ofNat, rfl, .inl rfl, fun other sameHead => ?_⟩
    rw [not_or, ← sameHead rfl] at signed
    rw [List.nil_append]
    split
    case h_1 => exact absurd rfl signed.1
    case h_2 => exact absurd rfl signed.2
    case h_3 => rfl

/-- A hexadecimal literal stays. -/
theorem readHexadecimal_eq (renames : Renames word other true rest rest') :
    Piece.readHexadecimal rest' = Piece.readHexadecimal rest ∧
      ∀ piece, Piece.readHexadecimal rest = .ok piece →
        ∃ length, piece.length = length + 1 ∧
          Renames word other true (rest.drop length) (rest'.drop length) := by
  obtain ⟨digits, left⟩ := renames.run isJoined_of_isHexadecimal
  have suffix := left.drop_run isJoined_of_isNumberSuffix
  unfold Piece.readHexadecimal
  dsimp only
  rw [digits, (left.run isJoined_of_isNumberSuffix).1]
  refine ⟨rfl, fun piece done => ?_⟩
  split at done <;> cases done
  rw [← Piece.drop_length_takeWhile, ← Piece.drop_length_takeWhile, digits, List.drop_drop,
    List.drop_drop, Piece.drop_length_takeWhile] at suffix
  refine ⟨_, ?_, suffix⟩
  dsimp only
  omega

-- the word and the other one are names, and the word does not fit between quotes
variable (isWord : Text.isIdentifier word = true) (long : 1 < word.toList.length)
  (isOther : Text.isIdentifier other = true)

section Numbers

include isWord isOther

/-- A row of digits stays, wherever it stands. -/
theorem digits (renames : Renames word other joined text text') :
    text'.takeWhile Char.isDigit = text.takeWhile Char.isDigit ∧
      (text.takeWhile Char.isDigit ≠ [] →
        Renames word other true (text.dropWhile Char.isDigit) (text'.dropWhile Char.isDigit)) := by
  cases renames with
  | nil => exact ⟨rfl, fun some => absurd rfl some⟩
  | @keep joined first rest rest' later =>
      by_cases isDigit : first.isDigit = true
      · rw [isJoined_of_isDigit first isDigit] at later
        obtain ⟨taken, left⟩ := later.run isJoined_of_isDigit
        simp only [List.takeWhile_cons_of_pos isDigit, List.dropWhile_cons_of_pos isDigit, taken]
        exact ⟨trivial, fun _ => left⟩
      · simp only [List.takeWhile_cons_of_neg isDigit]
        exact ⟨trivial, fun some => absurd rfl some⟩
  | replace =>
      obtain ⟨first, tail, rfl, start, -, -⟩ := Text.exists_of_isIdentifier isWord
      obtain ⟨first', tail', rfl, start', -, -⟩ := Text.exists_of_isIdentifier isOther
      have noDigit := Piece.not_isDigit_of_isWordStart start
      have noDigit' := Piece.not_isDigit_of_isWordStart start'
      simp only [String.toList_ofList, List.cons_append, List.takeWhile_cons_of_neg noDigit,
        List.takeWhile_cons_of_neg noDigit']
      exact ⟨trivial, fun some => absurd rfl some⟩

/-- What is left behind a row of digits that has so many characters before it. -/
theorem drop_digits (skipped : List Char) (renames : Renames word other joined text text')
    (some : text.takeWhile Char.isDigit ≠ []) :
    Renames word other true
      ((skipped ++ text).drop (skipped.length + (text.takeWhile Char.isDigit).length))
      ((skipped ++ text').drop (skipped.length + (text.takeWhile Char.isDigit).length)) := by
  obtain ⟨taken, left⟩ := renames.digits isWord isOther
  rw [List.drop_length_add_append, List.drop_length_add_append, Piece.drop_length_takeWhile,
    ← taken, Piece.drop_length_takeWhile]
  exact left some

/-- An exponent stays. -/
theorem readExponent_eq (renames : Renames word other true rest rest') :
    Piece.readExponent rest' = Piece.readExponent rest ∧
      Renames word other true (rest.drop (Piece.readExponent rest).2)
        (rest'.drop (Piece.readExponent rest).2) := by
  cases renames with
  | nil => exact ⟨rfl, .nil⟩
  | @keep _ mark after after' later =>
      have whole : Renames word other true (mark :: after) (mark :: after') := .keep later
      by_cases isMark : mark = 'e' ∨ mark = 'E'
      case neg =>
        simp only [Piece.readExponent, if_neg isMark]
        exact ⟨trivial, whole⟩
      case pos =>
      have goesOn : Text.isJoined mark = true := by rcases isMark with rfl | rfl <;> decide
      rw [goesOn] at later
      obtain ⟨signs, digits, value, rfl, signed, read⟩ := readExponent_mark isMark after
      -- behind the signs stands the same row of digits
      obtain ⟨digits', joined, rfl, behind, sameHead⟩ : ∃ digits' joined,
        after' = signs ++ digits' ∧
          Renames word other joined digits digits' ∧
            (signs = [] → digits'.head? = (signs ++ digits).head?) := by
        rcases signed with rfl | ⟨sign, rfl⟩
        · exact ⟨after', true, rfl, later, fun _ => later.head?_eq⟩
        · cases later with
          | keep behind => exact ⟨_, _, rfl, behind, nofun⟩
      rw [read digits' sameHead, read digits (by rintro rfl; rfl),
        (behind.digits isWord isOther).1]
      refine ⟨rfl, ?_⟩
      split
      case isTrue => exact whole
      case isFalse some => exact behind.drop_digits isWord isOther (mark :: signs) some

/-- The end of a decimal literal stays: an exponent and suffixes, of so many characters. -/
theorem ending_eq (renames : Renames word other true rest rest') :
    let exponent := Piece.readExponent rest
    let suffix := (rest.drop exponent.2).takeWhile Piece.isNumberSuffix
    Piece.readExponent rest' = exponent ∧
      (rest'.drop exponent.2).takeWhile Piece.isNumberSuffix = suffix ∧
        ∃ length, length = exponent.2 + suffix.length ∧
          Renames word other true (rest.drop length) (rest'.drop length) := by
  obtain ⟨same, left⟩ := renames.readExponent_eq isWord isOther
  refine ⟨same, (left.run isJoined_of_isNumberSuffix).1, _, rfl, ?_⟩
  rw [← List.drop_drop, ← List.drop_drop]
  exact left.drop_run isJoined_of_isNumberSuffix

/-- A decimal literal stays. So many of the characters behind its whole digits belong to it. -/
theorem readDecimal_eq (renames : Renames word other true rest rest') (whole : List Char) :
    Piece.readDecimal whole rest' = Piece.readDecimal whole rest ∧
      ∃ length, (Piece.readDecimal whole rest).length = whole.length + length - 1 ∧
        (rest.head? = some '.' → 0 < length) ∧
          Renames word other true (rest.drop length) (rest'.drop length) := by
  have sameHead := renames.head?_eq
  by_cases point : rest.head? = some '.'
  case pos =>
    obtain ⟨after, rfl⟩ := List.head?_eq_some_iff.mp point
    obtain ⟨after', rfl⟩ := List.head?_eq_some_iff.mp (sameHead.trans point)
    cases renames with
    | keep later =>
        rw [show Text.isJoined '.' = true by decide] at later
        obtain ⟨fraction, left⟩ := later.run isJoined_of_isDigit
        obtain ⟨exponent, suffix, length, counted, left⟩ := left.ending_eq isWord isOther
        rw [Piece.readDecimal_point, Piece.readDecimal_point, fraction]
        dsimp only
        rw [exponent, suffix]
        refine ⟨rfl, (after.takeWhile Char.isDigit).length + length + 1, ?_, fun _ =>
          Nat.succ_pos _, ?_⟩
        · omega
        · rw [List.drop_succ_cons, List.drop_succ_cons, ← List.drop_drop, ← List.drop_drop,
            Piece.drop_length_takeWhile, ← fraction, Piece.drop_length_takeWhile]
          exact left
  case neg =>
    obtain ⟨exponent, suffix, length, counted, left⟩ := renames.ending_eq isWord isOther
    rw [Piece.readDecimal_of_head?_ne point, Piece.readDecimal_of_head?_ne (sameHead ▸ point),
      exponent, suffix]
    refine ⟨rfl, length, ?_, fun isPoint => absurd isPoint point, left⟩
    dsimp only
    omega

/-- A number literal stays. -/
theorem readNumber_eq (renames : Renames word other true rest rest') (first : Char) :
    Piece.readNumber first rest' = Piece.readNumber first rest ∧
      ∀ piece, Piece.readNumber first rest = .ok piece →
        Renames word other true (rest.drop piece.length) (rest'.drop piece.length) := by
  have sameHead := renames.head?_eq
  by_cases marked : first = '0' ∧ (rest.head? = some 'x' ∨ rest.head? = some 'X')
  case pos =>
    obtain ⟨rfl, isHead | isHead⟩ := marked
    all_goals
      obtain ⟨after, rfl⟩ := List.head?_eq_some_iff.mp isHead
      obtain ⟨after', rfl⟩ := List.head?_eq_some_iff.mp (sameHead.trans isHead)
      cases renames with
      | keep later =>
          obtain ⟨same, drops⟩ := readHexadecimal_eq later
          refine ⟨same, fun piece done => ?_⟩
          obtain ⟨length, counted, left⟩ := drops piece done
          rw [counted]
          exact left
  case neg =>
    -- a literal without a mark is read as a decimal one, in both texts
    have noMark {mark : Char} (isMark : mark = 'x' ∨ mark = 'X') {text : List Char}
        (sameHead : text.head? = rest.head?) (after : List Char) (zero : first = '0')
        (same : text = mark :: after) : False := by
      subst same zero
      refine marked ⟨rfl, ?_⟩
      rcases isMark with rfl | rfl
      · exact .inl sameHead.symm
      · exact .inr sameHead.symm
    obtain ⟨digits, left⟩ := renames.run isJoined_of_isDigit
    obtain ⟨same, length, counted, -, stands⟩ :=
      left.readDecimal_eq isWord isOther (first :: rest.takeWhile Char.isDigit)
    rw [Piece.readNumber.eq_3 _ _ (noMark (.inl rfl) rfl) (noMark (.inr rfl) rfl),
      Piece.readNumber.eq_3 _ _ (noMark (.inl rfl) sameHead) (noMark (.inr rfl) sameHead), digits,
      same]
    refine ⟨rfl, ?_⟩
    rintro piece ⟨rfl⟩
    rw [counted, List.length_cons, Nat.add_right_comm, Nat.add_sub_cancel, ← List.drop_drop,
      ← List.drop_drop, Piece.drop_length_takeWhile, ← digits, Piece.drop_length_takeWhile]
    exact stands

end Numbers

/-! ## Characters and signs -/

/-- No sign has a letter. -/
theorem ofPair?_eq_none {first second : Char} (start : Text.isWordStart second = true) :
    Sign.ofPair? first second = none := by
  unfold Sign.ofPair?
  split <;> first | rfl | cases start

section Characters

include isWord

/-- A character that begins no word stays. -/
theorem uncons {first : Char} (noStart : Text.isWordStart first = false)
    (renames : Renames word other joined (first :: rest) text') :
    ∃ rest', text' = first :: rest' ∧ Renames word other (Text.isJoined first) rest rest' := by
  refine renames.cons_cases.resolve_right ?_
  rintro ⟨-, after, -, whole, -⟩
  obtain ⟨start, tail, rfl, isStart, -⟩ := Text.exists_of_isIdentifier isWord
  rw [String.toList_ofList, List.cons_append] at whole
  rw [(List.cons.inj whole).1, isStart] at noStart
  cases noStart

include long

/-- A character in quotes stays, as no name fits between quotes. -/
theorem uncons_quoted
    {character : Char} (renames : Renames word other joined (character :: '\'' :: rest) text') :
    ∃ rest', text' = character :: '\'' :: rest' ∧ Renames word other false rest rest' := by
  obtain ⟨quoted, rfl, later⟩ | ⟨-, after, -, whole, -⟩ := renames.cons_cases
  · obtain ⟨rest', rfl, behind⟩ := later.uncons isWord (by decide)
    exact ⟨rest', rfl, behind⟩
  · obtain ⟨first, tail, rfl, -, inside, -⟩ := Text.exists_of_isIdentifier isWord
    rw [String.toList_ofList] at whole long
    cases tail with
    | nil => cases Nat.lt_irrefl 1 long
    | cons second tail =>
        obtain ⟨rfl, -⟩ := List.cons.inj (List.cons.inj whole).2
        cases inside _ List.mem_cons_self

/-- A character literal stays. -/
theorem readCharacter_eq (renames : Renames word other joined rest rest') {piece : Piece}
    (done : Piece.readCharacter rest = .ok piece) :
    Piece.readCharacter rest' = .ok piece ∧
      Renames word other false (rest.drop piece.length) (rest'.drop piece.length) := by
  unfold Piece.readCharacter at done
  split at done
  case h_1 | h_2 => cases done
  case h_3 character rest =>
    split at done
    case h_2 => cases done
    case h_1 value escaped =>
      obtain ⟨rfl, after, rfl⟩ := Piece.eq_of_closeCharacter done
      obtain ⟨rest', rfl, later⟩ := renames.uncons isWord (by decide)
      obtain ⟨rest', rfl, behind⟩ := later.uncons_quoted isWord long
      refine ⟨?_, behind⟩
      rw [Piece.readCharacter.eq_3, escaped]
      rfl
  case h_4 character rest noEnd noEscape =>
    obtain ⟨rfl, after, rfl⟩ := Piece.eq_of_closeCharacter done
    obtain ⟨rest', rfl, later⟩ := renames.uncons_quoted isWord long
    have plain : character ≠ '\\' := fun same => noEscape _ _ same rfl
    refine ⟨?_, later⟩
    rw [Piece.readCharacter.eq_4 _ _ (fun same => absurd same plain)
      (fun _ _ same => absurd same plain)]
    rfl

end Characters

section Signs

include isWord isOther

/-- A character that begins no word is next in one of the texts if it is so in the other one. -/
theorem head?_eq_some_iff {character : Char} (noStart : Text.isWordStart character = false)
    (renames : Renames word other joined text text') :
    text'.head? = some character ↔ text.head? = some character := by
  cases renames with
  | nil => rfl
  | keep => rfl
  | replace =>
      obtain ⟨first, tail, rfl, start, -⟩ := Text.exists_of_isIdentifier isWord
      obtain ⟨first', tail', rfl, start', -⟩ := Text.exists_of_isIdentifier isOther
      simp only [String.toList_ofList, List.cons_append, List.head?_cons, Option.some.injEq]
      refine iff_of_false ?_ ?_ <;> rintro rfl
      · rw [start'] at noStart
        cases noStart
      · rw [start] at noStart
        cases noStart

/-- A sign stays. -/
theorem readSign_eq (renames : Renames word other joined rest rest') (first : Char) :
    Piece.readSign first rest' = Piece.readSign first rest ∧
      ∀ piece, Piece.readSign first rest = .ok piece →
        ∃ joined, Renames word other joined (rest.drop piece.length) (rest'.drop piece.length) := by
  unfold Piece.readSign Sign.read?
  cases renames with
  | nil =>
      refine ⟨rfl, fun piece _ => ⟨false, ?_⟩⟩
      rw [List.drop_nil]
      exact .nil
  | @keep joined second rest rest' later =>
      refine ⟨rfl, fun piece done => ?_⟩
      split at done <;> cases done
      rename_i sign length found
      split at found
      · cases found
        exact ⟨_, later⟩
      · cases single : Sign.ofCharacter? first with
        | none =>
            rw [single] at found
            cases found
        | some sign =>
            rw [single] at found
            cases found
            exact ⟨joined, .keep later⟩
  | @replace rest rest' ends later =>
      -- no sign of two characters ends with the start of a name, so that one character is read
      have whole : Renames word other false (word.toList ++ rest) (other.toList ++ rest') :=
        .replace ends later
      obtain ⟨first', tail, rfl, start, -⟩ := Text.exists_of_isIdentifier isWord
      obtain ⟨second', tail', rfl, start', -⟩ := Text.exists_of_isIdentifier isOther
      simp only [String.toList_ofList, List.cons_append, List.head?_cons, Option.bind_some,
        ofPair?_eq_none start, ofPair?_eq_none start'] at whole ⊢
      refine ⟨trivial, fun piece done => ⟨false, ?_⟩⟩
      cases single : Sign.ofCharacter? first with
      | none =>
          rw [single] at done
          cases done
      | some sign =>
          rw [single] at done
          cases done
          exact whole

end Signs

/-! ## Comments -/

/-- The text behind a line. -/
theorem drop_lineLength (text : List Char) :
    text.drop (Piece.lineLength text) =
      (text.dropWhile fun character => character != '\n').tail := by
  obtain ⟨inside, inLine, whole⟩ := Piece.exists_line text
  have passed : ∀ character ∈ inside, (character != '\n') = true :=
    fun character member => bne_iff_ne.mpr fun same => inLine (same ▸ member)
  rcases whole with ⟨rfl, length⟩ | ⟨after, rfl, length⟩
  · rw [length, List.drop_length, List.dropWhile_eq_nil_iff.mpr passed, List.tail_nil]
  · rw [length, List.dropWhile_append_of_pos passed, List.drop_length_add_append]
    rfl

/-- A word in a block comment does not close it. -/
theorem commentLength?_append {front : List Char} (noStar : '*' ∉ front) (text : List Char) :
    Piece.commentLength? (front ++ text) =
      (Piece.commentLength? text).map (front.length + ·) := by
  induction front with
  | nil => simp
  | cons character front ih =>
      rw [List.mem_cons, not_or] at noStar
      rw [List.cons_append, Piece.commentLength?.eq_3 _ _ (fun _ same _ => noStar.1 same.symm),
        ih noStar.2, Option.map_map, List.length_cons]
      congr 1
      funext length
      exact Nat.add_right_comm _ _ _

section Comments

include isWord isOther

/-- Behind a line the texts go on alike. -/
theorem line (renames : Renames word other joined text text') :
    ∃ joined, Renames word other joined (text.drop (Piece.lineLength text))
      (text'.drop (Piece.lineLength text')) := by
  rw [drop_lineLength, drop_lineLength]
  have passed {word : String} (isWord : Text.isIdentifier word = true) (character : Char)
      (member : character ∈ word.toList) : (character != '\n') = true :=
    bne_iff_ne.mpr fun same =>
      Text.notMem_of_isIdentifier isWord (by decide : _ = false) (same ▸ member)
  induction renames with
  | nil => exact ⟨false, .nil⟩
  | @keep joined character rest rest' later ih =>
      by_cases ends : character = '\n'
      · subst ends
        exact ⟨_, later⟩
      · have inLine : (character != '\n') = true := bne_iff_ne.mpr ends
        simpa only [List.dropWhile_cons, inLine, if_true] using ih
  | replace _ _ ih =>
      rwa [List.dropWhile_append_of_pos (passed isWord),
        List.dropWhile_append_of_pos (passed isOther)]

/-- Behind a block comment the texts go on alike. -/
theorem comment (renames : Renames word other joined text text') {length : Nat}
    (closed : Piece.commentLength? text = some length) :
    ∃ length' joined, Piece.commentLength? text' = some length' ∧
      Renames word other joined (text.drop length) (text'.drop length') := by
  have noStar {word : String} (isWord : Text.isIdentifier word = true) : '*' ∉ word.toList :=
    Text.notMem_of_isIdentifier isWord (by decide)
  induction renames generalizing length with
  | nil => cases closed
  | @keep joined character rest rest' later ih =>
      -- a name begins with no slash, so the comment ends at the same place in both texts
      by_cases closes : character = '*' ∧ rest.head? = some '/'
      case pos =>
        obtain ⟨rfl, isHead⟩ := closes
        obtain ⟨after, rfl⟩ := List.head?_eq_some_iff.mp isHead
        obtain ⟨after', rfl, behind⟩ := later.uncons isWord (by decide)
        cases closed
        exact ⟨2, _, rfl, behind⟩
      case neg =>
        have unclosed (text : List Char) (sameHead : text.head? = some '/' ↔ rest.head? = some '/')
            (after : List Char) (star : character = '*') (slash : text = '/' :: after) : False :=
          closes ⟨star, sameHead.mp (slash ▸ rfl)⟩
        rw [Piece.commentLength?.eq_3 _ _ (unclosed rest .rfl), Option.map_eq_some_iff] at closed
        obtain ⟨length, closed, rfl⟩ := closed
        obtain ⟨length', joined, closed', later'⟩ := ih closed
        refine ⟨length' + 1, joined, ?_, later'⟩
        rw [Piece.commentLength?.eq_3 _ _
          (unclosed rest' (later.head?_eq_some_iff isWord isOther (by decide))), closed']
        rfl
  | replace _ _ ih =>
      rw [commentLength?_append (noStar isWord), Option.map_eq_some_iff] at closed
      obtain ⟨length, closed, rfl⟩ := closed
      obtain ⟨length', joined, closed', later⟩ := ih closed
      refine ⟨other.toList.length + length', joined, ?_, ?_⟩
      · rw [commentLength?_append (noStar isOther), closed', Option.map_some]
      · rwa [List.drop_length_add_append, List.drop_length_add_append]

end Comments

/-! ## Pieces -/

/-- A name is read whole. -/
theorem read_word (isWord : Text.isIdentifier word = true)
    (ends : rest.head?.any Text.isWordCharacter = false) :
    ∃ first tail, word.toList ++ rest = first :: (tail ++ rest) ∧
      Piece.read first (tail ++ rest) = .ok ⟨some (.name word), tail.length⟩ := by
  obtain ⟨first, tail, rfl, start, inside, free⟩ := Text.exists_of_isIdentifier isWord
  exact ⟨first, tail, by rw [String.toList_ofList, List.cons_append],
    Piece.reads_name start inside free ends⟩

section Pieces

include isWord long isOther

/-- A piece that begins with a character that stays. -/
theorem read_kept {first : Char}
    (renames : Renames word other (Text.isJoined first) rest rest') {piece : Piece}
    (done : Piece.read first rest = .ok piece) :
    ∃ piece', Piece.read first rest' = .ok piece' ∧
      piece.Renamed word other rest rest' piece' := by
  have opens {character : Char} (noStart : Text.isWordStart character = false) :
      (first = '/' ∧ rest'.head? = some character) ↔ first = '/' ∧ rest.head? = some character :=
    and_congr_right fun _ => renames.head?_eq_some_iff isWord isOther noStart
  unfold Piece.read at done ⊢
  -- the cases are in the order of the reader's tests
  by_cases layout : Text.isLayout first = true
  · rw [if_pos layout] at done ⊢
    cases done
    exact ⟨_, rfl, .of_after renames⟩
  rw [if_neg layout] at done ⊢
  by_cases isLine : first = '/' ∧ rest.head? = some '/'
  · rw [if_pos isLine] at done
    rw [if_pos ((opens (by decide)).mpr isLine)]
    cases done
    exact ⟨_, rfl, .none, renames.line isWord isOther⟩
  rw [if_neg isLine] at done
  rw [if_neg (mt (opens (by decide)).mp isLine)]
  by_cases isBlock : first = '/' ∧ rest.head? = some '*'
  · rw [if_pos isBlock] at done
    rw [if_pos ((opens (by decide)).mpr isBlock)]
    obtain ⟨rfl, isHead⟩ := isBlock
    obtain ⟨after, rfl⟩ := List.head?_eq_some_iff.mp isHead
    obtain ⟨after', rfl, later⟩ := renames.uncons isWord (by decide)
    split at done <;> cases done
    rename_i length closed
    obtain ⟨length', joined, closed', behind⟩ := later.comment isWord isOther closed
    rw [List.drop_one, List.tail_cons, closed']
    exact ⟨_, rfl, .none, joined, behind⟩
  rw [if_neg isBlock] at done
  rw [if_neg (mt (opens (by decide)).mp isBlock)]
  by_cases isHash : first = '#'
  · rw [if_pos isHash] at done ⊢
    cases done
    exact ⟨_, rfl, .none, renames.line isWord isOther⟩
  rw [if_neg isHash] at done ⊢
  by_cases isString : first = '"'
  · rw [if_pos isString] at done
    cases done
  rw [if_neg isString] at done ⊢
  by_cases isQuote : first = '\''
  · rw [if_pos isQuote] at done ⊢
    obtain ⟨same, behind⟩ := renames.readCharacter_eq isWord long done
    exact ⟨_, same, .of_after behind⟩
  rw [if_neg isQuote] at done ⊢
  by_cases isDigit : first.isDigit = true
  · rw [if_pos isDigit] at done ⊢
    rw [isJoined_of_isDigit first isDigit] at renames
    obtain ⟨same, behind⟩ := renames.readNumber_eq isWord isOther first
    exact ⟨_, same.trans done, .of_after (behind piece done)⟩
  rw [if_neg isDigit] at done ⊢
  by_cases isPoint : first = '.' ∧ rest.head?.any Char.isDigit = true
  · rw [if_pos isPoint] at done
    obtain ⟨rfl, digit⟩ := isPoint
    have whole : Renames word other true ('.' :: rest) ('.' :: rest') := .keep renames
    obtain ⟨same, length, counted, positive, behind⟩ := whole.readDecimal_eq isWord isOther []
    rw [if_pos ⟨rfl, (congrArg (Option.any Char.isDigit) (head?_eq renames)).trans digit⟩, same]
    cases done
    obtain ⟨before, rfl⟩ := Nat.exists_eq_succ_of_ne_zero (positive rfl).ne'
    refine ⟨_, rfl, .of_after (show Renames word other true _ _ from ?_)⟩
    rw [counted, List.length_nil, Nat.zero_add, Nat.succ_sub_one]
    exact behind
  rw [if_neg isPoint] at done
  have noPoint : ¬ (first = '.' ∧ rest'.head?.any Char.isDigit = true) := by
    rintro ⟨rfl, digit⟩
    exact isPoint ⟨rfl, (congrArg (Option.any Char.isDigit) (head?_eq renames)).symm.trans digit⟩
  rw [if_neg noPoint]
  by_cases isStart : Text.isWordStart first = true
  · rw [if_pos isStart] at done ⊢
    cases done
    have inWord : Text.isWordCharacter first = true := by
      rcases (Bool.or_eq_true _ _).mp isStart with isAlpha | isLow
      · simp [Text.isWordCharacter, Char.isAlphanum, isAlpha]
      · simp [Text.isWordCharacter, isLow]
    rw [isJoined_of_isWordCharacter first inWord] at renames
    have same : Piece.readWord first rest' = Piece.readWord first rest := by
      rw [Piece.readWord, Piece.readWord, (renames.run isJoined_of_isWordCharacter).1]
    rw [same]
    exact ⟨_, rfl, .of_after (renames.drop_run isJoined_of_isWordCharacter)⟩
  rw [if_neg isStart] at done ⊢
  obtain ⟨same, behind⟩ := renames.readSign_eq isWord isOther first
  obtain ⟨joined, behind⟩ := behind piece done
  exact ⟨_, same.trans done, .of_after behind⟩

/-- **A piece at the front of a text** is one in the other text, too. -/
theorem read {first : Char}
    (renames : Renames word other joined (first :: rest) text') {piece : Piece}
    (done : Piece.read first rest = .ok piece) :
    ∃ first' rest' piece', text' = first' :: rest' ∧ Piece.read first' rest' = .ok piece' ∧
      piece.Renamed word other rest rest' piece' := by
  obtain ⟨rest', rfl, later⟩ | ⟨-, after, after', whole, rfl, ends, later⟩ := renames.cons_cases
  · obtain ⟨piece', done', renamed⟩ := later.read_kept isWord long isOther done
    exact ⟨first, rest', piece', rfl, done', renamed⟩
  · obtain ⟨start, tail, front, read⟩ := read_word isWord ends
    obtain ⟨start', tail', front', read'⟩ := read_word isOther
      ((congrArg (Option.any Text.isWordCharacter) later.head?_eq).trans ends)
    obtain ⟨rfl, rfl⟩ := List.cons.inj (whole.trans front)
    cases done.symm.trans read
    refine ⟨start', _, _, front', read', .some (.name (.inr ⟨rfl, rfl⟩)), true, ?_⟩
    rwa [List.drop_left, List.drop_left]

/-- **Texts that differ in a name are cut into tokens alike**: if one of them has a scan, so does
the other one, and their tokens differ in the name and in their places only. -/
theorem exists_scanned {position : Position} {scanned : Scanned}
    (renames : Renames word other joined text text') (done : scan position text = .ok scanned)
    (position' : Position) :
    ∃ scanned', scan position' text' = .ok scanned' ∧
      Tokens.Renamed (Renaming word other) scanned.tokens scanned'.tokens := by
  -- along the scan of the first text; `joined` says what is before the rest of both
  induction position, text using scan.induct generalizing joined text' scanned position' with
  | case1 position =>
      generalize empty : ([] : List Char) = text at renames
      cases renames with
      | nil =>
          rw [scan] at done
          cases done
          exact ⟨⟨[], position'⟩, by rw [scan], .nil⟩
      | keep => cases empty
      | replace =>
          obtain ⟨first, tail, rfl, -⟩ := Text.exists_of_isIdentifier isWord
          rw [String.toList_ofList] at empty
          cases empty
  | case2 position first rest error failed =>
      rw [scan, failed] at done
      cases done
  | case3 position first rest piece read error failed ih =>
      rw [scan, read] at done
      dsimp only at done
      rw [failed] at done
      cases done
  | case4 position first rest piece read later scannedLater ih =>
      obtain ⟨first', rest', piece', rfl, read', kind, joined', behind⟩ :=
        renames.read isWord long isOther read
      obtain ⟨later', scannedLater', renamed⟩ := ih behind scannedLater
        (position'.after (first' :: rest'.take piece'.length))
      rw [scan, read] at done
      dsimp only at done
      rw [scannedLater] at done
      cases done
      rw [scan, read']
      dsimp only
      rw [scannedLater']
      refine ⟨_, rfl, ?_⟩
      generalize piece.kind = token, piece'.kind = token' at kind ⊢
      cases kind with
      | none => exact renamed
      | some alike => exact .cons alike renamed

end Pieces

end Source.Renames

end LineRobot
