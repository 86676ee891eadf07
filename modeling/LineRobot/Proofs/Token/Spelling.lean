import LineRobot.Proofs.Token.Locality

/-! # Spelling tokens

A `Lexeme` is a token as it can be spelled: a keyword, a sign, a name, a natural number in decimal
digits or a character in quotes. Between two of them stands a `Separator`, which begins with a
layout character and goes on with layout characters and comments. Whatever lexemes and separators a
text is made of, scanning it gives the tokens back (`Laid.exists_scan_eq`). -/

namespace LineRobot

/-! ## Lexemes -/

/-- What holds of every keyword can be decided. -/
instance Keyword.decidableForall (property : Keyword → Prop) [DecidablePred property] :
    Decidable (∀ word, property word) :=
  decidable_of_iff (∀ word ∈ all, property word)
    ⟨fun holds word => holds word word.mem_all, fun holds word _ => holds word⟩

/-- A token that can be spelled. -/
inductive Lexeme where
  /-- A keyword. -/
  | keyword (word : Keyword)
  /-- A sign. -/
  | sign (mark : Sign)
  /-- A word that is not a keyword. -/
  | name (first : Char) (tail : List Char) (start : Text.isWordStart first = true)
      (inside : ∀ character ∈ tail, Text.isWordCharacter character = true)
      (free : ∀ word : Keyword, word.spelling ≠ String.ofList (first :: tail))
  /-- A row of decimal digits. -/
  | natural (first : Char) (tail : List Char)
      (digits : ∀ character ∈ first :: tail, character.isDigit = true)
  /-- A character. -/
  | character (value : Char)

namespace Lexeme

/-- The token that is spelled. The value of digits is the double nearest to their natural number. -/
def kind : Lexeme → TokenKind
  | keyword word => .keyword word
  | sign mark => .sign mark
  | name first tail _ _ _ => .name (String.ofList (first :: tail))
  | natural first tail _ => .number (Decimal.toFloat ⟨Digits.value 10 (first :: tail), 0⟩)
  | character value => .character value

/-- A character as it is written between quotes: a backslash and a quote need a backslash before
them. -/
def escape (value : Char) : List Char :=
  if value = '\\' ∨ value = '\'' then ['\\', value] else [value]

/-- How a lexeme is spelled. -/
def text : Lexeme → List Char
  | keyword word => word.spelling.toList
  | sign mark => mark.spelling.toList
  | name first tail _ _ _ => first :: tail
  | natural first tail _ => first :: tail
  | character value => '\'' :: (escape value ++ ['\''])

end Lexeme

/-! ## Separators -/

/-- What can stand between tokens without meaning anything. -/
inductive Trivium where
  /-- A layout character. -/
  | layout (character : Char) (isLayout : Text.isLayout character = true)
  /-- A line comment with its line end. -/
  | line (inside : List Char) (inLine : '\n' ∉ inside)
  /-- A block comment. -/
  | block (inside : List Char) (unclosed : ¬ ['*', '/'] <:+: inside)

/-- How a trivium is written. -/
def Trivium.text : Trivium → List Char
  | layout character _ => [character]
  | line inside _ => '/' :: '/' :: (inside ++ ['\n'])
  | block inside _ => '/' :: '*' :: (inside ++ ['*', '/'])

/-- A layout character, and then whatever means nothing. -/
structure Separator where
  /-- The layout character. -/
  first : Char
  /-- It is one. -/
  isLayout : Text.isLayout first = true
  /-- What follows it. -/
  others : List Trivium

/-- How a separator is written. -/
def Separator.text (separator : Separator) : List Char :=
  separator.first :: separator.others.flatMap Trivium.text

/-- How a separator is written, if there is one. -/
def Separator.text? (separator : Option Separator) : List Char :=
  (separator.map Separator.text).getD []

/-- The text consists of the lexemes, one after the other, with a separator between any two. -/
inductive Laid : List Lexeme → List Char → Prop
  /-- No lexeme has no text. -/
  | nil : Laid [] []
  /-- One lexeme has its text. -/
  | single (lexeme : Lexeme) : Laid [lexeme] lexeme.text
  /-- A separator stands between a lexeme and the next one. -/
  | cons (lexeme : Lexeme) (separator : Separator) {next : Lexeme} {others : List Lexeme}
      {text : List Char} : Laid (next :: others) text →
      Laid (lexeme :: next :: others) (lexeme.text ++ (separator.text ++ text))

/-! ## Reading what is spelled -/

/-- Nothing follows, or a layout character. -/
def LaidOut (rest : List Char) : Prop :=
  ∀ character ∈ rest.head?, Text.isLayout character = true

namespace Piece

variable {first : Char} {tail : List Char}

/-- A trivium is passed over. -/
theorem reads_trivium (trivium : Trivium) (rest : List Char) : Reads none trivium.text rest := by
  cases trivium with
  | layout character isLayout => exact reads_layout isLayout rest
  | line inside inLine =>
      show read '/' ('/' :: (inside ++ ['\n']) ++ rest) = _
      have passed : ∀ character ∈ '/' :: inside, (character != '\n') = true := by
        intro character member
        rcases List.mem_cons.mp member with rfl | member
        · decide
        · exact bne_iff_ne.mpr fun same => inLine (same ▸ member)
      have length : lineLength ('/' :: inside ++ '\n' :: rest) = inside.length + 2 := by
        unfold lineLength
        rw [List.takeWhile_append_of_pos passed, List.takeWhile_cons_of_neg (by decide),
          List.append_nil]
        simp
      rw [read, if_neg (by decide), if_pos (by simp)]
      simpa using length
  | block inside unclosed =>
      show read '/' ('*' :: (inside ++ ['*', '/']) ++ rest) = _
      have length : commentLength? (inside ++ '*' :: '/' :: rest) = some (inside.length + 2) := by
        rw [commentLength?_eq_map, Source.splitAtCommentEnd_eq unclosed, Option.map_some]
      rw [read, if_neg (by decide), if_neg (by simp), if_pos (by simp)]
      simp [length]

/-- A keyword is read back. -/
theorem reads_keyword (word : Keyword) : Reads (some (.keyword word)) word.spelling.toList [] := by
  cases word with
  | base type => cases type <;> rfl
  | _ => rfl

/-- A sign is read back. -/
theorem reads_sign (mark : Sign) : Reads (some (.sign mark)) mark.spelling.toList [] := by
  cases mark <;> rfl

/-- What begins like a number or a word is read as one. -/
theorem read_of_begins (begins : (first.isDigit || Text.isWordStart first) = true)
    (rest : List Char) :
    read first rest = if first.isDigit then readNumber first rest
      else .ok (readWord first rest) := by
  have other {character : Char} (rejected : (character.isDigit || Text.isWordStart character) =
      false) :
      first ≠ character := by
    rintro rfl
    rw [rejected] at begins
    cases begins
  have noLayout : ¬ Text.isLayout first = true := by
    intro layout
    have rejected : (first.isDigit || Text.isWordStart first) = false :=
      @Breaks.eq_false (fun character => character.isDigit || Text.isWordStart character) first
        (by decide) (.inl layout)
    rw [rejected] at begins
    cases begins
  have noPoint : ¬ (first = '.' ∧ rest.head?.any Char.isDigit = true) :=
    fun point => other (by decide) point.1
  rw [read_of_closed (Source.opensComment_of_ne (other (by decide)) rest) (other (by decide)),
    if_neg noLayout, if_neg (other (by decide)), if_neg (other (by decide)), if_neg noPoint]
  by_cases isDigit : first.isDigit = true
  · rw [if_pos isDigit, if_pos isDigit]
  · have start : Text.isWordStart first = true :=
      ((Bool.or_eq_true _ _).mp begins).resolve_left isDigit
    rw [if_neg isDigit, if_neg isDigit, if_pos start]

/-- A letter is no digit: all digits come before the letters. -/
theorem not_isDigit_of_isAlpha (isAlpha : first.isAlpha = true) : ¬ first.isDigit = true := by
  intro isDigit
  have high : first.val ≤ '9'.val := of_decide_eq_true (Bool.and_eq_true_iff.mp isDigit).2
  rcases Bool.or_eq_true_iff.mp isAlpha with isUpper | isLower
  · have low : 'A'.val ≤ first.val ∧ first.val ≤ 'Z'.val := of_decide_eq_true isUpper
    exact absurd (UInt32.le_trans low.1 high) (by decide)
  · have low : 'a'.val ≤ first.val := of_decide_eq_true (Bool.and_eq_true_iff.mp isLower).1
    exact absurd (UInt32.le_trans low high) (by decide)

/-- A name does not begin with a digit. -/
theorem not_isDigit_of_isWordStart (start : Text.isWordStart first = true) :
    ¬ first.isDigit = true := by
  rcases (Bool.or_eq_true _ _).mp start with isAlpha | isLow
  · exact not_isDigit_of_isAlpha isAlpha
  · rw [of_decide_eq_true isLow]
    decide

/-- A name is read back where no word goes on behind it. -/
theorem reads_name {rest : List Char} (start : Text.isWordStart first = true)
    (inside : ∀ character ∈ tail, Text.isWordCharacter character = true)
    (free : Keyword.ofSpelling? (String.ofList (first :: tail)) = none)
    (ends : rest.head?.any Text.isWordCharacter = false) :
    Reads (some (.name (String.ofList (first :: tail)))) (first :: tail) rest := by
  have stops : rest.takeWhile Text.isWordCharacter = [] := by
    cases rest with
    | nil => rfl
    | cons character rest =>
        have outside : Text.isWordCharacter character = false := ends
        exact List.takeWhile_cons_of_neg (by rw [outside]; exact Bool.false_ne_true)
  rw [Reads, read_of_begins (Bool.or_eq_true_iff.mpr (.inr start)),
    if_neg (not_isDigit_of_isWordStart start), readWord, List.takeWhile_append_of_pos inside, stops,
      List.append_nil, free]

/-- A row of digits is read back. -/
theorem reads_natural (digits : ∀ character ∈ first :: tail, character.isDigit = true) :
    Reads (some (.number (Decimal.toFloat ⟨Digits.value 10 (first :: tail), 0⟩)))
      (first :: tail) [] := by
  have isDigit := digits first List.mem_cons_self
  have inside : ∀ character ∈ tail, character.isDigit = true :=
    fun character member => digits character (List.mem_cons_of_mem first member)
  -- what follows a leading zero is a digit, and so no mark of a hexadecimal literal
  have noMark {mark : Char} (noDigit : mark.isDigit = false) (after : List Char) (_ : first = '0')
      (same : tail = mark :: after) : False := by
    rw [inside mark (same ▸ List.mem_cons_self)] at noDigit
    cases noDigit
  rw [Reads, List.append_nil, read_of_begins (Bool.or_eq_true_iff.mpr (.inl isDigit)),
    if_pos isDigit,
    readNumber.eq_3 _ _ (noMark (by decide)) (noMark (by decide)),
      List.takeWhile_eq_self_iff.mpr inside,
    List.dropWhile_eq_nil_iff.mpr inside, readDecimal_of_head?_ne (by simp)]
  rfl

/-- A character in quotes is read back. -/
theorem reads_character (value : Char) :
    Reads (some (.character value)) ('\'' :: (Lexeme.escape value ++ ['\''])) [] := by
  rw [Reads, List.append_nil, read_quote]
  unfold Lexeme.escape
  by_cases special : value = '\\' ∨ value = '\''
  · rw [if_pos special]
    rcases special with rfl | rfl <;> rfl
  · rw [if_neg special, List.singleton_append]
    rw [not_or] at special
    rw [readCharacter.eq_4 _ _ (fun same => absurd same special.1) (fun _ _ same =>
      absurd same special.1)]
    rfl

end Piece

namespace Lexeme

/-- A lexeme is read back. -/
theorem reads_alone (lexeme : Lexeme) : Piece.Reads (some lexeme.kind) lexeme.text [] := by
  cases lexeme with
  | keyword word => exact Piece.reads_keyword word
  | sign mark => exact Piece.reads_sign mark
  | name first tail start inside free =>
      have noKeyword : Keyword.ofSpelling? (String.ofList (first :: tail)) = none :=
        List.find?_eq_none.mpr fun word _ => by simpa using free word
      exact Piece.reads_name start inside noKeyword rfl
  | natural first tail digits => exact Piece.reads_natural digits
  | character value => exact Piece.reads_character value

/-- A lexeme is read back where nothing or a layout character follows it. -/
theorem reads (lexeme : Lexeme) {rest : List Char} (laidOut : LaidOut rest) :
    Piece.Reads (some lexeme.kind) lexeme.text rest := by
  have alone : Piece.Reads (some lexeme.kind) lexeme.text ([] ++ []) := lexeme.reads_alone
  have breaks : Breaks rest := fun character isHead => .inl (laidOut character isHead)
  have other {character : Char} (noLayout : Text.isLayout character = false) :
      rest.head? ≠ some character := by
    intro isHead
    rw [laidOut character isHead] at noLayout
    cases noLayout
  refine alone.congr Breaks.nil breaks ?_
  cases alone.form with
  | token _ uncommented => exact uncommented.append (other (by decide)) (other (by decide))

end Lexeme

/-! ## Cutting a laid-out text -/

namespace Separator

/-- The fragments of a separator. -/
def fragments (separator : Separator) : List Fragment :=
  ⟨none, [separator.first]⟩ :: separator.others.map fun trivium => ⟨none, trivium.text⟩

variable (separator : Separator)

/-- The fragments of a separator are its text, and none of them is a token. -/
theorem join_kinds_fragments :
    Fragment.join separator.fragments = separator.text ∧
      Fragment.kinds separator.fragments = [] := by
  constructor
  · simp only [fragments, Fragment.join_cons, List.singleton_append, text]
    rw [Fragment.join, List.flatMap_map]
  · simp [fragments, Fragment.kinds]

/-- A separator begins with a layout character. -/
theorem laidOut_append (rest : List Char) : LaidOut (separator.text ++ rest) := by
  rintro character isHead
  obtain rfl : separator.first = character := by simpa [text] using isHead
  exact separator.isLayout

variable {later : List Fragment}

/-- Any trivia can stand before fragments. -/
theorem follow_trivia (trivia : List Trivium) (follow : Fragment.Follow later) :
    Fragment.Follow ((trivia.map fun trivium => ⟨none, trivium.text⟩) ++ later) := by
  induction trivia with
  | nil => exact follow
  | cons trivium trivia ih => exact ⟨Piece.reads_trivium trivium _, ih⟩

/-- A separator can stand before any fragments. -/
theorem follow_append (follow : Fragment.Follow later) :
    Fragment.Follow (separator.fragments ++ later) :=
  follow_trivia (.layout separator.first separator.isLayout :: separator.others) follow

/-- A separator or nothing can be cut into fragments that are no tokens, in front of any
fragments. -/
theorem exists_fragments (separator : Option Separator) :
    ∃ fragments, Fragment.join fragments = text? separator ∧ Fragment.kinds fragments = [] ∧
      ∀ later, Fragment.Follow later → Fragment.Follow (fragments ++ later) := by
  cases separator with
  | none => exact ⟨[], rfl, rfl, fun _ follow => follow⟩
  | some separator =>
      obtain ⟨joined, noKinds⟩ := separator.join_kinds_fragments
      exact ⟨separator.fragments, joined, noKinds, fun _ follow => separator.follow_append follow⟩

/-- A separator begins with a layout character, if there is one. -/
theorem laidOut_text? (separator : Option Separator) : LaidOut (text? separator) := by
  cases separator with
  | none => exact fun _ isHead => nomatch isHead
  | some separator =>
      rw [← List.append_nil (text? _)]
      exact separator.laidOut_append []

end Separator

namespace Laid

open Fragment

variable {lexemes : List Lexeme} {text : List Char}

/-- A text made of lexemes can be cut into them, in front of a layout character or the end of the
text. -/
theorem exists_follow (laid : Laid lexemes text) {later : List Fragment} (follow : Follow later)
    (laidOut : LaidOut (join later)) :
    ∃ fragments, join fragments = text ++ join later ∧
      kinds fragments = lexemes.map Lexeme.kind ++ kinds later ∧ Follow fragments := by
  induction laid with
  | nil => exact ⟨later, rfl, rfl, follow⟩
  | single lexeme =>
      exact ⟨⟨some lexeme.kind, lexeme.text⟩ :: later, rfl, rfl, lexeme.reads laidOut, follow⟩
  | cons lexeme separator _ ih =>
      obtain ⟨fragments, whole, same, followed⟩ := ih
      obtain ⟨joined, noKinds⟩ := separator.join_kinds_fragments
      refine ⟨⟨some lexeme.kind, lexeme.text⟩ :: (separator.fragments ++ fragments), ?_, ?_, ?_,
        separator.follow_append followed⟩
      · rw [join_cons, join_append, joined, whole, List.append_assoc, List.append_assoc]
      · rw [← List.singleton_append, kinds_append, kinds_append, noKinds, same]
        rfl
      · rw [join_append, joined]
        exact lexeme.reads (separator.laidOut_append _)

/-- **Scanning undoes spelling**: whatever tokens are spelled, and whatever separators are between
them, before them and after them, the tokens are read back, and nothing else is. -/
theorem exists_scan_eq (laid : Laid lexemes text) (lead trail : Option Separator)
    (position : Position) :
    ∃ tokens,
      scan position (Separator.text? lead ++ (text ++ Separator.text? trail)) =
        .ok ⟨tokens, position.after (Separator.text? lead ++ (text ++ Separator.text? trail))⟩ ∧
      tokens.map Token.kind = lexemes.map Lexeme.kind := by
  obtain ⟨before, joinedBefore, noneBefore, followBefore⟩ := Separator.exists_fragments lead
  obtain ⟨after, joinedAfter, noneAfter, followAfter⟩ := Separator.exists_fragments trail
  have follow : Follow after := by simpa using followAfter [] trivial
  obtain ⟨fragments, whole, same, followed⟩ :=
    laid.exists_follow follow (joinedAfter ▸ Separator.laidOut_text? trail)
  refine ⟨tokens position (before ++ fragments), ?_, ?_⟩
  · rw [← joinedBefore, ← joinedAfter, ← whole, ← join_append]
    exact (followBefore fragments followed).scan_eq position
  · rw [map_kind_tokens, kinds_append, noneBefore, same, noneAfter]
    simp

/-- The lexemes of `crowdedText`. -/
def crowdedLexemes : List Lexeme :=
  [.keyword .returnWord,
    .name 'r' "eturned".toList (by decide) (List.all_eq_true.mp (by decide)) (by decide),
      .sign .slash,
    .natural '0' ['8'] (List.all_eq_true.mp (by decide)),
    .name 'e' ['1'] (by decide) (List.all_eq_true.mp (by decide)) (by decide), .sign .plus,
    .sign .plusEqual, .character '\'']

/-- A text in which many things look like others: a keyword begins a name, stars and quotes are in
comments, a division sign stands before a comment, and what could be an exponent follows a
number. -/
def crowdedText : List Char :=
  "return\t/* ** / *//**/returned\r/ //*\n08 e1 +\n+= '\\''".toList

/-- An instance of `exists_scan_eq`. -/
theorem exists_scan_eq_crowded :
    Laid crowdedLexemes crowdedText ∧
      ∃ tokens,
        scan ⟨3, 5⟩ ("\n// it's\n".toList ++ (crowdedText ++ " /*/*/".toList)) =
          .ok ⟨tokens, ⟨7, 14⟩⟩ ∧
        tokens.map Token.kind =
          [.keyword .returnWord, .name "returned", .sign .slash, .number (Decimal.toFloat ⟨8, 0⟩),
            .name "e1", .sign .plus, .sign .plusEqual, .character '\''] := by
  have laid : Laid crowdedLexemes crowdedText :=
    .cons _ ⟨'\t', by decide, [.block " ** / ".toList (by decide), .block [] (by decide)]⟩ <|
      .cons _ ⟨'\r', by decide, []⟩ <|
      .cons _ ⟨' ', by decide, [.line ['*'] (by decide)]⟩ <|
      .cons _ ⟨' ', by decide, []⟩ <|
      .cons _ ⟨' ', by decide, []⟩ <|
      .cons _ ⟨'\n', by decide, []⟩ <|
      .cons _ ⟨' ', by decide, []⟩ <| .single _
  exact ⟨laid, laid.exists_scan_eq (some ⟨'\n', by decide, [.line " it's".toList (by decide)]⟩)
    (some ⟨' ', by decide, [.block ['/'] (by decide)]⟩) ⟨3, 5⟩⟩

end Laid

end LineRobot
