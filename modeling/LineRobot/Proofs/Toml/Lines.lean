import LineRobot.Proofs.Toml.Numbers

/-! # Lines as they are written

A line is written as `Line.text`: a name and its value, or a name in brackets. If its names need no
quotes and its value reads back (`Value.ReadsBack`), then the line is read from its text
(`Line.read?_text`), and a document that consists of such lines in blocks with empty lines between
them has these lines (`readLines?_blocks`).

Natural numbers, doubles, texts and the empty array read back. -/

namespace LineRobot.Toml

/-- Reading gives a value and leaves a rest. -/
def Yields {α : Type} {input : List Char} (result : Option (Parsed α input)) (value : α)
    (rest : List Char) : Prop :=
  ∃ shorter, result = some ⟨value, rest, shorter⟩

/-- What has been read, with its value and its rest. -/
theorem yields_of_eq_some {α : Type} {input : List Char} {result : Option (Parsed α input)}
    {parsed : Parsed α input} {value : α} {rest : List Char} (read : result = some parsed)
    (gives : parsed.value = value) (leaves : parsed.rest = rest) : Yields result value rest := by
  subst gives leaves
  exact ⟨parsed.shorter, read⟩

variable {name : String} {value : Value} {rest : List Char}

/-- Other characters are no blanks. -/
theorem isSpace_eq_false {character : Char} (noSpace : character ≠ ' ') (noTab : character ≠ '\t') :
    isSpace character = false := by
  rw [isSpace, decide_eq_false noSpace, decide_eq_false noTab, Bool.or_false]

/-- There are no blanks to pass over before another character. -/
theorem dropSpaces_cons {first : Char} (noSpace : isSpace first = false) (later : List Char) :
    dropSpaces (first :: later) = first :: later :=
  List.dropWhile_cons_of_neg (by rw [noSpace]; exact Bool.false_ne_true)

/-! ## Names -/

/-- A name that is written without quotes. -/
def IsBare (name : String) : Prop :=
  (!name.isEmpty && name.toList.all Key.isBare) = true

instance (name : String) : Decidable (IsBare name) :=
  inferInstanceAs (Decidable (_ = true))

/-- A bare name is written as it is. -/
theorem IsBare.nameWritten_eq (bare : IsBare name) : nameWritten name = name :=
  if_pos bare

/-- The characters of a bare name. -/
theorem IsBare.exists_toList_eq (bare : IsBare name) :
    ∃ first tail, name.toList = first :: tail ∧ Key.isBare first = true ∧
      tail.all Key.isBare = true := by
  obtain ⟨some, all⟩ := Bool.and_eq_true_iff.mp bare
  cases characters : name.toList with
  | nil =>
      rw [Bool.not_eq_true', String.isEmpty_eq_false_iff, ne_eq, ← String.toList_eq_nil_iff] at some
      exact absurd characters some
  | cons first tail =>
      rw [characters, List.all_cons, Bool.and_eq_true] at all
      exact ⟨first, tail, rfl, all⟩

/-- A text that begins with a character that is in no bare name. -/
def EndsName (rest : List Char) : Prop :=
  ∃ mark later, rest = mark :: later ∧ Key.isBare mark = false

/-- A bare name is read up to its end. -/
theorem readPart?_bare (bare : IsBare name) (ends : EndsName rest) :
    Yields (Key.readPart? (name.toList ++ rest)) name rest := by
  obtain ⟨first, tail, characters, isBare, all⟩ := bare.exists_toList_eq
  obtain ⟨mark, later, rfl, notBare⟩ := ends
  rw [characters, List.cons_append, Key.readPart?, if_pos isBare]
  refine yields_of_eq_some rfl ?_ ?_
  · dsimp only
    rw [List.takeWhile_append_of_pos (List.all_eq_true.mp all),
      List.takeWhile_cons_of_neg (by simpa using notBare),
      List.append_nil, ← characters, String.ofList_toList]
  · dsimp only
    rw [List.dropWhile_append_of_pos (List.all_eq_true.mp all),
      List.dropWhile_cons_of_neg (by simpa using notBare)]

/-- A character of a bare name is no blank and no mark. -/
theorem isBare_ne {character mark : Char} (isBare : Key.isBare character = true)
    (notBare : Key.isBare mark = false) :
    character ≠ mark :=
  fun same => Bool.false_ne_true (notBare.symm.trans (same ▸ isBare))

/-- A dotted name whose parts need no quotes. -/
structure Key.IsPlain (key : Key) : Prop where
  /-- The names on the way need no quotes. -/
  parents : ∀ part ∈ key.parents, IsBare part
  /-- The name itself needs no quotes. -/
  name : IsBare key.name
  /-- The name is not too long. -/
  short : key.parents.length < maxDepth

/-- A dotted name as it is written. -/
def Key.text (key : Key) : List Char :=
  (pathWritten key.path).toList

/-- A name without dots is written as a name. -/
theorem text_single (name : String) : (Key.mk [] name).text = (nameWritten name).toList := by
  rw [Key.text, Key.path, List.nil_append, pathWritten, List.map_singleton,
    String.intercalate_singleton]

/-- The first part of a dotted name is written before a dot and the others. -/
theorem text_cons {parent : String} (bare : IsBare parent) (parents : List String) (name : String) :
    (Key.mk (parent :: parents) name).text = parent.toList ++
      '.' :: (Key.mk parents name).text := by
  obtain ⟨second, others, path⟩ := List.exists_cons_of_ne_nil
    (List.append_ne_nil_of_right_ne_nil parents (List.cons_ne_nil name []))
  rw [Key.text, Key.text, Key.path, Key.path, List.cons_append, path, pathWritten,
    pathWritten, List.map_cons,
    List.map_cons, String.intercalate_cons_cons, bare.nameWritten_eq, String.toList_append,
      String.toList_append]
  simp

/-- A dotted name begins with a character of a bare name. -/
theorem exists_text_eq {parents : List String} (bare : ∀ part ∈ parents, IsBare part)
    (bareName : IsBare name) :
    ∃ first tail, (Key.mk parents name).text = first :: tail ∧ Key.isBare first = true := by
  cases parents with
  | nil =>
      obtain ⟨first, tail, characters, isBare, -⟩ := bareName.exists_toList_eq
      refine ⟨first, tail, ?_, isBare⟩
      rw [text_single, bareName.nameWritten_eq, characters]
  | cons parent parents =>
      have bareParent := bare parent List.mem_cons_self
      obtain ⟨first, tail, characters, isBare, -⟩ := bareParent.exists_toList_eq
      exact ⟨first, _,
        (text_cons bareParent parents name).trans (congrArg (· ++ _) characters), isBare⟩

/-- Before a dotted name there are no blanks to pass over. -/
theorem dropSpaces_text {parents : List String} (bare : ∀ part ∈ parents, IsBare part)
    (bareName : IsBare name) (rest : List Char) :
    dropSpaces ((Key.mk parents name).text ++ rest) = (Key.mk parents name).text ++ rest := by
  obtain ⟨first, tail, characters, isBare⟩ := exists_text_eq bare bareName
  rw [characters, List.cons_append]
  exact dropSpaces_cons (isSpace_eq_false (isBare_ne isBare rfl) (isBare_ne isBare rfl)) _

/-- A dotted name does not begin with a bracket. -/
theorem text_ne_bracket {parents : List String} (bare : ∀ part ∈ parents, IsBare part)
    (bareName : IsBare name) (later others : List Char) :
    (Key.mk parents name).text ++ later ≠ '[' :: others := by
  obtain ⟨first, tail, characters, isBare⟩ := exists_text_eq bare bareName
  rw [characters]
  exact fun same => isBare_ne isBare rfl (List.cons.inj same).1

/-- What follows a dotted name: there may be blanks, but no further part. -/
structure EndsKey (rest : List Char) : Prop where
  /-- The last part is at its end. -/
  ends : EndsName rest
  /-- There is no dot, not even behind blanks. -/
  noDot : afterMark? '.' rest = none

/-- The parts of a dotted name are read up to its end. -/
theorem readParts?_text {parents : List String} (bare : ∀ part ∈ parents, IsBare part)
    (bareName : IsBare name) (ends : EndsKey rest) :
    Yields (Key.readParts? ((Key.mk parents name).text ++ rest)) ⟨parents, name⟩ rest := by
  induction parents with
  | nil =>
      obtain ⟨shorter, read⟩ := readPart?_bare bareName ends.ends
      rw [text_single, bareName.nameWritten_eq, Key.readParts?, read]
      dsimp only [Option.bind_eq_bind, Option.bind_some]
      rw [ends.noDot]
      exact yields_of_eq_some rfl rfl rfl
  | cons parent parents ih =>
      have bareParent := bare parent List.mem_cons_self
      have bareOthers : ∀ part ∈ parents, IsBare part :=
        fun part inside => bare part (List.mem_cons_of_mem _ inside)
      have others :
          Yields (Key.readParts? (dropSpaces ((Key.mk parents name).text ++ rest))) ⟨parents,
            name⟩ rest := by
        rw [dropSpaces_text bareOthers bareName]
        exact ih bareOthers
      obtain ⟨_, readOthers⟩ := others
      obtain ⟨_, read⟩ :=
        readPart?_bare bareParent ⟨'.', (Key.mk parents name).text ++ rest, rfl, rfl⟩
      have dot : afterMark? '.' ('.' :: ((Key.mk parents name).text ++ rest)) =
          some ⟨(), (Key.mk parents name).text ++ rest, Nat.lt_succ_self _⟩ := rfl
      -- behind the first part is a dot, and behind the dot the other parts
      rw [text_cons bareParent, List.append_assoc, List.cons_append, Key.readParts?, read]
      dsimp only [Option.bind_eq_bind, Option.bind_some]
      rw [dot]
      dsimp only
      rw [readOthers]
      exact yields_of_eq_some rfl rfl rfl

/-- **A dotted name is read up to its end.** -/
theorem readKey?_text {key : Key} (plain : key.IsPlain) (ends : EndsKey rest) :
    Yields (Key.read? (key.text ++ rest)) key rest := by
  obtain ⟨_, read⟩ := readParts?_text plain.parents plain.name ends
  rw [Key.read?, read, Option.filter_some, if_pos (decide_eq_true plain.short)]
  exact yields_of_eq_some rfl rfl rfl

/-- A dotted name is read behind blanks. -/
theorem readKey?_dropSpaces {key : Key} (plain : key.IsPlain) (ends : EndsKey rest) :
    Yields (Key.read? (dropSpaces (key.text ++ rest))) key rest := by
  rw [dropSpaces_text plain.parents plain.name]
  exact readKey?_text plain ends

/-! ## Texts -/

namespace Quoted

variable {text body rest : List Char}

/-- A character that may stand in a text and is neither a quote nor a backslash is passed over. -/
theorem line_plain {character : Char} (plain : isPlain character = true) (noQuote : character ≠ '"')
    (noBackslash : character ≠ '\\') (yields : Yields (line .basic text) body rest) :
    Yields (line .basic (character :: text)) (character :: body) rest := by
  obtain ⟨_, read⟩ := yields
  cases text with
  | nil => cases read
  | cons second others =>
      have noMark : character ≠ Quote.basic.mark := noQuote
      rw [line, if_neg noMark, plain, Bool.not_true, if_neg Bool.false_ne_true,
        if_neg fun special => noBackslash special.2, read]
      exact yields_of_eq_some rfl rfl rfl

/-- A backslash and the character behind it are passed over. -/
theorem line_escaped {character : Char} (plain : isPlain character = true)
    (yields : Yields (line .basic text) body rest) :
    Yields (line .basic ('\\' :: character :: text)) ('\\' :: character :: body) rest := by
  obtain ⟨_, read⟩ := yields
  rw [line, if_neg (by decide), if_neg (by decide), if_pos ⟨rfl, rfl⟩, if_pos plain, read]
  exact yields_of_eq_some rfl rfl rfl

/-- A hexadecimal digit may stand in a text. -/
theorem isPlain_digitChar : ∀ digit : Fin 16, isPlain (Nat.digitChar digit) = true ∧
    Nat.digitChar digit ≠ '"' ∧ Nat.digitChar digit ≠ '\\' := by
  decide

/-- A character is written behind a backslash, as it is, or as its code. -/
theorem escape_cases (character : Char) :
    (character = '"' ∨ character = '\\') ∧ escape character = ['\\', character] ∨
      (character ≠ '"' ∧ character ≠ '\\') ∧ isPlain character = true ∧
        escape character = [character] ∨
        isPlain character = false ∧ escape character =
          ['\\', 'u', '0', '0', Nat.digitChar (character.toNat / 16),
            Nat.digitChar (character.toNat % 16)] := by
  by_cases special : character = '"' ∨ character = '\\'
  · exact .inl ⟨special, if_pos special⟩
  · cases plain : isPlain character with
    | true =>
        exact .inr (.inl ⟨not_or.mp special, rfl, by rw [escape, if_neg special, if_pos plain]⟩)
    | false =>
        exact .inr (.inr ⟨rfl, by rw [escape, if_neg special, plain, if_neg Bool.false_ne_true]⟩)

/-- What is written for a character is passed over. -/
theorem line_escape (character : Char) (yields : Yields (line .basic text) body rest) :
    Yields (line .basic (escape character ++ text)) (escape character ++ body) rest := by
  rcases escape_cases character with
    ⟨special, written⟩ | ⟨⟨noQuote, noBackslash⟩, plain, written⟩ | ⟨control, written⟩
  · rw [written]
    rcases special with rfl | rfl <;> exact line_escaped rfl yields
  · rw [written]
    exact line_plain plain noQuote noBackslash yields
  · -- a control character is written as its code, the first two digits of which are zero
    have small : character.toNat < 128 := by
      simp [isPlain] at control
      omega
    obtain ⟨high, highQuote, highBackslash⟩ := isPlain_digitChar ⟨character.toNat / 16, by omega⟩
    obtain ⟨low, lowQuote, lowBackslash⟩ := isPlain_digitChar ⟨character.toNat % 16, by omega⟩
    have zero {text body : List Char} (yields : Yields (line .basic text) body rest) :
        Yields (line .basic ('0' :: text)) ('0' :: body) rest :=
      line_plain rfl (by decide) (by decide) yields
    rw [written]
    exact line_escaped rfl (zero (zero (line_plain high highQuote highBackslash
      (line_plain low lowQuote lowBackslash yields))))

/-- A text is passed over up to its closing quote. -/
theorem line_encode (text rest : List Char) :
    Yields (line .basic (encode text ++ '"' :: rest)) (encode text) rest := by
  induction text with
  | nil => cases rest <;> exact yields_of_eq_some rfl rfl rfl
  | cons character others ih =>
      rw [encode, List.flatMap_cons, ← encode, List.append_assoc]
      exact line_escape character ih

/-- A text in quotes does not begin with three of them. -/
theorem isBlock_encode (text rest : List Char) :
    isBlock ('"' :: (encode text ++ '"' :: '\n' :: rest)) = false := by
  have noQuote {first : Char} (different : first ≠ '"') (others : List Char) :
      isBlock ('"' :: first :: others) = false := by
    cases others with
    | nil => rfl
    | cons third others => simp [isBlock, different]
  cases text with
  | nil => rfl
  | cons character others =>
      rw [encode, List.flatMap_cons]
      rcases escape_cases character with ⟨-, written⟩ | ⟨⟨different, -⟩, -, written⟩ | ⟨-, written⟩
      · rw [written]
        exact noQuote (by decide) _
      · rw [written]
        exact noQuote different _
      · rw [written]
        exact noQuote (by decide) _

/-- **A text is read from its characters in quotes.** -/
theorem read?_encode (content : String) (rest : List Char) :
    Yields (read? ('"' :: (encode content.toList ++ '"' :: '\n' :: rest))) content
      ('\n' :: rest) := by
  obtain ⟨_, read⟩ := line_encode content.toList ('\n' :: rest)
  have quote : Quote.ofMark? '"' = some .basic := rfl
  rw [read?, isBlock_encode, if_neg Bool.false_ne_true, readLine?, quote]
  dsimp only [Option.bind_eq_bind, Option.bind_some]
  rw [read]
  dsimp only [Option.bind_some]
  rw [content?, decode_encode, Option.map_some, String.ofList_toList]
  exact yields_of_eq_some rfl rfl rfl

/-- Without a quote there is no text. -/
theorem read?_eq_none {first : Char} (noQuote : Quote.ofMark? first = none) (rest : List Char) :
    read? (first :: rest) = none := by
  have noBlock : isBlock (first :: rest) = false := by
    unfold isBlock
    split
    case h_1 same =>
      rw [(List.cons.inj same).1] at noQuote
      rw [noQuote]
      rfl
    case h_2 => rfl
  rw [read?, noBlock, if_neg Bool.false_ne_true, readLine?, noQuote]
  rfl

end Quoted

/-! ## Values -/

/-- What is written for a value is read as the value, up to the end of its line. -/
def Value.ReadsBack (value : Value) : Prop :=
  ∀ depth rest,
    Yields
      (Value.read? (depth + 1) (dropSpaces (' ' :: (value.written.toList ++ '\n' :: rest)))) value
    ('\n' :: rest)

namespace Value

/-- A value without brackets is a text or a scalar. -/
theorem read?_of_ne {first : Char} (noBracket : first ≠ '[') (noBrace : first ≠ '{') (depth : Nat)
    (rest : List Char) :
    read? (depth + 1) (first :: rest) =
      match Quoted.read? (first :: rest) with
      | some content => some (content.as (.text content.value))
      | none => Scalar.read? (first :: rest) := by
  rw [read?]
  · cases Quoted.read? (first :: rest) <;> rfl
  · exact fun _ _ _ same => noBracket (List.cons.inj same).1
  · exact fun _ _ _ same => noBrace (List.cons.inj same).1

/-- **Every text reads back.** -/
theorem readsBack_text (content : String) : (Value.text content).ReadsBack := by
  intro depth rest
  have characters : (Value.text content).written.toList ++ '\n' :: rest =
      '"' :: (Quoted.encode content.toList ++ '"' :: '\n' :: rest) := by
    simp [written, quoted]
  have spaces : dropSpaces (' ' :: '"' :: (Quoted.encode content.toList ++ '"' :: '\n' :: rest)) =
      '"' :: (Quoted.encode content.toList ++ '"' :: '\n' :: rest) := rfl
  obtain ⟨_, read⟩ := Quoted.read?_encode content rest
  rw [characters, spaces, read?_of_ne (by decide) (by decide), read]
  exact yields_of_eq_some rfl rfl rfl

/-- **The empty array reads back.** -/
theorem readsBack_empty : (Value.array []).ReadsBack := by
  intro depth rest
  have characters : (Value.array []).written.toList ++ '\n' :: rest =
      '[' :: ']' :: '\n' :: rest := by
    rw [written, allWritten]
    rfl
  have spaces : dropSpaces (' ' :: '[' :: ']' :: '\n' :: rest) = '[' :: ']' :: '\n' :: rest := rfl
  have layout : dropLayout (']' :: '\n' :: rest) = ']' :: '\n' :: rest := by
    rw [dropLayout]
    · rfl
    · exact fun _ same => absurd same (by decide)
  have none : Yields (readElements? depth (']' :: '\n' :: rest)) [] ('\n' :: rest) := by
    rw [readElements?.eq_def]
    split
    case h_1 behind start =>
      rw [layout] at start
      cases start
      exact yields_of_eq_some rfl rfl rfl
    case h_2 different => exact absurd layout (different _)
  obtain ⟨_, read⟩ := none
  rw [characters, spaces, read?, read]
  exact yields_of_eq_some rfl rfl rfl

variable {row : List Char}

/-- Up to the end of the line there is one row. -/
theorem row_eq (all : row.all Scalar.isWritten = true) (rest : List Char) :
    Scalar.row (row ++ '\n' :: rest) = row := by
  have taken : (row ++ '\n' :: rest).takeWhile Scalar.isWritten = row := by
    rw [List.takeWhile_append_of_pos (List.all_eq_true.mp all)]
    exact List.append_nil row
  rw [Scalar.row, taken, List.drop_left]
  rfl

/-- An empty row stands for no value. -/
theorem ne_nil_of_ofText? (read : Scalar.ofText? row = some value) : row ≠ [] := by
  rintro rfl
  have none : Scalar.ofText? [] = .none := rfl
  rw [none] at read
  cases read

/-- A row is read up to the end of the line. -/
theorem readScalar?_row (all : row.all Scalar.isWritten = true)
    (read : Scalar.ofText? row = some value) (rest : List Char) :
    Yields (Scalar.read? (row ++ '\n' :: rest)) value ('\n' :: rest) := by
  have same := row_eq all rest
  have long : 0 < (Scalar.row (row ++ '\n' :: rest)).length ∧ 0 < (row ++ '\n' :: rest).length := by
    rw [same, List.length_append, List.length_pos_iff_ne_nil]
    exact ⟨ne_nil_of_ofText? read, Nat.add_pos_right _ (Nat.succ_pos _)⟩
  have again : Scalar.ofText? (Scalar.row (row ++ '\n' :: rest)) = some value := by rw [same, read]
  rw [Scalar.read?, dif_pos long, again]
  refine yields_of_eq_some rfl rfl ?_
  dsimp only
  rw [same, List.drop_left]

/-- **A value that is written as a row is read back**, if the row stands for it. -/
theorem readsBack_row (written : value.written.toList = row) (all : row.all Scalar.isWritten = true)
    (read : Scalar.ofText? row = some value) : value.ReadsBack := by
  intro depth rest
  obtain ⟨_, readRow⟩ := readScalar?_row all read rest
  obtain ⟨first, others, rfl⟩ := List.exists_cons_of_ne_nil (ne_nil_of_ofText? read)
  have isWritten : Scalar.isWritten first = true := by
    rw [List.all_cons, Bool.and_eq_true] at all
    exact all.1
  -- so the row begins with no blank, bracket or quote
  have other {mark : Char} (notWritten : Scalar.isWritten mark = false) : first ≠ mark :=
    fun same =>
    Bool.false_ne_true (notWritten.symm.trans (same ▸ isWritten))
  have spaces : dropSpaces (' ' :: (first :: others ++ '\n' :: rest)) = first :: others ++
      '\n' :: rest :=
    dropSpaces_cons (isSpace_eq_false (other rfl) (other rfl)) _
  have noQuote : Quote.ofMark? first = none := by
    unfold Quote.ofMark?
    split
    · exact absurd rfl (other rfl)
    · exact absurd rfl (other rfl)
    · rfl
  rw [written, spaces, List.cons_append, read?_of_ne (other rfl) (other rfl),
    Quoted.read?_eq_none noQuote]
  dsimp only
  exact ⟨_, readRow⟩

/-- **Every integer reads back.** -/
theorem readsBack_integer (number : Int) : (Value.integer number).ReadsBack :=
  readsBack_row rfl (Scalar.all_isWritten_integer number) (Scalar.ofText?_integer number)

/-- **Every double reads back.** -/
theorem readsBack_float (number : Float) : (Value.float number).ReadsBack :=
  readsBack_row rfl (Scalar.all_isWritten_floatWritten number)
    (Scalar.ofText?_floatWritten number)

end Value

/-! ## Lines -/

namespace Line

/-- A line as it is written, without its end. -/
def text : Line → List Char
  | .entry key value => key.text ++ ' ' :: '=' :: ' ' :: value.written.toList
  | .table key => '[' :: (key.text ++ [']'])
  | .element key => '[' :: '[' :: (key.text ++ [']', ']'])

/-- A line whose names need no quotes and whose value reads back. -/
def IsPlain : Line → Prop
  | .entry key value => key.IsPlain ∧ value.ReadsBack
  | .table key => key.IsPlain
  | .element key => key.IsPlain

variable {line : Line} {key : Key}

/-- An entry is read from its text. -/
theorem read?_entry (plain : key.IsPlain) (readsBack : value.ReadsBack) (rest : List Char) :
    Yields (read? ((entry key value).text ++ '\n' :: rest)) (entry key value) ('\n' :: rest) := by
  generalize behind : ' ' :: (value.written.toList ++ '\n' :: rest) = later
  have written : (entry key value).text ++ '\n' :: rest = key.text ++ ' ' :: '=' :: later := by
    rw [text, List.append_assoc, ← behind]
    rfl
  have noBracket := text_ne_bracket plain.parents plain.name (' ' :: '=' :: later)
  have equals : afterMark? '=' (' ' :: '=' :: later) =
      some ⟨(), later, Nat.lt_succ_of_lt (Nat.lt_succ_self _)⟩ := rfl
  obtain ⟨_, readKey⟩ := readKey?_text plain ⟨⟨' ', '=' :: later, rfl, rfl⟩, rfl⟩
  have readValue : Yields (Value.read? maxDepth (dropSpaces later)) value ('\n' :: rest) := by
    rw [← behind]
    -- the depth has to be a successor
    exact readsBack (maxDepth - 1) rest
  obtain ⟨_, readValue⟩ := readValue
  rw [written, read?]
  · rw [Value.readPair?, readKey]
    dsimp only [Option.bind_eq_bind, Option.bind_some]
    rw [equals]
    dsimp only [Option.bind_some]
    rw [readValue]
    exact yields_of_eq_some rfl rfl rfl
  · exact fun others => noBracket _
  · exact noBracket

/-- A header is read from its text. -/
theorem read?_table (plain : key.IsPlain) (rest : List Char) :
    Yields (read? ((table key).text ++ '\n' :: rest)) (table key) ('\n' :: rest) := by
  have written : (table key).text ++ '\n' :: rest = '[' :: (key.text ++ ']' :: '\n' :: rest) := by
    rw [text, List.cons_append, List.append_assoc]
    rfl
  have close : afterMark? ']' (']' :: '\n' :: rest) = some ⟨(), '\n' :: rest,
      Nat.lt_succ_self _⟩ := rfl
  obtain ⟨_, readKey⟩ := readKey?_dropSpaces plain ⟨⟨']', '\n' :: rest, rfl, rfl⟩, rfl⟩
  rw [written, read?]
  · rw [readKey]
    dsimp only [Option.bind_eq_bind, Option.bind_some]
    rw [close]
    exact yields_of_eq_some rfl rfl rfl
  · exact text_ne_bracket plain.parents plain.name _

/-- The header of an element is read from its text. -/
theorem read?_element (plain : key.IsPlain) (rest : List Char) :
    Yields (read? ((element key).text ++ '\n' :: rest)) (element key) ('\n' :: rest) := by
  have written : (element key).text ++ '\n' :: rest =
      '[' :: '[' :: (key.text ++ ']' :: ']' :: '\n' :: rest) := by
    rw [text, List.cons_append, List.cons_append, List.append_assoc]
    rfl
  obtain ⟨_, readKey⟩ := readKey?_dropSpaces plain ⟨⟨']', ']' :: '\n' :: rest, rfl, rfl⟩, rfl⟩
  rw [written, read?, readKey]
  exact yields_of_eq_some rfl rfl rfl

/-- **A line is read from its text.** -/
theorem read?_text (plain : line.IsPlain) (rest : List Char) :
    Yields (read? (line.text ++ '\n' :: rest)) line ('\n' :: rest) := by
  cases line with
  | entry key value => exact read?_entry plain.1 plain.2 rest
  | table key => exact read?_table plain rest
  | element key => exact read?_element plain rest

/-- A line begins with a bracket or with its name. -/
theorem exists_text_eq (plain : line.IsPlain) :
    ∃ first tail, line.text = first :: tail ∧ (first = '[' ∨ Key.isBare first = true) := by
  cases line with
  | entry key value =>
      obtain ⟨first, tail, characters, isBare⟩ := Toml.exists_text_eq plain.1.parents plain.1.name
      exact ⟨first, _, congrArg (· ++ _) characters, .inr isBare⟩
  | table key => exact ⟨'[', _, rfl, .inl rfl⟩
  | element key => exact ⟨'[', _, rfl, .inl rfl⟩

end Line

/-! ## Blocks -/

/-- A written line is one of the lines of the document. -/
theorem readLines?_line {line : Line} (plain : line.IsPlain) (rest : List Char) :
    readLines? true (line.text ++ '\n' :: rest) = (readLines? true rest).map (line :: ·) := by
  have read := Line.read?_text plain rest
  obtain ⟨first, tail, characters, begins⟩ := Line.exists_text_eq plain
  have other {mark : Char} (noBracket : '[' ≠ mark) (notBare : Key.isBare mark = false) :
      first ≠ mark :=
    begins.elim (fun bracket => bracket ▸ noBracket) (isBare_ne · notBare)
  have noSpace : isSpace first = false :=
    isSpace_eq_false (other (by decide) rfl) (other (by decide) rfl)
  rw [characters, List.cons_append] at read ⊢
  obtain ⟨_, read⟩ := read
  rw [readLines?, noSpace, if_neg Bool.false_ne_true, if_neg (other (by decide) rfl),
    if_pos rfl, read]
  · dsimp only
    rw [readLines?]
  · exact other (by decide) rfl
  · exact fun _ same => absurd same (other (by decide) rfl)

/-- Lines as they are written. -/
def blockText (lines : List Line) : List Char :=
  lines.flatMap fun line => line.text ++ ['\n']

/-- The first line is written before the others. -/
theorem blockText_cons (line : Line) (lines : List Line) :
    blockText (line :: lines) = line.text ++ '\n' :: blockText lines := by
  rw [blockText, List.flatMap_cons, List.append_assoc]
  rfl

/-- Written lines are lines of the document. -/
theorem readLines?_block {lines : List Line} (plain : ∀ line ∈ lines, line.IsPlain)
    (rest : List Char) :
    readLines? true (blockText lines ++ rest) = (readLines? true rest).map (lines ++ ·) := by
  induction lines with
  | nil => simp [blockText]
  | cons line lines ih =>
      rw [blockText_cons, List.append_assoc, List.cons_append,
        readLines?_line (plain line List.mem_cons_self),
        ih fun other inside => plain other (List.mem_cons_of_mem _ inside), Option.map_map]
      rfl

/-- **Blocks of lines with empty lines between them are read as the lines.** -/
theorem readLines?_blocks {blocks : List (List Line)}
    (plain : ∀ block ∈ blocks, ∀ line ∈ block, line.IsPlain) :
    readLines? true (['\n'].intercalate (blocks.map blockText)) = some blocks.flatten := by
  induction blocks with
  | nil => rw [List.map_nil, List.intercalate_nil, readLines?, List.flatten_nil]
  | cons block blocks ih =>
      have first := plain block List.mem_cons_self
      have others := ih fun other inside => plain other (List.mem_cons_of_mem _ inside)
      cases blocks with
      | nil =>
          have none : readLines? true [] = some [] := by rw [readLines?]
          have whole := readLines?_block first []
          rw [List.append_nil, none] at whole
          simpa using whole
      | cons second blocks =>
          rw [List.map_cons, List.map_cons, List.intercalate_cons_cons, List.append_assoc,
            readLines?_block first, ← List.map_cons, List.singleton_append, readLines?, others]
          rfl

end LineRobot.Toml
