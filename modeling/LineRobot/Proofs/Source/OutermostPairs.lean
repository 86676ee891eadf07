import LineRobot.Proofs.Code.Located
import LineRobot.Proofs.Source.Braces
import LineRobot.Proofs.Source.Places

/-! # Definitions are outermost pairs of braces

The definitions of a text are those that its outermost pairs of braces give, if no brace is left
waiting, and else the first brace that waits is reported (`Definition.find_placeAfter`). As nothing
after the search for definitions finds an unclosed brace, and nothing comes before it but cleaning,
this holds of a source that is compiled as well (`Definition.all_matches_braces`). -/

namespace LineRobot

namespace Definition

variable {text header body rest : List Char} {definitions : List Definition}

/-- The definition that a header and a pair of braces of a text give. The header begins at the given
index. -/
def ofHeader (text : List Char) (start : Nat) (pair : Nat × Nat) (header : Header) :
    Definition where
  name := String.ofList header.name
  parameters := Header.parameterNames header.parameters
  body := text.extract (pair.1 + 1) pair.2
  bodyPosition := Text.placeAfter (text.take (pair.1 + 1))
  position := Text.placeAfter (text.take (start + header.lead.length))

/-- The definition that a pair of braces of a text gives, if its header, which begins at the given
index, fits. -/
def ofPair? (text : List Char) (start : Nat) (pair : Nat × Nat) : Option Definition :=
  (Header.ofText? (text.extract start pair.1)).map (ofHeader text start pair)

/-- The definitions that pairs of braces of a text give one after the other. The header of the first
begins at the given index, and that of each other one behind the pair before. -/
def ofPairs (text : List Char) : (start : Nat) → List (Nat × Nat) → List Definition
  | _, [] => []
  | start, pair :: later => (ofPair? text start pair).toList ++ ofPairs text (pair.2 + 1) later

/-- The text between two indices is the part that stands there. -/
theorem extract_append (before part rest : List Char) :
    (before ++ (part ++ rest)).extract before.length (before.length + part.length) = part := by
  rw [List.extract_eq_take_drop, List.drop_left, Nat.add_sub_cancel_left, List.take_left]

/-- A block gives the definition that its braces give. -/
theorem ofBlock?_placeAfter {before : List Char} {opening closing : Nat}
    (opens : before.length + header.length = opening) (closes : opening + 1 + body.length = closing)
    (rest : List Char) :
    ofBlock? (Text.placeAfter before) header body =
      ofPair? (before ++ (header ++ '\x7b' :: (body ++ '\x7d' :: rest))) before.length (opening,
        closing) := by
  subst opens closes
  have upToBody : before.length + header.length + 1 = (before ++ (header ++ ['\x7b'])).length := by
    rw [List.length_append, List.length_append, List.length_singleton, Nat.add_assoc]
  have whole : before ++ (header ++ '\x7b' :: (body ++ '\x7d' :: rest)) =
      before ++ (header ++ ['\x7b']) ++ (body ++ '\x7d' :: rest) := by
    rw [List.append_assoc, List.append_assoc, List.singleton_append]
  unfold ofPair? ofBlock? ofHeader
  rw [extract_append]
  refine Option.map_congr fun found fits => ?_
  obtain ⟨-, after, parts⟩ := Header.exists_of_ofText? fits
  have lead : (before ++ (header ++ '\x7b' :: (body ++ '\x7d' :: rest))).take
      (before.length + found.lead.length) =
      before ++ found.lead := by
    rw [parts, List.append_assoc, List.append_assoc, List.take_length_add_append, List.take_left]
  dsimp only
  rw [lead, whole, upToBody, extract_append, List.take_left, Text.after_placeAfter,
    Text.after_placeAfter]

/-- **The definitions of a text are those of its outermost pairs**, if no brace is left waiting, and
else the first brace that waits is reported. The text is read from the given place on. -/
theorem find_placeAfter (before text : List Char) :
    find (Text.placeAfter before) text =
      match (Braces.none.readAll before.length text).waiting.getLast? with
      | some first => .error (.unclosedBrace (Text.placeAfter ((before ++ text).take first)))
      | none => .ok (ofPairs (before ++ text) before.length
          (Braces.outermost (Braces.none.readAll before.length text).pairs)) := by
  induction length : text.length using Nat.strong_induction_on generalizing before text with
  | _ _ ih =>
  cases opened : text.dropWhile isBeforeBrace with
  | nil =>
      have absent : '\x7b' ∉ text := fun member =>
        absurd (List.dropWhile_eq_nil_iff.mp opened _ member) (by decide)
      obtain ⟨ignored, done⟩ := Braces.exists_readAll_of_notMem absent before.length []
      rw [find_of_notMem absent, Braces.none, done]
      rfl
  | cons brace inner =>
      obtain ⟨header, absent, rfl⟩ := exists_header opened
      cases closed : splitAtClosing 0 inner with
      | none =>
          rw [find_unclosed absent closed, Braces.getLast?_readAll_of_unclosed absent closed]
          dsimp only
          rw [List.take_length_add_append, List.take_left, Text.after_placeAfter]
      | some parts =>
          obtain ⟨body, rest⟩ := parts
          obtain rfl := eq_of_splitAtClosing closed
          -- the block has the first of the outermost pairs, and the others are those of the rest
          obtain ⟨opening, opens⟩ : ∃ opening, before.length + header.length = opening := ⟨_, rfl⟩
          obtain ⟨closing, closes⟩ : ∃ closing, opening + 1 + body.length = closing := ⟨_, rfl⟩
          have shorter : rest.length < (header ++ '\x7b' :: (body ++ '\x7d' :: rest)).length := by
            simp only [List.length_append, List.length_cons]
            omega
          have passed : (before ++ (header ++ '\x7b' :: (body ++ ['\x7d']))).length =
              closing + 1 := by
            simp only [List.length_append, List.length_cons, List.length_nil]
            omega
          have whole : before ++ (header ++ '\x7b' :: (body ++ ['\x7d'])) ++ rest =
              before ++ (header ++ '\x7b' :: (body ++ '\x7d' :: rest)) := by
            simp only [List.append_assoc, List.cons_append, List.nil_append]
          rw [find_block absent closed, Text.after_placeAfter,
            ih rest.length (length ▸ shorter) _ rest rfl,
            Braces.waiting_readAll_block absent closed opens closes,
            Braces.outermost_readAll_block absent closed opens closes, ofPairs,
              ← ofBlock?_placeAfter opens closes,
            passed, whole]
          cases (Braces.none.readAll (closing + 1) rest).waiting.getLast? <;> rfl

/-- The braces of the bodies that are found are in pairs. -/
theorem Found.allMatch {position : Position} (found : Found position text definitions) :
    ∀ definition ∈ definitions, Braces.AllMatch definition.body := by
  induction found with
  | nothing => exact nofun
  | @block position header body rest later absent closed _ ih =>
      intro definition member
      rcases List.mem_append.mp member with given | member
      · obtain ⟨found, -, rfl⟩ := Option.map_eq_some_iff.mp (Option.mem_toList.mp given)
        exact Braces.allMatch_of_splitAtClosing closed
      · exact ih definition member

/-- A pair gives a definition just if its header looks like one. -/
theorem ofPair?_eq_some_iff {start : Nat} {pair : Nat × Nat} {definition : Definition} :
    ofPair? text start pair = some definition ↔
      ∃ pattern : Header.Pattern (text.extract start pair.1),
        pattern.IsLeftmost ∧ ofHeader text start pair pattern.header = definition := by
  rw [ofPair?, Option.map_eq_some_iff]
  constructor
  · rintro ⟨header, found, rfl⟩
    obtain ⟨pattern, leftmost, rfl⟩ := Header.exists_leftmost_of_ofText? found
    exact ⟨pattern, leftmost, rfl⟩
  · rintro ⟨pattern, leftmost, rfl⟩
    exact ⟨pattern.header, leftmost.ofText?_eq, rfl⟩

/-- What is found in a whole text is decided by the braces that wait at its end. -/
theorem all_eq (text : List Char) :
    all text =
      match (Braces.ofText text).waiting.getLast? with
      | some first => .error (.unclosedBrace (Text.placeAfter (text.take first)))
      | none => .ok (ofPairs text 0 (Braces.outermost (Braces.ofText text).pairs)) :=
  find_placeAfter [] text

/-- A text is rejected for the first brace that is left waiting. -/
theorem all_eq_error_iff {rejection : Rejection} :
    all text = .error rejection ↔
      ∃ first, (Braces.ofText text).IsFirstWaiting first ∧
        rejection = .unclosedBrace (Text.placeAfter (text.take first)) := by
  simp only [← (Braces.nested_ofText text).getLast?_eq_some_iff]
  rw [all_eq]
  cases (Braces.ofText text).waiting.getLast? with
  | none => simp
  | some first => simp [eq_comm]

/-- A text has definitions if no brace is left waiting. -/
theorem all_eq_ok_iff :
    all text = .ok definitions ↔
      (Braces.ofText text).waiting = [] ∧
        definitions = ofPairs text 0 (Braces.outermost (Braces.ofText text).pairs) := by
  rw [all_eq, ← List.getLast?_eq_none_iff]
  cases (Braces.ofText text).waiting.getLast? with
  | none => simp [eq_comm]
  | some first => simp

/-- An unclosed brace is found just if a brace is left waiting. -/
theorem exists_unclosedBrace_iff :
    (∃ position, all text = .error (.unclosedBrace position)) ↔
      (Braces.ofText text).waiting ≠ [] := by
  rw [all_eq, ne_eq, ← List.getLast?_eq_none_iff]
  cases (Braces.ofText text).waiting.getLast? with
  | none => simp
  | some first => simp

/-- **Braces are matched as with a stack.** A text is rejected just if an opening brace is left
waiting, at the place of the first of them. Else its definitions are those of its outermost pairs of
braces, one after the other: a pair gives one just if the text between it and the pair before looks
like a header. The braces of each body are in pairs. A source is not compiled for a brace that is
never closed just if one is left waiting when it has been cleaned, whatever else is wrong with
it. -/
theorem all_matches_braces (text : List Char) :
    (∀ rejection, all text = .error rejection ↔
      ∃ first, (Braces.ofText text).IsFirstWaiting first ∧
        rejection = .unclosedBrace (Text.placeAfter (text.take first))) ∧
    (∀ definitions, all text = .ok definitions ↔
      (Braces.ofText text).waiting = [] ∧
        definitions = ofPairs text 0 (Braces.outermost (Braces.ofText text).pairs)) ∧
    (Braces.outermost (Braces.ofText text).pairs).Pairwise (fun earlier later =>
      earlier.2 < later.1) ∧
    (∀ start pair definition, ofPair? text start pair = some definition ↔
      ∃ pattern : Header.Pattern (text.extract start pair.1),
        pattern.IsLeftmost ∧ ofHeader text start pair pattern.header = definition) ∧
    (∀ definitions, all text = .ok definitions → ∀ definition ∈ definitions,
      Braces.AllMatch definition.body) ∧
    ∀ source : String, (∃ position, Program.compile source = .error (.unclosedBrace position)) ↔
      (Braces.ofText (Source.clean source.toList)).waiting ≠ [] := by
  refine ⟨fun rejection => all_eq_error_iff, fun definitions => all_eq_ok_iff,
    (Braces.nested_ofText text).pairwise_outermost, fun start pair definition =>
      ofPair?_eq_some_iff,
    fun definitions done => (find_eq_ok_iff.mp done).allMatch, fun source => ?_⟩
  rw [← exists_unclosedBrace_iff]
  exact exists_congr fun position => Program.compileWith_eq_unclosedBrace_iff [] source position

end Definition

end LineRobot
