import LineRobot.Proofs.Success
import LineRobot.Proofs.Syntax.Grammar

/-! # What parsers read

Every parser reads what the tokens in front of it write, and fails at one of these tokens or at the
end; and if another text differs only in names and places, it reads the twin there or fails there as
well (`Together`). That holds of one token, carries over to steps of reading behind one another
(`Together.bind`) and so holds along the recursion of the grammar.

`Statement.written_of_parseBody` says what this means for one text alone, and
`Statement.exists_parseBody_of_renamed` what it means for two. What holds of a tree and the tokens
that it is read from is shown by induction on `Statement.Written`, and not along the parsers
again. -/

namespace LineRobot

open Tokens

variable {α β γ : Type} {names : String → String → Prop} {stop stop' : Position}
  {input input' middle middle' rest rest' : List Token}

/-! ## Tokens of two texts -/

namespace Tokens

variable {interest : TokenKind → Option α} {parsed : Parsed (α × Position) input}

/-- The next token is in front of what is left, and its place is that of the list. -/
theorem exists_kind_of_next? (found : next? interest input = some parsed) :
    ∃ kind, interest kind = some parsed.value.1 ∧
      input = ⟨kind, parsed.value.2⟩ :: parsed.rest := by
  cases input with
  | nil => exact nomatch found
  | cons token rest =>
      obtain ⟨value, interesting, rfl⟩ := Option.map_eq_some_iff.mp found
      exact ⟨token.kind, interesting, rfl⟩

/-- A token read is placed where the list begins. -/
theorem place_of_next? (stop : Position) (found : next? interest input = some parsed) :
    parsed.value.2 = place stop input := by
  obtain ⟨kind, -, whole⟩ := exists_kind_of_next? found
  exact (congrArg (place stop) whole).symm

/-- What is left after a token is a later place of the list. -/
theorem suffix_of_next? (found : next? interest input = some parsed) : parsed.rest <:+ input := by
  obtain ⟨kind, -, whole⟩ := exists_kind_of_next? found
  exact ⟨[⟨kind, parsed.value.2⟩], whole.symm⟩

/-- What is left after a sign of interest is a later place of the list. -/
theorem suffix_of_signThat? {interest : Sign → Option α}
    (found : signThat? interest input = some parsed) : parsed.rest <:+ input :=
  suffix_of_next? found

end Tokens

/-- Two texts have been read up to the same token: what is left of the first one is a later place of
`input`, and the texts differ from there in names and places only. -/
structure Abreast (names : String → String → Prop) (input rest rest' : List Token) : Prop where
  /-- A later place. -/
  suffix : rest <:+ input
  /-- The tokens left. -/
  renamed : Tokens.Renamed names rest rest'

namespace Abreast

/-- Nothing has been read. -/
theorem start (renamed : Tokens.Renamed names input input') : Abreast names input input input' :=
  ⟨List.suffix_rfl, renamed⟩

/-- From one place to a later one, and on from there. -/
theorem trans (first : Abreast names input middle middle')
    (second : Abreast names middle rest rest') : Abreast names input rest rest' :=
  ⟨second.suffix.trans first.suffix, second.renamed⟩

variable (abreast : Abreast names input middle middle')

include abreast

/-- If the next token is of interest in one text, so it is in the other one, unless it is a name. -/
theorem next? (interest : TokenKind → Option α) (blind : ∀ text, interest (.name text) = none) :
    Tokens.next? interest middle = none ∧ Tokens.next? interest middle' = none ∨
      ∃ kind mark mark', Tokens.next? interest middle = some mark ∧
        Tokens.next? interest middle' = some mark' ∧ mark'.value.1 = mark.value.1 ∧
        interest kind = some mark.value.1 ∧ middle = ⟨kind, mark.value.2⟩ :: mark.rest ∧
        Abreast names input mark.rest mark'.rest := by
  obtain ⟨suffix, renamed⟩ := abreast
  cases renamed with
  | nil => exact .inl ⟨rfl, rfl⟩
  | @cons token token' rest rest' alike renamed =>
      obtain ⟨kind, here⟩ := token
      obtain ⟨kind', there⟩ := token'
      have same : interest kind' = interest kind := by
        cases alike with
        | name => rw [blind, blind]
        | _ => rfl
      simp only [Tokens.next?, same]
      cases interesting : interest kind with
      | none => exact .inl ⟨rfl, rfl⟩
      | some value =>
          exact .inr ⟨kind, _, _, rfl, rfl, rfl, interesting, rfl,
            (List.suffix_cons _ rest).trans suffix, renamed⟩

/-- A sign of interest comes next in both texts or in neither. -/
theorem signThat? (interest : Sign → Option α) :
    Tokens.signThat? interest middle = none ∧ Tokens.signThat? interest middle' = none ∨
      ∃ sign mark mark', Tokens.signThat? interest middle = some mark ∧
        Tokens.signThat? interest middle' = some mark' ∧ mark'.value.1 = mark.value.1 ∧
        interest sign = some mark.value.1 ∧ middle = ⟨.sign sign, mark.value.2⟩ :: mark.rest ∧
        Abreast names input mark.rest mark'.rest := by
  refine (abreast.next? _ fun _ => rfl).imp id ?_
  rintro ⟨kind, mark, mark', found, found', same, interesting, whole, after⟩
  cases kind with
  | sign sign => exact ⟨sign, mark, mark', found, found', same, interesting, whole, after⟩
  | _ => cases interesting

/-- A sign comes next in both texts or in neither. -/
theorem sign? (sign : Sign) :
    Tokens.sign? sign middle = none ∧ Tokens.sign? sign middle' = none ∨
      ∃ mark mark', Tokens.sign? sign middle = some mark ∧ Tokens.sign? sign middle' = some mark' ∧
        middle = ⟨.sign sign, mark.value.2⟩ :: mark.rest ∧
        Abreast names input mark.rest mark'.rest := by
  obtain none | ⟨kind, mark, mark', found, found', -, interesting, whole, after⟩ :=
    abreast.next? (fun kind => if kind = .sign sign then some () else none) fun _ => rfl
  · exact .inl none
  · obtain ⟨rfl, -⟩ := Option.ite_none_right_eq_some.mp interesting
    exact .inr ⟨mark, mark', found, found', whole, after⟩

/-- A keyword comes next in both texts or in neither. -/
theorem keyword? (word : Keyword) :
    Tokens.keyword? word middle = none ∧ Tokens.keyword? word middle' = none ∨
      ∃ mark mark', Tokens.keyword? word middle = some mark ∧
        Tokens.keyword? word middle' = some mark' ∧
        middle = ⟨.keyword word, mark.value.2⟩ :: mark.rest ∧
        Abreast names input mark.rest mark'.rest := by
  obtain none | ⟨kind, mark, mark', found, found', -, interesting, whole, after⟩ :=
    abreast.next? (fun kind => if kind = .keyword word then some () else none) fun _ => rfl
  · exact .inl none
  · obtain ⟨rfl, -⟩ := Option.ite_none_right_eq_some.mp interesting
    exact .inr ⟨mark, mark', found, found', whole, after⟩

/-- A declaration comes next in both texts or in neither. -/
theorem atDeclaration_eq : atDeclaration middle' = atDeclaration middle := by
  cases abreast.renamed with
  | nil => rfl
  | @cons token token' _ _ alike _ =>
      obtain ⟨kind, here⟩ := token
      obtain ⟨kind', there⟩ := token'
      cases alike <;> rfl

/-- A type comes next in both texts or in neither. -/
theorem atType_eq : atType middle' = atType middle := by
  have void : peek? middle' = some (.keyword .void) ↔ peek? middle = some (.keyword .void) := by
    cases abreast.renamed with
    | nil => rfl
    | @cons token token' _ _ alike _ =>
        obtain ⟨kind, here⟩ := token
        obtain ⟨kind', there⟩ := token'
        cases alike <;> simp [peek?]
  rw [atType, atType, abreast.atDeclaration_eq, decide_eq_decide.mpr void]

end Abreast

/-! ## Reading two texts -/

/-- Two readings go together: both read what their tokens write, or both fail, the first one at one
of its tokens or at the end. -/
inductive Together (names : String → String → Prop) (stop : Position)
    (written : List Token → α → α → Prop) {input input' : List Token} :
    Parse α input → Parse α input' → Prop
  /-- Both have read. -/
  | ok {parsed : Parsed α input} {parsed' : Parsed α input'}
      (abreast : Abreast names input parsed.rest parsed'.rest)
      (holds : written parsed.rest parsed.value parsed'.value) :
      Together names stop written (.ok parsed) (.ok parsed')
  /-- Both have failed. -/
  | error {cause : ParseCause} {rest : List Token} {error' : ParseError} (suffix : rest <:+ input) :
      Together names stop written (.error ⟨cause, place stop rest⟩) (.error error')

namespace Together

variable {written : List Token → α → α → Prop} {result : List Token → β → β → Prop}

/-- Steps behind one another go together if each does. -/
theorem bind {first : Parse α middle} {first' : Parse α middle'}
    {next : Parsed α middle → Parse β input} {next' : Parsed α middle' → Parse β input'}
    (together : Together names stop written first first')
    (abreast : Abreast names input middle middle')
    (continues : ∀ parsed parsed', Abreast names input parsed.rest parsed'.rest →
      written parsed.rest parsed.value parsed'.value →
      Together names stop result (next parsed) (next' parsed')) :
    Together names stop result (first >>= next) (first' >>= next') := by
  cases together with
  | ok after holds => exact continues _ _ (abreast.trans after) holds
  | error suffix => exact .error (suffix.trans abreast.suffix)

/-- Failures at a token read. -/
theorem error_at {error' : ParseError} (cause : ParseCause) {token : Token}
    (suffix : token :: rest <:+ input) :
    Together names stop written (.error ⟨cause, token.position⟩ : Parse α input)
      (.error error' : Parse α input') :=
  @error _ _ _ _ _ _ cause (token :: rest) _ suffix

/-- What has been read alone. -/
theorem holds {outcome : Parse α input} {outcome' : Parse α input'} {parsed : Parsed α input}
    (together : Together names stop written outcome outcome') (read : outcome = .ok parsed) :
    ∃ parsed', outcome' = .ok parsed' ∧ Abreast names input parsed.rest parsed'.rest ∧
      written parsed.rest parsed.value parsed'.value := by
  cases together with
  | ok abreast holds =>
      cases read
      exact ⟨_, rfl, abreast, holds⟩
  | error suffix => exact nomatch read

end Together

/-- Two parsers read a text and any other text alike that differs from it in names and places
only. -/
def ReadAlike (names : String → String → Prop) (stop : Position)
    (written : List Token → List Token → α → α → Prop)
    (read read' : (input : List Token) → Parse α input) (input : List Token) : Prop :=
  ∀ ⦃input'⦄, Tokens.Renamed names input input' →
    Together names stop (written input) (read input) (read' input')

namespace Tokens

variable (renamed : Tokens.Renamed names input input')

include renamed

/-- A sign that must come next. -/
theorem together_expectSign (mark : Sign) (context : String) :
    Together names stop (fun rest value _ => input = ⟨.sign mark, value.2⟩ :: rest)
      (expectSign stop mark context input) (expectSign stop' mark context input') := by
  rw [expectSign, expectSign]
  obtain ⟨absent, absent'⟩ | ⟨parsed, parsed', found, found', whole, after⟩ :=
    (Abreast.start renamed).sign? mark
  · rw [absent, absent']
    exact .error List.suffix_rfl
  · rw [found, found']
    exact .ok after whole

/-- A name that must come next. -/
theorem together_expectName :
    Together names stop
      (fun rest value value' => input = ⟨.name value.1, value.2⟩ :: rest ∧ names value.1 value'.1)
      (expectName stop input) (expectName stop' input') := by
  rw [expectName, expectName]
  cases renamed with
  | nil => exact .error List.suffix_rfl
  | @cons token token' _ _ alike renamed =>
      obtain ⟨kind, place⟩ := token
      obtain ⟨kind', place'⟩ := token'
      cases alike with
      | name related => exact .ok ⟨List.suffix_cons _ _, renamed⟩ ⟨rfl, related⟩
      | _ => exact .error List.suffix_rfl

end Tokens

/-! ## Expressions

The parsers call each other, and so do these theorems: each goes along the definition of its parser,
for the same reason that the parser comes to an end. -/

namespace Expression

/-- Whether an expression is a bare name. -/
def isName : Expression String → Bool
  | .name _ _ => true
  | _ => false

/-- An expression is a bare name, or it has another form. -/
theorem exists_name_iff {value : Expression String} :
    value.isName = true ↔ ∃ text place, value = .name text place := by
  cases value <;> simp [isName]

/-- What is written as a bare name is one in the other text. -/
theorem Written.isName_eq {value value' : Expression String}
    (written : Written names input rest value value') : value'.isName = value.isName := by
  induction written using Written.rec (motive_2 := fun _ _ _ _ _ => True) with
  | parentheses _ ih => exact ih
  | @leading _ _ _ _ _ leading _ _ _ _ ih =>
      cases leading with
      | nothing => exact ih
      | operator | change => rfl
  | @binary _ _ _ _ _ _ _ _ _ link =>
      cases link <;> rfl
  | nothing | last | cons => trivial
  | _ => rfl

/-- A literal or a name comes next in both texts or in neither. -/
theorem atom?_together (renamed : Tokens.Renamed names input input') :
    atom? input = none ∧ atom? input' = none ∨
      ∃ atom atom', atom? input = some atom ∧ atom? input' = some atom' ∧
        Abreast names input atom.rest atom'.rest ∧
        Written names input atom.rest (atom.value.1 atom.value.2)
          (atom'.value.1 atom'.value.2) := by
  cases renamed with
  | nil => exact .inl ⟨rfl, rfl⟩
  | @cons token token' rest rest' alike renamed =>
      have after : Abreast names (token :: rest) rest rest' :=
        ⟨List.suffix_cons token rest, renamed⟩
      obtain ⟨kind, here⟩ := token
      obtain ⟨kind', there⟩ := token'
      cases alike with
      | number => exact .inr ⟨_, _, rfl, rfl, after, .number⟩
      | character => exact .inr ⟨_, _, rfl, rfl, after, .character⟩
      | name related => exact .inr ⟨_, _, rfl, rfl, after, .name related⟩
      | keyword | sign => exact .inl ⟨rfl, rfl⟩

mutual

/-- An expression. -/
theorem readAlike_parse (stop stop' : Position) (input : List Token) :
    ReadAlike names stop (Written names) (parse stop) (parse stop') input := by
  intro input' renamed
  rw [parse, parse]
  refine (readAlike_parseConditional stop stop' _ renamed).bind (.start renamed)
    fun target target' after left => ?_
  obtain ⟨absent, absent'⟩ | ⟨sign, mark, mark', found, found', same, assigns, whole, after⟩ :=
    after.signThat? Sign.assignment?
  · rw [absent, absent']
    exact .ok after left
  · rw [found, found']
    rw [whole] at left
    refine (readAlike_parse stop stop' _ after.renamed).bind after
      fun value value' after right => ?_
    refine .ok after ?_
    rw [Parsed.as_value, Parsed.as_value, same]
    exact .assign assigns left right
termination_by 8 * input.length + 4
decreasing_by
  · omega
  · have shorter : mark.rest.length < input.length := (target.within mark).shorter
    omega

/-- A conditional. -/
theorem readAlike_parseConditional (stop stop' : Position) (input : List Token) :
    ReadAlike names stop (Written names) (parseConditional stop)
      (parseConditional stop') input := by
  intro input' renamed
  rw [parseConditional, parseConditional]
  refine (readAlike_parseOperations stop stop' 1 _ renamed).bind (.start renamed)
    fun condition condition' after chosen => ?_
  obtain ⟨absent, absent'⟩ | ⟨mark, mark', found, found', whole, after⟩ := after.sign? .question
  · rw [absent, absent']
    exact .ok after chosen
  · rw [found, found']
    rw [whole] at chosen
    refine (readAlike_parse stop stop' _ after.renamed).bind after
      fun whenTrue whenTrue' after first => ?_
    refine (together_expectSign after.renamed .colon _).bind after
      fun colon colon' after whole => ?_
    rw [whole] at first
    refine (readAlike_parseConditional stop stop' _ after.renamed).bind after
      fun whenFalse whenFalse' after second => ?_
    exact .ok after (.conditional chosen first second)
termination_by 8 * input.length + 3
decreasing_by
  · omega
  · have shorter : mark.rest.length < input.length := (condition.within mark).shorter
    omega
  · have shorter : colon.rest.length < input.length :=
      (condition.within (mark.within (whenTrue.within colon))).shorter
    omega

/-- Operands joined by operators. -/
theorem readAlike_parseOperations (stop stop' : Position) (level : Nat) (input : List Token) :
    ReadAlike names stop (Written names) (parseOperations stop level)
      (parseOperations stop' level) input := by
  intro input' renamed
  rw [parseOperations, parseOperations]
  refine (readAlike_parseUnary stop stop' _ renamed).bind (.start renamed)
    fun first first' after written => ?_
  exact together_parseOperationsAfter stop stop' level input first first' after written
termination_by 8 * input.length + 2
decreasing_by
  · omega
  · have shorter := first.shorter
    omega

/-- Operators behind an operand. -/
theorem together_parseOperationsAfter (stop stop' : Position) (level : Nat) (input : List Token)
    (left : Parsed (Expression String) input) :
    ∀ {input'} (left' : Parsed (Expression String) input'),
      Abreast names input left.rest left'.rest →
      Written names input left.rest left.value left'.value →
      Together names stop (Written names input) (parseOperationsAfter stop level input left)
        (parseOperationsAfter stop' level input' left') := by
  intro input' left' after written
  rw [parseOperationsAfter, parseOperationsAfter]
  obtain ⟨absent, absent'⟩ | ⟨sign, mark, mark', found, found', same, joins, whole, after⟩ :=
    after.signThat? fun mark => mark.binary?.filter fun entry => level ≤ entry.1
  · rw [operator?, operator?, absent, absent']
    exact .ok after written
  · rw [operator?, operator?, found, found']
    dsimp only
    rw [whole] at written
    rw [same]
    refine (readAlike_parseOperations stop stop' _ _ after.renamed).bind after
      fun right right' after other => ?_
    refine together_parseOperationsAfter stop stop' level input _ _ after ?_
    exact .binary (Option.filter_eq_some_iff.mp joins).1 written other
termination_by 8 * left.rest.length + 2
decreasing_by
  · have shorter := mark.shorter
    omega
  · have shorter := (mark.within right).shorter
    simp only [Parsed.as_rest, Parsed.within_rest] at shorter ⊢
    omega

/-- An operand with the operators before it. -/
theorem readAlike_parseUnary (stop stop' : Position) (input : List Token) :
    ReadAlike names stop (Written names) (parseUnary stop) (parseUnary stop') input := by
  intro input' renamed
  rw [parseUnary, parseUnary]
  obtain ⟨absent, absent'⟩ | ⟨sign, mark, mark', found, found', same, leads, whole, after⟩ :=
    (Abreast.start renamed).signThat? Sign.leading?
  · rw [absent, absent']
    refine (readAlike_parsePrimary stop stop' _ renamed).bind (.start renamed)
      fun operand operand' after written => ?_
    exact together_parseTrailing stop stop' input operand operand' after written
  · rw [found, found']
    refine (readAlike_parseUnary stop stop' _ after.renamed).bind after
      fun operand operand' after written => ?_
    have led : Written names (⟨.sign sign, mark.value.2⟩ :: mark.rest) operand.rest
        (mark.value.1.apply operand.value mark.value.2)
        (mark'.value.1.apply operand'.value mark'.value.2) := by
      rw [same]
      exact .leading leads written
    rw [← whole] at led
    exact .ok after led
termination_by 8 * input.length + 1
decreasing_by
  · omega
  · have shorter := operand.shorter
    omega
  · have shorter := mark.shorter
    omega

/-- What follows an operand. -/
theorem together_parseTrailing (stop stop' : Position) (input : List Token)
    (operand : Parsed (Expression String) input) :
    ∀ {input'} (operand' : Parsed (Expression String) input'),
      Abreast names input operand.rest operand'.rest →
      Written names input operand.rest operand.value operand'.value →
      Together names stop (Written names input) (parseTrailing stop input operand)
        (parseTrailing stop' input' operand') := by
  intro input' operand' earlier written
  rw [parseTrailing, parseTrailing]
  obtain ⟨absent, absent'⟩ | ⟨sign, mark, mark', found, found', same, trails, whole, after⟩ :=
    earlier.signThat? Sign.trailing?
  · rw [absent, absent']
    exact .ok earlier written
  have before := earlier.suffix
  rw [found, found']
  dsimp only
  rw [whole] at written
  rw [same]
  cases kind : mark.value.1 with
  | change direction =>
      rw [kind] at trails
      exact together_parseTrailing stop stop' input _ _ after (.change trails written)
  | index =>
      rw [kind] at trails
      obtain rfl : sign = .leftBracket := by cases sign <;> first | rfl | cases trails
      refine (readAlike_parse stop stop' _ after.renamed).bind after
        fun subscript subscript' after inside => ?_
      refine (together_expectSign after.renamed .rightBracket _).bind after
        fun close close' after whole => ?_
      rw [whole] at inside
      exact together_parseTrailing stop stop' input _ _ after (.index written inside)
  | call =>
      rw [kind] at trails
      obtain rfl : sign = .leftParenthesis := by cases sign <;> first | rfl | cases trails
      refine (readAlike_parseArguments stop stop' _ after.renamed).bind after
        fun arguments arguments' after given => ?_
      -- only a name is called, and renaming makes no name and takes none away
      have isName := written.isName_eq
      split
      case h_1 text place named =>
        split
        case h_1 text' place' named' =>
          rw [named, named'] at written
          exact together_parseTrailing stop stop' input _ _ after (.call written given)
        case h_2 noName =>
          obtain ⟨text', place', named'⟩ := exists_name_iff.mp (isName.trans (by rw [named]; rfl))
          exact (noName text' place' named').elim
      case h_2 noName =>
        split
        case h_1 text' place' named' =>
          obtain ⟨text, place, named⟩ :=
            exists_name_iff.mp (isName.symm.trans (by rw [named']; rfl))
          exact (noName text place named).elim
        case h_2 =>
          rw [whole] at before
          exact .error_at _ before
termination_by 8 * operand.rest.length + 1
decreasing_by
  · have shorter := mark.shorter
    simp only [Parsed.as_rest, Parsed.within_rest]
    omega
  · have shorter := mark.shorter
    omega
  · have shorter := (mark.within (subscript.within close)).shorter
    simp only [Parsed.as_rest, Parsed.within_rest] at shorter ⊢
    omega
  · have shorter := mark.shorter
    omega
  · have shorter := (mark.within arguments).shorter
    simp only [Parsed.as_rest, Parsed.within_rest] at shorter ⊢
    omega

/-- The arguments of a call. -/
theorem readAlike_parseArguments (stop stop' : Position) (input : List Token) :
    ReadAlike names stop (ArgumentsWritten names) (parseArguments stop)
      (parseArguments stop') input := by
  intro input' renamed
  rw [parseArguments, parseArguments]
  obtain ⟨absent, absent'⟩ | ⟨mark, mark', found, found', whole, after⟩ :=
    (Abreast.start renamed).sign? .rightParenthesis
  · rw [absent, absent']
    exact readAlike_parseArgumentList stop stop' _ renamed
  · rw [found, found']
    have closed : ArgumentsWritten names (⟨.sign .rightParenthesis, mark.value.2⟩ :: mark.rest)
        mark.rest [] [] := .nothing
    rw [← whole] at closed
    exact .ok after closed
termination_by 8 * input.length + 6
decreasing_by
  omega

/-- One or more arguments. -/
theorem readAlike_parseArgumentList (stop stop' : Position) (input : List Token) :
    ReadAlike names stop (ArgumentsWritten names) (parseArgumentList stop)
      (parseArgumentList stop') input := by
  intro input' renamed
  rw [parseArgumentList, parseArgumentList]
  refine (readAlike_parse stop stop' _ renamed).bind (.start renamed)
    fun first first' after written => ?_
  obtain ⟨absent, absent'⟩ | ⟨mark, mark', found, found', whole, after⟩ := after.sign? .comma
  · rw [absent, absent']
    refine (together_expectSign after.renamed .rightParenthesis _).bind after
      fun close close' after whole => ?_
    rw [whole] at written
    exact .ok after (.last written)
  · rw [found, found']
    rw [whole] at written
    refine (readAlike_parseArgumentList stop stop' _ after.renamed).bind after
      fun others others' after more => ?_
    exact .ok after (.cons written more)
termination_by 8 * input.length + 5
decreasing_by
  · omega
  · have shorter : mark.rest.length < input.length := (first.within mark).shorter
    omega

/-- A literal, a name or an expression in parentheses. -/
theorem readAlike_parsePrimary (stop stop' : Position) (input : List Token) :
    ReadAlike names stop (Written names) (parsePrimary stop) (parsePrimary stop') input := by
  intro input' renamed
  rw [parsePrimary, parsePrimary]
  obtain ⟨absent, absent'⟩ | ⟨atom, atom', found, found', after, written⟩ := atom?_together renamed
  case inr =>
    rw [found, found']
    exact .ok after written
  rw [absent, absent']
  obtain ⟨absent, absent'⟩ | ⟨mark, mark', found, found', whole, after⟩ :=
    (Abreast.start renamed).sign? .leftParenthesis
  case inl =>
    rw [absent, absent']
    exact .error List.suffix_rfl
  rw [found, found']
  dsimp only
  rw [after.atType_eq]
  split
  case isTrue =>
    have suffix : ⟨.sign .leftParenthesis, mark.value.2⟩ :: mark.rest <:+ input :=
      whole ▸ List.suffix_rfl
    exact .error_at _ suffix
  case isFalse =>
    refine (readAlike_parse stop stop' _ after.renamed).bind after
      fun inner inner' after written => ?_
    refine (together_expectSign after.renamed .rightParenthesis _).bind after
      fun close close' after closes => ?_
    rw [closes] at written
    have written : Written names (⟨.sign .leftParenthesis, mark.value.2⟩ :: mark.rest) close.rest
        inner.value inner'.value := .parentheses written
    rw [← whole] at written
    exact .ok after written
termination_by 8 * input.length
decreasing_by
  · have shorter := mark.shorter
    omega

end

end Expression

/-! ## Declarations -/

/-- The same type words are in front of two texts. -/
theorem TypeWords.abreast_read (renamed : Tokens.Renamed names input input') :
    (read input').1 = (read input).1 ∧ Abreast names input (read input).2 (read input').2 := by
  induction renamed with
  | nil => exact ⟨rfl, .start .nil⟩
  | @cons token token' rest rest' alike renamed ih =>
      have stays : Abreast names (token :: rest) (token :: rest) (token' :: rest') :=
        .start (.cons alike renamed)
      obtain ⟨kind, here⟩ := token
      obtain ⟨kind', there⟩ := token'
      cases alike with
      | @keyword word =>
          simp only [read]
          split
          case isTrue =>
            exact ⟨by rw [ih.1], Abreast.trans ⟨List.suffix_cons _ _, renamed⟩ ih.2⟩
          case isFalse => exact ⟨rfl, stays⟩
      | _ => exact ⟨rfl, stays⟩

/-- Declared names behind type words are a declaration. -/
theorem Declarator.ListWritten.declaration {declarators declarators' : List Declarator}
    (written : ListWritten names (TypeWords.read input).2 rest declarators declarators') :
    DeclarationWritten names input rest declarators declarators' := by
  induction input with
  | nil => exact .declarators written
  | cons token others ih =>
      obtain ⟨kind, here⟩ := token
      cases kind with
      | keyword word =>
          rw [TypeWords.read] at written
          dsimp only at written
          split at written
          case isTrue => exact .word (ih written)
          case isFalse => exact .declarators written
      | _ => exact .declarators written

namespace Statement

/-- A clause that may be left out. -/
theorem readAlike_parseUntil (stop stop' : Position) (close : Sign) (context : String)
    (input : List Token) :
    ReadAlike names stop (Expression.ClauseWritten names close) (parseUntil stop close context)
      (parseUntil stop' close context) input := by
  intro input' renamed
  rw [parseUntil, parseUntil]
  obtain ⟨absent, absent'⟩ | ⟨mark, mark', found, found', whole, after⟩ :=
    (Abreast.start renamed).sign? close
  · rw [absent, absent']
    refine (Expression.readAlike_parse stop stop' _ renamed).bind (.start renamed)
      fun value value' after written => ?_
    refine (together_expectSign after.renamed close context).bind after
      fun mark mark' after whole => ?_
    rw [whole] at written
    exact .ok after (.expression written)
  · rw [found, found']
    have closed : Expression.ClauseWritten names close (⟨.sign close, mark.value.2⟩ :: mark.rest)
        mark.rest none none := .nothing
    rw [← whole] at closed
    exact .ok after closed

/-- A condition in parentheses. -/
theorem readAlike_parseCondition (stop stop' : Position) (before behind : String)
    (input : List Token) :
    ReadAlike names stop (Expression.Written names) (parseCondition stop before behind)
      (parseCondition stop' before behind) input := by
  intro input' renamed
  rw [parseCondition, parseCondition]
  refine (together_expectSign renamed .leftParenthesis before).bind (.start renamed)
    fun left left' after opens => ?_
  refine (Expression.readAlike_parse stop stop' _ after.renamed).bind after
    fun condition condition' after written => ?_
  refine (together_expectSign after.renamed .rightParenthesis behind).bind after
    fun right right' after closes => ?_
  rw [closes] at written
  have written : Expression.Written names (⟨.sign .leftParenthesis, left.value.2⟩ :: left.rest)
      right.rest condition.value condition'.value := .parentheses written
  rw [← opens] at written
  exact .ok after written

/-- A declared name. -/
theorem readAlike_parseDeclaredName (stop stop' : Position) (input : List Token) :
    ReadAlike names stop
      (fun input rest value value' =>
        input = ⟨.name value.1, value.2⟩ :: rest ∧ names value.1 value'.1)
      (parseDeclaredName stop) (parseDeclaredName stop') input := by
  intro input' renamed
  rw [parseDeclaredName, parseDeclaredName]
  obtain ⟨absent, absent'⟩ | ⟨mark, mark', found, found', -⟩ := (Abreast.start renamed).sign? .star
  · rw [absent, absent']
    refine (together_expectName renamed).bind (.start renamed) fun name name' after written => ?_
    obtain ⟨absent, absent'⟩ | ⟨mark, mark', found, found', -⟩ := after.sign? .leftBracket
    · rw [absent, absent']
      exact .ok after written
    · rw [found, found']
      exact .error after.suffix
  · rw [found, found']
    exact .error List.suffix_rfl

/-- A declared name and its first value. -/
theorem readAlike_parseDeclarator (stop stop' : Position) (input : List Token) :
    ReadAlike names stop (Declarator.Written names) (parseDeclarator stop) (parseDeclarator stop')
      input := by
  intro input' renamed
  rw [parseDeclarator, parseDeclarator]
  refine (readAlike_parseDeclaredName stop stop' _ renamed).bind (.start renamed)
    fun name name' after named => ?_
  obtain ⟨absent, absent'⟩ | ⟨mark, mark', found, found', whole, later⟩ := after.sign? .equal
  · rw [absent, absent']
    have written : Declarator.Written names (⟨.name name.value.1, name.value.2⟩ :: name.rest)
        name.rest ⟨name.value.1, none, name.value.2⟩ ⟨name'.value.1, none, name'.value.2⟩ :=
      .bare named.2
    rw [← named.1] at written
    exact .ok after written
  · rw [found, found']
    refine (Expression.readAlike_parse stop stop' _ later.renamed).bind later
      fun value value' later written => ?_
    have written : Declarator.Written names
        (⟨.name name.value.1, name.value.2⟩ :: ⟨.sign .equal, mark.value.2⟩ :: mark.rest) value.rest
        ⟨name.value.1, some value.value, name.value.2⟩
        ⟨name'.value.1, some value'.value, name'.value.2⟩ := .valued named.2 written
    rw [← whole, ← named.1] at written
    exact .ok later written

/-- Declared names. -/
theorem readAlike_parseDeclarators (stop stop' : Position) (input : List Token) :
    ReadAlike names stop (Declarator.ListWritten names) (parseDeclarators stop)
      (parseDeclarators stop') input := by
  intro input' renamed
  rw [parseDeclarators, parseDeclarators]
  refine (readAlike_parseDeclarator stop stop' _ renamed).bind (.start renamed)
    fun first first' after written => ?_
  obtain ⟨absent, absent'⟩ | ⟨mark, mark', found, found', whole, after⟩ := after.sign? .comma
  · rw [absent, absent']
    refine (together_expectSign after.renamed .semicolon _).bind after
      fun close close' after whole => ?_
    rw [whole] at written
    exact .ok after (.last written)
  · rw [found, found']
    rw [whole] at written
    refine (readAlike_parseDeclarators stop stop' _ after.renamed).bind after
      fun others others' after more => ?_
    exact .ok after (.cons written more)
termination_by input.length
decreasing_by
  exact (first.within mark).shorter

/-- A declaration. -/
theorem readAlike_parseDeclaration (stop stop' : Position) (input : List Token) :
    ReadAlike names stop
      (fun input rest value value' =>
        value'.1 = value.1 ∧ Declarator.DeclarationWritten names input rest value.2 value'.2)
      (parseDeclaration stop) (parseDeclaration stop') input := by
  intro input' renamed
  rw [parseDeclaration, parseDeclaration]
  obtain ⟨same, words⟩ := TypeWords.abreast_read renamed
  dsimp only
  rw [same]
  cases (TypeWords.read input).1.declared? with
  | none => exact .error List.suffix_rfl
  | some type =>
      refine (readAlike_parseDeclarators stop stop' _ words.renamed).bind words
        fun declarators declarators' after written => ?_
      exact .ok after ⟨rfl, written.declaration⟩

/-- The first clause of a `for` loop. -/
theorem readAlike_parseForStart (stop stop' : Position) (input : List Token) :
    ReadAlike names stop (ForStart.Written names) (parseForStart stop)
      (parseForStart stop') input := by
  intro input' renamed
  rw [parseForStart, parseForStart]
  obtain ⟨absent, absent'⟩ | ⟨mark, mark', found, found', whole, after⟩ :=
    (Abreast.start renamed).sign? .semicolon
  case inr =>
    rw [found, found']
    have closed : ForStart.Written names (⟨.sign .semicolon, mark.value.2⟩ :: mark.rest) mark.rest
        .nothing .nothing := .nothing
    rw [← whole] at closed
    exact .ok after closed
  rw [absent, absent', (Abreast.start renamed).atDeclaration_eq]
  dsimp only
  split
  case isTrue =>
    refine (readAlike_parseDeclaration stop stop' _ renamed).bind (.start renamed)
      fun declaration declaration' after written => ?_
    refine .ok after ?_
    rw [Parsed.as_value, Parsed.as_value, written.1]
    exact .declaration written.2
  case isFalse =>
    refine (Expression.readAlike_parse stop stop' _ renamed).bind (.start renamed)
      fun value value' after written => ?_
    refine (together_expectSign after.renamed .semicolon _).bind after
      fun mark mark' after whole => ?_
    rw [whole] at written
    exact .ok after (.expression written)

/-! ## Statements -/

/-- The token that begins a statement. -/
def Opening.kind : Opening → TokenKind
  | giveBack => .keyword .returnWord
  | branch => .keyword .ifWord
  | whileLoop => .keyword .whileWord
  | doLoop => .keyword .doWord
  | forLoop => .keyword .forWord
  | leaveLoop => .keyword .breakWord
  | nextRound => .keyword .continueWord
  | block => .sign .leftBrace
  | nothing => .sign .semicolon

/-- A statement is begun by one token. -/
theorem eq_of_opening? {kind : TokenKind} {opening : Opening}
    (opens : opening? kind = some opening) :
    kind = opening.kind := by
  unfold opening? at opens
  split at opens <;> cases opens <;> rfl

mutual

/-- A statement. -/
theorem readAlike_parse (stop stop' : Position) (input : List Token) :
    ReadAlike names stop (Written names) (parse stop) (parse stop') input := by
  intro input' renamed
  rw [parse, parse]
  obtain ⟨absent, absent'⟩ | ⟨kind, mark, mark', found, found', same, opens, whole, after⟩ :=
    (Abreast.start renamed).next? opening? fun _ => rfl
  case inr =>
    rw [found, found']
    obtain rfl := eq_of_opening? opens
    have together := together_parseOpened stop stop' input mark mark' same after
    rw [← whole] at together
    exact together
  rw [absent, absent', (Abreast.start renamed).atDeclaration_eq]
  dsimp only
  split
  case isTrue =>
    refine (readAlike_parseDeclaration stop stop' _ renamed).bind (.start renamed)
      fun declaration declaration' after written => ?_
    refine .ok after ?_
    rw [Parsed.as_value, Parsed.as_value, written.1]
    exact .declaration written.2
  case isFalse =>
    refine (Expression.readAlike_parse stop stop' _ renamed).bind (.start renamed)
      fun value value' after written => ?_
    refine (together_expectSign after.renamed .semicolon _).bind after
      fun mark mark' after whole => ?_
    rw [whole] at written
    exact .ok after (.expression written)
termination_by 4 * input.length + 1
decreasing_by
  have shorter := mark.shorter
  omega

/-- A statement after its first token. -/
theorem together_parseOpened (stop stop' : Position) (input : List Token)
    (mark : Parsed (Opening × Position) input) :
    ∀ {input'} (mark' : Parsed (Opening × Position) input'), mark'.value.1 = mark.value.1 →
      Abreast names input mark.rest mark'.rest →
      Together names stop (Written names (⟨mark.value.1.kind, mark.value.2⟩ :: mark.rest))
        (parseOpened stop input mark) (parseOpened stop' input' mark') := by
  intro input' mark' same after
  rw [parseOpened, parseOpened, same]
  -- `after` says where both readers stand; each part that is read moves it on by a rule of `bind`
  cases mark.value.1 with
  | giveBack =>
      refine (readAlike_parseUntil stop stop' .semicolon _ _ after.renamed).bind after
        fun value value' after written => ?_
      exact .ok after (.giveBack written)
  | branch =>
      refine (readAlike_parseCondition stop stop' _ _ _ after.renamed).bind after
        fun condition condition' after chosen => ?_
      refine (readAlike_parseBranch stop stop' _ after.renamed).bind after
        fun whenTrue whenTrue' after first => ?_
      obtain ⟨absent, absent'⟩ | ⟨other, other', found, found', whole, after⟩ :=
        after.keyword? .elseWord
      · rw [absent, absent']
        exact .ok after (.branch chosen first)
      · rw [found, found']
        rw [whole] at first
        refine (readAlike_parseBranch stop stop' _ after.renamed).bind after
          fun whenFalse whenFalse' after second => ?_
        exact .ok after (.branches chosen first second)
  | whileLoop =>
      refine (readAlike_parseCondition stop stop' _ _ _ after.renamed).bind after
        fun condition condition' after chosen => ?_
      refine (readAlike_parseBranch stop stop' _ after.renamed).bind after
        fun body body' after written => ?_
      exact .ok after (.whileLoop chosen written)
  | doLoop =>
      refine (readAlike_parseBranch stop stop' _ after.renamed).bind after
        fun body body' after written => ?_
      obtain ⟨absent, absent'⟩ | ⟨word, word', found, found', whole, after⟩ :=
        after.keyword? .whileWord
      · rw [absent, absent']
        exact .error after.suffix
      · rw [found, found']
        rw [whole] at written
        refine (readAlike_parseCondition stop stop' _ _ _ after.renamed).bind after
          fun condition condition' after chosen => ?_
        refine (together_expectSign after.renamed .semicolon _).bind after
          fun close close' after whole => ?_
        rw [whole] at chosen
        exact .ok after (.doLoop written chosen)
  | forLoop =>
      refine (together_expectSign after.renamed .leftParenthesis _).bind after
        fun left left' after whole => ?_
      refine (readAlike_parseForStart stop stop' _ after.renamed).bind after
        fun start start' after first => ?_
      refine (readAlike_parseUntil stop stop' .semicolon _ _ after.renamed).bind after
        fun condition condition' after second => ?_
      refine (readAlike_parseUntil stop stop' .rightParenthesis _ _ after.renamed).bind after
        fun step step' after third => ?_
      refine (readAlike_parseBranch stop stop' _ after.renamed).bind after
        fun body body' after written => ?_
      have written : Written names
          (⟨.keyword .forWord, mark.value.2⟩ :: ⟨.sign .leftParenthesis, left.value.2⟩ :: left.rest)
          body.rest
          (.forLoop start.value condition.value step.value body.value mark.value.2)
          (.forLoop start'.value condition'.value step'.value body'.value mark'.value.2) :=
        .forLoop first second third written
      rw [← whole] at written
      exact .ok after written
  | leaveLoop =>
      refine (together_expectSign after.renamed .semicolon _).bind after
        fun close close' after whole => ?_
      have written : Written names
          (⟨.keyword .breakWord, mark.value.2⟩ :: ⟨.sign .semicolon, close.value.2⟩ :: close.rest)
          close.rest (.leaveLoop mark.value.2) (.leaveLoop mark'.value.2) := .leaveLoop
      rw [← whole] at written
      exact .ok after written
  | nextRound =>
      refine (together_expectSign after.renamed .semicolon _).bind after
        fun close close' after whole => ?_
      have written : Written names
          (⟨.keyword .continueWord, mark.value.2⟩ :: ⟨.sign .semicolon,
            close.value.2⟩ :: close.rest)
          close.rest (.nextRound mark.value.2) (.nextRound mark'.value.2) := .nextRound
      rw [← whole] at written
      exact .ok after written
  | block =>
      refine (readAlike_parseBlock stop stop' _ after.renamed).bind after
        fun body body' after written => ?_
      exact .ok after (.block written)
  | nothing => exact .ok after .nothing
termination_by 4 * mark.rest.length + 3
decreasing_by
  · have shorter := condition.shorter
    omega
  · have shorter : other.rest.length < mark.rest.length :=
      (condition.within (whenTrue.within other)).shorter
    omega
  · have shorter := condition.shorter
    omega
  · omega
  · have shorter : step.rest.length < mark.rest.length :=
      (left.within (start.within (condition.within step))).shorter
    omega
  · omega

/-- The statements of a block. -/
theorem readAlike_parseBlock (stop stop' : Position) (input : List Token) :
    ReadAlike names stop (BlockWritten names) (parseBlock stop) (parseBlock stop') input := by
  intro input' renamed
  rw [parseBlock.eq_def, parseBlock.eq_def]
  obtain ⟨absent, absent'⟩ | ⟨mark, mark', found, found', whole, after⟩ :=
    (Abreast.start renamed).sign? .rightBrace
  case inr =>
    rw [found, found']
    have closed : BlockWritten names (⟨.sign .rightBrace, mark.value.2⟩ :: mark.rest) mark.rest
        [] [] := .nil
    rw [← whole] at closed
    exact .ok after closed
  rw [absent, absent']
  have start := Abreast.start renamed
  cases renamed with
  | nil => exact .error List.suffix_rfl
  | cons alike renamed =>
      refine (readAlike_parse stop stop' _ start.renamed).bind start
        fun first first' after written => ?_
      refine (readAlike_parseBlock stop stop' _ after.renamed).bind after
        fun others others' after more => ?_
      exact .ok after (.cons written more)
termination_by 4 * input.length + 2
decreasing_by
  · omega
  · have shorter := first.shorter
    omega

/-- A branch or the body of a loop. -/
theorem readAlike_parseBranch (stop stop' : Position) (input : List Token) :
    ReadAlike names stop (BranchWritten names) (parseBranch stop) (parseBranch stop') input := by
  intro input' renamed
  rw [parseBranch, parseBranch]
  obtain ⟨absent, absent'⟩ | ⟨mark, mark', found, found', whole, after⟩ :=
    (Abreast.start renamed).sign? .leftBrace
  · rw [absent, absent']
    refine (readAlike_parse stop stop' _ renamed).bind (.start renamed)
      fun only only' after written => ?_
    exact .ok after (.single written)
  · rw [found, found']
    refine (readAlike_parseBlock stop stop' _ after.renamed).bind after
      fun body body' after written => ?_
    have written : BranchWritten names (⟨.sign .leftBrace, mark.value.2⟩ :: mark.rest) body.rest
        body.value body'.value := .braced written
    rw [← whole] at written
    exact .ok after written
termination_by 4 * input.length + 2
decreasing_by
  · omega
  · have shorter := mark.shorter
    omega

end

/-- The statements of a whole body, and those of another text that differs from it in names and
places only. -/
theorem exists_parseBody_of_renamed {stop : Position} (stop' : Position)
    {input input' : List Token} {statements : List Statement}
    (renamed : Tokens.Renamed names input input')
    (accepted : parseBody stop input = .ok statements) :
    ∃ statements', parseBody stop' input' = .ok statements' ∧
      BodyWritten names input statements statements' := by
  cases whole : input with
  | nil =>
      subst whole
      cases renamed
      rw [parseBody] at accepted
      cases accepted
      exact ⟨[], by rw [parseBody], .nil⟩
  | cons token others =>
      rw [whole] at renamed accepted
      obtain _ | @⟨_, token', _, others', alike, renamed⟩ := renamed
      -- names alone are renamed, so that a stray brace refuses both texts or neither
      have closes : token'.kind = .sign .rightBrace ↔ token.kind = .sign .rightBrace := by
        obtain ⟨kind, here⟩ := token
        obtain ⟨kind', there⟩ := token'
        cases alike <;> simp
      rw [parseBody] at accepted ⊢
      split at accepted
      case isTrue => cases accepted
      case isFalse isOpen =>
        obtain ⟨first, firstRead, accepted⟩ := bind_eq_ok.mp accepted
        obtain ⟨later, laterRead, done⟩ := bind_eq_ok.mp accepted
        cases pure_eq_ok.mp done
        obtain ⟨first', firstRead', after, written⟩ :=
          (readAlike_parse stop stop' _ (.cons alike renamed)).holds firstRead
        obtain ⟨later', laterRead', more⟩ :=
          exists_parseBody_of_renamed stop' after.renamed laterRead
        rw [if_neg (mt closes.mp isOpen)]
        refine ⟨first'.value :: later', ?_, .cons written more⟩
        exact bind_eq_ok.mpr ⟨first', firstRead', bind_eq_ok.mpr ⟨later', laterRead', rfl⟩⟩
termination_by input.length
decreasing_by
  rw [whole]
  exact first.shorter

/-- **What is read is written.** The statements of a body are those that all its tokens write. -/
theorem written_of_parseBody {statements : List Statement}
    (accepted : parseBody stop input = .ok statements) :
    BodyWritten Eq input statements statements := by
  obtain ⟨statements', same, written⟩ :=
    exists_parseBody_of_renamed stop (Tokens.renamed_eq input) accepted
  rw [accepted] at same
  cases same
  exact written

end Statement

end LineRobot
