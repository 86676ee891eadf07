import LineRobot.Proofs.Syntax.Reading

/-! # Reading gets on and stays inside its tokens

A cursor stands at a place of a list of tokens, and so is what is left of the list from there; the
empty list is the end. Whatever is read takes at least one token and leaves the cursor inside the
list or at its end (`Phrase.stays_takes`).

What is read piece by piece is read in a loop. A `Loop` has a state, in which its cursor is, and a
round. Its rounds advance if each one that is followed by another takes a token (`Loop.Advances`),
and such a loop comes to its end in at most one round more than there are tokens (`Loop.Runs.le`).
The recursions of the parsers come to what their loops come to (`Loop.Reads`), the one over a whole
body with the cursor at the end. -/

namespace LineRobot

open Tokens

/-! ## Phrases -/

/-- What can be read from the front of a list of tokens. -/
inductive Phrase where
  /-- A sign. -/
  | sign (mark : Sign) (context : String)
  /-- A name. -/
  | name
  /-- A literal, a name or an expression in parentheses. -/
  | primary
  /-- The arguments of a call and the closing parenthesis. -/
  | arguments
  /-- An operand with the operators before and after it. -/
  | unary
  /-- Operands joined by operators of at least a level. -/
  | operations (level : Nat)
  /-- A conditional, or its condition alone. -/
  | conditional
  /-- An expression. -/
  | expression
  /-- A clause that may be left out, and the sign that closes it. -/
  | clause (close : Sign) (context : String)
  /-- A condition in parentheses. -/
  | condition (before after : String)
  /-- A declared name. -/
  | declaredName
  /-- A declared name and its first value. -/
  | declarator
  /-- Declared names and a semicolon. -/
  | declarators
  /-- A declaration. -/
  | declaration
  /-- The first clause of a `for` loop. -/
  | forStart
  /-- A statement. -/
  | statement
  /-- The statements of a block and its closing brace. -/
  | block
  /-- A branch or the body of a loop. -/
  | branch
deriving DecidableEq, Repr

/-- Where the cursor stands after a phrase has been read. -/
def Phrase.read (stop : Position) (phrase : Phrase) (input : List Token) :
    Except ParseError (List Token) :=
  match phrase with
  | .sign mark context => (expectSign stop mark context input).map Parsed.rest
  | .name => (expectName stop input).map Parsed.rest
  | .primary => (Expression.parsePrimary stop input).map Parsed.rest
  | .arguments => (Expression.parseArguments stop input).map Parsed.rest
  | .unary => (Expression.parseUnary stop input).map Parsed.rest
  | .operations level => (Expression.parseOperations stop level input).map Parsed.rest
  | .conditional => (Expression.parseConditional stop input).map Parsed.rest
  | .expression => (Expression.parse stop input).map Parsed.rest
  | .clause close context => (Statement.parseUntil stop close context input).map Parsed.rest
  | .condition before after => (Statement.parseCondition stop before after input).map Parsed.rest
  | .declaredName => (Statement.parseDeclaredName stop input).map Parsed.rest
  | .declarator => (Statement.parseDeclarator stop input).map Parsed.rest
  | .declarators => (Statement.parseDeclarators stop input).map Parsed.rest
  | .declaration => (Statement.parseDeclaration stop input).map Parsed.rest
  | .forStart => (Statement.parseForStart stop input).map Parsed.rest
  | .statement => (Statement.parse stop input).map Parsed.rest
  | .block => (Statement.parseBlock stop input).map Parsed.rest
  | .branch => (Statement.parseBranch stop input).map Parsed.rest

/-- A cursor stays inside its tokens: it ends at one of those in front of it or at the end, or there
is a failure at one of them or at the end. -/
inductive Stays (stop : Position) (input : List Token) : Except ParseError (List Token) → Prop
  /-- The cursor has moved on, or stands where it was. -/
  | ok {rest : List Token} (suffix : rest <:+ input) : Stays stop input (.ok rest)
  /-- There is a failure. -/
  | error {cause : ParseCause} {rest : List Token} (suffix : rest <:+ input) :
      Stays stop input (.error ⟨cause, place stop rest⟩)

/-- Whatever is read takes at least one token. -/
def Takes (input : List Token) (outcome : Except ParseError (List Token)) : Prop :=
  ∀ rest, outcome = .ok rest → rest.length < input.length

variable {α : Type} {stop : Position} {input rest : List Token}

/-- A reading that goes together with another one takes tokens and stays inside them. -/
theorem Together.stays_takes {names : String → String → Prop} {written : List Token → α → α → Prop}
    {input' : List Token} {outcome : Parse α input} {outcome' : Parse α input'}
    (together : Together names stop written outcome outcome') :
    Stays stop input (outcome.map Parsed.rest) ∧ Takes input (outcome.map Parsed.rest) := by
  cases together with
  | @ok parsed _ abreast _ =>
      refine ⟨.ok abreast.suffix, ?_⟩
      rintro rest ⟨⟩
      exact parsed.shorter
  | error suffix =>
      refine ⟨.error suffix, ?_⟩
      rintro rest ⟨⟩

/-- Every phrase is read inside the tokens, and takes some of them. -/
theorem Phrase.stays_takes (stop : Position) (phrase : Phrase) (input : List Token) :
    Stays stop input (phrase.read stop input) ∧ Takes input (phrase.read stop input) := by
  have same := renamed_eq input
  cases phrase with
  | sign mark context => exact (@together_expectSign _ stop stop _ _ same mark context).stays_takes
  | name => exact (@together_expectName _ stop stop _ _ same).stays_takes
  | primary => exact (Expression.readAlike_parsePrimary stop stop input same).stays_takes
  | arguments => exact (Expression.readAlike_parseArguments stop stop input same).stays_takes
  | unary => exact (Expression.readAlike_parseUnary stop stop input same).stays_takes
  | operations level =>
      exact (Expression.readAlike_parseOperations stop stop level input same).stays_takes
  | conditional => exact (Expression.readAlike_parseConditional stop stop input same).stays_takes
  | expression => exact (Expression.readAlike_parse stop stop input same).stays_takes
  | clause close context =>
      exact (Statement.readAlike_parseUntil stop stop close context input same).stays_takes
  | condition before after =>
      exact (Statement.readAlike_parseCondition stop stop before after input same).stays_takes
  | declaredName => exact (Statement.readAlike_parseDeclaredName stop stop input same).stays_takes
  | declarator => exact (Statement.readAlike_parseDeclarator stop stop input same).stays_takes
  | declarators => exact (Statement.readAlike_parseDeclarators stop stop input same).stays_takes
  | declaration => exact (Statement.readAlike_parseDeclaration stop stop input same).stays_takes
  | forStart => exact (Statement.readAlike_parseForStart stop stop input same).stays_takes
  | statement => exact (Statement.readAlike_parse stop stop input same).stays_takes
  | block => exact (Statement.readAlike_parseBlock stop stop input same).stays_takes
  | branch => exact (Statement.readAlike_parseBranch stop stop input same).stays_takes

/-! ## Loops -/

/-- What a round of a loop comes to. -/
inductive Round (State : Type) where
  /-- There is another round. -/
  | again (state : State)
  /-- The loop is over, with the cursor at a place. -/
  | done (rest : List Token)

/-- A loop of reading. -/
structure Loop where
  /-- What a round begins with. -/
  State : Type
  /-- Where the cursor stands. -/
  cursor : State → List Token
  /-- One round. -/
  round : State → Except ParseError (Round State)

namespace Loop

/-- The statements of a whole body, up to its end. -/
def body (stop : Position) : Loop where
  State := List Token
  cursor := id
  round
    | [] => .ok (.done [])
    | token :: others =>
      if token.kind = .sign .rightBrace then .error ⟨.unexpectedBrace, token.position⟩
      else do
        let rest ← Phrase.statement.read stop (token :: others)
        return .again rest

/-- The statements of a block, up to its closing brace. -/
def block (stop : Position) : Loop where
  State := List Token
  cursor := id
  round input :=
    match sign? .rightBrace input with
    | some close => .ok (.done close.rest)
    | none =>
      match input with
      | [] => .error (expected stop (.sign .rightBrace "after block") [])
      | token :: others => do
        let rest ← Phrase.statement.read stop (token :: others)
        return .again rest

/-- Operators of at least a level with their right operands. -/
def operations (stop : Position) (level : Nat) : Loop where
  State := List Token
  cursor := id
  round input :=
    match operator? level input with
    | none => .ok (.done input)
    | some mark => do
      let rest ← (Phrase.operations (mark.value.1.1 + 1)).read stop mark.rest
      return .again rest

/-- Indices, calls and changes behind an operand, of which the state says whether it is a name; just
a name can be called. -/
def trailing (stop : Position) : Loop where
  State := Bool × List Token
  cursor := Prod.snd
  round state :=
    match signThat? Sign.trailing? state.2 with
    | none => .ok (.done state.2)
    | some mark =>
      match mark.value.1 with
      | .change _ => .ok (.again (false, mark.rest))
      | .index => do
        let behind ← Phrase.expression.read stop mark.rest
        let rest ← (Phrase.sign .rightBracket "after array index").read stop behind
        return .again (false, rest)
      | .call => do
        let rest ← Phrase.arguments.read stop mark.rest
        if state.1 then return .again (false, rest) else throw ⟨.callOfExpression, mark.value.2⟩

/-- Items of one kind with commas between them, up to the sign that closes them. -/
def separated (stop : Position) (item : Phrase) (close : Sign) (context : String) : Loop where
  State := List Token
  cursor := id
  round input := do
    let behind ← item.read stop input
    match sign? .comma behind with
    | some comma => return .again comma.rest
    | none =>
      let rest ← (Phrase.sign close context).read stop behind
      return .done rest

/-- The type words of a declaration. -/
def typeWords : Loop where
  State := List Token
  cursor := id
  round
    | [] => .ok (.done [])
    | token :: others =>
      match token.kind with
      | .keyword word =>
          if isTypeWord word then .ok (.again others) else .ok (.done (token :: others))
      | _ => .ok (.done (token :: others))

/-- One round moves the cursor inside its tokens, and takes one if there is another round. -/
inductive Moves (stop : Position) (loop : Loop) (state : loop.State) :
    Except ParseError (Round loop.State) → Prop
  /-- There is another round. -/
  | again {next : loop.State} (suffix : loop.cursor next <:+ loop.cursor state)
      (fewer : (loop.cursor next).length < (loop.cursor state).length) :
      Moves stop loop state (.ok (.again next))
  /-- The loop is over. -/
  | done {rest : List Token} (suffix : rest <:+ loop.cursor state) :
      Moves stop loop state (.ok (.done rest))
  /-- There is a failure. -/
  | error {cause : ParseCause} {rest : List Token} (suffix : rest <:+ loop.cursor state) :
      Moves stop loop state (.error ⟨cause, place stop rest⟩)

/-- Every round moves the cursor inside its tokens, and takes one if there is another round. -/
def Advances (stop : Position) (loop : Loop) : Prop :=
  ∀ state, Moves stop loop state (loop.round state)

/-- What a round comes to leads to an outcome in a number of further rounds. -/
inductive Runs (loop : Loop) :
    Nat → Except ParseError (Round loop.State) → Except ParseError (List Token) → Prop
  /-- The loop is over. -/
  | done {rest : List Token} : Runs loop 0 (.ok (.done rest)) (.ok rest)
  /-- The round fails. -/
  | error {error : ParseError} : Runs loop 0 (.error error) (.error error)
  /-- There is another round. -/
  | again {further : Nat} {next : loop.State} {outcome : Except ParseError (List Token)}
      (later : Runs loop further (loop.round next) outcome) :
      Runs loop (further + 1) (.ok (.again next)) outcome

/-- What a round comes to leads to an outcome. -/
def Leads (loop : Loop) (result : Except ParseError (Round loop.State))
    (outcome : Except ParseError (List Token)) : Prop :=
  ∃ further, loop.Runs further result outcome

variable {loop : Loop} {state : loop.State} {result : Except ParseError (Round loop.State)}
  {further : Nat}
  {outcome : Except ParseError (List Token)}

/-- If the rounds advance, there is at most one further round for each token. -/
theorem Runs.le (runs : loop.Runs further result outcome) (advances : loop.Advances stop)
    (moves : Moves stop loop state result) : further ≤ (loop.cursor state).length := by
  induction runs generalizing state with
  | done => exact Nat.zero_le _
  | error => exact Nat.zero_le _
  | @again further next outcome later ih =>
      cases moves with
      | again suffix fewer => exact Nat.lt_of_le_of_lt (ih (advances next)) fewer

/-- If the rounds advance, the cursor stays inside its tokens. -/
theorem Runs.stays (runs : loop.Runs further result outcome) (advances : loop.Advances stop)
    (moves : Moves stop loop state result) : Stays stop (loop.cursor state) outcome := by
  induction runs generalizing state with
  | done =>
      cases moves with
      | done suffix => exact .ok suffix
  | error =>
      cases moves with
      | error suffix => exact .error suffix
  | @again further next outcome later ih =>
      cases moves with
      | again suffix fewer =>
          cases ih (advances next) with
          | ok inner => exact .ok (inner.trans suffix)
          | error inner => exact .error (inner.trans suffix)

/-- A loop reads: from a state it comes to an outcome inside its tokens, and as every round that is
followed by another takes a token, the first round is followed by at most as many as there are
tokens. -/
structure Reads (stop : Position) (loop : Loop) (state : loop.State)
    (outcome : Except ParseError (List Token)) : Prop where
  /-- Every round that is followed by another takes a token. -/
  advances : loop.Advances stop
  /-- The loop ends with the outcome. -/
  runs : ∃ further, further ≤ (loop.cursor state).length ∧
    loop.Runs further (loop.round state) outcome
  /-- The outcome is inside the tokens. -/
  stays : Stays stop (loop.cursor state) outcome

/-- A loop whose rounds advance reads what it comes to. -/
theorem Advances.reads (advances : loop.Advances stop)
    (leads : loop.Leads (loop.round state) outcome) :
    loop.Reads stop state outcome := by
  obtain ⟨further, runs⟩ := leads
  have moves := advances state
  exact ⟨advances, ⟨further, runs.le advances moves, runs⟩, runs.stays advances moves⟩

/-! ## Rounds advance -/

/-- A round that begins with a phrase advances if it does so behind the phrase. -/
theorem Moves.bind {middle : List Token} {next : List Token → Except ParseError (Round loop.State)}
    (phrase : Phrase) (suffix : middle <:+ loop.cursor state)
    (continues : ∀ rest, rest <:+ loop.cursor state → rest.length < (loop.cursor state).length →
      Moves stop loop state (next rest)) :
    Moves stop loop state (phrase.read stop middle >>= next) := by
  obtain ⟨stays, takes⟩ := phrase.stays_takes stop middle
  cases read : phrase.read stop middle with
  | ok rest =>
      rw [read] at stays takes
      cases stays with
      | ok later =>
          exact continues rest (later.trans suffix)
            (Nat.lt_of_lt_of_le (takes rest rfl) suffix.length_le)
  | error error =>
      rw [read] at stays
      cases stays with
      | error later => exact .error (later.trans suffix)

/-- The rounds of a whole body advance. -/
theorem advances_body (stop : Position) : (body stop).Advances stop := by
  intro input
  cases input with
  | nil => exact .done List.suffix_rfl
  | cons token others =>
      dsimp only [body]
      split
      case isTrue => exact .error List.suffix_rfl
      case isFalse =>
        exact .bind .statement List.suffix_rfl fun rest suffix fewer => .again suffix fewer

/-- The rounds of a block advance. -/
theorem advances_block (stop : Position) : (block stop).Advances stop := by
  intro input
  dsimp only [block]
  split
  case h_1 close found => exact .done (suffix_of_next? found)
  case h_2 =>
    split
    case h_1 => exact .error List.suffix_rfl
    case h_2 => exact .bind .statement List.suffix_rfl fun rest suffix fewer => .again suffix fewer

/-- The rounds over operators advance. -/
theorem advances_operations (stop : Position) (level : Nat) :
    (operations stop level).Advances stop := by
  intro input
  dsimp only [operations]
  split
  case h_1 => exact .done List.suffix_rfl
  case h_2 mark found =>
    have behind := suffix_of_signThat? found
    exact .bind (.operations _) behind fun rest suffix fewer => .again suffix fewer

/-- The rounds behind an operand advance. -/
theorem advances_trailing (stop : Position) : (trailing stop).Advances stop := by
  rintro ⟨isName, input⟩
  dsimp only [trailing]
  split
  case h_1 => exact .done List.suffix_rfl
  case h_2 mark found =>
    have behind := suffix_of_signThat? found
    split
    case h_1 => exact .again behind mark.shorter
    case h_2 =>
      refine .bind .expression behind fun middle suffix _ => ?_
      exact .bind (.sign _ _) suffix fun rest suffix fewer => .again suffix fewer
    case h_3 =>
      refine .bind .arguments behind fun rest suffix fewer => ?_
      split
      case isTrue => exact .again suffix fewer
      case isFalse =>
        rw [place_of_next? stop found]
        exact .error List.suffix_rfl

/-- The rounds over items with commas between them advance. -/
theorem advances_separated (stop : Position) (item : Phrase) (close : Sign) (context : String) :
    (separated stop item close context).Advances stop := by
  intro input
  refine .bind item List.suffix_rfl fun middle suffix fewer => ?_
  split
  case h_1 comma found =>
    have behind := suffix_of_next? found
    exact .again (behind.trans suffix) (Nat.lt_trans comma.shorter fewer)
  case h_2 => exact .bind (.sign close context) suffix fun rest suffix _ => .done suffix

/-- The rounds over type words advance. -/
theorem advances_typeWords (stop : Position) : typeWords.Advances stop := by
  intro input
  cases input with
  | nil => exact .done List.suffix_rfl
  | cons token others =>
      dsimp only [typeWords]
      split
      case h_1 word isWord =>
        split
        case isTrue => exact .again (List.suffix_cons token others) (Nat.lt_succ_self _)
        case isFalse => exact .done List.suffix_rfl
      case h_2 => exact .done List.suffix_rfl

/-! ## Loops come to what is read -/

namespace Leads

/-- The loop is over. -/
theorem done {rest : List Token} : loop.Leads (.ok (.done rest)) (.ok rest) :=
  ⟨0, .done⟩

/-- The round fails. -/
theorem error {error : ParseError} : loop.Leads (.error error) (.error error) :=
  ⟨0, .error⟩

/-- There is another round. -/
theorem again {next : loop.State} (later : loop.Leads (loop.round next) outcome) :
    loop.Leads (.ok (.again next)) outcome := by
  obtain ⟨further, runs⟩ := later
  exact ⟨further + 1, .again runs⟩

/-- A round and a reading that begin with the same phrase lead to the same if they do so behind
it. -/
theorem bind {β : Type} {middle : List Token} {first : Parse α middle} {place : β → List Token}
    {next : List Token → Except ParseError (Round loop.State)}
    {continues : Parsed α middle → Except ParseError β}
    (later : ∀ parsed, loop.Leads (next parsed.rest) ((continues parsed).map place)) :
    loop.Leads (first.map Parsed.rest >>= next) ((first >>= continues).map place) := by
  cases first with
  | error error => exact .error
  | ok parsed => exact later parsed

/-- What is only put together after a reading leads to the same as the reading. -/
theorem pure {β γ : Type} {first : Except ParseError β} {next : β → γ} {place : γ → List Token}
    (leads : loop.Leads result (first.map fun value => place (next value))) :
    loop.Leads result ((first >>= fun value => Pure.pure (next value)).map place) := by
  cases first with
  | error error => exact leads
  | ok value => exact leads

end Leads

/-- The statements of a whole body are read in a loop. -/
theorem leads_body (stop : Position) (input : List Token) :
    (body stop).Leads ((body stop).round input) ((Statement.parseBody stop input).map fun _ =>
      []) := by
  rw [Statement.parseBody.eq_def]
  cases input with
  | nil => exact .done
  | cons token others =>
      dsimp only [body]
      split
      case isTrue => exact .error
      case isFalse =>
        refine .bind fun first => ?_
        exact .pure (leads_body stop first.rest).again
termination_by input.length
decreasing_by
  grind

/-- The statements of a block are read in a loop. -/
theorem leads_block (stop : Position) (input : List Token) :
    (block stop).Leads ((block stop).round input) (Phrase.block.read stop input) := by
  rw [Phrase.read, Statement.parseBlock.eq_def]
  dsimp only [block]
  cases found : sign? .rightBrace input with
  | some close => exact .done
  | none =>
      cases input with
      | nil => exact .error
      | cons token others =>
          refine .bind fun first => ?_
          exact .pure (leads_block stop first.rest).again
termination_by input.length
decreasing_by
  grind

/-- Operators behind an operand are read in a loop. -/
theorem leads_operations (stop : Position) (level : Nat) (input : List Token)
    (left : Parsed (Expression String) input) :
    (operations stop level).Leads ((operations stop level).round left.rest)
      ((Expression.parseOperationsAfter stop level input left).map Parsed.rest) := by
  rw [Expression.parseOperationsAfter]
  dsimp only [operations]
  cases found : operator? level left.rest with
  | none => exact .done
  | some mark =>
      refine .bind fun right => ?_
      have later := leads_operations stop level input
        ((left.within (mark.within right)).as
          (mark.value.1.2.join left.value right.value mark.value.2))
      exact later.again
termination_by left.rest.length
decreasing_by
  grind

/-- Indices, calls and changes behind an operand are read in a loop. -/
theorem leads_trailing (stop : Position) (input : List Token)
    (operand : Parsed (Expression String) input) :
    (trailing stop).Leads ((trailing stop).round (operand.value.isName, operand.rest))
      ((Expression.parseTrailing stop input operand).map Parsed.rest) := by
  rw [Expression.parseTrailing]
  dsimp only [trailing]
  cases found : signThat? Sign.trailing? operand.rest with
  | none => exact .done
  | some mark =>
      dsimp only
      cases mark.value.1 with
      | change direction =>
          have later := leads_trailing stop input
            ((operand.within mark).as (.change direction .before operand.value mark.value.2))
          exact later.again
      | index =>
          refine .bind fun index => ?_
          refine .bind fun close => ?_
          have later := leads_trailing stop input
            ((operand.within (mark.within (index.within close))).as
              (.index operand.value index.value mark.value.2))
          exact later.again
      | call =>
          refine .bind fun arguments => ?_
          -- just a name can be called; all other operands end the loop with the same failure
          cases operand.value with
          | name callee position =>
              have later := leads_trailing stop input
                ((operand.within (mark.within arguments)).as
                  (.call callee arguments.value position))
              exact later.again
          | _ => exact .error
termination_by operand.rest.length
decreasing_by
  all_goals grind

/-- Arguments are read in a loop. -/
theorem leads_arguments (stop : Position) (input : List Token) :
    let loop := separated stop .expression .rightParenthesis "after function arguments"
    loop.Leads (loop.round input) ((Expression.parseArgumentList stop input).map Parsed.rest) := by
  intro loop
  rw [Expression.parseArgumentList]
  refine .bind fun first => ?_
  cases found : sign? .comma first.rest with
  | some comma => exact .pure (leads_arguments stop comma.rest).again
  | none => exact .bind fun close => .done
termination_by input.length
decreasing_by
  grind

/-- Declared names are read in a loop. -/
theorem leads_declarators (stop : Position) (input : List Token) :
    let loop := separated stop .declarator .semicolon "after declaration"
    loop.Leads (loop.round input) (Phrase.declarators.read stop input) := by
  intro loop
  rw [Phrase.read, Statement.parseDeclarators]
  refine .bind fun first => ?_
  cases found : sign? .comma first.rest with
  | some comma => exact .pure (leads_declarators stop comma.rest).again
  | none => exact .bind fun close => .done
termination_by input.length
decreasing_by
  grind

/-- Type words are read in a loop. -/
theorem leads_typeWords (input : List Token) :
    typeWords.Leads (typeWords.round input) (.ok (TypeWords.read input).2) := by
  induction input with
  | nil => exact .done
  | cons token others ih =>
      obtain ⟨kind, position⟩ := token
      rw [TypeWords.read]
      dsimp only [typeWords]
      cases kind with
      | keyword word =>
          dsimp only
          by_cases isWord : isTypeWord word = true
          · rw [if_pos isWord, if_pos isWord]
            exact ih.again
          · rw [if_neg isWord, if_neg isWord]
            exact .done
      | _ => exact .done

end Loop

/-! ## The parser -/

/-- Reading gets on and stays inside its tokens. -/
structure ReadsInside (stop : Position) : Prop where
  /-- Whatever is read, the cursor stays inside the tokens. -/
  stays : ∀ (phrase : Phrase) input, Stays stop input (phrase.read stop input)
  /-- Whatever is read takes at least one token. -/
  takes : ∀ (phrase : Phrase) input, Takes input (phrase.read stop input)
  /-- The statements of a whole body are read in a loop, which ends at the end if nothing fails. -/
  body : ∀ input,
    (Loop.body stop).Reads stop input ((Statement.parseBody stop input).map fun _ => [])
  /-- The statements of a block are read in a loop. -/
  block : ∀ input, (Loop.block stop).Reads stop input (Phrase.block.read stop input)
  /-- Operators behind an operand are read in a loop. -/
  operations : ∀ level input (left : Parsed (Expression String) input),
    (Loop.operations stop level).Reads stop left.rest
      ((Expression.parseOperationsAfter stop level input left).map Parsed.rest)
  /-- What follows an operand is read in a loop. -/
  trailing : ∀ input (operand : Parsed (Expression String) input),
    (Loop.trailing stop).Reads stop (operand.value.isName, operand.rest)
      ((Expression.parseTrailing stop input operand).map Parsed.rest)
  /-- Arguments are read in a loop. -/
  arguments : ∀ input,
    (Loop.separated stop .expression .rightParenthesis "after function arguments").Reads stop input
      ((Expression.parseArgumentList stop input).map Parsed.rest)
  /-- Declared names are read in a loop. -/
  declarators : ∀ input,
    (Loop.separated stop .declarator .semicolon "after declaration").Reads stop input
      (Phrase.declarators.read stop input)
  /-- Type words are read in a loop. -/
  typeWords : ∀ input, Loop.typeWords.Reads stop input (.ok (TypeWords.read input).2)

/-- **Reading ends inside its tokens.** Whatever the tokens are and wherever their text ends,
everything that is read takes a token and stays inside the tokens, and every loop takes a token in
each round and comes to an end; the loop over a whole body ends at the end of the tokens. -/
theorem readsInside (stop : Position) : ReadsInside stop where
  stays phrase input := (phrase.stays_takes stop input).1
  takes phrase input := (phrase.stays_takes stop input).2
  body input := (Loop.advances_body stop).reads (Loop.leads_body stop input)
  block input := (Loop.advances_block stop).reads (Loop.leads_block stop input)
  operations level input left :=
    (Loop.advances_operations stop level).reads (Loop.leads_operations stop level input left)
  trailing input operand :=
  (Loop.advances_trailing stop).reads (Loop.leads_trailing stop input operand)
  arguments input := (Loop.advances_separated stop _ _ _).reads (Loop.leads_arguments stop input)
  declarators input :=
  (Loop.advances_separated stop _ _ _).reads (Loop.leads_declarators stop input)
  typeWords input := (Loop.advances_typeWords stop).reads (Loop.leads_typeWords input)

end LineRobot
