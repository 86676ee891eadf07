import LineRobot.Expression.Parser
import LineRobot.Statement.Basic

/-! # Reading statements

`Statement.parseBody` reads the tokens of a whole function body, and `Statement.ofText` its text. A
branch or loop body in braces is read as the statements inside them; a block anywhere else stays a
block. -/

namespace LineRobot

/-- What comes next on the way through a declaration: a qualifier or a base type. -/
structure TypeWords where
  /-- The first base type named so far. -/
  base : Option BaseType
  /-- Whether `unsigned` has been read. -/
  unsigned : Bool
  /-- Whether `const` has been read. -/
  constant : Bool
deriving DecidableEq, Repr

namespace TypeWords

/-- The words with one more before them. -/
def add (words : TypeWords) : Keyword → TypeWords
  | .base type => { words with base := some type }
  | .unsigned => { words with unsigned := true }
  | .const => { words with constant := true }
  | _ => words

/-- The type that the words declare; `unsigned` alone is an unsigned integer. -/
def declared? (words : TypeWords) : Option DeclaredType :=
  match words.base with
  | some base => some ⟨base, words.unsigned, words.constant⟩
  | none => if words.unsigned then some ⟨.int, true, words.constant⟩ else none

/-- The type words at the front of the tokens, and what is left. -/
def read : List Token → TypeWords × List Token
  | [] => (⟨none, false, false⟩, [])
  | token :: rest =>
    match token.kind with
    | .keyword word =>
      if Tokens.isTypeWord word then ((read rest).1.add word, (read rest).2)
      else (⟨none, false, false⟩, token :: rest)
    | _ => (⟨none, false, false⟩, token :: rest)

/-- Reading type words adds no token. -/
theorem length_read (input : List Token) : (read input).2.length ≤ input.length := by
  induction input with
  | nil => exact Nat.le_refl _
  | cons token rest ih =>
    unfold read
    split
    · split
      · exact Nat.le_succ_of_le ih
      · exact Nat.le_refl _
    · exact Nat.le_refl _

end TypeWords

namespace Statement

open Tokens

/-- The rest of an expression clause: nothing if the closing sign comes at once, otherwise an
expression and the closing sign. -/
def parseUntil (stop : Position) (close : Sign) (context : String) (input : List Token) :
    Parse (Option (Expression String)) input :=
  match sign? close input with
  | some mark => .ok (mark.as none)
  | none => do
    let value ← Expression.parse stop input
    let mark ← expectSign stop close context value.rest
    return (value.within mark).as (some value.value)

/-- A condition in parentheses. -/
def parseCondition (stop : Position) (before after : String) (input : List Token) :
    Parse (Expression String) input := do
  let left ← expectSign stop .leftParenthesis before input
  let condition ← Expression.parse stop left.rest
  let right ← expectSign stop .rightParenthesis after condition.rest
  return (left.within (condition.within right)).as condition.value

/-- The name of a declarator; pointers and arrays are refused. -/
def parseDeclaredName (stop : Position) (input : List Token) : Parse (String × Position) input := do
  if (sign? .star input).isSome then
    throw ⟨.pointer, place stop input⟩
  let name ← expectName stop input
  if (sign? .leftBracket name.rest).isSome then
    throw ⟨.array name.value.1, place stop name.rest⟩
  return name

/-- A declared name and, after an equality sign, its first value. -/
def parseDeclarator (stop : Position) (input : List Token) : Parse Declarator input := do
  let name ← parseDeclaredName stop input
  match sign? .equal name.rest with
  | some mark =>
    let value ← Expression.parse stop mark.rest
    return (name.within (mark.within value)).as ⟨name.value.1, some value.value, name.value.2⟩
  | none => return name.as ⟨name.value.1, none, name.value.2⟩

/-- One or more declarators and the semicolon after them. -/
def parseDeclarators (stop : Position) (input : List Token) : Parse (List Declarator) input := do
  let first ← parseDeclarator stop input
  match sign? .comma first.rest with
  | some comma =>
    let others ← parseDeclarators stop comma.rest
    return (first.within (comma.within others)).as (first.value :: others.value)
  | none =>
    let mark ← expectSign stop .semicolon "after declaration" first.rest
    return (first.within mark).as [first.value]
termination_by input.length
decreasing_by
  grind

/-- A declaration: type words, declarators and a semicolon. -/
def parseDeclaration (stop : Position) (input : List Token) :
    Parse (DeclaredType × List Declarator) input :=
  let words := TypeWords.read input
  match words.1.declared? with
  | none => .error ⟨.missingType (peek? words.2), place stop input⟩
  | some type => do
    let declarators ← parseDeclarators stop words.2
    return ⟨(type, declarators.value), declarators.rest,
      Nat.lt_of_lt_of_le declarators.shorter (TypeWords.length_read input)⟩

/-- The first clause of a `for` loop and the semicolon after it. -/
def parseForStart (stop : Position) (input : List Token) : Parse ForStart input :=
  match sign? .semicolon input with
  | some mark => .ok (mark.as .nothing)
  | none =>
    if atDeclaration input then do
      let declaration ← parseDeclaration stop input
      return declaration.as
        (.declaration declaration.value.1 declaration.value.2 (place stop input))
    else do
      let value ← Expression.parse stop input
      let mark ← expectSign stop .semicolon "after for init" value.rest
      return (value.within mark).as (.expression value.value (place stop input))

/-- What a keyword or sign that begins a statement says about the statement. -/
inductive Opening where
  /-- A `return`. -/
  | giveBack
  /-- A condition. -/
  | branch
  /-- A loop that checks its condition first. -/
  | whileLoop
  /-- A loop that runs its body first. -/
  | doLoop
  /-- A loop with a first clause, a condition and a step. -/
  | forLoop
  /-- A `break`. -/
  | leaveLoop
  /-- A `continue`. -/
  | nextRound
  /-- A block. -/
  | block
  /-- The empty statement. -/
  | nothing
deriving DecidableEq, Repr

/-- The statement that a token begins, if it is not an expression or a declaration. -/
def opening? : TokenKind → Option Opening
  | .keyword .returnWord => some .giveBack
  | .keyword .ifWord => some .branch
  | .keyword .whileWord => some .whileLoop
  | .keyword .doWord => some .doLoop
  | .keyword .forWord => some .forLoop
  | .keyword .breakWord => some .leaveLoop
  | .keyword .continueWord => some .nextRound
  | .sign .leftBrace => some .block
  | .sign .semicolon => some .nothing
  | _ => none

mutual

/-- A statement. -/
def parse (stop : Position) (input : List Token) : Parse Statement input :=
  match next? opening? input with
  | some mark => parseOpened stop input mark
  | none =>
    if atDeclaration input then do
      let declaration ← parseDeclaration stop input
      return declaration.as
        (.declaration declaration.value.1 declaration.value.2 (place stop input))
    else do
      let value ← Expression.parse stop input
      let mark ← expectSign stop .semicolon "after expression" value.rest
      return (value.within mark).as (.expression value.value (place stop input))
termination_by 4 * input.length + 1
decreasing_by
  all_goals grind

/-- The rest of a statement after its first token. -/
def parseOpened (stop : Position) (input : List Token) (mark : Parsed (Opening × Position) input) :
    Parse Statement input :=
  let position := mark.value.2
  match mark.value.1 with
  | .giveBack => do
    let value ← parseUntil stop .semicolon "after return" mark.rest
    return (mark.within value).as (.giveBack value.value position)
  | .branch => do
    let condition ← parseCondition stop "after 'if'" "after if condition" mark.rest
    let whenTrue ← parseBranch stop condition.rest
    match keyword? .elseWord whenTrue.rest with
    | some other =>
      let whenFalse ← parseBranch stop other.rest
      return (mark.within (condition.within (whenTrue.within (other.within whenFalse)))).as
        (.branch condition.value whenTrue.value (some whenFalse.value) position)
    | none =>
      return (mark.within (condition.within whenTrue)).as
        (.branch condition.value whenTrue.value none position)
  | .whileLoop => do
    let condition ← parseCondition stop "after 'while'" "after while condition" mark.rest
    let body ← parseBranch stop condition.rest
    return (mark.within (condition.within body)).as (.whileLoop condition.value body.value position)
  | .doLoop => do
    let body ← parseBranch stop mark.rest
    match keyword? .whileWord body.rest with
    | none => throw (expected stop .whileAfterDo body.rest)
    | some word =>
      let condition ← parseCondition stop "after 'while'" "after do-while condition" word.rest
      let close ← expectSign stop .semicolon "after do-while" condition.rest
      return (mark.within (body.within (word.within (condition.within close)))).as
        (.doLoop body.value condition.value position)
  | .forLoop => do
    let left ← expectSign stop .leftParenthesis "after 'for'" mark.rest
    let start ← parseForStart stop left.rest
    let condition ← parseUntil stop .semicolon "after for condition" start.rest
    let step ← parseUntil stop .rightParenthesis "after for clauses" condition.rest
    let body ← parseBranch stop step.rest
    return (mark.within (left.within (start.within (condition.within (step.within body))))).as
      (.forLoop start.value condition.value step.value body.value position)
  | .leaveLoop => do
    let close ← expectSign stop .semicolon "after 'break'" mark.rest
    return (mark.within close).as (.leaveLoop position)
  | .nextRound => do
    let close ← expectSign stop .semicolon "after 'continue'" mark.rest
    return (mark.within close).as (.nextRound position)
  | .block => do
    let body ← parseBlock stop mark.rest
    return (mark.within body).as (.block body.value position)
  | .nothing => .ok (mark.as (.block [] position))
termination_by 4 * mark.rest.length + 3
decreasing_by
  all_goals grind

/-- The statements of a block and its closing brace. -/
def parseBlock (stop : Position) (input : List Token) : Parse (List Statement) input :=
  match sign? .rightBrace input with
  | some close => .ok (close.as [])
  | none =>
    match input with
    | [] => .error (expected stop (.sign .rightBrace "after block") [])
    | token :: others => do
      let first ← parse stop (token :: others)
      let rest ← parseBlock stop first.rest
      return (first.within rest).as (first.value :: rest.value)
termination_by 4 * input.length + 2
decreasing_by
  all_goals grind

/-- A branch or the body of a loop: the statements of a block, or one statement. -/
def parseBranch (stop : Position) (input : List Token) : Parse (List Statement) input :=
  match sign? .leftBrace input with
  | some mark => do
    let body ← parseBlock stop mark.rest
    return mark.within body
  | none => do
    let only ← parse stop input
    return only.as [only.value]
termination_by 4 * input.length + 2
decreasing_by
  all_goals grind

end

/-- The statements of a whole function body. -/
def parseBody (stop : Position) (input : List Token) : Except ParseError (List Statement) :=
  match input with
  | [] => .ok []
  | token :: others => do
    if token.kind = .sign .rightBrace then
      throw ⟨.unexpectedBrace, token.position⟩
    let first ← parse stop (token :: others)
    let rest ← parseBody stop first.rest
    return first.value :: rest
termination_by input.length
decreasing_by
  grind

/-- The statements of the text of a function body whose first character stands at the given
place. -/
def ofText (position : Position) (text : List Char) : Except ParseError (List Statement) :=
  match scan position text with
  | .error error => .error ⟨.scan error.cause, error.position⟩
  | .ok scanned => parseBody scanned.stop scanned.tokens

end Statement

end LineRobot
