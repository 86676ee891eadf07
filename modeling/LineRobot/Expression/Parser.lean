import LineRobot.Token.Stream
import LineRobot.Expression.Basic

/-! # Reading expressions

The grammar of expressions, weakest first: assignments, which associate to the right; conditionals;
ten levels of operators that associate to the left (`Sign.binary?`); operators before an operand;
indices, calls and changes after one. A cast is recognised only to be refused.

`operations level` reads an operand and then, in `operationsAfter`, as many operators of at least
that level as follow; the right operand of an operator is read at the next higher level. -/

namespace LineRobot

/-- An operator between two operands, of either kind. -/
inductive Link where
  /-- An operator on values. -/
  | operator (joint : Operator)
  /-- A connective. -/
  | connective (joint : Connective)
deriving DecidableEq, Repr

/-- Two operands joined by an operator. -/
def Link.join (link : Link) (left right : Expression String) (position : Position) :
    Expression String :=
  match link with
  | .operator joint => .binary joint left right position
  | .connective joint => .logical joint left right position

namespace Sign

/-- The operator that a sign stands for between two operands, and its level: an operator of a higher
level binds its operands more tightly. -/
def binary? : Sign → Option (Nat × Link)
  | orOr => some (1, .connective .or)
  | andAnd => some (2, .connective .and)
  | bar => some (3, .operator .bitOr)
  | caret => some (4, .operator .bitXor)
  | ampersand => some (5, .operator .bitAnd)
  | equalEqual => some (6, .operator .equal)
  | notEqual => some (6, .operator .unequal)
  | less => some (7, .operator .less)
  | lessEqual => some (7, .operator .lessEqual)
  | greater => some (7, .operator .greater)
  | greaterEqual => some (7, .operator .greaterEqual)
  | shiftLeft => some (8, .operator .shiftLeft)
  | shiftRight => some (8, .operator .shiftRight)
  | plus => some (9, .operator .add)
  | minus => some (9, .operator .subtract)
  | star => some (10, .operator .multiply)
  | slash => some (10, .operator .divide)
  | percent => some (10, .operator .modulo)
  | _ => none

/-- What a sign between a target and a value assigns: the value, or its combination with the old
one. -/
def assignment? : Sign → Option (Option Operator)
  | equal => some none
  | plusEqual => some (some .add)
  | minusEqual => some (some .subtract)
  | starEqual => some (some .multiply)
  | slashEqual => some (some .divide)
  | percentEqual => some (some .modulo)
  | _ => none

end Sign

/-- An operator before an operand. -/
inductive Leading where
  /-- An operator on the value. -/
  | operator (mark : UnaryOperator)
  /-- A change by one. -/
  | change (direction : Direction)
  /-- The sign `+`, which changes nothing. -/
  | nothing
deriving DecidableEq, Repr

/-- An operand with an operator before it. -/
def Leading.apply (leading : Leading) (operand : Expression String) (position : Position) :
    Expression String :=
  match leading with
  | .operator mark => .unary mark operand position
  | .change direction => .change direction .after operand position
  | .nothing => operand

/-- What follows an operand. -/
inductive Trailing where
  /-- A change by one. -/
  | change (direction : Direction)
  /-- The bracket of an index. -/
  | index
  /-- The parenthesis of a call. -/
  | call
deriving DecidableEq, Repr

namespace Sign

/-- The operator that a sign stands for before an operand. -/
def leading? : Sign → Option Leading
  | bang => some (.operator .not)
  | tilde => some (.operator .complement)
  | minus => some (.operator .negate)
  | plusPlus => some (.change .up)
  | minusMinus => some (.change .down)
  | plus => some .nothing
  | _ => none

/-- What a sign after an operand begins. -/
def trailing? : Sign → Option Trailing
  | plusPlus => some (.change .up)
  | minusMinus => some (.change .down)
  | leftBracket => some .index
  | leftParenthesis => some .call
  | _ => none

end Sign

namespace Tokens

/-- A sign of interest, if one comes next. -/
def signThat? {α : Type} (interest : Sign → Option α) (input : List Token) :
    Option (Parsed (α × Position) input) :=
  next? (fun | .sign mark => interest mark | _ => none) input

/-- An operator of at least the given level, if one comes next. -/
def operator? (level : Nat) (input : List Token) :
    Option (Parsed ((Nat × Link) × Position) input) :=
  signThat? (fun mark => mark.binary?.filter fun entry => level ≤ entry.1) input

/-- A literal or a name, if one comes next. -/
def atom? (input : List Token) :
    Option (Parsed ((Position → Expression String) × Position) input) :=
  next? (fun
    | .number value => some (.number value)
    | .character value => some (.number (Float.ofNat value.toNat))
    | .name text => some (.name text)
    | _ => none) input

/-- Whether the next token is a type, which in parentheses would be a cast. -/
def atType (input : List Token) : Bool :=
  atDeclaration input || peek? input = some (.keyword .void)

end Tokens

namespace Expression

open Tokens

mutual

/-- An expression: an assignment, or what can stand on the left of one. -/
def parse (stop : Position) (input : List Token) : Parse (Expression String) input := do
  let target ← parseConditional stop input
  match signThat? Sign.assignment? target.rest with
  | none => return target
  | some mark =>
    let value ← parse stop mark.rest
    return (target.within (mark.within value)).as
      (.assign mark.value.1 target.value value.value mark.value.2)
termination_by 8 * input.length + 4
decreasing_by
  all_goals grind

/-- A conditional, or its condition alone. -/
def parseConditional (stop : Position) (input : List Token) : Parse (Expression String) input := do
  let condition ← parseOperations stop 1 input
  match sign? .question condition.rest with
  | none => return condition
  | some mark =>
    let whenTrue ← parse stop mark.rest
    let colon ← expectSign stop .colon "in ternary expression" whenTrue.rest
    let whenFalse ← parseConditional stop colon.rest
    return (condition.within (mark.within (whenTrue.within (colon.within whenFalse)))).as
      (.conditional condition.value whenTrue.value whenFalse.value mark.value.2)
termination_by 8 * input.length + 3
decreasing_by
  all_goals grind

/-- Operands joined by operators of at least the given level. -/
def parseOperations (stop : Position) (level : Nat) (input : List Token) :
    Parse (Expression String) input := do
  let first ← parseUnary stop input
  parseOperationsAfter stop level input first
termination_by 8 * input.length + 2
decreasing_by
  all_goals grind

/-- What has been read so far, joined with what follows it by operators of at least the given
level. -/
def parseOperationsAfter (stop : Position) (level : Nat) (input : List Token)
    (left : Parsed (Expression String) input) : Parse (Expression String) input :=
  match operator? level left.rest with
  | none => .ok left
  | some mark => do
    let right ← parseOperations stop (mark.value.1.1 + 1) mark.rest
    parseOperationsAfter stop level input
      ((left.within (mark.within right)).as
        (mark.value.1.2.join left.value right.value mark.value.2))
termination_by 8 * left.rest.length + 2
decreasing_by
  all_goals grind

/-- An operand with the operators before it. -/
def parseUnary (stop : Position) (input : List Token) : Parse (Expression String) input := do
  match signThat? Sign.leading? input with
  | none =>
    let operand ← parsePrimary stop input
    parseTrailing stop input operand
  | some mark =>
    let operand ← parseUnary stop mark.rest
    return (mark.within operand).as (mark.value.1.apply operand.value mark.value.2)
termination_by 8 * input.length + 1
decreasing_by
  all_goals grind

/-- What has been read so far, with the indices, calls and changes that follow it. A call is placed
where its name stands. -/
def parseTrailing (stop : Position) (input : List Token)
    (operand : Parsed (Expression String) input) : Parse (Expression String) input :=
  match signThat? Sign.trailing? operand.rest with
  | none => .ok operand
  | some mark =>
    match mark.value.1 with
    | .change direction =>
      parseTrailing stop input
        ((operand.within mark).as (.change direction .before operand.value mark.value.2))
    | .index => do
      let index ← parse stop mark.rest
      let close ← expectSign stop .rightBracket "after array index" index.rest
      parseTrailing stop input
        ((operand.within (mark.within (index.within close))).as
          (.index operand.value index.value mark.value.2))
    | .call => do
      let arguments ← parseArguments stop mark.rest
      match operand.value with
      | .name callee position =>
        parseTrailing stop input
          ((operand.within (mark.within arguments)).as (.call callee arguments.value position))
      | _ => .error ⟨.callOfExpression, mark.value.2⟩
termination_by 8 * operand.rest.length + 1
decreasing_by
  all_goals grind

/-- The arguments of a call and its closing parenthesis. -/
def parseArguments (stop : Position) (input : List Token) :
    Parse (List (Expression String)) input :=
  match sign? .rightParenthesis input with
  | some close => .ok (close.as [])
  | none => parseArgumentList stop input
termination_by 8 * input.length + 6
decreasing_by
  all_goals grind

/-- One or more arguments and the closing parenthesis. -/
def parseArgumentList (stop : Position) (input : List Token) :
    Parse (List (Expression String)) input := do
  let first ← parse stop input
  match sign? .comma first.rest with
  | some comma =>
    let others ← parseArgumentList stop comma.rest
    return (first.within (comma.within others)).as (first.value :: others.value)
  | none =>
    let close ← expectSign stop .rightParenthesis "after function arguments" first.rest
    return (first.within close).as [first.value]
termination_by 8 * input.length + 5
decreasing_by
  all_goals grind

/-- A literal, a name or an expression in parentheses. -/
def parsePrimary (stop : Position) (input : List Token) : Parse (Expression String) input :=
  match atom? input with
  | some atom => .ok (atom.as (atom.value.1 atom.value.2))
  | none =>
    match sign? .leftParenthesis input with
    | some mark =>
      if atType mark.rest then
        .error ⟨.cast (peek? mark.rest), mark.value.2⟩
      else do
        let inner ← parse stop mark.rest
        let close ← expectSign stop .rightParenthesis "after expression" inner.rest
        return (mark.within (inner.within close)).as inner.value
    | none => .error ⟨.unexpectedToken (peek? input), place stop input⟩
termination_by 8 * input.length
decreasing_by
  all_goals grind

end

end Expression

end LineRobot
