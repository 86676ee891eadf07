import LineRobot.Statement.Parser

/-! # Printing syntax

`Expression.tokens` and `Statement.tokens` write syntax as tokens, with as few parentheses as the
grammar allows. Every form of expression has a level, from assignments at 0 to atoms at 13, and at
each place in a form an expression can stand by itself if its level is high enough; otherwise it is
put in parentheses (`TokenKind.enclose`). Branches and the bodies of loops are always put in braces.

The forms that are written so are those that can be read (`Expression.Readable`,
`Statement.Readable`). All that is left out is an assignment combined with an operator that has no
sign for it, and a declaration of nothing. -/

namespace LineRobot

/-! ## Signs -/

namespace Link

/-- The sign of an operator between two operands. -/
def sign : Link → Sign
  | .operator .add => .plus
  | .operator .subtract => .minus
  | .operator .multiply => .star
  | .operator .divide => .slash
  | .operator .modulo => .percent
  | .operator .equal => .equalEqual
  | .operator .unequal => .notEqual
  | .operator .less => .less
  | .operator .lessEqual => .lessEqual
  | .operator .greater => .greater
  | .operator .greaterEqual => .greaterEqual
  | .operator .bitAnd => .ampersand
  | .operator .bitOr => .bar
  | .operator .bitXor => .caret
  | .operator .shiftLeft => .shiftLeft
  | .operator .shiftRight => .shiftRight
  | .connective .and => .andAnd
  | .connective .or => .orOr

/-- The level of two operands joined by an operator: a connective is weakest, a product binds its
operands most tightly. -/
def level : Link → Nat
  | .connective .or => 2
  | .connective .and => 3
  | .operator .bitOr => 4
  | .operator .bitXor => 5
  | .operator .bitAnd => 6
  | .operator .equal | .operator .unequal => 7
  | .operator .less | .operator .lessEqual | .operator .greater | .operator .greaterEqual => 8
  | .operator .shiftLeft | .operator .shiftRight => 9
  | .operator .add | .operator .subtract => 10
  | .operator .multiply | .operator .divide | .operator .modulo => 11

end Link

/-- The sign of an operator before its operand. -/
def UnaryOperator.sign : UnaryOperator → Sign
  | negate => .minus
  | not => .bang
  | complement => .tilde

/-- The sign of a change by one. -/
def Direction.sign : Direction → Sign
  | up => .plusPlus
  | down => .minusMinus

/-- The sign of an assignment, if it has one. -/
def Operator.assignmentSign? : Option Operator → Option Sign
  | none => some .equal
  | some .add => some .plusEqual
  | some .subtract => some .minusEqual
  | some .multiply => some .starEqual
  | some .divide => some .slashEqual
  | some .modulo => some .percentEqual
  | some _ => none

/-! ## Expressions -/

namespace TokenKind

/-- Tokens in parentheses. -/
def parenthesize (tokens : List TokenKind) : List TokenKind :=
  sign .leftParenthesis :: (tokens ++ [sign .rightParenthesis])

/-- Tokens in braces. -/
def brace (tokens : List TokenKind) : List TokenKind :=
  sign .leftBrace :: (tokens ++ [sign .rightBrace])

/-- Tokens of something of a level, in parentheses if that is below the level of the place. -/
def enclose (place level : Nat) (tokens : List TokenKind) : List TokenKind :=
  if place ≤ level then tokens else parenthesize tokens

end TokenKind

namespace Expression

/-- The level of an expression: that of the weakest place at which it can stand by itself. -/
def level : Expression String → Nat
  | .assign _ _ _ _ => 0
  | .conditional _ _ _ _ => 1
  | .binary operator _ _ _ => (Link.operator operator).level
  | .logical connective _ _ _ => (Link.connective connective).level
  | .unary _ _ _ => 12
  | .change _ .after _ _ => 12
  | .change _ .before _ _ => 13
  | .number _ _ | .name _ _ | .call _ _ _ | .index _ _ _ => 13

mutual

/-- The tokens of an expression. The left operand of an operator may be one of its own level, the
right one must be of a higher level. -/
def tokens : Expression String → List TokenKind
  | .number value _ => [.number value]
  | .name text _ => [.name text]
  | .binary operator left right _ =>
    let link := Link.operator operator
    TokenKind.enclose link.level left.level (tokens left) ++
      .sign link.sign :: TokenKind.enclose (link.level + 1) right.level (tokens right)
  | .logical connective left right _ =>
    let link := Link.connective connective
    TokenKind.enclose link.level left.level (tokens left) ++
      .sign link.sign :: TokenKind.enclose (link.level + 1) right.level (tokens right)
  | .unary operator operand _ =>
    .sign operator.sign :: TokenKind.enclose 12 operand.level (tokens operand)
  | .change direction .after operand _ =>
    .sign direction.sign :: TokenKind.enclose 12 operand.level (tokens operand)
  | .change direction .before operand _ =>
    TokenKind.enclose 13 operand.level (tokens operand) ++ [.sign direction.sign]
  | .conditional condition whenTrue whenFalse _ =>
    TokenKind.enclose 2 condition.level (tokens condition) ++
      .sign .question :: (tokens whenTrue ++
        .sign .colon :: TokenKind.enclose 1 whenFalse.level (tokens whenFalse))
  | .assign compound target value _ =>
    TokenKind.enclose 1 target.level (tokens target) ++
      .sign ((Operator.assignmentSign? compound).getD .equal) :: tokens value
  | .call callee arguments _ => .name callee :: TokenKind.parenthesize (listTokens arguments)
  | .index array subscript _ =>
    TokenKind.enclose 13 array.level (tokens array) ++
      .sign .leftBracket :: (tokens subscript ++ [.sign .rightBracket])

/-- The tokens of expressions with commas between them. -/
def listTokens : List (Expression String) → List TokenKind
  | [] => []
  | [only] => tokens only
  | first :: second :: others => tokens first ++ .sign .comma :: listTokens (second :: others)

end

/-- The tokens of an expression clause that may be left out, and the sign that closes it. -/
def clauseTokens (close : Sign) : Option (Expression String) → List TokenKind
  | none => [.sign close]
  | some value => value.tokens ++ [.sign close]

/-- An expression that can be read: each assignment in it has a sign. -/
inductive Readable : Expression String → Prop
  /-- A number. -/
  | number {value : Float} {position : Position} : Readable (.number value position)
  /-- A name. -/
  | name {text : String} {position : Position} : Readable (.name text position)
  /-- An operator between two operands. -/
  | binary {operator : Operator} {left right : Expression String} {position : Position} :
      Readable left → Readable right → Readable (.binary operator left right position)
  /-- A connective between two operands. -/
  | logical {connective : Connective} {left right : Expression String} {position : Position} :
      Readable left → Readable right → Readable (.logical connective left right position)
  /-- An operator before one operand. -/
  | unary {operator : UnaryOperator} {operand : Expression String} {position : Position} :
      Readable operand → Readable (.unary operator operand position)
  /-- A variable changed by one. -/
  | change {direction : Direction} {moment : Moment} {operand : Expression String}
      {position : Position} :
      Readable operand → Readable (.change direction moment operand position)
  /-- One of two expressions. -/
  | conditional {condition whenTrue whenFalse : Expression String} {position : Position} :
      Readable condition → Readable whenTrue → Readable whenFalse →
      Readable (.conditional condition whenTrue whenFalse position)
  /-- An assignment that has a sign: of a value, or of a sum, difference, product, quotient or
  remainder. -/
  | assign {compound : Option Operator} {target value : Expression String} {position : Position} :
      compound ∈ [none, some .add, some .subtract, some .multiply, some .divide, some .modulo] →
      Readable target → Readable value → Readable (.assign compound target value position)
  /-- A call. -/
  | call {callee : String} {arguments : List (Expression String)} {position : Position} :
      (∀ argument ∈ arguments, Readable argument) → Readable (.call callee arguments position)
  /-- An element of an array. -/
  | index {array subscript : Expression String} {position : Position} :
      Readable array → Readable subscript → Readable (.index array subscript position)

end Expression

/-! ## Statements -/

/-- The tokens of a declared type. -/
def DeclaredType.tokens (type : DeclaredType) : List TokenKind :=
  (if type.constant then [.keyword .const] else []) ++
    (if type.unsigned then [.keyword .unsigned] else []) ++ [.keyword (.base type.base)]

namespace Declarator

/-- The tokens of a declared name with its first value. -/
def tokens (declarator : Declarator) : List TokenKind :=
  match declarator.value with
  | none => [.name declarator.name]
  | some value => .name declarator.name :: .sign .equal :: value.tokens

/-- The tokens of declared names with commas between them, and a semicolon. -/
def listTokens : List Declarator → List TokenKind
  | [] => [.sign .semicolon]
  | [only] => only.tokens ++ [.sign .semicolon]
  | first :: second :: others => first.tokens ++ .sign .comma :: listTokens (second :: others)

end Declarator

/-- The tokens of the first clause of a `for` loop, with its semicolon. -/
def ForStart.tokens : ForStart → List TokenKind
  | .nothing => [.sign .semicolon]
  | .declaration type declarators _ => type.tokens ++ Declarator.listTokens declarators
  | .expression value _ => value.tokens ++ [.sign .semicolon]

namespace Statement

mutual

/-- The tokens of a statement. -/
def tokens : Statement → List TokenKind
  | .declaration type declarators _ => type.tokens ++ Declarator.listTokens declarators
  | .expression value _ => value.tokens ++ [.sign .semicolon]
  | .branch condition whenTrue whenFalse _ =>
    .keyword .ifWord :: (TokenKind.parenthesize condition.tokens ++
      (TokenKind.brace (listTokens whenTrue) ++ otherwiseTokens whenFalse))
  | .whileLoop condition body _ =>
    .keyword .whileWord ::
      (TokenKind.parenthesize condition.tokens ++ TokenKind.brace (listTokens body))
  | .doLoop body condition _ =>
    .keyword .doWord :: (TokenKind.brace (listTokens body) ++
      .keyword .whileWord :: (TokenKind.parenthesize condition.tokens ++ [.sign .semicolon]))
  | .forLoop start condition step body _ =>
    .keyword .forWord :: .sign .leftParenthesis :: (start.tokens ++
      (Expression.clauseTokens .semicolon condition ++
        (Expression.clauseTokens .rightParenthesis step ++ TokenKind.brace (listTokens body))))
  | .block body _ => TokenKind.brace (listTokens body)
  | .leaveLoop _ => [.keyword .breakWord, .sign .semicolon]
  | .nextRound _ => [.keyword .continueWord, .sign .semicolon]
  | .giveBack value _ => .keyword .returnWord :: Expression.clauseTokens .semicolon value

/-- The tokens of statements, one after the other. -/
def listTokens : List Statement → List TokenKind
  | [] => []
  | first :: others => tokens first ++ listTokens others

/-- The tokens of an optional second branch. -/
def otherwiseTokens : Option (List Statement) → List TokenKind
  | none => []
  | some statements => .keyword .elseWord :: TokenKind.brace (listTokens statements)

end

end Statement

/-- Declarations that can be read: there is at least one, and the first values can be read. -/
structure Declarator.Readable (declarators : List Declarator) : Prop where
  /-- Something is declared. -/
  nonempty : declarators ≠ []
  /-- The first values can be read. -/
  value : ∀ declarator ∈ declarators, ∀ value ∈ declarator.value, value.Readable

/-- A first clause of a `for` loop that can be read. -/
inductive ForStart.Readable : ForStart → Prop
  /-- Nothing. -/
  | nothing : ForStart.Readable .nothing
  /-- A declaration. -/
  | declaration {type : DeclaredType} {declarators : List Declarator} {position : Position} :
      Declarator.Readable declarators → ForStart.Readable (.declaration type declarators position)
  /-- An expression. -/
  | expression {value : Expression String} {position : Position} :
      value.Readable → ForStart.Readable (.expression value position)

/-- A statement that can be read: its expressions and declarations can. -/
inductive Statement.Readable : Statement → Prop
  /-- A declaration. -/
  | declaration {type : DeclaredType} {declarators : List Declarator} {position : Position} :
      Declarator.Readable declarators → Statement.Readable (.declaration type declarators position)
  /-- An expression. -/
  | expression {value : Expression String} {position : Position} :
      value.Readable → Statement.Readable (.expression value position)
  /-- A condition with one or two branches. -/
  | branch {condition : Expression String} {whenTrue : List Statement}
      {whenFalse : Option (List Statement)} {position : Position} :
      condition.Readable → (∀ statement ∈ whenTrue, Statement.Readable statement) →
      (∀ statements ∈ whenFalse, ∀ statement ∈ statements, Statement.Readable statement) →
      Statement.Readable (.branch condition whenTrue whenFalse position)
  /-- A loop that checks its condition first. -/
  | whileLoop {condition : Expression String} {body : List Statement} {position : Position} :
      condition.Readable → (∀ statement ∈ body, Statement.Readable statement) →
      Statement.Readable (.whileLoop condition body position)
  /-- A loop that runs its body first. -/
  | doLoop {body : List Statement} {condition : Expression String} {position : Position} :
      (∀ statement ∈ body, Statement.Readable statement) → condition.Readable →
      Statement.Readable (.doLoop body condition position)
  /-- A loop with a first clause, a condition and a step. -/
  | forLoop {start : ForStart} {condition step : Option (Expression String)} {body : List Statement}
      {position : Position} :
      start.Readable → (∀ value ∈ condition, value.Readable) → (∀ value ∈ step, value.Readable) →
      (∀ statement ∈ body, Statement.Readable statement) →
      Statement.Readable (.forLoop start condition step body position)
  /-- A block. -/
  | block {body : List Statement} {position : Position} :
      (∀ statement ∈ body, Statement.Readable statement) →
      Statement.Readable (.block body position)
  /-- A jump out of the innermost loop. -/
  | leaveLoop {position : Position} : Statement.Readable (.leaveLoop position)
  /-- A jump to the next round of the innermost loop. -/
  | nextRound {position : Position} : Statement.Readable (.nextRound position)
  /-- A return. -/
  | giveBack {value : Option (Expression String)} {position : Position} :
      (∀ given ∈ value, given.Readable) → Statement.Readable (.giveBack value position)

end LineRobot
