import Mathlib.Data.List.Forall2
import LineRobot.Statement.Parser

/-! # What tokens write

The grammar of expressions and statements, without the levels of operators: `Expression.Written`
says that the tokens from one place of a list to a later one write an expression, and
`Statement.Written` that they write a statement. A place of a list is what is left of it there.

Two texts may differ in their places and in some of their names, which `names` relates
(`Tokens.Renamed`). What the first one writes has a twin in the second one, so that the relations
are between trees of two texts. A tree stands beside itself if `names` is equality. -/

namespace LineRobot

variable (names : String → String → Prop)

/-! ## Tokens -/

/-- What two tokens are that differ at most in a name. -/
inductive TokenKind.Renamed : TokenKind → TokenKind → Prop
  /-- The same number. -/
  | number {value : Float} : Renamed (.number value) (.number value)
  /-- The same character. -/
  | character {value : Char} : Renamed (.character value) (.character value)
  /-- Names that are related. -/
  | name {text text' : String} : names text text' → Renamed (.name text) (.name text')
  /-- The same keyword. -/
  | keyword {word : Keyword} : Renamed (.keyword word) (.keyword word)
  /-- The same sign. -/
  | sign {mark : Sign} : Renamed (.sign mark) (.sign mark)

variable {names} in
/-- A token differs from itself in no name. -/
theorem TokenKind.renamed_self (same : ∀ text, names text text) (kind : TokenKind) :
    TokenKind.Renamed names kind kind := by
  cases kind with
  | number => exact .number
  | character => exact .character
  | name text => exact .name (same text)
  | keyword => exact .keyword
  | sign => exact .sign

/-- Tokens of two texts that differ at most in names and places. -/
def Tokens.Renamed (first second : List Token) : Prop :=
  List.Forall₂ (fun token token' => TokenKind.Renamed names token.kind token'.kind) first second

/-- Tokens differ from themselves in no name. -/
theorem Tokens.renamed_eq (tokens : List Token) : Tokens.Renamed Eq tokens tokens :=
  List.forall₂_same.mpr fun token _ => TokenKind.renamed_self (fun _ => rfl) token.kind

/-! ## Expressions -/

namespace Expression

mutual

/-- The tokens from one place to a later one write an expression. -/
inductive Written : (input rest : List Token) → Expression String → Expression String → Prop
  /-- A number. -/
  | number {rest : List Token} {value : Float} {here there : Position} :
      Written (⟨.number value, here⟩ :: rest) rest (.number value here) (.number value there)
  /-- A character, which stands for its code. -/
  | character {rest : List Token} {value : Char} {here there : Position} :
      Written (⟨.character value, here⟩ :: rest) rest (.number (Float.ofNat value.toNat) here)
        (.number (Float.ofNat value.toNat) there)
  /-- A name. -/
  | name {rest : List Token} {text text' : String} {here there : Position} :
      names text text' → Written (⟨.name text, here⟩ :: rest) rest (.name text here)
        (.name text' there)
  /-- An expression in parentheses. -/
  | parentheses {input rest : List Token} {value value' : Expression String}
      {opened closed : Position} :
      Written input (⟨.sign .rightParenthesis, closed⟩ :: rest) value value' →
      Written (⟨.sign .leftParenthesis, opened⟩ :: input) rest value value'
  /-- An operator before an operand. -/
  | leading {input rest : List Token} {operand operand' : Expression String} {mark : Sign}
      {leading : Leading} {here there : Position} :
      mark.leading? = some leading → Written input rest operand operand' →
      Written (⟨.sign mark, here⟩ :: input) rest (leading.apply operand here)
        (leading.apply operand' there)
  /-- A change by one behind an operand. -/
  | change {input rest : List Token} {operand operand' : Expression String} {mark : Sign}
      {direction : Direction} {here there : Position} :
      mark.trailing? = some (.change direction) →
      Written input (⟨.sign mark, here⟩ :: rest) operand operand' →
      Written input rest (.change direction .before operand here)
        (.change direction .before operand' there)
  /-- An index in brackets behind an operand. -/
  | index {input middle rest : List Token} {array array' subscript subscript' : Expression String}
      {here there closed : Position} :
      Written input (⟨.sign .leftBracket, here⟩ :: middle) array array' →
      Written middle (⟨.sign .rightBracket, closed⟩ :: rest) subscript subscript' →
      Written input rest (.index array subscript here) (.index array' subscript' there)
  /-- Arguments behind a name. -/
  | call {input middle rest : List Token} {callee callee' : String}
      {arguments arguments' : List (Expression String)} {here there opened : Position} :
      Written input (⟨.sign .leftParenthesis, opened⟩ :: middle) (.name callee here)
        (.name callee' there) →
      ArgumentsWritten middle rest arguments arguments' →
      Written input rest (.call callee arguments here) (.call callee' arguments' there)
  /-- An operator between two operands. -/
  | binary {input middle rest : List Token} {left left' right right' : Expression String}
      {mark : Sign} {level : Nat} {link : Link} {here there : Position} :
      mark.binary? = some (level, link) → Written input (⟨.sign mark, here⟩ :: middle) left left' →
      Written middle rest right right' →
      Written input rest (link.join left right here) (link.join left' right' there)
  /-- A conditional. -/
  | conditional {input middle later rest : List Token}
      {condition condition' whenTrue whenTrue' whenFalse whenFalse' : Expression String}
      {here there colon : Position} :
      Written input (⟨.sign .question, here⟩ :: middle) condition condition' →
      Written middle (⟨.sign .colon, colon⟩ :: later) whenTrue whenTrue' →
      Written later rest whenFalse whenFalse' →
      Written input rest (.conditional condition whenTrue whenFalse here)
        (.conditional condition' whenTrue' whenFalse' there)
  /-- An assignment. -/
  | assign {input middle rest : List Token} {target target' value value' : Expression String}
      {mark : Sign} {compound : Option Operator} {here there : Position} :
      mark.assignment? = some compound →
      Written input (⟨.sign mark, here⟩ :: middle) target target' →
      Written middle rest value value' →
      Written input rest (.assign compound target value here)
        (.assign compound target' value' there)

/-- The tokens write the arguments of a call and its closing parenthesis. -/
inductive ArgumentsWritten :
    (input rest : List Token) → List (Expression String) → List (Expression String) → Prop
  /-- No argument. -/
  | nothing {rest : List Token} {closed : Position} :
      ArgumentsWritten (⟨.sign .rightParenthesis, closed⟩ :: rest) rest [] []
  /-- The last argument. -/
  | last {input rest : List Token} {value value' : Expression String} {closed : Position} :
      Written input (⟨.sign .rightParenthesis, closed⟩ :: rest) value value' →
      ArgumentsWritten input rest [value] [value']
  /-- An argument with others behind it. -/
  | cons {input middle rest : List Token} {value value' : Expression String}
      {others others' : List (Expression String)} {comma : Position} :
      Written input (⟨.sign .comma, comma⟩ :: middle) value value' →
      ArgumentsWritten middle rest others others' →
      ArgumentsWritten input rest (value :: others) (value' :: others')

end

/-- The tokens write an expression that may be left out, and the sign that closes it. -/
inductive ClauseWritten (close : Sign) :
    (input rest : List Token) → Option (Expression String) → Option (Expression String) → Prop
  /-- Nothing. -/
  | nothing {rest : List Token} {closed : Position} :
      ClauseWritten close (⟨.sign close, closed⟩ :: rest) rest none none
  /-- An expression. -/
  | expression {input rest : List Token} {value value' : Expression String} {closed : Position} :
      Written names input (⟨.sign close, closed⟩ :: rest) value value' →
      ClauseWritten close input rest (some value) (some value')

end Expression

/-! ## Declarations -/

namespace Declarator

/-- The tokens write a declared name and its first value. -/
inductive Written : (input rest : List Token) → Declarator → Declarator → Prop
  /-- A name alone. -/
  | bare {rest : List Token} {name name' : String} {here there : Position} :
      names name name' → Written (⟨.name name, here⟩ :: rest) rest ⟨name, none,
        here⟩ ⟨name', none, there⟩
  /-- A name with a first value. -/
  | valued {input rest : List Token} {name name' : String} {value value' : Expression String}
      {here there equal : Position} :
      names name name' → Expression.Written names input rest value value' →
      Written (⟨.name name, here⟩ :: ⟨.sign .equal, equal⟩ :: input) rest ⟨name, some value, here⟩
        ⟨name', some value', there⟩

/-- The tokens write declared names and the semicolon behind them. -/
inductive ListWritten : (input rest : List Token) → List Declarator → List Declarator → Prop
  /-- The last name. -/
  | last {input rest : List Token} {declarator declarator' : Declarator} {closed : Position} :
      Written names input (⟨.sign .semicolon, closed⟩ :: rest) declarator declarator' →
      ListWritten input rest [declarator] [declarator']
  /-- A name with others behind it. -/
  | cons {input middle rest : List Token} {declarator declarator' : Declarator}
      {others others' : List Declarator} {comma : Position} :
      Written names input (⟨.sign .comma, comma⟩ :: middle) declarator declarator' →
      ListWritten middle rest others others' →
      ListWritten input rest (declarator :: others) (declarator' :: others')

/-- The tokens write type words and the declared names behind them. -/
inductive DeclarationWritten : (input rest : List Token) → List Declarator → List Declarator → Prop
  /-- A type word. -/
  | word {input rest : List Token} {declarators declarators' : List Declarator} {word : Keyword}
      {here : Position} :
      DeclarationWritten input rest declarators declarators' →
      DeclarationWritten (⟨.keyword word, here⟩ :: input) rest declarators declarators'
  /-- The declared names. -/
  | declarators {input rest : List Token} {declarators declarators' : List Declarator} :
      ListWritten names input rest declarators declarators' →
      DeclarationWritten input rest declarators declarators'

end Declarator

/-- The tokens write the first clause of a `for` loop and the semicolon behind it. -/
inductive ForStart.Written : (input rest : List Token) → ForStart → ForStart → Prop
  /-- Nothing. -/
  | nothing {rest : List Token} {closed : Position} :
      ForStart.Written (⟨.sign .semicolon, closed⟩ :: rest) rest .nothing .nothing
  /-- A declaration. -/
  | declaration {input rest : List Token} {type : DeclaredType}
      {declarators declarators' : List Declarator} {here there : Position} :
      Declarator.DeclarationWritten names input rest declarators declarators' →
      ForStart.Written input rest (.declaration type declarators here)
        (.declaration type declarators' there)
  /-- An expression. -/
  | expression {input rest : List Token} {value value' : Expression String}
      {here there closed : Position} :
      Expression.Written names input (⟨.sign .semicolon, closed⟩ :: rest) value value' →
      ForStart.Written input rest (.expression value here) (.expression value' there)

/-! ## Statements -/

namespace Statement

mutual

/-- The tokens write a statement. -/
inductive Written : (input rest : List Token) → Statement → Statement → Prop
  /-- A declaration. -/
  | declaration {input rest : List Token} {type : DeclaredType}
      {declarators declarators' : List Declarator} {here there : Position} :
      Declarator.DeclarationWritten names input rest declarators declarators' →
      Written input rest (.declaration type declarators here) (.declaration type declarators' there)
  /-- An expression. -/
  | expression {input rest : List Token} {value value' : Expression String}
      {here there closed : Position} :
      Expression.Written names input (⟨.sign .semicolon, closed⟩ :: rest) value value' →
      Written input rest (.expression value here) (.expression value' there)
  /-- A condition with one branch. -/
  | branch {input middle rest : List Token} {condition condition' : Expression String}
      {whenTrue whenTrue' : List Statement} {here there : Position} :
      Expression.Written names input middle condition condition' →
      BranchWritten middle rest whenTrue whenTrue' →
      Written (⟨.keyword .ifWord, here⟩ :: input) rest (.branch condition whenTrue none here)
        (.branch condition' whenTrue' none there)
  /-- A condition with two branches. -/
  | branches {input middle later rest : List Token} {condition condition' : Expression String}
      {whenTrue whenTrue' whenFalse whenFalse' : List Statement} {here there other : Position} :
      Expression.Written names input middle condition condition' →
      BranchWritten middle (⟨.keyword .elseWord, other⟩ :: later) whenTrue whenTrue' →
      BranchWritten later rest whenFalse whenFalse' →
      Written (⟨.keyword .ifWord, here⟩ :: input) rest
        (.branch condition whenTrue (some whenFalse) here)
        (.branch condition' whenTrue' (some whenFalse') there)
  /-- A loop that checks its condition first. -/
  | whileLoop {input middle rest : List Token} {condition condition' : Expression String}
      {body body' : List Statement} {here there : Position} :
      Expression.Written names input middle condition condition' →
      BranchWritten middle rest body body' →
      Written (⟨.keyword .whileWord, here⟩ :: input) rest (.whileLoop condition body here)
        (.whileLoop condition' body' there)
  /-- A loop that runs its body first. -/
  | doLoop {input middle rest : List Token} {condition condition' : Expression String}
      {body body' : List Statement} {here there word closed : Position} :
      BranchWritten input (⟨.keyword .whileWord, word⟩ :: middle) body body' →
      Expression.Written names middle (⟨.sign .semicolon, closed⟩ :: rest) condition condition' →
      Written (⟨.keyword .doWord, here⟩ :: input) rest (.doLoop body condition here)
        (.doLoop body' condition' there)
  /-- A loop with a first clause, a condition and a step. -/
  | forLoop {input second third fourth rest : List Token} {start start' : ForStart}
      {condition condition' step step' : Option (Expression String)} {body body' : List Statement}
      {here there opened : Position} :
      ForStart.Written names input second start start' →
      Expression.ClauseWritten names .semicolon second third condition condition' →
      Expression.ClauseWritten names .rightParenthesis third fourth step step' →
      BranchWritten fourth rest body body' →
      Written (⟨.keyword .forWord, here⟩ :: ⟨.sign .leftParenthesis, opened⟩ :: input) rest
        (.forLoop start condition step body here) (.forLoop start' condition' step' body' there)
  /-- A block. -/
  | block {input rest : List Token} {body body' : List Statement} {here there : Position} :
      BlockWritten input rest body body' →
      Written (⟨.sign .leftBrace, here⟩ :: input) rest (.block body here) (.block body' there)
  /-- The empty statement. -/
  | nothing {rest : List Token} {here there : Position} :
      Written (⟨.sign .semicolon, here⟩ :: rest) rest (.block [] here) (.block [] there)
  /-- A jump out of the innermost loop. -/
  | leaveLoop {rest : List Token} {here there closed : Position} :
      Written (⟨.keyword .breakWord, here⟩ :: ⟨.sign .semicolon, closed⟩ :: rest) rest
        (.leaveLoop here) (.leaveLoop there)
  /-- A jump to the next round of the innermost loop. -/
  | nextRound {rest : List Token} {here there closed : Position} :
      Written (⟨.keyword .continueWord, here⟩ :: ⟨.sign .semicolon, closed⟩ :: rest) rest
        (.nextRound here) (.nextRound there)
  /-- A return. -/
  | giveBack {input rest : List Token} {value value' : Option (Expression String)}
      {here there : Position} :
      Expression.ClauseWritten names .semicolon input rest value value' →
      Written (⟨.keyword .returnWord, here⟩ :: input) rest (.giveBack value here)
        (.giveBack value' there)

/-- The tokens write the statements of a block and its closing brace. -/
inductive BlockWritten : (input rest : List Token) → List Statement → List Statement → Prop
  /-- The end of the block. -/
  | nil {rest : List Token} {closed : Position} :
      BlockWritten (⟨.sign .rightBrace, closed⟩ :: rest) rest [] []
  /-- A statement with others behind it. -/
  | cons {input middle rest : List Token} {first first' : Statement}
      {others others' : List Statement} :
      Written input middle first first' → BlockWritten middle rest others others' →
      BlockWritten input rest (first :: others) (first' :: others')

/-- The tokens write a branch or the body of a loop. -/
inductive BranchWritten : (input rest : List Token) → List Statement → List Statement → Prop
  /-- The statements of a block. -/
  | braced {input rest : List Token} {body body' : List Statement} {opened : Position} :
      BlockWritten input rest body body' →
      BranchWritten (⟨.sign .leftBrace, opened⟩ :: input) rest body body'
  /-- One statement. -/
  | single {input rest : List Token} {only only' : Statement} :
      Written input rest only only' → BranchWritten input rest [only] [only']

end

/-- The tokens write the statements of a whole body. -/
inductive BodyWritten : (input : List Token) → List Statement → List Statement → Prop
  /-- The end of the body. -/
  | nil : BodyWritten [] [] []
  /-- A statement with others behind it. -/
  | cons {input middle : List Token} {first first' : Statement} {others others' : List Statement} :
      Written names input middle first first' → BodyWritten middle others others' →
      BodyWritten input (first :: others) (first' :: others')

end Statement

end LineRobot
