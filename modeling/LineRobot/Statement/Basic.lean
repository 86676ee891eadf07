import LineRobot.Token.Basic
import LineRobot.Expression.Basic

/-! # Statements

The statements of a parsed function body. Branches and loop bodies are lists of statements, whether
or not they were written in braces. The first clause of a `for` loop is a type of its own, since
only a declaration or an expression can stand there. -/

namespace LineRobot

/-- A type as declared, with its qualifiers. -/
structure DeclaredType where
  /-- The first base type named. -/
  base : BaseType
  /-- Whether `unsigned` was given. -/
  unsigned : Bool
  /-- Whether `const` was given. -/
  constant : Bool
deriving DecidableEq, Repr

/-- One declared name with its first value. -/
structure Declarator where
  /-- The name. -/
  name : String
  /-- The first value, if one is given. -/
  value : Option (Expression String)
  /-- The place of the name. -/
  position : Position
deriving Repr

/-- The first clause of a `for` loop. -/
inductive ForStart where
  /-- Nothing. -/
  | nothing
  /-- A declaration. -/
  | declaration (type : DeclaredType) (declarators : List Declarator) (position : Position)
  /-- An expression. -/
  | expression (value : Expression String) (position : Position)
deriving Repr

/-- A statement. -/
inductive Statement where
  /-- A declaration of variables. -/
  | declaration (type : DeclaredType) (declarators : List Declarator) (position : Position)
  /-- An expression, evaluated for its effect. -/
  | expression (value : Expression String) (position : Position)
  /-- A condition with one or two branches. -/
  | branch (condition : Expression String) (whenTrue : List Statement)
      (whenFalse : Option (List Statement)) (position : Position)
  /-- A loop that checks its condition first. -/
  | whileLoop (condition : Expression String) (body : List Statement) (position : Position)
  /-- A loop that runs its body first. -/
  | doLoop (body : List Statement) (condition : Expression String) (position : Position)
  /-- A loop with a first clause, a condition and a step. -/
  | forLoop (start : ForStart) (condition step : Option (Expression String))
      (body : List Statement) (position : Position)
  /-- A block; the empty statement is an empty block. -/
  | block (body : List Statement) (position : Position)
  /-- Leave the innermost loop. -/
  | leaveLoop (position : Position)
  /-- Go on with the next round of the innermost loop. -/
  | nextRound (position : Position)
  /-- Leave the function with a value. -/
  | giveBack (value : Option (Expression String)) (position : Position)
deriving Repr

end LineRobot
