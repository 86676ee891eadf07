import LineRobot.Expression.Basic

/-! # Routines

A routine is a function body made ready for code: every call is resolved to a `Callee`, declarations
are bindings without types, and the two ways to suspend a program are steps of their own. A loop
whose condition is the bare constant for truth is a `Step.forever`, whose body begins with a
`Step.tick`: each round gives control back once. -/

namespace LineRobot

/-- What a call calls. -/
inductive Callee where
  /-- The motors. -/
  | motor
  /-- A subroutine of the program. -/
  | subroutine (name : String)
  /-- Nothing that is known. -/
  | unknown (name : String)
deriving DecidableEq, Repr

/-- An expression whose calls are resolved. -/
abbrev Formula : Type := Expression Callee

/-- A step of a routine. -/
inductive Step where
  /-- Bind a name to a first value, or to zero. -/
  | bind (name : String) (writable : Bool) (value : Option Formula) (position : Position)
  /-- Evaluate an expression for its effect. -/
  | evaluate (value : Formula) (position : Position)
  /-- Give control back once. -/
  | tick (position : Position)
  /-- Give control back for a number of milliseconds. -/
  | wait (duration : Formula) (position : Position)
  /-- A condition with one or two branches. -/
  | branch (condition : Formula) (whenTrue : List Step) (whenFalse : Option (List Step))
      (position : Position)
  /-- A loop without a condition. -/
  | forever (body : List Step) (position : Position)
  /-- A loop that checks its condition first. -/
  | whileLoop (condition : Formula) (body : List Step) (position : Position)
  /-- A loop that runs its body first. -/
  | doLoop (body : List Step) (condition : Formula) (position : Position)
  /-- A loop with first steps, a condition and a step after each round. -/
  | forLoop (start : List Step) (condition step : Option Formula) (body : List Step)
      (position : Position)
  /-- Steps in a scope of their own. -/
  | block (body : List Step) (position : Position)
  /-- Leave the innermost loop. -/
  | leaveLoop (position : Position)
  /-- Go on with the next round of the innermost loop. -/
  | nextRound (position : Position)
  /-- Leave the routine with a value, or with zero. -/
  | giveBack (value : Option Formula) (position : Position)
deriving Repr

/-- A function whose body is a routine. -/
structure Routine where
  /-- The name. -/
  name : String
  /-- The names of the parameters. -/
  parameters : List String
  /-- The steps. -/
  body : List Step
  /-- The place of the name. -/
  position : Position
deriving Repr

end LineRobot
