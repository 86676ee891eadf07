import LineRobot.Token.Stream
import LineRobot.Vocabulary

/-! # Why a source is rejected

A source is rejected for one of three kinds of reasons: a brace is never closed, the entry function
is missing, or something inside or about a function is wrong (`Reason`). Every reason has its
wording in `Reason.message`; `Rejection.message` is the whole text that is shown. -/

namespace LineRobot

/-- What is wrong inside or about a function. -/
inductive Reason where
  /-- Its body cannot be read. -/
  | unreadable (cause : ParseCause)
  /-- Its name has been defined before. -/
  | definedTwice (name : String)
  /-- A wait with another number of arguments than one. -/
  | waitArguments (count : Nat)
  /-- A wait inside an expression. -/
  | waitInExpression
  /-- A reserved name is declared or defined. -/
  | reserved (name : String)
  /-- A name is declared twice in one scope. -/
  | redeclared (name : String)
  /-- A constant has no first value. -/
  | uninitialized (name : String)
  /-- A `break` with no loop around it. -/
  | breakOutsideLoop
  /-- A `continue` with no loop around it. -/
  | continueOutsideLoop
  /-- An array is used without an index. -/
  | arrayWithoutIndex (bank : Bank)
  /-- A name means nothing. -/
  | unknownName (name : String)
  /-- A called function is not defined. -/
  | unknownFunction (name : String)
  /-- The entry function is called. -/
  | entryCalled
  /-- A call has another number of arguments than the function has parameters. -/
  | argumentCount (name : String) (expected got : Nat)
  /-- What is to go up or down by one is not a variable. -/
  | unchangeable
  /-- What is assigned to is not a variable. -/
  | unassignable
  /-- A declared constant is assigned to. -/
  | constantAssigned (name : String)
  /-- A reserved name is assigned to. -/
  | reservedAssigned (name : String)
  /-- What is indexed is not one of the arrays. -/
  | unindexable
  /-- A sensor channel is assigned to. -/
  | sensorAssigned
  /-- A reason given in words. -/
  | stated (text : String)
deriving DecidableEq, Repr

/-- A reason in words. -/
def Reason.message : Reason → String
  | unreadable cause => cause.message
  | definedTwice name => "Function '" ++ name ++ "' is defined more than once"
  | waitArguments count =>
    "'" ++ Vocabulary.wait ++ "' expects 1 argument, got " ++ toString count
  | waitInExpression => "'" ++ Vocabulary.wait ++ "' can only be used as a statement"
  | reserved name => "'" ++ name ++ "' is a reserved name"
  | redeclared name => "Redeclaration of '" ++ name ++ "'"
  | uninitialized name => "const '" ++ name ++ "' must be initialized"
  | breakOutsideLoop => "'break' outside of a loop"
  | continueOutsideLoop => "'continue' outside of a loop"
  | arrayWithoutIndex bank => "'" ++ bank.spelling ++ "' must be indexed"
  | unknownName name => "Unknown identifier '" ++ name ++ "'"
  | unknownFunction name => "Unknown function '" ++ name ++ "'"
  | entryCalled => "Entry function '" ++ Vocabulary.entry ++ "' cannot be called"
  | argumentCount name expected got =>
    "'" ++ name ++ "' expects " ++ toString expected ++ " argument(s), got " ++ toString got
  | unchangeable => "Increment/decrement needs a variable"
  | unassignable => "Invalid assignment target"
  | constantAssigned name => "Cannot assign to const '" ++ name ++ "'"
  | reservedAssigned name => "Cannot assign to '" ++ name ++ "'"
  | unindexable =>
    "Only '" ++ Bank.sensors.spelling ++ "' and '" ++ Bank.slots.spelling ++ "' can be indexed"
  | sensorAssigned => "'" ++ Bank.sensors.spelling ++ "' is read-only"
  | stated text => text

/-- A reason with the place it refers to, if one is known. -/
structure Diagnostic where
  /-- The reason. -/
  reason : Reason
  /-- The place. -/
  position : Option Position
deriving DecidableEq, Repr

/-- A diagnostic in words. -/
def Diagnostic.message (diagnostic : Diagnostic) : String :=
  match diagnostic.position with
  | some position =>
    "line " ++ toString position.line ++ ", column " ++ toString position.column ++ ": " ++
      diagnostic.reason.message
  | none => diagnostic.reason.message

/-- Why a source is rejected. -/
inductive Rejection where
  /-- The opening brace at the given place is never closed. -/
  | unclosedBrace (position : Position)
  /-- There is no entry function. -/
  | missingEntry
  /-- Something is wrong inside or about a function. -/
  | failed (diagnostic : Diagnostic)
deriving DecidableEq, Repr

namespace Rejection

/-- The rejection for a reason at a place. -/
def located (reason : Reason) (position : Position) : Rejection :=
  failed ⟨reason, some position⟩

/-- A rejection in words. -/
def message : Rejection → String
  | unclosedBrace position =>
    "Unbalanced braces: '\x7b' at line " ++ toString position.line ++ ", column " ++
      toString position.column ++ " is never closed"
  | missingEntry => "Missing entry point: no function named '" ++ Vocabulary.entry ++ "'"
  | failed diagnostic => "Compilation failed: " ++ diagnostic.message

/-- The place that a rejection refers to, if there is one. -/
def position? : Rejection → Option Position
  | unclosedBrace position => some position
  | missingEntry => none
  | failed diagnostic => diagnostic.position

end Rejection

end LineRobot
