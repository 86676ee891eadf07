import LineRobot.Routine.Basic
import LineRobot.Source.Definition
import LineRobot.Statement.Parser

/-! # Making routines of function bodies

`Routine.ofDefinition` reads the body of a definition and resolves it, given the names of the
subroutines. A call of the motors or of a subroutine is resolved; any other call stays unknown and
is judged later. The wait function is not called like others: the statement `wait_ms(e);` becomes a
`Step.wait`, and anywhere else the name is refused. -/

namespace LineRobot

namespace Callee

/-- What a called name means, among the given subroutines. -/
def ofName (subroutines : List String) (name : String) : Callee :=
  if name = Vocabulary.motor then motor
  else if subroutines.contains name then subroutine name
  else unknown name

end Callee

namespace Formula

mutual

/-- An expression with its calls resolved. -/
def ofExpression (subroutines : List String) : Expression String → Except Rejection Formula
  | .number value position => return .number value position
  | .name text position => return .name text position
  | .binary operator left right position => do
    let left ← ofExpression subroutines left
    let right ← ofExpression subroutines right
    return .binary operator left right position
  | .logical connective left right position => do
    let left ← ofExpression subroutines left
    let right ← ofExpression subroutines right
    return .logical connective left right position
  | .unary operator operand position => do
    let operand ← ofExpression subroutines operand
    return .unary operator operand position
  | .change direction moment operand position => do
    let operand ← ofExpression subroutines operand
    return .change direction moment operand position
  | .conditional condition whenTrue whenFalse position => do
    let condition ← ofExpression subroutines condition
    let whenTrue ← ofExpression subroutines whenTrue
    let whenFalse ← ofExpression subroutines whenFalse
    return .conditional condition whenTrue whenFalse position
  | .assign compound target value position => do
    let target ← ofExpression subroutines target
    let value ← ofExpression subroutines value
    return .assign compound target value position
  | .call name arguments position => do
    if name = Vocabulary.wait then
      throw (.located .waitInExpression position)
    let arguments ← ofExpressions subroutines arguments
    return .call (Callee.ofName subroutines name) arguments position
  | .index array index position => do
    let array ← ofExpression subroutines array
    let index ← ofExpression subroutines index
    return .index array index position

/-- Expressions with their calls resolved, from left to right. -/
def ofExpressions (subroutines : List String) :
    List (Expression String) → Except Rejection (List Formula)
  | [] => return []
  | first :: others => do
    let first ← ofExpression subroutines first
    let others ← ofExpressions subroutines others
    return first :: others

end

/-- An expression with its calls resolved, if there is one. -/
def ofExpression? (subroutines : List String) :
    Option (Expression String) → Except Rejection (Option Formula)
  | none => return none
  | some expression => do
    let formula ← ofExpression subroutines expression
    return some formula

end Formula

namespace Step

/-- Whether an expression is the bare name of the constant for truth. -/
def isTruth : Expression String → Bool
  | .name text _ => text = Constant.truth.spelling
  | _ => false

/-- The bindings of a declaration. -/
def ofDeclarators (subroutines : List String) (type : DeclaredType) :
    List Declarator → Except Rejection (List Step)
  | [] => return []
  | declarator :: others => do
    let value ← Formula.ofExpression? subroutines declarator.value
    let others ← ofDeclarators subroutines type others
    return .bind declarator.name (!type.constant) value declarator.position :: others

/-- The step of an expression statement: a wait, or an evaluation. -/
def ofExpressionStatement (subroutines : List String) (position : Position) :
    Expression String → Except Rejection Step
  | .call name arguments callPosition =>
    if name = Vocabulary.wait then
      match arguments with
      | [duration] => do
        let duration ← Formula.ofExpression subroutines duration
        return .wait duration position
      | _ => throw (.located (.waitArguments arguments.length) callPosition)
    else do
      let value ← Formula.ofExpression subroutines (.call name arguments callPosition)
      return .evaluate value position
  | expression => do
    let value ← Formula.ofExpression subroutines expression
    return .evaluate value position

/-- The first steps of a `for` loop. -/
def ofForStart (subroutines : List String) : ForStart → Except Rejection (List Step)
  | .nothing => return []
  | .declaration type declarators _ => ofDeclarators subroutines type declarators
  | .expression value position => do
    let step ← ofExpressionStatement subroutines position value
    return [step]

mutual

/-- The steps of a statement. -/
def ofStatement (subroutines : List String) : Statement → Except Rejection (List Step)
  | .declaration type declarators _ => ofDeclarators subroutines type declarators
  | .expression value position => do
    let step ← ofExpressionStatement subroutines position value
    return [step]
  | .branch condition whenTrue whenFalse position => do
    let condition ← Formula.ofExpression subroutines condition
    let whenTrue ← ofStatements subroutines whenTrue
    let whenFalse ← ofStatements? subroutines whenFalse
    return [.branch condition whenTrue whenFalse position]
  | .whileLoop condition body position =>
    if isTruth condition then do
      let body ← ofStatements subroutines body
      return [.forever (.tick position :: body) position]
    else do
      let condition ← Formula.ofExpression subroutines condition
      let body ← ofStatements subroutines body
      return [.whileLoop condition body position]
  | .doLoop body condition position => do
    let body ← ofStatements subroutines body
    let condition ← Formula.ofExpression subroutines condition
    return [.doLoop body condition position]
  | .forLoop start condition step body position => do
    let start ← ofForStart subroutines start
    let condition ← Formula.ofExpression? subroutines condition
    let step ← Formula.ofExpression? subroutines step
    let body ← ofStatements subroutines body
    return [.forLoop start condition step body position]
  | .block body position => do
    let body ← ofStatements subroutines body
    return [.block body position]
  | .leaveLoop position => return [.leaveLoop position]
  | .nextRound position => return [.nextRound position]
  | .giveBack value position => do
    let value ← Formula.ofExpression? subroutines value
    return [.giveBack value position]

/-- The steps of statements, in order. -/
def ofStatements (subroutines : List String) :
    List Statement → Except Rejection (List Step)
  | [] => return []
  | first :: others => do
    let first ← ofStatement subroutines first
    let others ← ofStatements subroutines others
    return first ++ others

/-- The steps of a branch, if there is one. -/
def ofStatements? (subroutines : List String) :
    Option (List Statement) → Except Rejection (Option (List Step))
  | none => return none
  | some statements => do
    let steps ← ofStatements subroutines statements
    return some steps

end

end Step

/-- The routine of a definition, among the given subroutines. -/
def Routine.ofDefinition (subroutines : List String) (definition : Definition) :
    Except Rejection Routine :=
  match Statement.ofText definition.bodyPosition definition.body with
  | .error error => .error (.located (.unreadable error.cause) error.position)
  | .ok statements => do
    let body ← Step.ofStatements subroutines statements
    return ⟨definition.name, definition.parameters, body, definition.position⟩

end LineRobot
