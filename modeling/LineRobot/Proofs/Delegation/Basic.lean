import LineRobot.Proofs.Meaning.Interpreter
import LineRobot.Proofs.Syntax.Alike

/-! # Delegating waits

A program may wait by itself, or call a subroutine that does nothing but wait.
`ParsedProgram.Delegates` says that one program differs from another one just in this: some of its
wait statements are calls of a new subroutine, wherever they stand. All other syntax is the same but
for its places in the source, which move when text is replaced (`Expression.Alike`). -/

namespace LineRobot

namespace Expression

/-- Expressions that are alike are both the bare constant for truth or not. -/
theorem Alike.isTruth {condition condition' : Expression String}
    (alike : Alike condition condition') :
    Step.isTruth condition' = Step.isTruth condition := by
  cases alike <;> rfl

/-- Expressions evaluated for their effect, alike or with a wait delegated to the given
subroutine. -/
inductive Delegates (helper : String) : Expression String → Expression String → Prop
  /-- The expression stays. -/
  | keep {value value' : Expression String} : Alike value value' → Delegates helper value value'
  /-- The wait is delegated. -/
  | delegate {duration duration' : Expression String} {here there : Position} :
      Alike duration duration' →
      Delegates helper (.call Vocabulary.wait [duration] here) (.call helper [duration'] there)

end Expression

/-- First clauses of a `for` loop, alike or with a wait delegated. -/
inductive ForStart.Delegates (helper : String) : ForStart → ForStart → Prop
  /-- Nothing. -/
  | nothing : ForStart.Delegates helper .nothing .nothing
  /-- A declaration. -/
  | declaration {type : DeclaredType} {declarators declarators' : List Declarator}
      {here there : Position} :
      List.Forall₂ Declarator.Alike declarators declarators' →
      ForStart.Delegates helper (.declaration type declarators here)
        (.declaration type declarators' there)
  /-- An expression. -/
  | expression {value value' : Expression String} {here there : Position} :
      Expression.Delegates helper value value' →
      ForStart.Delegates helper (.expression value here) (.expression value' there)

/-- Statements that are alike but for waits that are delegated to the given subroutine. -/
inductive Statement.Delegates (helper : String) : Statement → Statement → Prop
  /-- A declaration. -/
  | declaration {type : DeclaredType} {declarators declarators' : List Declarator}
      {here there : Position} :
      List.Forall₂ Declarator.Alike declarators declarators' →
      Statement.Delegates helper (.declaration type declarators here)
        (.declaration type declarators' there)
  /-- An expression: here waits are delegated. -/
  | expression {value value' : Expression String} {here there : Position} :
      Expression.Delegates helper value value' →
      Statement.Delegates helper (.expression value here) (.expression value' there)
  /-- A condition with one branch. -/
  | branch {condition condition' : Expression String} {whenTrue whenTrue' : List Statement}
      {here there : Position} :
      Expression.Alike condition condition' →
      List.Forall₂ (Statement.Delegates helper) whenTrue whenTrue' →
      Statement.Delegates helper (.branch condition whenTrue none here)
        (.branch condition' whenTrue' none there)
  /-- A condition with two branches. -/
  | branches {condition condition' : Expression String}
      {whenTrue whenFalse whenTrue' whenFalse' : List Statement} {here there : Position} :
      Expression.Alike condition condition' →
      List.Forall₂ (Statement.Delegates helper) whenTrue whenTrue' →
      List.Forall₂ (Statement.Delegates helper) whenFalse whenFalse' →
      Statement.Delegates helper (.branch condition whenTrue (some whenFalse) here)
        (.branch condition' whenTrue' (some whenFalse') there)
  /-- A loop that checks its condition first. -/
  | whileLoop {condition condition' : Expression String} {body body' : List Statement}
      {here there : Position} :
      Expression.Alike condition condition' → List.Forall₂ (Statement.Delegates helper) body body' →
      Statement.Delegates helper (.whileLoop condition body here)
        (.whileLoop condition' body' there)
  /-- A loop that runs its body first. -/
  | doLoop {condition condition' : Expression String} {body body' : List Statement}
      {here there : Position} :
      List.Forall₂ (Statement.Delegates helper) body body' → Expression.Alike condition condition' →
      Statement.Delegates helper (.doLoop body condition here) (.doLoop body' condition' there)
  /-- A loop with a first clause, a condition and a step. -/
  | forLoop {start start' : ForStart} {condition step condition' step' : Option (Expression String)}
      {body body' : List Statement} {here there : Position} :
      ForStart.Delegates helper start start' → Option.Rel Expression.Alike condition condition' →
      Option.Rel Expression.Alike step step' →
        List.Forall₂ (Statement.Delegates helper) body body' →
      Statement.Delegates helper (.forLoop start condition step body here)
        (.forLoop start' condition' step' body' there)
  /-- A block. -/
  | block {body body' : List Statement} {here there : Position} :
      List.Forall₂ (Statement.Delegates helper) body body' →
      Statement.Delegates helper (.block body here) (.block body' there)
  /-- A jump out of the innermost loop. -/
  | leaveLoop {here there : Position} :
      Statement.Delegates helper (.leaveLoop here) (.leaveLoop there)
  /-- A jump to the next round of the innermost loop. -/
  | nextRound {here there : Position} :
      Statement.Delegates helper (.nextRound here) (.nextRound there)
  /-- A return. -/
  | giveBack {value value' : Option (Expression String)} {here there : Position} :
      Option.Rel Expression.Alike value value' →
      Statement.Delegates helper (.giveBack value here) (.giveBack value' there)

/-- Functions of the same name and parameters whose bodies are alike but for delegated waits. -/
structure ParsedFunction.Delegates (helper : String) (first second : ParsedFunction) : Prop where
  /-- They have the same name. -/
  name : second.name = first.name
  /-- They have the same parameters. -/
  parameters : second.parameters = first.parameters
  /-- Their bodies are alike but for delegated waits. -/
  body : List.Forall₂ (Statement.Delegates helper) first.body second.body

/-- A subroutine of the given name that waits for as long as its parameter says. -/
structure ParsedFunction.Waits (function : ParsedFunction) (helper parameter : String) : Prop where
  /-- Its name. -/
  name : function.name = helper
  /-- Its parameter. -/
  parameters : function.parameters = [parameter]
  /-- Its body is one wait statement. -/
  body : ∃ place callPlace namePlace,
    function.body =
      [.expression (.call Vocabulary.wait [.name parameter namePlace] callPlace) place]

/-- Functions whose waits are delegated, and the new subroutine anywhere among them. -/
inductive ParsedFunction.AllDelegate (helper parameter : String) :
    List ParsedFunction → List ParsedFunction → Prop
  /-- The new subroutine comes first. -/
  | added {waiter : ParsedFunction} {functions others : List ParsedFunction} :
      waiter.Waits helper parameter → List.Forall₂ (Delegates helper) functions others →
      AllDelegate helper parameter functions (waiter :: others)
  /-- Another function comes first. -/
  | cons {function other : ParsedFunction} {functions others : List ParsedFunction} :
      function.Delegates helper other → AllDelegate helper parameter functions others →
      AllDelegate helper parameter (function :: functions) (other :: others)

/-- The second program is the first one with some of its waits delegated to a new subroutine, which
stands anywhere among the others. -/
structure ParsedProgram.Delegates (helper parameter : String) (first second : ParsedProgram) :
    Prop where
  /-- The name of the subroutine is not reserved. -/
  helperFree : Vocabulary.isReserved helper = false
  /-- The name of its parameter is not reserved. -/
  parameterFree : Vocabulary.isReserved parameter = false
  /-- The subroutine is new. -/
  fresh : ∀ function ∈ first.subroutines, function.name ≠ helper
  /-- Waits of the entry function are delegated. -/
  entry : first.entry.Delegates helper second.entry
  /-- Waits of the subroutines are delegated, and the new one is among them. -/
  subroutines : ParsedFunction.AllDelegate helper parameter first.subroutines second.subroutines

end LineRobot
