import Mathlib.Data.Option.Basic
import Mathlib.Data.List.Forall2
import LineRobot.Statement.Basic

/-! # Syntax up to places

The places in a syntax tree say where it stands in a source, and are all that two texts of the same
tree differ in. Two trees are alike if they differ at most in their places (`Expression.Alike`,
`Statement.Alike`). -/

namespace LineRobot

namespace Expression

/-- Two expressions that differ at most in their places. -/
inductive Alike : Expression String → Expression String → Prop
  /-- The same number. -/
  | number {value : Float} {here there : Position} :
      Alike (.number value here) (.number value there)
  /-- The same name. -/
  | name {text : String} {here there : Position} : Alike (.name text here) (.name text there)
  /-- The same operator between two operands. -/
  | binary {operator : Operator} {left right left' right' : Expression String}
      {here there : Position} :
      Alike left left' → Alike right right' →
      Alike (.binary operator left right here) (.binary operator left' right' there)
  /-- The same connective between two operands. -/
  | logical {connective : Connective} {left right left' right' : Expression String}
      {here there : Position} :
      Alike left left' → Alike right right' →
      Alike (.logical connective left right here) (.logical connective left' right' there)
  /-- The same operator before one operand. -/
  | unary {operator : UnaryOperator} {operand operand' : Expression String}
      {here there : Position} :
      Alike operand operand' →
      Alike (.unary operator operand here) (.unary operator operand' there)
  /-- The same change of a variable. -/
  | change {direction : Direction} {moment : Moment} {target target' : Expression String}
      {here there : Position} :
      Alike target target' →
      Alike (.change direction moment target here) (.change direction moment target' there)
  /-- A condition and the two expressions it chooses from. -/
  | conditional {condition whenTrue whenFalse condition' whenTrue' whenFalse' : Expression String}
      {here there : Position} :
      Alike condition condition' → Alike whenTrue whenTrue' → Alike whenFalse whenFalse' →
      Alike (.conditional condition whenTrue whenFalse here)
        (.conditional condition' whenTrue' whenFalse' there)
  /-- The same kind of assignment. -/
  | assign {compound : Option Operator} {target value target' value' : Expression String}
      {here there : Position} :
      Alike target target' → Alike value value' →
      Alike (.assign compound target value here) (.assign compound target' value' there)
  /-- A call of the same name. -/
  | call {callee : String} {arguments arguments' : List (Expression String)}
      {here there : Position} :
      List.Forall₂ Alike arguments arguments' →
      Alike (.call callee arguments here) (.call callee arguments' there)
  /-- An element of an array. -/
  | index {array subscript array' subscript' : Expression String} {here there : Position} :
      Alike array array' → Alike subscript subscript' →
      Alike (.index array subscript here) (.index array' subscript' there)

end Expression

/-- Declarations of the same name that differ at most in their places. -/
structure Declarator.Alike (first second : Declarator) : Prop where
  /-- They declare the same name. -/
  name : second.name = first.name
  /-- Their first values are alike. -/
  value : Option.Rel Expression.Alike first.value second.value

/-- First clauses of a `for` loop that differ at most in their places. -/
inductive ForStart.Alike : ForStart → ForStart → Prop
  /-- Nothing. -/
  | nothing : ForStart.Alike .nothing .nothing
  /-- Declarations of the same type and names. -/
  | declaration {type : DeclaredType} {declarators declarators' : List Declarator}
      {here there : Position} :
      List.Forall₂ Declarator.Alike declarators declarators' →
      ForStart.Alike (.declaration type declarators here) (.declaration type declarators' there)
  /-- Expressions that are alike. -/
  | expression {value value' : Expression String} {here there : Position} :
      Expression.Alike value value' →
      ForStart.Alike (.expression value here) (.expression value' there)

/-- Statements that differ at most in their places. -/
inductive Statement.Alike : Statement → Statement → Prop
  /-- Declarations of the same type and names. -/
  | declaration {type : DeclaredType} {declarators declarators' : List Declarator}
      {here there : Position} :
      List.Forall₂ Declarator.Alike declarators declarators' →
      Statement.Alike (.declaration type declarators here) (.declaration type declarators' there)
  /-- Expressions that are alike. -/
  | expression {value value' : Expression String} {here there : Position} :
      Expression.Alike value value' →
      Statement.Alike (.expression value here) (.expression value' there)
  /-- A condition with one branch. -/
  | branch {condition condition' : Expression String} {whenTrue whenTrue' : List Statement}
      {here there : Position} :
      Expression.Alike condition condition' → List.Forall₂ Statement.Alike whenTrue whenTrue' →
      Statement.Alike (.branch condition whenTrue none here)
        (.branch condition' whenTrue' none there)
  /-- A condition with two branches. -/
  | branches {condition condition' : Expression String}
      {whenTrue whenFalse whenTrue' whenFalse' : List Statement} {here there : Position} :
      Expression.Alike condition condition' → List.Forall₂ Statement.Alike whenTrue whenTrue' →
      List.Forall₂ Statement.Alike whenFalse whenFalse' →
      Statement.Alike (.branch condition whenTrue (some whenFalse) here)
        (.branch condition' whenTrue' (some whenFalse') there)
  /-- A loop that checks its condition first. -/
  | whileLoop {condition condition' : Expression String} {body body' : List Statement}
      {here there : Position} :
      Expression.Alike condition condition' → List.Forall₂ Statement.Alike body body' →
      Statement.Alike (.whileLoop condition body here) (.whileLoop condition' body' there)
  /-- A loop that runs its body first. -/
  | doLoop {condition condition' : Expression String} {body body' : List Statement}
      {here there : Position} :
      List.Forall₂ Statement.Alike body body' → Expression.Alike condition condition' →
      Statement.Alike (.doLoop body condition here) (.doLoop body' condition' there)
  /-- A loop with a first clause, a condition and a step. -/
  | forLoop {start start' : ForStart} {condition step condition' step' : Option (Expression String)}
      {body body' : List Statement} {here there : Position} :
      ForStart.Alike start start' → Option.Rel Expression.Alike condition condition' →
      Option.Rel Expression.Alike step step' → List.Forall₂ Statement.Alike body body' →
      Statement.Alike (.forLoop start condition step body here)
        (.forLoop start' condition' step' body' there)
  /-- A block. -/
  | block {body body' : List Statement} {here there : Position} :
      List.Forall₂ Statement.Alike body body' →
      Statement.Alike (.block body here) (.block body' there)
  /-- A jump out of the innermost loop. -/
  | leaveLoop {here there : Position} : Statement.Alike (.leaveLoop here) (.leaveLoop there)
  /-- A jump to the next round of the innermost loop. -/
  | nextRound {here there : Position} : Statement.Alike (.nextRound here) (.nextRound there)
  /-- A return. -/
  | giveBack {value value' : Option (Expression String)} {here there : Position} :
      Option.Rel Expression.Alike value value' →
      Statement.Alike (.giveBack value here) (.giveBack value' there)

end LineRobot
