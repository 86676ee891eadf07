import LineRobot.Code.Program
import LineRobot.Proofs.Meaning.Basic

/-! # The meaning of parsed programs

The meaning of a source is read off the parsed bodies of its functions, structurally: there are no
instructions, no numbered locals and no operand stack. `Expression.value` and `Statement.meaning`
say what an expression and a statement do, `ParsedProgram.invoke` what a call does.

* Operands and arguments are evaluated from left to right; a connective and a conditional evaluate
  only the operands that they need.
* A compound assignment reads its target before it evaluates its value. The index of an array
  element is evaluated once; it is checked when the element is read or written.
* A name means its innermost declaration. A declaration evaluates its first value, or takes zero,
  before it binds the name. Parameters are in the block of the body; the first clause of a `for`
  loop is in a block around its condition, step and body.
* A `break` or `continue` ends the round of the innermost loop. A loop whose condition is the bare
  constant for truth suspends the program at the beginning of each round and does not look at the
  condition.
* A call without a `return` has the value zero.

Loops and calls can go on for ever. A meaning is therefore given for a number of rounds and of calls
inside each other; beyond them it is `Ending.unfinished`. -/

namespace LineRobot

/-- How a statement ends. -/
inductive Signal where
  /-- The next statement follows. -/
  | next
  /-- The innermost loop is left. -/
  | leaveLoop
  /-- The innermost loop goes on with its next round. -/
  | nextRound
  /-- The function is left with a value. -/
  | giveBack (value : Float)
deriving DecidableEq

namespace Meaning

/-- The value of a name: a local variable, a constant of the robot or the number of a slot name. -/
def readName (name : String) : Meaning Float := fun situation =>
  match Block.lookup? situation.blocks name with
  | some value => .ok (value, situation)
  | none =>
      match Constant.ofSpelling? name with
      | some constant => .ok (situation.world.memory.constant constant, situation)
      | none => need ((Vocabulary.slot? name).map Float.ofNat) situation

/-- Rounds of a loop, one after the other until one leaves it, at most as many as allowed. -/
def rounds (round : Meaning Signal) : (allowed : Nat) → Meaning Signal
  | 0 => stop .unfinished
  | allowed + 1 => do
      match ← round with
      | .next => rounds round allowed
      | .nextRound => rounds round allowed
      | .leaveLoop => pure .next
      | .giveBack value => pure (.giveBack value)

/-- What follows the body of a loop in the same round. -/
def afterBody (body rest : Meaning Signal) : Meaning Signal := do
  match ← body with
  | .next => rest
  | .nextRound => rest
  | signal => pure signal

/-- A meaning if a condition is true; if it is not, the loop is left. -/
def whileTrue (condition : Meaning Float) (body : Meaning Signal) : Meaning Signal := do
  let value ← condition
  if Value.isTrue value then body else pure .leaveLoop

/-- A function body: without a `return` it gives back zero. -/
def givenBack (body : Meaning Signal) : Meaning Float := do
  match ← body with
  | .giveBack value => pure value
  | _ => pure 0

end Meaning

open Meaning

/-- Whether the left operand of a connective decides its value. -/
def Connective.isDecidedBy : Connective → Float → Bool
  | .and, left => !Value.isTrue left
  | .or, left => Value.isTrue left

namespace Expression

/-- The array that an expression names. -/
def bank? : Expression String → Option Bank
  | .name text _ => Bank.ofSpelling? text
  | _ => none

/-- An expression that must name the array of the variable slots. -/
def needSlots (array : Expression String) : Meaning Unit :=
  if array.bank? = some .slots then pure () else stop .meaningless

end Expression

namespace Expression

variable (invoke : String → List Float → Meaning Float)

mutual

/-- The value of an expression. -/
def value : Expression String → Meaning Float
  | .number literal _ => pure literal
  | .name text _ => readName text
  | .binary operator left right position => do
      let left ← value left
      let right ← value right
      operate operator left right position
  | .logical connective left right _ => do
      let left ← value left
      if connective.isDecidedBy left then
        pure (Value.ofBool (Value.isTrue left))
      else do
        let right ← value right
        pure (Value.ofBool (Value.isTrue right))
  | .unary operator operand _ => do
      let operand ← value operand
      pure (operator.apply operand)
  | .change direction moment target position =>
      match target with
      | .name text _ => do
          let old ← readLocal text
          let new := direction.apply old
          writeLocal text new
          pure (moment.choose old new)
      | .index array subscript _ => do
          array.needSlots
          let subscript ← value subscript
          let slot ← element .slots subscript position
          let memory ← memory
          let old := memory.element .slots slot
          let new := direction.apply old
          setMemory (memory.setSlot slot new)
          pure (moment.choose old new)
      | _ => stop .meaningless
  | .conditional condition whenTrue whenFalse _ => do
      let condition ← value condition
      if Value.isTrue condition then value whenTrue else value whenFalse
  | .assign compound target assigned position =>
      match target with
      | .name text _ =>
          match compound with
          | none => do
              let new ← value assigned
              writeLocal text new
              pure new
          | some operator => do
              let old ← readLocal text
              let operand ← value assigned
              let new ← operate operator old operand position
              writeLocal text new
              pure new
      | .index array subscript _ => do
          array.needSlots
          let subscript ← value subscript
          match compound with
          | none => do
              let new ← value assigned
              let slot ← element .slots subscript position
              let memory ← memory
              setMemory (memory.setSlot slot new)
              pure new
          | some operator => do
              let slot ← element .slots subscript position
              let before ← memory
              let operand ← value assigned
              let new ← operate operator (before.element .slots slot) operand position
              let memory ← memory
              setMemory (memory.setSlot slot new)
              pure new
      | _ => stop .meaningless
  | .call callee arguments _ => do
      let arguments ← values arguments
      if callee = Vocabulary.motor then
        match arguments with
        | [first, second] => do
            let memory ← memory
            setMemory (memory.drive ⟨first, second⟩)
            pure 0
        | _ => stop .meaningless
      else
        invoke callee arguments
  | .index array subscript position => do
      let bank ← need array.bank?
      let subscript ← value subscript
      let cell ← element bank subscript position
      let memory ← memory
      pure (memory.element bank cell)

/-- The values of expressions, from left to right. -/
def values : List (Expression String) → Meaning (List Float)
  | [] => pure []
  | first :: others => do
      let first ← value first
      let others ← values others
      pure (first :: others)

end

/-- The value of an expression, or the given one if there is none. -/
def valueOr (missing : Float) : Option (Expression String) → Meaning Float
  | some expression => expression.value invoke
  | none => pure missing

/-- An expression evaluated for its effect. A call of the wait function suspends the program. -/
def effect (position : Position) (expression : Expression String) : Meaning Unit :=
  match expression with
  | .call callee [duration] _ =>
      if callee = Vocabulary.wait then do
        let duration ← duration.value invoke
        waitFor duration position
      else
        discard (expression.value invoke)
  | _ => discard (expression.value invoke)

end Expression

namespace Declarator

/-- Declarations in the innermost block, from left to right. -/
def meanings (invoke : String → List Float → Meaning Float) : List Declarator → Meaning Unit
  | [] => pure ()
  | declarator :: others => do
      let value ← Expression.valueOr invoke 0 declarator.value
      declare declarator.name value
      meanings invoke others

end Declarator

/-- What the first clause of a `for` loop does. -/
def ForStart.meaning (invoke : String → List Float → Meaning Float) : ForStart → Meaning Unit
  | .nothing => pure ()
  | .declaration _ declarators _ => Declarator.meanings invoke declarators
  | .expression value position => value.effect invoke position

namespace Statement

variable (allowed : Nat) (invoke : String → List Float → Meaning Float)

mutual

/-- What a statement does, with the given number of rounds allowed for each of its loops. -/
def meaning : Statement → Meaning Signal
  | .declaration _ declarators _ => do
      Declarator.meanings invoke declarators
      pure .next
  | .expression value position => do
      value.effect invoke position
      pure .next
  | .branch condition whenTrue whenFalse _ => do
      let condition ← condition.value invoke
      if Value.isTrue condition then inBlock (meanings whenTrue) else otherwise whenFalse
  | .whileLoop condition body _ =>
      if Step.isTruth condition then
        rounds (do suspend .tick; inBlock (meanings body)) allowed
      else
        rounds (whileTrue (condition.value invoke) (inBlock (meanings body))) allowed
  | .doLoop body condition _ =>
      rounds (afterBody (inBlock (meanings body))
        (whileTrue (condition.value invoke) (pure .next))) allowed
  | .forLoop start condition step body _ => inBlock do
      start.meaning invoke
      rounds (whileTrue (Expression.valueOr invoke 1 condition)
        (afterBody (inBlock (meanings body)) do
          discard (Expression.valueOr invoke 0 step)
          pure .next)) allowed
  | .block body _ => inBlock (meanings body)
  | .leaveLoop _ => pure .leaveLoop
  | .nextRound _ => pure .nextRound
  | .giveBack value _ => do
      let value ← Expression.valueOr invoke 0 value
      pure (.giveBack value)

/-- What statements do, one after the other. -/
def meanings : List Statement → Meaning Signal
  | [] => pure .next
  | first :: others => do
      match ← meaning first with
      | .next => meanings others
      | signal => pure signal

/-- What an optional second branch does. -/
def otherwise : Option (List Statement) → Meaning Signal
  | none => pure .next
  | some statements => inBlock (meanings statements)

end

end Statement

/-- A function as parsed. -/
structure ParsedFunction where
  /-- The name. -/
  name : String
  /-- The names of the parameters. -/
  parameters : List String
  /-- The statements. -/
  body : List Statement
  /-- The place of the name. -/
  position : Position

/-- A program as parsed. -/
structure ParsedProgram where
  /-- The entry function. -/
  entry : ParsedFunction
  /-- The other functions, in the order of the source. -/
  subroutines : List ParsedFunction

/-- The parsed function of a definition. -/
def ParsedFunction.ofDefinition (definition : Definition) : Except Rejection ParsedFunction :=
  match Statement.ofText definition.bodyPosition definition.body with
  | .error error => .error (.located (.unreadable error.cause) error.position)
  | .ok statements =>
      .ok ⟨definition.name, definition.parameters, statements, definition.position⟩

/-- The meaning of a body when it is called. -/
def ParsedFunction.meaning (function : ParsedFunction) (allowed : Nat)
    (invoke : String → List Float → Meaning Float) (arguments : List Float) : Meaning Float :=
  inCall (function.parameters.zip arguments).reverse
    (givenBack (Statement.meanings allowed invoke function.body))

namespace ParsedProgram

/-- The parsed program of a source text. -/
def ofSource (source : String) : Except Rejection ParsedProgram := do
  let definitions ← Definition.all (Source.clean source.toList)
  let (entry, subroutines) ← Definition.split definitions
  let entry ← ParsedFunction.ofDefinition entry
  let subroutines ← subroutines.mapM ParsedFunction.ofDefinition
  return ⟨entry, subroutines⟩

/-- The subroutine with a given name. -/
def subroutine? (program : ParsedProgram) (name : String) : Option ParsedFunction :=
  program.subroutines.find? fun function => function.name = name

/-- The meaning of a call of a subroutine, with the given number of calls inside each other
allowed. -/
def invoke (program : ParsedProgram) : (allowed : Nat) → String → List Float → Meaning Float
  | 0, _, _ => stop .unfinished
  | allowed + 1, name, arguments =>
      match program.subroutine? name with
      | none => stop .meaningless
      | some function =>
          if function.parameters.length = arguments.length then
            function.meaning allowed (invoke program allowed) arguments
          else
            stop .meaningless

/-- How a program ends that is started with the given memory and resumed once for each entry of a
script, with these contents of the sensor channels. Parameters of the entry function have no
meaning. -/
def run (program : ParsedProgram) (allowed : Nat) (memory : Memory) : (script : List Cells) → Ending
  | [] => .halted []
  | channels :: later =>
      let world : World := ⟨{ memory with sensors := channels }, later, []⟩
      let body := Statement.meanings allowed (program.invoke allowed) program.entry.body
      match inCall [] (givenBack body) ⟨[], world⟩ with
      | .ok (_, after) => .halted (after.world.ended .completed)
      | .error ending => ending

end ParsedProgram

end LineRobot
