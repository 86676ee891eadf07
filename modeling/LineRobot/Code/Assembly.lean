import LineRobot.Code.Instruction
import LineRobot.Code.Layout
import LineRobot.Code.Scope

/-! # Making code

`Formula.code` and `Step.code` give the instructions of a formula and of a step, `start` being the
index of the first one, and `Routine.code` the code of a whole function. All names are resolved
here: locals become numbers, the robot's names become instructions, called functions become indices.

The code of a formula leaves one operand on the stack, the code of a step leaves none. Jump targets
come from the sizes of `Layout`; a `break` or `continue` goes to the targets of the innermost
loop. -/

namespace LineRobot

/-- What is known of a function that can be called. -/
structure Signature where
  /-- Its index among the functions of the program. -/
  index : Nat
  /-- The number of its parameters. -/
  arity : Nat
deriving DecidableEq, Repr

/-- Where a loop is left and where its next round begins. -/
structure LoopTargets where
  /-- The index after the loop. -/
  leave : Nat
  /-- The index at which the next round begins. -/
  next : Nat
deriving DecidableEq, Repr

/-- The functions that can be called, by name. -/
abbrev FunctionTable : Type := List (String × Signature)

namespace Formula

/-- The array that a formula names. -/
def bank : Formula → Except Rejection Bank
  | .name text position =>
    match Bank.ofSpelling? text with
    | some bank => .ok bank
    | none => .error (.located .unindexable position)
  | other => .error (.located .unindexable other.position)

/-- Checks that a formula names the array that can be written. -/
def writableBank (array : Formula) : Except Rejection Unit := do
  match ← bank array with
  | .slots => return ()
  | .sensors => throw (.located .sensorAssigned array.position)

/-- The local that a name means, which must be one that can be assigned to. -/
def writableLocal (scope : Scope) (name : String) (position : Position) :
    Except Rejection Nat :=
  match scope.lookup? name with
  | some ⟨slot, true⟩ => .ok slot
  | some ⟨_, false⟩ => .error (.located (.constantAssigned name) position)
  | none =>
    if Vocabulary.isReserved name then .error (.located (.reservedAssigned name) position)
    else .error (.located (.unknownName name) position)

/-- The instruction for a name: a local, a constant of the robot or the number of a slot name. -/
def nameInstruction (scope : Scope) (name : String) : Except Reason Instruction :=
  match scope.lookup? name with
  | some found => .ok (.load found.slot)
  | none =>
    match Constant.ofSpelling? name with
    | some constant => .ok (.constant constant)
    | none =>
      match Bank.ofSpelling? name with
      | some bank => .error (.arrayWithoutIndex bank)
      | none =>
        match Vocabulary.slot? name with
        | some slot => .ok (.push (Float.ofNat slot))
        | none => .error (.unknownName name)

/-- The instruction of a call with the given number of arguments. -/
def callInstruction (functions : FunctionTable) (callee : Callee) (count : Nat) :
    Except Reason Instruction :=
  match callee with
  | .motor =>
    if count = 2 then .ok .motor else .error (.argumentCount Vocabulary.motor 2 count)
  | .subroutine name =>
    match functions.lookup name with
    | none => .error (.unknownFunction name)
    | some signature =>
      if count = signature.arity then .ok (.call signature.index count)
      else .error (.argumentCount name signature.arity count)
  | .unknown name =>
    if name = Vocabulary.entry then .error .entryCalled else .error (.unknownFunction name)

/-- A result whose failure is placed. -/
def placed {α : Type} (position : Position) (result : Except Reason α) : Except Rejection α :=
  result.mapError fun reason => .located reason position

/-- The jump that skips the right operand of a connective. -/
def decidingJump : Connective → Nat → Instruction
  | .and => .jumpIfFalse
  | .or => .jumpIfTrue

/-- The value of a connective whose operands do not decide it. -/
def undecidedValue : Connective → Float
  | .and => 1
  | .or => 0

/-- The value of a connective that one operand decides. -/
def decidedValue : Connective → Float
  | .and => 0
  | .or => 1

mutual

/-- The instructions of a formula. -/
def code (functions : FunctionTable) (scope : Scope) (start : Nat) :
    Formula → Except Rejection (List Placed)
  | .number value position => return [⟨.push value, position⟩]
  | .name text position => do
    let instruction ← placed position (nameInstruction scope text)
    return [⟨instruction, position⟩]
  | .binary operator left right position => do
    let leftCode ← code functions scope start left
    let rightCode ← code functions scope (start + size left) right
    return leftCode ++ rightCode ++ [⟨.binary operator, position⟩]
  | .logical connective left right position => do
    let leftCode ← code functions scope start left
    let rightCode ← code functions scope (start + size left + 1) right
    let decided := start + size left + size right + 4
    return leftCode ++ ⟨decidingJump connective decided, position⟩ ::
      rightCode ++ [⟨decidingJump connective decided, position⟩,
        ⟨.push (undecidedValue connective), position⟩, ⟨.jump (decided + 1), position⟩,
        ⟨.push (decidedValue connective), position⟩]
  | .unary operator operand position => do
    let operandCode ← code functions scope start operand
    return operandCode ++ [⟨.unary operator, position⟩]
  | .change direction moment operand position =>
    match operand with
    | .name text namePosition => do
      let slot ← writableLocal scope text namePosition
      return [⟨.change (.localSlot slot) direction moment, position⟩]
    | .index array index _ => do
      writableBank array
      let indexCode ← code functions scope start index
      return indexCode ++ [⟨.change .slot direction moment, position⟩]
    | _ => throw (.located .unchangeable position)
  | .conditional condition whenTrue whenFalse position => do
    let conditionCode ← code functions scope start condition
    let trueCode ← code functions scope (start + size condition + 1) whenTrue
    let otherwise := start + size condition + size whenTrue + 2
    let falseCode ← code functions scope otherwise whenFalse
    return conditionCode ++ ⟨.jumpIfFalse otherwise, position⟩ ::
      trueCode ++ ⟨.jump (otherwise + size whenFalse), position⟩ :: falseCode
  | .assign compound target value position =>
    match target with
    | .name text namePosition => do
      let slot ← writableLocal scope text namePosition
      match compound with
      | none =>
        let valueCode ← code functions scope start value
        return valueCode ++ [⟨.store slot, position⟩]
      | some operator =>
        let valueCode ← code functions scope (start + 1) value
        return ⟨.load slot, position⟩ ::
          valueCode ++ [⟨.binary operator, position⟩, ⟨.store slot, position⟩]
    | .index array index _ => do
      writableBank array
      let indexCode ← code functions scope start index
      match compound with
      | none =>
        let valueCode ← code functions scope (start + size index) value
        return indexCode ++ valueCode ++ [⟨.deposit, position⟩]
      | some operator =>
        let valueCode ← code functions scope (start + size index + 2) value
        return indexCode ++ ⟨.duplicate, position⟩ :: ⟨.fetch .slots, position⟩ ::
          valueCode ++ [⟨.binary operator, position⟩, ⟨.deposit, position⟩]
    | _ => throw (.located .unassignable position)
  | .call callee arguments position => do
    let instruction ← placed position (callInstruction functions callee arguments.length)
    let argumentCode ← codes functions scope start arguments
    return argumentCode ++ [⟨instruction, position⟩]
  | .index array index position => do
    let bank ← bank array
    let indexCode ← code functions scope start index
    return indexCode ++ [⟨.fetch bank, position⟩]

/-- The instructions of formulas, one after the other. -/
def codes (functions : FunctionTable) (scope : Scope) (start : Nat) :
    List Formula → Except Rejection (List Placed)
  | [] => return []
  | first :: others => do
    let firstCode ← code functions scope start first
    let otherCode ← codes functions scope (start + size first) others
    return firstCode ++ otherCode

end

/-- The instructions of a formula, or of zero if there is none. -/
def codeOrZero (functions : FunctionTable) (scope : Scope) (start : Nat) (position : Position) :
    Option Formula → Except Rejection (List Placed)
  | some formula => code functions scope start formula
  | none => return [⟨.push 0, position⟩]

end Formula

namespace Step

/-- The instructions of a binding. A binding without a value must be writable, and its name must not
be declared before in the same scope. -/
def bindingCode (functions : FunctionTable) (scope : Scope) (start : Nat) (name : String)
    (writable : Bool) (value : Option Formula) (position : Position) :
    Except Rejection (List Placed) := do
  if value.isNone && !writable then
    throw (.located (.uninitialized name) position)
  let valueCode ← Formula.codeOrZero functions scope start position value
  Formula.placed position (scope.canBind name)
  return valueCode ++ [⟨.store scope.next, position⟩, ⟨.pop, position⟩]

/-- The jump to one of the targets of the innermost loop. -/
def loopJump (targets : Option LoopTargets) (target : LoopTargets → Nat) (missing : Reason)
    (position : Position) : Except Rejection (List Placed) :=
  match targets with
  | some targets => .ok [⟨.jump (target targets), position⟩]
  | none => .error (.located missing position)

/-- The instructions of the condition of a `for` loop, which leaves the loop if it is not true. -/
def guardCode (functions : FunctionTable) (scope : Scope) (start leave : Nat)
    (position : Position) : Option Formula → Except Rejection (List Placed)
  | none => return []
  | some condition => do
    let conditionCode ← condition.code functions scope start
    return conditionCode ++ [⟨.jumpIfFalse leave, position⟩]

/-- The instructions of the step of a `for` loop. -/
def advanceCode (functions : FunctionTable) (scope : Scope) (start : Nat) (position : Position) :
    Option Formula → Except Rejection (List Placed)
  | none => return []
  | some step => do
    let stepCode ← step.code functions scope start
    return stepCode ++ [⟨.pop, position⟩]

mutual

/-- The instructions of a step. -/
def code (functions : FunctionTable) (targets : Option LoopTargets) (scope : Scope)
    (start : Nat) : Step → Except Rejection (List Placed)
  | .bind name writable value position =>
    bindingCode functions scope start name writable value position
  | .evaluate value position => do
    let valueCode ← value.code functions scope start
    return valueCode ++ [⟨.pop, position⟩]
  | .tick position => return [⟨.tick, position⟩]
  | .wait duration position => do
    let durationCode ← duration.code functions scope start
    return durationCode ++ [⟨.wait, position⟩]
  | .branch condition whenTrue whenFalse position => do
    let conditionCode ← condition.code functions scope start
    let inside := start + condition.size + 1
    let trueCode ← codes functions targets scope.opened inside whenTrue
    let after := inside + sizes whenTrue
    let falseCode ← otherwiseCode functions targets scope after position whenFalse
    let otherwise := if whenFalse.isSome then after + 1 else after
    return conditionCode ++ ⟨.jumpIfFalse otherwise, position⟩ :: trueCode ++ falseCode
  | .forever body position => do
    let loop : LoopTargets := ⟨start + sizes body + 1, start⟩
    let bodyCode ← codes functions (some loop) scope.opened start body
    return bodyCode ++ [⟨.jump start, position⟩]
  | .whileLoop condition body position => do
    let conditionCode ← condition.code functions scope start
    let inside := start + condition.size + 1
    let loop : LoopTargets := ⟨inside + sizes body + 1, start⟩
    let bodyCode ← codes functions (some loop) scope.opened inside body
    return conditionCode ++ ⟨.jumpIfFalse loop.leave, position⟩ ::
      bodyCode ++ [⟨.jump start, position⟩]
  | .doLoop body condition position => do
    let check := start + sizes body
    let loop : LoopTargets := ⟨check + condition.size + 1, check⟩
    let bodyCode ← codes functions (some loop) scope.opened start body
    let conditionCode ← condition.code functions scope check
    return bodyCode ++ conditionCode ++ [⟨.jumpIfTrue start, position⟩]
  | .forLoop first condition step body position => do
    let firstCode ← codes functions targets scope.opened start first
    let scope := scope.opened.afterSteps first
    let round := start + sizes first
    let inside := round + clauseSize condition
    let advance := inside + sizes body
    let loop : LoopTargets := ⟨advance + clauseSize step + 1, advance⟩
    let conditionCode ← guardCode functions scope round loop.leave position condition
    let bodyCode ← codes functions (some loop) scope.opened inside body
    let stepCode ← advanceCode functions scope advance position step
    return firstCode ++ conditionCode ++ bodyCode ++ stepCode ++ [⟨.jump round, position⟩]
  | .block body _ => codes functions targets scope.opened start body
  | .leaveLoop position => loopJump targets LoopTargets.leave .breakOutsideLoop position
  | .nextRound position => loopJump targets LoopTargets.next .continueOutsideLoop position
  | .giveBack value position => do
    let valueCode ← Formula.codeOrZero functions scope start position value
    return valueCode ++ [⟨.giveBack, position⟩]

/-- The instructions of steps, one after the other in one scope. -/
def codes (functions : FunctionTable) (targets : Option LoopTargets) (scope : Scope)
    (start : Nat) : List Step → Except Rejection (List Placed)
  | [] => return []
  | first :: others => do
    let firstCode ← code functions targets scope start first
    let otherCode ← codes functions targets (scope.afterStep first) (start + first.size) others
    return firstCode ++ otherCode

/-- The instructions of an optional second branch, after a jump over it that ends the first. -/
def otherwiseCode (functions : FunctionTable) (targets : Option LoopTargets) (scope : Scope)
    (start : Nat) (position : Position) :
    Option (List Step) → Except Rejection (List Placed)
  | none => return []
  | some steps => do
    let stepCode ← codes functions targets scope.opened (start + 1) steps
    return ⟨.jump (start + 1 + sizes steps), position⟩ :: stepCode

end

end Step

namespace Routine

/-- The code of a routine whose parameters are the given ones: the code of its steps, and then the
value zero given back. -/
def code (functions : FunctionTable) (routine : Routine) (parameters : List String) :
    Except Rejection Code := do
  let scope ← Formula.placed routine.position (Scope.empty.withParameters parameters)
  let body ← Step.codes functions none scope 0 routine.body
  let last : List Placed := [⟨.push 0, routine.position⟩, ⟨.giveBack, routine.position⟩]
  return {
    name := routine.name
    arity := parameters.length
    localCount := parameters.length + Step.slots 0 routine.body
    body := (body ++ last).toArray
    position := routine.position }

end Routine

end LineRobot
