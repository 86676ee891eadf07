import Mathlib.Data.List.Forall2
import LineRobot.Code.Program
import LineRobot.Proofs.Meaning.Interpreter

/-! # What code a piece of syntax has

`Expression.Emits` and `Statement.Emits` relate parsed syntax to its code, one rule for each form,
with the two stages in between left out: names are resolved here, jumps go by the lengths of the
code around them, and a statement says in which scope the next one stands. All that is proved of
code is proved along these rules. -/

namespace LineRobot

namespace Expression

variable (functions : FunctionTable) (scope : Scope)

mutual

/-- The code of an expression in a scope, from a given index on. It leaves the value on the
stack. -/
inductive Emits : Nat → Expression String → List Placed → Prop
  /-- A number is pushed. -/
  | number {start : Nat} {value : Float} {position : Position} :
      Emits start (.number value position) [⟨.push value, position⟩]
  /-- A name is one instruction. -/
  | name {start : Nat} {text : String} {position : Position} {instruction : Instruction} :
      Formula.nameInstruction scope text = .ok instruction →
      Emits start (.name text position) [⟨instruction, position⟩]
  /-- An operator comes after its operands. -/
  | binary {start : Nat} {operator : Operator} {left right : Expression String}
      {position : Position} {leftCode rightCode : List Placed} :
      Emits start left leftCode → Emits (start + leftCode.length) right rightCode →
      Emits start (.binary operator left right position)
        (leftCode ++ rightCode ++ [⟨.binary operator, position⟩])
  /-- A connective jumps to the value that one operand decides, or goes on to the other value. -/
  | logical {start : Nat} {connective : Connective} {left right : Expression String}
      {position : Position} {leftCode rightCode : List Placed} :
      Emits start left leftCode → Emits (start + leftCode.length + 1) right rightCode →
      Emits start (.logical connective left right position)
        (leftCode ++
          ⟨Formula.decidingJump connective (start + leftCode.length + rightCode.length + 4),
            position⟩ :: rightCode ++
          [⟨Formula.decidingJump connective (start + leftCode.length + rightCode.length + 4),
              position⟩,
            ⟨.push (Formula.undecidedValue connective), position⟩,
            ⟨.jump (start + leftCode.length + rightCode.length + 4 + 1), position⟩,
            ⟨.push (Formula.decidedValue connective), position⟩])
  /-- An operator comes after its operand. -/
  | unary {start : Nat} {operator : UnaryOperator} {operand : Expression String}
      {position : Position} {operandCode : List Placed} :
      Emits start operand operandCode →
      Emits start (.unary operator operand position)
        (operandCode ++ [⟨.unary operator, position⟩])
  /-- A local is changed in place. -/
  | changeLocal {start : Nat} {direction : Direction} {moment : Moment} {text : String}
      {namePosition position : Position} {slot : Nat} :
      scope.lookup? text = some ⟨slot, true⟩ →
      Emits start (.change direction moment (.name text namePosition) position)
        [⟨.change (.localSlot slot) direction moment, position⟩]
  /-- A variable slot is changed after its index. -/
  | changeSlot {start : Nat} {direction : Direction} {moment : Moment}
      {array subscript : Expression String} {place position : Position}
      {subscriptCode : List Placed} :
      array.bank? = some .slots → Emits start subscript subscriptCode →
      Emits start (.change direction moment (.index array subscript place) position)
        (subscriptCode ++ [⟨.change .slot direction moment, position⟩])
  /-- A condition jumps over the first of two expressions, which ends with a jump over the other. -/
  | conditional {start : Nat} {condition whenTrue whenFalse : Expression String}
      {position : Position} {conditionCode trueCode falseCode : List Placed} :
      Emits start condition conditionCode →
      Emits (start + conditionCode.length + 1) whenTrue trueCode →
      Emits (start + conditionCode.length + trueCode.length + 2) whenFalse falseCode →
      Emits start (.conditional condition whenTrue whenFalse position)
        (conditionCode ++
          ⟨.jumpIfFalse (start + conditionCode.length + trueCode.length + 2), position⟩ ::
          trueCode ++
          ⟨.jump (start + conditionCode.length + trueCode.length + 2 + falseCode.length),
            position⟩ :: falseCode)
  /-- A local is set to a value. -/
  | assignLocal {start : Nat} {text : String} {value : Expression String}
      {namePosition position : Position} {slot : Nat} {valueCode : List Placed} :
      scope.lookup? text = some ⟨slot, true⟩ → Emits start value valueCode →
      Emits start (.assign none (.name text namePosition) value position)
        (valueCode ++ [⟨.store slot, position⟩])
  /-- A local is set to its old value combined with another one. -/
  | updateLocal {start : Nat} {operator : Operator} {text : String} {value : Expression String}
      {namePosition position : Position} {slot : Nat} {valueCode : List Placed} :
      scope.lookup? text = some ⟨slot, true⟩ → Emits (start + 1) value valueCode →
      Emits start (.assign (some operator) (.name text namePosition) value position)
        (⟨.load slot, position⟩ ::
          valueCode ++ [⟨.binary operator, position⟩, ⟨.store slot, position⟩])
  /-- A variable slot is set to a value. -/
  | assignSlot {start : Nat} {array subscript value : Expression String}
      {place position : Position} {subscriptCode valueCode : List Placed} :
      array.bank? = some .slots → Emits start subscript subscriptCode →
      Emits (start + subscriptCode.length) value valueCode →
      Emits start (.assign none (.index array subscript place) value position)
        (subscriptCode ++ valueCode ++ [⟨.deposit, position⟩])
  /-- A variable slot is set to its old value combined with another one. -/
  | updateSlot {start : Nat} {operator : Operator} {array subscript value : Expression String}
      {place position : Position} {subscriptCode valueCode : List Placed} :
      array.bank? = some .slots → Emits start subscript subscriptCode →
      Emits (start + subscriptCode.length + 2) value valueCode →
      Emits start (.assign (some operator) (.index array subscript place) value position)
        (subscriptCode ++ ⟨.duplicate, position⟩ :: ⟨.fetch .slots, position⟩ ::
          valueCode ++ [⟨.binary operator, position⟩, ⟨.deposit, position⟩])
  /-- The motors are set to two arguments. -/
  | drive {start : Nat} {arguments : List (Expression String)} {position : Position}
      {argumentCode : List Placed} :
      arguments.length = 2 → EmitsAll start arguments argumentCode →
      Emits start (.call Vocabulary.motor arguments position)
        (argumentCode ++ [⟨.motor, position⟩])
  /-- A subroutine is called with its arguments. -/
  | call {start : Nat} {callee : String} {arguments : List (Expression String)}
      {position : Position} {signature : Signature} {argumentCode : List Placed} :
      callee ≠ Vocabulary.motor → callee ≠ Vocabulary.wait →
      functions.lookup callee = some signature → arguments.length = signature.arity →
      EmitsAll start arguments argumentCode →
      Emits start (.call callee arguments position)
        (argumentCode ++ [⟨.call signature.index arguments.length, position⟩])
  /-- An array element is fetched after its index. -/
  | index {start : Nat} {array subscript : Expression String} {position : Position} {bank : Bank}
      {subscriptCode : List Placed} :
      array.bank? = some bank → Emits start subscript subscriptCode →
      Emits start (.index array subscript position)
        (subscriptCode ++ [⟨.fetch bank, position⟩])

/-- The code of expressions, one after the other. It leaves their values on the stack. -/
inductive EmitsAll : Nat → List (Expression String) → List Placed → Prop
  /-- No expression has no code. -/
  | nil {start : Nat} : EmitsAll start [] []
  /-- The code of the first expression is followed by that of the others. -/
  | cons {start : Nat} {first : Expression String} {others : List (Expression String)}
      {firstCode otherCode : List Placed} :
      Emits start first firstCode → EmitsAll (start + firstCode.length) others otherCode →
      EmitsAll start (first :: others) (firstCode ++ otherCode)

end

/-- The code of an optional expression: zero stands for a missing one. -/
inductive EmitsOrZero : Nat → Position → Option (Expression String) → List Placed → Prop
  /-- Zero is pushed. -/
  | zero {start : Nat} {position : Position} :
      EmitsOrZero start position none [⟨.push 0, position⟩]
  /-- The code of the expression. -/
  | value {start : Nat} {position : Position} {value : Expression String} {code : List Placed} :
      Emits functions scope start value code → EmitsOrZero start position (some value) code

/-- The code of an expression evaluated for its effect. It leaves nothing on the stack. -/
inductive EmitsEffect : Nat → Position → Expression String → List Placed → Prop
  /-- A wait comes after its duration. -/
  | wait {start : Nat} {position callPosition : Position} {duration : Expression String}
      {code : List Placed} :
      Emits functions scope start duration code →
      EmitsEffect start position (.call Vocabulary.wait [duration] callPosition)
        (code ++ [⟨.wait, position⟩])
  /-- The value is dropped. -/
  | evaluate {start : Nat} {position : Position} {value : Expression String}
      {code : List Placed} :
      Emits functions scope start value code →
      EmitsEffect start position value (code ++ [⟨.pop, position⟩])

/-- The code of the condition of a `for` loop, which leaves the loop. -/
inductive EmitsGuard : Nat → Nat → Position → Option (Expression String) → List Placed → Prop
  /-- No condition has no code. -/
  | always {start leave : Nat} {position : Position} : EmitsGuard start leave position none []
  /-- A condition that is not true jumps to the end of the loop. -/
  | condition {start leave : Nat} {position : Position} {condition : Expression String}
      {code : List Placed} :
      Emits functions scope start condition code →
      EmitsGuard start leave position (some condition) (code ++ [⟨.jumpIfFalse leave, position⟩])

/-- The code of the step of a `for` loop. -/
inductive EmitsAdvance : Nat → Position → Option (Expression String) → List Placed → Prop
  /-- No step has no code. -/
  | nothing {start : Nat} {position : Position} : EmitsAdvance start position none []
  /-- The value of the step is dropped. -/
  | step {start : Nat} {position : Position} {step : Expression String} {code : List Placed} :
      Emits functions scope start step code →
      EmitsAdvance start position (some step) (code ++ [⟨.pop, position⟩])

end Expression

open Expression

/-- The code of declarations, and the scope after them. Each one stores a first value in the next
free local, of which there are as many as the routine has. -/
inductive Declarator.Emits (functions : FunctionTable) (localCount : Nat) (writable : Bool) :
    Scope → Nat → List Declarator → List Placed → Scope → Prop
  /-- No declaration has no code. -/
  | nil {scope : Scope} {start : Nat} :
      Declarator.Emits functions localCount writable scope start [] [] scope
  /-- The first declaration is followed by the others, which see it. -/
  | cons {scope after : Scope} {start : Nat} {declarator : Declarator} {others : List Declarator}
      {valueCode otherCode : List Placed} :
      (declarator.value = none → writable = true) →
      EmitsOrZero functions scope start declarator.position declarator.value valueCode →
      scope.canBind declarator.name = .ok () → scope.next < localCount →
      Declarator.Emits functions localCount writable (scope.bind declarator.name writable)
        (start + valueCode.length + 2) others otherCode after →
      Declarator.Emits functions localCount writable scope start (declarator :: others)
        (valueCode ++ ⟨.store scope.next, declarator.position⟩ ::
          ⟨.pop, declarator.position⟩ :: otherCode) after

/-- The code of the first clause of a `for` loop, and the scope after it. -/
inductive ForStart.Emits (functions : FunctionTable) (localCount : Nat) :
    Scope → Nat → ForStart → List Placed → Scope → Prop
  /-- No clause has no code. -/
  | nothing {scope : Scope} {start : Nat} :
      ForStart.Emits functions localCount scope start .nothing [] scope
  /-- The code of the declarations. -/
  | declaration {scope after : Scope} {start : Nat} {type : DeclaredType}
      {declarators : List Declarator} {position : Position} {code : List Placed} :
      Declarator.Emits functions localCount (!type.constant) scope start declarators code after →
      ForStart.Emits functions localCount scope start (.declaration type declarators position)
        code after
  /-- The code of the expression. -/
  | expression {scope : Scope} {start : Nat} {value : Expression String} {position : Position}
      {code : List Placed} :
      EmitsEffect functions scope start position value code →
      ForStart.Emits functions localCount scope start (.expression value position) code scope

namespace Statement

variable (functions : FunctionTable) (localCount : Nat)

mutual

/-- The code of a statement inside a loop with the given targets, if it is in one, and the scope
after it. Apart from jumps to these targets and a return, control goes from the first instruction to
what follows the last one. -/
inductive Emits : Option LoopTargets → Scope → Nat → Statement → List Placed → Scope → Prop
  /-- The code of the declarations. -/
  | declaration {targets : Option LoopTargets} {scope after : Scope} {start : Nat}
      {type : DeclaredType} {declarators : List Declarator} {position : Position}
      {code : List Placed} :
      Declarator.Emits functions localCount (!type.constant) scope start declarators code after →
      Emits targets scope start (.declaration type declarators position) code after
  /-- The code of the expression. -/
  | expression {targets : Option LoopTargets} {scope : Scope} {start : Nat}
      {value : Expression String} {position : Position} {code : List Placed} :
      EmitsEffect functions scope start position value code →
      Emits targets scope start (.expression value position) code scope
  /-- The condition jumps over the branch. -/
  | branch {targets : Option LoopTargets} {scope after : Scope} {start : Nat}
      {condition : Expression String} {whenTrue : List Statement} {position : Position}
      {conditionCode trueCode : List Placed} :
      Expression.Emits functions scope start condition conditionCode →
      EmitsAll targets scope.opened (start + conditionCode.length + 1) whenTrue trueCode after →
      Emits targets scope start (.branch condition whenTrue none position)
        (conditionCode ++
          ⟨.jumpIfFalse (start + conditionCode.length + 1 + trueCode.length), position⟩ ::
          trueCode) scope
  /-- The condition jumps to the second branch, and the first branch ends with a jump over it. -/
  | branches {targets : Option LoopTargets} {scope after afterFalse : Scope} {start : Nat}
      {condition : Expression String} {whenTrue whenFalse : List Statement} {position : Position}
      {conditionCode trueCode falseCode : List Placed} :
      Expression.Emits functions scope start condition conditionCode →
      EmitsAll targets scope.opened (start + conditionCode.length + 1) whenTrue trueCode after →
      EmitsAll targets scope.opened (start + conditionCode.length + 1 + trueCode.length + 1)
        whenFalse falseCode afterFalse →
      Emits targets scope start (.branch condition whenTrue (some whenFalse) position)
        (conditionCode ++
          ⟨.jumpIfFalse (start + conditionCode.length + 1 + trueCode.length + 1), position⟩ ::
          trueCode ++
          ⟨.jump (start + conditionCode.length + 1 + trueCode.length + 1 + falseCode.length),
            position⟩ :: falseCode) scope
  /-- A loop without a condition suspends the program at the beginning of each round. -/
  | forever {targets : Option LoopTargets} {scope after : Scope} {start : Nat}
      {condition : Expression String} {body : List Statement} {position : Position}
      {bodyCode : List Placed} :
      Step.isTruth condition = true →
      EmitsAll (some ⟨start + bodyCode.length + 2, start⟩) scope.opened (start + 1) body bodyCode
        after →
      Emits targets scope start (.whileLoop condition body position)
        (⟨.tick, position⟩ :: bodyCode ++ [⟨.jump start, position⟩]) scope
  /-- The condition jumps out of the loop, and the body ends with a jump to it. -/
  | whileLoop {targets : Option LoopTargets} {scope after : Scope} {start : Nat}
      {condition : Expression String} {body : List Statement} {position : Position}
      {conditionCode bodyCode : List Placed} :
      Step.isTruth condition = false →
      Expression.Emits functions scope start condition conditionCode →
      EmitsAll (some ⟨start + conditionCode.length + 1 + bodyCode.length + 1, start⟩) scope.opened
        (start + conditionCode.length + 1) body bodyCode after →
      Emits targets scope start (.whileLoop condition body position)
        (conditionCode ++
          ⟨.jumpIfFalse (start + conditionCode.length + 1 + bodyCode.length + 1), position⟩ ::
          bodyCode ++ [⟨.jump start, position⟩]) scope
  /-- The condition comes after the body and jumps back to it. -/
  | doLoop {targets : Option LoopTargets} {scope after : Scope} {start : Nat}
      {condition : Expression String} {body : List Statement} {position : Position}
      {bodyCode conditionCode : List Placed} :
      EmitsAll (some ⟨start + bodyCode.length + conditionCode.length + 1, start + bodyCode.length⟩)
        scope.opened start body bodyCode after →
      Expression.Emits functions scope (start + bodyCode.length) condition conditionCode →
      Emits targets scope start (.doLoop body condition position)
        (bodyCode ++ conditionCode ++ [⟨.jumpIfTrue start, position⟩]) scope
  /-- After the first clause, each round is the condition, the body and the step. -/
  | forLoop {targets : Option LoopTargets} {scope inside after : Scope} {start : Nat}
      {first : ForStart} {condition step : Option (Expression String)} {body : List Statement}
      {position : Position} {firstCode guardCode bodyCode stepCode : List Placed} :
      ForStart.Emits functions localCount scope.opened start first firstCode inside →
      EmitsGuard functions inside (start + firstCode.length)
        (start + firstCode.length + guardCode.length + bodyCode.length + stepCode.length + 1)
        position condition guardCode →
      EmitsAll
        (some ⟨start + firstCode.length + guardCode.length + bodyCode.length + stepCode.length + 1,
          start + firstCode.length + guardCode.length + bodyCode.length⟩)
        inside.opened (start + firstCode.length + guardCode.length) body bodyCode after →
      EmitsAdvance functions inside
        (start + firstCode.length + guardCode.length + bodyCode.length) position step stepCode →
      Emits targets scope start (.forLoop first condition step body position)
        (firstCode ++ guardCode ++ bodyCode ++ stepCode ++
          [⟨.jump (start + firstCode.length), position⟩]) scope
  /-- The code of the statements of a block. -/
  | block {targets : Option LoopTargets} {scope after : Scope} {start : Nat}
      {body : List Statement} {position : Position} {code : List Placed} :
      EmitsAll targets scope.opened start body code after →
      Emits targets scope start (.block body position) code scope
  /-- A jump out of the innermost loop. -/
  | leaveLoop {targets : LoopTargets} {scope : Scope} {start : Nat} {position : Position} :
      Emits (some targets) scope start (.leaveLoop position)
        [⟨.jump targets.leave, position⟩] scope
  /-- A jump to the next round of the innermost loop. -/
  | nextRound {targets : LoopTargets} {scope : Scope} {start : Nat} {position : Position} :
      Emits (some targets) scope start (.nextRound position)
        [⟨.jump targets.next, position⟩] scope
  /-- A value is given back. -/
  | giveBack {targets : Option LoopTargets} {scope : Scope} {start : Nat}
      {value : Option (Expression String)} {position : Position} {code : List Placed} :
      EmitsOrZero functions scope start position value code →
      Emits targets scope start (.giveBack value position)
        (code ++ [⟨.giveBack, position⟩]) scope

/-- The code of statements one after the other, and the scope after them. -/
inductive EmitsAll :
    Option LoopTargets → Scope → Nat → List Statement → List Placed → Scope → Prop
  /-- No statement has no code. -/
  | nil {targets : Option LoopTargets} {scope : Scope} {start : Nat} :
      EmitsAll targets scope start [] [] scope
  /-- The first statement is followed by the others, which see what it declares. -/
  | cons {targets : Option LoopTargets} {scope middle after : Scope} {start : Nat}
      {first : Statement} {others : List Statement} {firstCode otherCode : List Placed} :
      Emits targets scope start first firstCode middle →
      EmitsAll targets middle (start + firstCode.length) others otherCode after →
      EmitsAll targets scope start (first :: others) (firstCode ++ otherCode) after

end

end Statement

/-- The code of a function with the given parameters: that of its body, and then zero given back. -/
structure ParsedFunction.Emits (functions : FunctionTable) (function : ParsedFunction)
    (parameters : List String) (code : Code) : Prop where
  /-- It is called with one argument for each parameter. -/
  arity : code.arity = parameters.length
  /-- Its parameters are locals. -/
  room : parameters.length ≤ code.localCount
  /-- Its instructions. -/
  body : ∃ scope body after, Scope.empty.withParameters parameters = .ok scope ∧
    Statement.EmitsAll functions code.localCount none scope 0 function.body body after ∧
      code.body = (body ++
        [⟨.push 0, function.position⟩, ⟨.giveBack, function.position⟩] : List Placed).toArray

namespace ParsedProgram

/-- The signatures of functions, the first of which has the given index. -/
def signatures (index : Nat) : List ParsedFunction → FunctionTable
  | [] => []
  | function :: others =>
      (function.name, ⟨index, function.parameters.length⟩) :: signatures (index + 1) others

/-- The functions that a program can call. -/
def table (parsed : ParsedProgram) : FunctionTable :=
  signatures 1 parsed.subroutines

/-- The program of a parsed program. -/
structure Emits (parsed : ParsedProgram) (program : Program) : Prop where
  /-- The entry function is started without arguments. -/
  entry : parsed.entry.Emits parsed.table [] program.entry
  /-- The subroutines keep their order. -/
  subroutines : List.Forall₂
    (fun function code => function.Emits parsed.table function.parameters code)
    parsed.subroutines program.subroutines.toList
  /-- No subroutine has a reserved name. -/
  unreserved : ∀ function ∈ parsed.subroutines, Vocabulary.isReserved function.name = false

/-- The table of functions leads to the first one of a name and to its code. -/
theorem exists_of_lookup_signatures {table : FunctionTable} {functions : List ParsedFunction}
    {codes : List Code} {name : String} {index : Nat} {signature : Signature}
    (emits : List.Forall₂ (fun function code => function.Emits table function.parameters code)
      functions codes)
    (known : (signatures index functions).lookup name = some signature) :
    ∃ offset function code, functions.find? (fun function => function.name = name) = some function ∧
      codes[offset]? = some code ∧ signature = ⟨index + offset, function.parameters.length⟩ ∧
        function.Emits table function.parameters code := by
  induction emits generalizing index with
  | nil => cases known
  | @cons function code functions codes here _ ih =>
      rw [signatures, List.lookup_cons] at known
      split at known
      case h_1 same =>
        cases known
        refine ⟨0, function, code, ?_, rfl, rfl, here⟩
        rw [List.find?_cons_of_pos (by simpa using (beq_iff_eq.mp same).symm)]
      case h_2 different =>
        obtain ⟨offset, other, otherCode, first, found, rfl, emits⟩ := ih known
        refine ⟨offset + 1, other, otherCode, ?_, found, ?_, emits⟩
        · rw [List.find?_cons_of_neg (by simpa using (ne_of_beq_false different).symm)]
          exact first
        · rw [Nat.add_assoc, Nat.add_comm 1]

variable {parsed : ParsedProgram}

/-- A function that can be called has code. -/
theorem Emits.exists_function {program : Program} (emits : parsed.Emits program) {name : String}
    {signature : Signature} (known : parsed.table.lookup name = some signature) :
    ∃ function code, parsed.subroutine? name = some function ∧
      program.function? signature.index = some code ∧
        function.parameters.length = signature.arity ∧
          function.Emits parsed.table function.parameters code := by
  obtain ⟨offset, function, code, first, found, rfl, here⟩ :=
    exists_of_lookup_signatures emits.subroutines known
  refine ⟨function, code, first, ?_, rfl, here⟩
  rw [Nat.add_comm 1, Program.function?, ← Array.getElem?_toList]
  exact found

end ParsedProgram

end LineRobot
