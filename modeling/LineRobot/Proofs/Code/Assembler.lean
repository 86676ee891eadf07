import LineRobot.Proofs.Code.Allocation
import LineRobot.Proofs.Code.Compiled

/-! # Assembling with a stack of scopes

`Routine.assembler` makes the code of a routine in one go, with the open scopes on a stack: it opens
and closes scopes, declares locals and emits instructions, and stops as soon as something is wrong.
A scope is closed again also then. So what is done for a routine is in order, whatever comes of it
(`Routine.orderly_assembled`).

The names of formulas are looked up in the scope that the stack shows (`Allocation.scope`), so that
their code is that of `Formula.code`, and it uses the locals of open scopes only
(`Formula.covers_code`). -/

namespace LineRobot

/-- Why an assembler stops. -/
inductive Stop where
  /-- A local is declared where no scope is open. -/
  | noOpenScope (position : Position)
  /-- The function is rejected. -/
  | rejected (rejection : Rejection)
deriving DecidableEq, Repr

/-- What an assembler has done and what has come of it. -/
structure Done (α : Type) where
  /-- Its acts. -/
  acts : List Act
  /-- Its result, or why it has stopped. -/
  result : Except Stop α

/-- An assembler, which acts on the locals of a function. -/
def Assembler (α : Type) : Type :=
  Allocation → Done α

namespace Assembler

variable {α β : Type}

instance : Monad Assembler where
  pure value := fun _ => ⟨[], .ok value⟩
  bind first next := fun allocation =>
    let done := first allocation
    match done.result with
    | .error stop => ⟨done.acts, .error stop⟩
    | .ok value =>
      let later := next value (allocation.afterAll done.acts)
      ⟨done.acts ++ later.acts, later.result⟩

/-- Emits code in which names mean what they do now, or stops if there is none. -/
def emit (code : Scope → Except Rejection (List Placed)) : Assembler Unit := fun allocation =>
  match code allocation.scope with
  | .error rejection => ⟨[], .error (.rejected rejection)⟩
  | .ok code => ⟨code.map .emits, .ok ()⟩

/-- Declares a local in the innermost open scope, and gives its number. -/
def declare (name : String) (writable : Bool) (position : Position) : Assembler Nat :=
  fun allocation =>
  if Vocabulary.isReserved name then
    ⟨[], .error (.rejected (.located (.reserved name) position))⟩
  else
    match allocation.scopes with
    | [] => ⟨[], .error (.noOpenScope position)⟩
    | scope :: _ =>
      if (scope.declared.lookup name).isSome then
        ⟨[], .error (.rejected (.located (.redeclared name) position))⟩
      else ⟨[.declares name writable], .ok allocation.next⟩

/-- Declares parameters, which can be assigned to. -/
def declareAll (position : Position) : List String → Assembler Unit
  | [] => pure ()
  | name :: others => do
    let _ ← declare name true position
    declareAll position others

/-- Opens a scope, and closes it again whatever comes of what is done inside. -/
def inScope (inside : Assembler α) : Assembler α := fun allocation =>
  let done := inside (allocation.after .opens)
  ⟨.opens :: done.acts ++ [.closes], done.result⟩

end Assembler

open Assembler

namespace Step

/-- The instructions of the first value of a binding, which a constant must have. -/
def firstValueCode (functions : FunctionTable) (start : Nat) (name : String) (writable : Bool)
    (value : Option Formula) (position : Position) (scope : Scope) :
    Except Rejection (List Placed) := do
  if value.isNone && !writable then
    throw (.located (.uninitialized name) position)
  Formula.codeOrZero functions scope start position value

/-- The instructions of the condition of a loop that is checked after a round. -/
def checkCode (functions : FunctionTable) (start next : Nat) (condition : Formula)
    (position : Position) (scope : Scope) : Except Rejection (List Placed) := do
  let conditionCode ← condition.code functions scope start
  return conditionCode ++ [⟨.jumpIfTrue next, position⟩]

mutual

/-- Assembles a step. The number of a local that is declared is known only after its first value. -/
def assembler (functions : FunctionTable) (targets : Option LoopTargets) (start : Nat) :
    Step → Assembler Unit
  | .bind name writable value position => do
    emit (firstValueCode functions start name writable value position)
    let slot ← declare name writable position
    emit fun _ => .ok [⟨.store slot, position⟩, ⟨.pop, position⟩]
  | .branch condition whenTrue whenFalse position => do
    let inside := start + condition.size + 1
    let after := inside + sizes whenTrue
    let otherwise := if whenFalse.isSome then after + 1 else after
    emit fun scope => guardCode functions scope start otherwise position (some condition)
    inScope (assemblers functions targets inside whenTrue)
    otherwiseAssembler functions targets after position whenFalse
  | .forever body position => do
    inScope (assemblers functions (some ⟨start + sizes body + 1, start⟩) start body)
    emit fun _ => .ok [⟨.jump start, position⟩]
  | .whileLoop condition body position => do
    let inside := start + condition.size + 1
    let loop : LoopTargets := ⟨inside + sizes body + 1, start⟩
    emit fun scope => guardCode functions scope start loop.leave position (some condition)
    inScope (assemblers functions (some loop) inside body)
    emit fun _ => .ok [⟨.jump start, position⟩]
  | .doLoop body condition position => do
    let check := start + sizes body
    inScope (assemblers functions (some ⟨check + condition.size + 1, check⟩) start body)
    emit (checkCode functions check start condition position)
  | .forLoop first condition step body position => inScope do
    let round := start + sizes first
    let inside := round + clauseSize condition
    let advance := inside + sizes body
    let loop : LoopTargets := ⟨advance + clauseSize step + 1, advance⟩
    assemblers functions targets start first
    emit fun scope => guardCode functions scope round loop.leave position condition
    inScope (assemblers functions (some loop) inside body)
    emit fun scope => advanceCode functions scope advance position step
    emit fun _ => .ok [⟨.jump round, position⟩]
  | .block body _ => inScope (assemblers functions targets start body)
  | step => emit fun scope => step.code functions targets scope start

/-- Assembles steps, one after the other in one scope. -/
def assemblers (functions : FunctionTable) (targets : Option LoopTargets) (start : Nat) :
    List Step → Assembler Unit
  | [] => pure ()
  | first :: others => do
    assembler functions targets start first
    assemblers functions targets (start + first.size) others

/-- Assembles an optional second branch, after a jump over it that ends the first. -/
def otherwiseAssembler (functions : FunctionTable) (targets : Option LoopTargets) (start : Nat)
    (position : Position) : Option (List Step) → Assembler Unit
  | none => pure ()
  | some steps => do
    emit fun _ => .ok [⟨.jump (start + 1 + sizes steps), position⟩]
    inScope (assemblers functions targets (start + 1) steps)

end

end Step

namespace Routine

/-- Assembles a routine whose parameters are the given ones: its steps, and then the value zero
given back. -/
def assembler (functions : FunctionTable) (routine : Routine) (parameters : List String) :
    Assembler Unit := do
  declareAll routine.position parameters
  Step.assemblers functions none 0 routine.body
  emit fun _ => .ok [⟨.push 0, routine.position⟩, ⟨.giveBack, routine.position⟩]

/-- All that is done to assemble a routine. -/
def assembled (functions : FunctionTable) (routine : Routine)
    (parameters : List String) : Done Unit :=
  routine.assembler functions parameters (.initial parameters.length)

/-- The code of a routine that has been assembled, or why there is none. -/
def assembledCode (functions : FunctionTable) (routine : Routine) (parameters : List String) :
    Except Stop Code :=
  let done := routine.assembled functions parameters
  done.result.map fun _ => {
    name := routine.name
    arity := parameters.length
    localCount := ((Allocation.initial parameters.length).afterAll done.acts).count
    body := (Act.emitted done.acts).toArray
    position := routine.position }

end Routine

/-! ## The locals that code uses -/

namespace Scope

/-- The numbers of the locals of a scope and of those around it. -/
def slots (scope : Scope) : List Nat :=
  (scope.inner ++ scope.outer).map fun named => named.2.slot

/-- The instructions use locals of the scope and of those around it only. -/
def Covers (scope : Scope) (code : List Placed) : Prop :=
  ∀ placed ∈ code, ∀ slot ∈ placed.instruction.local?, slot ∈ scope.slots

variable {scope : Scope}

/-- No instruction uses no local. -/
@[simp] theorem covers_nil : scope.Covers [] :=
  nofun

/-- What one instruction more uses is covered if its local is. -/
@[simp] theorem covers_cons {placed : Placed} {code : List Placed} :
    scope.Covers (placed :: code) ↔ (∀ slot ∈ placed.instruction.local?, slot ∈ scope.slots) ∧
      scope.Covers code :=
  List.forall_mem_cons

/-- What two pieces of code use is covered if what each uses is. -/
@[simp] theorem covers_append {first others : List Placed} :
    scope.Covers (first ++ others) ↔ scope.Covers first ∧ scope.Covers others :=
  List.forall_mem_append

/-- The local that a name means is one of the scope. -/
theorem mem_slots_of_lookup? {name : String} {found : Local}
    (means : scope.lookup? name = some found) :
    found.slot ∈ scope.slots := by
  obtain ⟨first, others, split, -⟩ := List.lookup_eq_some_iff.mp means
  rw [slots, split, List.map_append, List.map_cons]
  exact List.mem_append_right _ List.mem_cons_self

/-- A name is read from a local of the scope, if from any. -/
theorem mem_slots_of_nameInstruction {name : String} {instruction : Instruction}
    (means : Formula.nameInstruction scope name = .ok instruction) :
    ∀ slot ∈ instruction.local?, slot ∈ scope.slots := by
  unfold Formula.nameInstruction at means
  split at means
  case h_1 found declared =>
    cases means
    rintro slot ⟨⟩
    exact mem_slots_of_lookup? declared
  case h_2 =>
    split at means
    · cases means
      exact nofun
    · split at means
      · cases means
      · split at means <;> cases means
        exact nofun

/-- What is assigned to is a local of the scope. -/
theorem mem_slots_of_writableLocal {name : String} {position : Position} {slot : Nat}
    (writable : Formula.writableLocal scope name position = .ok slot) : slot ∈ scope.slots :=
  mem_slots_of_lookup? (Expression.lookup?_of_writableLocal writable)

/-- A call uses no local. -/
theorem local?_of_callInstruction {functions : FunctionTable} {callee : Callee} {count : Nat}
    {instruction : Instruction}
    (means : Formula.callInstruction functions callee count = .ok instruction) :
    instruction.local? = none := by
  unfold Formula.callInstruction at means
  repeat' split at means
  all_goals cases means
  all_goals rfl

end Scope

namespace Formula

open Scope

variable {functions : FunctionTable} {scope : Scope}

mutual

/-- The code of a formula uses locals in scope only. -/
theorem covers_code : (formula : Formula) → {start : Nat} → {code : List Placed} →
    Formula.code functions scope start formula = .ok code → scope.Covers code
  | .number value position, start, code, made => by
      rw [Formula.code, pure_eq_ok] at made
      simp [← made, Instruction.local?]
  | .name text position, start, code, made => by
      simp only [Formula.code, bind_eq_ok, pure_eq_ok, placed_eq_ok] at made
      obtain ⟨instruction, means, rfl⟩ := made
      simpa using mem_slots_of_nameInstruction means
  | .binary operator left right position, start, code, made => by
      simp only [Formula.code, bind_eq_ok, pure_eq_ok] at made
      obtain ⟨leftCode, leftMade, rightCode, rightMade, rfl⟩ := made
      simp [covers_code left leftMade, covers_code right rightMade, Instruction.local?]
  | .logical connective left right position, start, code, made => by
      simp only [Formula.code, bind_eq_ok, pure_eq_ok] at made
      obtain ⟨leftCode, leftMade, rightCode, rightMade, rfl⟩ := made
      cases connective <;>
        simp [covers_code left leftMade, covers_code right rightMade, decidingJump,
          Instruction.local?]
  | .unary operator operand position, start, code, made => by
      simp only [Formula.code, bind_eq_ok, pure_eq_ok] at made
      obtain ⟨operandCode, operandMade, rfl⟩ := made
      simp [covers_code operand operandMade, Instruction.local?]
  | .change direction moment operand position, start, code, made => by
      cases operand with
      | name text namePosition =>
          simp only [Formula.code, bind_eq_ok, pure_eq_ok] at made
          obtain ⟨slot, writable, rfl⟩ := made
          simp [mem_slots_of_writableLocal writable, Instruction.local?]
      | index array index indexPosition =>
          simp only [Formula.code, bind_eq_ok, pure_eq_ok] at made
          obtain ⟨-, -, indexCode, indexMade, rfl⟩ := made
          simp [covers_code index indexMade, Instruction.local?]
      | _ => cases made
  | .conditional condition whenTrue whenFalse position, start, code, made => by
      simp only [Formula.code, bind_eq_ok, pure_eq_ok] at made
      obtain ⟨conditionCode, conditionMade, trueCode, trueMade, falseCode, falseMade, rfl⟩ := made
      simp [covers_code condition conditionMade, covers_code whenTrue trueMade,
        covers_code whenFalse falseMade, Instruction.local?]
  | .assign compound target value position, start, code, made => by
      cases target with
      | name text namePosition =>
          cases compound with
          | none =>
              simp only [Formula.code, bind_eq_ok, pure_eq_ok] at made
              obtain ⟨slot, writable, valueCode, valueMade, rfl⟩ := made
              simp [covers_code value valueMade, mem_slots_of_writableLocal writable,
                Instruction.local?]
          | some operator =>
              simp only [Formula.code, bind_eq_ok, pure_eq_ok] at made
              obtain ⟨slot, writable, valueCode, valueMade, rfl⟩ := made
              simp [covers_code value valueMade, mem_slots_of_writableLocal writable,
                Instruction.local?]
      | index array index indexPosition =>
          cases compound with
          | none =>
              simp only [Formula.code, bind_eq_ok, pure_eq_ok] at made
              obtain ⟨-, -, indexCode, indexMade, valueCode, valueMade, rfl⟩ := made
              simp [covers_code index indexMade, covers_code value valueMade, Instruction.local?]
          | some operator =>
              simp only [Formula.code, bind_eq_ok, pure_eq_ok] at made
              obtain ⟨-, -, indexCode, indexMade, valueCode, valueMade, rfl⟩ := made
              simp [covers_code index indexMade, covers_code value valueMade, Instruction.local?]
      | _ => cases made
  | .call callee arguments position, start, code, made => by
      simp only [Formula.code, bind_eq_ok, pure_eq_ok, placed_eq_ok] at made
      obtain ⟨instruction, means, argumentCode, argumentMade, rfl⟩ := made
      simp [covers_codes arguments argumentMade, local?_of_callInstruction means]
  | .index array index position, start, code, made => by
      simp only [Formula.code, bind_eq_ok, pure_eq_ok] at made
      obtain ⟨bank, -, indexCode, indexMade, rfl⟩ := made
      simp [covers_code index indexMade, Instruction.local?]

/-- The code of formulas uses locals in scope only. -/
theorem covers_codes : (formulas : List Formula) → {start : Nat} → {code : List Placed} →
    Formula.codes functions scope start formulas = .ok code → scope.Covers code
  | [], start, code, made => by
      rw [Formula.codes, pure_eq_ok] at made
      simp [← made]
  | first :: others, start, code, made => by
      simp only [Formula.codes, bind_eq_ok, pure_eq_ok] at made
      obtain ⟨firstCode, firstMade, otherCode, otherMade, rfl⟩ := made
      simp [covers_code first firstMade, covers_codes others otherMade]

end

/-- The code of a formula, or of zero, uses locals in scope only. -/
theorem covers_codeOrZero {start : Nat} {position : Position} {value : Option Formula}
    {code : List Placed} (made : codeOrZero functions scope start position value = .ok code) :
    scope.Covers code := by
  cases value with
  | none =>
      rw [codeOrZero, pure_eq_ok] at made
      simp [← made, Instruction.local?]
  | some formula => exact covers_code formula made

end Formula

/-! ## Acts in order -/

namespace Allocation

variable {allocation : Allocation}

/-- The locals of the open scopes are those among which names are looked up. -/
theorem slots_scope (allocation : Allocation) : allocation.scope.slots = allocation.slots := by
  rw [Scope.slots, declared_scope, slots]

/-- The next free local is that of the scope. -/
theorem next_scope (allocation : Allocation) : allocation.scope.next = allocation.next := by
  rw [scope]
  split <;> rfl

/-- To open a scope opens one for names. -/
theorem scope_after_opens (allocation : Allocation) :
    (allocation.after .opens).scope = allocation.scope.opened := by
  rw [Scope.opened, declared_scope, next_scope]
  rfl

/-- To declare a local in an open scope binds its name. -/
theorem scope_after_declares (isOpen : allocation.scopes ≠ []) (name : String) (writable : Bool) :
    (allocation.after (.declares name writable)).scope = allocation.scope.bind name writable := by
  obtain ⟨scopes, next, count⟩ := allocation
  cases scopes with
  | nil => exact absurd rfl isOpen
  | cons scope outer => rfl

/-- Instructions that use locals in scope are emitted in order. -/
theorem orderly_emits {code : List Placed} (covers : allocation.scope.Covers code) :
    allocation.Orderly (code.map .emits) := by
  induction code with
  | nil => exact .nothing
  | cons placed others ih =>
      obtain ⟨live, rest⟩ := Scope.covers_cons.mp covers
      rw [slots_scope] at live
      exact Orderly.append (.emits live) (ih rest)

end Allocation

namespace Assembler

variable {α β : Type} {allocation : Allocation}

/-- What an assembler does is in order, whether it stops or not. -/
def OrderlyAt (assembler : Assembler α) (allocation : Allocation) : Prop :=
  allocation.Orderly (assembler allocation).acts

/-- To do nothing is in order. -/
theorem orderlyAt_pure (value : α) : OrderlyAt (pure value) allocation :=
  .nothing

/-- An assembler that stops does nothing more. -/
theorem bind_of_error {first : Assembler α} {next : α → Assembler β} {acts : List Act} {stop : Stop}
    (stops : first allocation = ⟨acts, .error stop⟩) :
    (first >>= next) allocation = ⟨acts, .error stop⟩ := by
  show (match (first allocation).result with | .error _ => _ | .ok value => _ : Done β) = _
  rw [stops]

/-- An assembler that does not stop is followed by the next one. -/
theorem bind_of_ok {first : Assembler α} {next : α → Assembler β} {acts : List Act} {value : α}
    (done : first allocation = ⟨acts, .ok value⟩) :
    (first >>= next) allocation =
      ⟨acts ++ (next value (allocation.afterAll acts)).acts,
        (next value (allocation.afterAll acts)).result⟩ := by
  show (match (first allocation).result with | .error _ => _ | .ok value => _ : Done β) = _
  rw [done]

/-- One after the other is in order if each is. -/
theorem OrderlyAt.bind {first : Assembler α} {next : α → Assembler β}
    (orderly : OrderlyAt first allocation)
    (others : ∀ value, OrderlyAt (next value) (allocation.afterAll (first allocation).acts)) :
    OrderlyAt (first >>= next) allocation := by
  show allocation.Orderly
    (match (first allocation).result with | .error _ => _ | .ok value => _ : Done β).acts
  split
  · exact orderly
  · exact .append orderly (others _)

/-- To emit code that uses locals in scope is in order. -/
theorem orderlyAt_emit {code : Scope → Except Rejection (List Placed)}
    (covers : ∀ made, code allocation.scope = .ok made → allocation.scope.Covers made) :
    OrderlyAt (emit code) allocation := by
  rw [OrderlyAt, emit]
  split
  · exact .nothing
  · next made => exact Allocation.orderly_emits (covers _ made)

/-- What declaring a local comes to where a scope is open: its name can be bound, or it stops. -/
theorem declare_of_isOpen (isOpen : allocation.scopes ≠ []) (name : String) (writable : Bool)
    (position : Position) :
    declare name writable position allocation =
      match allocation.scope.canBind name with
      | .error reason => ⟨[], .error (.rejected (.located reason position))⟩
      | .ok () => ⟨[.declares name writable], .ok allocation.next⟩ := by
  obtain ⟨scopes, next, count⟩ := allocation
  cases scopes with
  | nil => exact absurd rfl isOpen
  | cons scope outer =>
      by_cases reserved : Vocabulary.isReserved name = true
      · simp only [declare, Allocation.scope, Scope.canBind, reserved, if_true]
      · by_cases repeated : (scope.declared.lookup name).isSome = true <;>
          simp only [declare, Allocation.scope, Scope.canBind, reserved, repeated,
            if_true, if_false, Bool.false_eq_true]

/-- A name that can be bound may be declared. -/
theorem permits_of_canBind {name : String} (free : allocation.scope.canBind name = .ok ())
    (writable : Bool) :
    allocation.Permits (.declares name writable) := by
  obtain ⟨scopes, next, count⟩ := allocation
  rintro scope member declared
  cases scopes with
  | nil => cases member
  | cons first outer =>
      cases member
      have found : ¬ (scope.declared.lookup name).isSome = true := by
        intro found
        simp only [Allocation.scope, Scope.canBind, found, if_true] at free
        split at free <;> cases free
      rw [Option.not_isSome_iff_eq_none, Allocation.lookup_eq_none_iff] at found
      exact found declared

/-- To declare a local either stops at once or is one permitted act in an open scope. -/
theorem declare_cases (name : String) (writable : Bool) (position : Position)
    (allocation : Allocation) :
    (∃ stop, declare name writable position allocation = ⟨[], .error stop⟩) ∨
      allocation.scopes ≠ [] ∧ allocation.Permits (.declares name writable) ∧
        declare name writable position allocation = ⟨[.declares name writable],
          .ok allocation.next⟩ := by
  by_cases isOpen : allocation.scopes = []
  · left
    rw [declare, isOpen]
    split <;> exact ⟨_, rfl⟩
  · have same := declare_of_isOpen isOpen name writable position
    cases free : allocation.scope.canBind name with
    | error reason =>
        rw [free] at same
        exact .inl ⟨_, same⟩
    | ok done =>
        rw [free] at same
        exact .inr ⟨isOpen, permits_of_canBind free writable, same⟩

/-- To declare a local, and then to use it, is in order. -/
theorem orderlyAt_declare {name : String} {writable : Bool} {position : Position}
    {next : Nat → Assembler β}
    (others : allocation.scopes ≠ [] →
      OrderlyAt (next allocation.next) (allocation.after (.declares name writable))) :
    OrderlyAt (declare name writable position >>= next) allocation := by
  rcases declare_cases name writable position allocation with ⟨stop, stops⟩ |
    ⟨isOpen, permits, declares⟩
  · rw [OrderlyAt, bind_of_error stops]
    exact .nothing
  · rw [OrderlyAt, bind_of_ok declares]
    exact .append (.declares permits) (others isOpen)

/-- What is done in a scope of its own is in order. -/
theorem OrderlyAt.inScope {inside : Assembler α}
    (orderly : OrderlyAt inside (allocation.after .opens)) :
    OrderlyAt (inScope inside) allocation :=
  Allocation.Orderly.inScope orderly

/-- To declare parameters is in order. -/
theorem orderlyAt_declareAll (position : Position) (names : List String) :
    OrderlyAt (declareAll position names) allocation := by
  induction names generalizing allocation with
  | nil => exact orderlyAt_pure ()
  | cons name others ih => exact orderlyAt_declare fun _ => ih

end Assembler

namespace Step

open Assembler

variable {functions : FunctionTable}

/-- The first value of a binding uses locals in scope. -/
theorem covers_firstValueCode {scope : Scope} {start : Nat} {name : String} {writable : Bool}
    {value : Option Formula} {position : Position} {code : List Placed}
    (made : firstValueCode functions start name writable value position scope = .ok code) :
    scope.Covers code := by
  unfold firstValueCode at made
  split at made
  · cases made
  · exact Formula.covers_codeOrZero made

/-- The condition of a loop uses locals in scope. -/
theorem covers_checkCode {scope : Scope} {start next : Nat} {condition : Formula}
    {position : Position} {code : List Placed}
    (made : checkCode functions start next condition position scope = .ok code) :
    scope.Covers code := by
  simp only [checkCode, bind_eq_ok, pure_eq_ok] at made
  obtain ⟨conditionCode, conditionMade, rfl⟩ := made
  simp [Formula.covers_code condition conditionMade, Instruction.local?]

/-- The condition of a loop uses locals in scope. -/
theorem covers_guardCode {scope : Scope} {start leave : Nat} {position : Position}
    {condition : Option Formula} {code : List Placed}
    (made : guardCode functions scope start leave position condition = .ok code) :
    scope.Covers code := by
  cases condition with
  | none =>
      rw [guardCode, pure_eq_ok] at made
      simp [← made]
  | some condition =>
      simp only [guardCode, bind_eq_ok, pure_eq_ok] at made
      obtain ⟨conditionCode, conditionMade, rfl⟩ := made
      simp [Formula.covers_code condition conditionMade, Instruction.local?]

/-- The step of a `for` loop uses locals in scope. -/
theorem covers_advanceCode {scope : Scope} {start : Nat} {position : Position}
    {step : Option Formula} {code : List Placed}
    (made : advanceCode functions scope start position step = .ok code) :
    scope.Covers code := by
  cases step with
  | none =>
      rw [advanceCode, pure_eq_ok] at made
      simp [← made]
  | some step =>
      simp only [advanceCode, bind_eq_ok, pure_eq_ok] at made
      obtain ⟨stepCode, stepMade, rfl⟩ := made
      simp [Formula.covers_code step stepMade, Instruction.local?]

/-- A jump uses no local. -/
theorem covers_loopJump {scope : Scope} {targets : Option LoopTargets} {target : LoopTargets → Nat}
    {missing : Reason} {position : Position} {code : List Placed}
    (made : loopJump targets target missing position = .ok code) : scope.Covers code := by
  cases targets with
  | none => cases made
  | some targets =>
      cases made
      simp [Instruction.local?]

/-- What is done inside a `for` loop is in order, if its first steps and its body are. -/
theorem orderlyAt_forLoop {first body : Assembler Unit} {allocation : Allocation}
    {round leave advance : Nat} {position : Position} {condition step : Option Formula}
    (firstOrderly : ∀ allocation, OrderlyAt first allocation)
    (bodyOrderly : ∀ allocation, OrderlyAt body allocation) :
    OrderlyAt
      (do
        first
        emit fun scope => guardCode functions scope round leave position condition
        inScope body
        emit fun scope => advanceCode functions scope advance position step
        emit fun _ => .ok [⟨.jump round, position⟩]) allocation :=
  .bind (firstOrderly _) fun _ => .bind (orderlyAt_emit fun _ => covers_guardCode) fun _ =>
    .bind (.inScope (bodyOrderly _)) fun _ =>
      .bind (orderlyAt_emit fun _ => covers_advanceCode) fun _ =>
      orderlyAt_emit (by simp [Instruction.local?])

mutual

/-- A step is assembled in order. -/
theorem orderlyAt_assembler : (step : Step) → (targets : Option LoopTargets) → (start : Nat) →
    (allocation : Allocation) → OrderlyAt (assembler functions targets start step) allocation
  | .bind name writable value position, targets, start, allocation => by
      rw [assembler]
      -- the first value cannot use the local that is declared
      -- after it, but what is emitted then does
      refine .bind (orderlyAt_emit fun _ => covers_firstValueCode) fun _ =>
        orderlyAt_declare fun isOpen => ?_
      refine orderlyAt_emit fun made same => ?_
      rw [Allocation.scope_after_declares isOpen, ← Except.ok.inj same]
      simp [Scope.slots, Scope.bind, Instruction.local?, Allocation.next_scope]
  | .branch condition whenTrue whenFalse position, targets, start, allocation => by
      rw [assembler]
      exact .bind (orderlyAt_emit fun _ => covers_guardCode) fun _ =>
        .bind (.inScope (orderlyAt_assemblers whenTrue _ _ _)) fun _ =>
          orderlyAt_otherwiseAssembler whenFalse _ _ _ _
  | .forever body position, targets, start, allocation => by
      rw [assembler]
      exact .bind (.inScope (orderlyAt_assemblers body _ _ _)) fun _ =>
        orderlyAt_emit (by simp [Instruction.local?])
  | .whileLoop condition body position, targets, start, allocation => by
      rw [assembler]
      exact .bind (orderlyAt_emit fun _ => covers_guardCode) fun _ =>
        .bind (.inScope (orderlyAt_assemblers body _ _ _)) fun _ =>
          orderlyAt_emit (by simp [Instruction.local?])
  | .doLoop body condition position, targets, start, allocation => by
      rw [assembler]
      exact .bind (.inScope (orderlyAt_assemblers body _ _ _)) fun _ => orderlyAt_emit fun _ =>
        covers_checkCode
  | .forLoop first condition step body position, targets, start, allocation => by
      rw [assembler]
      exact .inScope (orderlyAt_forLoop (orderlyAt_assemblers first _ _)
        (orderlyAt_assemblers body _ _))
  | .block body position, targets, start, allocation => by
      rw [assembler]
      exact .inScope (orderlyAt_assemblers body _ _ _)
  | .evaluate value position, targets, start, allocation => by
      simp only [assembler]
      refine orderlyAt_emit fun _ made => ?_
      simp only [code, bind_eq_ok, pure_eq_ok] at made
      obtain ⟨valueCode, valueMade, rfl⟩ := made
      simp [Formula.covers_code value valueMade, Instruction.local?]
  | .tick position, targets, start, allocation => by
      simp only [assembler]
      refine orderlyAt_emit fun _ made => ?_
      rw [code, pure_eq_ok] at made
      simp [← made, Instruction.local?]
  | .wait duration position, targets, start, allocation => by
      simp only [assembler]
      refine orderlyAt_emit fun _ made => ?_
      simp only [code, bind_eq_ok, pure_eq_ok] at made
      obtain ⟨durationCode, durationMade, rfl⟩ := made
      simp [Formula.covers_code duration durationMade, Instruction.local?]
  | .leaveLoop position, targets, start, allocation => by
      simp only [assembler, code]
      exact orderlyAt_emit fun _ => covers_loopJump
  | .nextRound position, targets, start, allocation => by
      simp only [assembler, code]
      exact orderlyAt_emit fun _ => covers_loopJump
  | .giveBack value position, targets, start, allocation => by
      simp only [assembler]
      refine orderlyAt_emit fun _ made => ?_
      simp only [code, bind_eq_ok, pure_eq_ok] at made
      obtain ⟨valueCode, valueMade, rfl⟩ := made
      simp [Formula.covers_codeOrZero valueMade, Instruction.local?]

/-- Steps are assembled in order. -/
theorem orderlyAt_assemblers : (steps : List Step) → (targets : Option LoopTargets) →
    (start : Nat) →
    (allocation : Allocation) → OrderlyAt (assemblers functions targets start steps) allocation
  | [], targets, start, allocation => by
      rw [assemblers]
      exact orderlyAt_pure ()
  | first :: others, targets, start, allocation => by
      rw [assemblers]
      exact .bind (orderlyAt_assembler first _ _ _) fun _ => orderlyAt_assemblers others _ _ _

/-- An optional second branch is assembled in order. -/
theorem orderlyAt_otherwiseAssembler : (steps : Option (List Step)) →
    (targets : Option LoopTargets) →
    (start : Nat) → (position : Position) → (allocation : Allocation) →
    OrderlyAt (otherwiseAssembler functions targets start position steps) allocation
  | none, targets, start, position, allocation => by
      rw [otherwiseAssembler]
      exact orderlyAt_pure ()
  | some steps, targets, start, position, allocation => by
      rw [otherwiseAssembler]
      exact .bind (orderlyAt_emit (by simp [Instruction.local?])) fun _ =>
        .inScope (orderlyAt_assemblers steps _ _ _)

end

end Step

/-- A routine is assembled in order. -/
theorem Routine.orderly_assembled (functions : FunctionTable) (routine : Routine)
    (parameters : List String) :
    (Allocation.initial parameters.length).Orderly
      (routine.assembled functions parameters).acts := by
  refine OrderlyAt.bind (orderlyAt_declareAll _ _) fun _ => ?_
  exact .bind (Step.orderlyAt_assemblers _ _ _ _) fun _ =>
    orderlyAt_emit (by simp [Instruction.local?])

end LineRobot
