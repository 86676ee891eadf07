import LineRobot.Code.Assembly
import LineRobot.Proofs.Success

/-! # Sizes are lengths

The jumps of a program are given their targets from sizes that are counted before any code is made
(`Formula.size`, `Step.size`). The code that is made then has just that length
(`Formula.length_code`, `Step.length_codes`).

The locals of a routine are counted before as well. `Step.afterSteps_next_le` says that the count
covers the locals that are declared on the way. -/

namespace LineRobot

namespace Formula

/-- Placing a failure changes no success. -/
@[simp] theorem placed_eq_ok {α : Type} {position : Position} {result : Except Reason α}
    {value : α} :
    placed position result = .ok value ↔ result = .ok value := by
  cases result with
  | error reason => exact ⟨nofun, nofun⟩
  | ok other =>
    constructor
    · rintro ⟨⟩
      rfl
    · rintro ⟨⟩
      rfl

variable {functions : FunctionTable} {scope : Scope}

mutual

/-- The code of a formula has as many instructions as counted. -/
theorem length_code : (formula : Formula) → {start : Nat} → {code : List Placed} →
    Formula.code functions scope start formula = .ok code → code.length = formula.size
  | .number value position, start, code, made => by
      rw [Formula.code, pure_eq_ok] at made
      rw [← made, size, List.length_singleton]
  | .name text position, start, code, made => by
      simp only [Formula.code, bind_eq_ok, pure_eq_ok] at made
      obtain ⟨instruction, -, rfl⟩ := made
      rw [size, List.length_singleton]
  | .binary operator left right position, start, code, made => by
      simp only [Formula.code, bind_eq_ok, pure_eq_ok] at made
      obtain ⟨leftCode, leftMade, rightCode, rightMade, rfl⟩ := made
      simp only [List.length_append, List.length_singleton, length_code left leftMade,
        length_code right rightMade, size]
  | .logical connective left right position, start, code, made => by
      simp only [Formula.code, bind_eq_ok, pure_eq_ok] at made
      obtain ⟨leftCode, leftMade, rightCode, rightMade, rfl⟩ := made
      simp only [List.length_append, List.length_cons, List.length_nil, length_code left leftMade,
        length_code right rightMade, size]
      omega
  | .unary operator operand position, start, code, made => by
      simp only [Formula.code, bind_eq_ok, pure_eq_ok] at made
      obtain ⟨operandCode, operandMade, rfl⟩ := made
      simp only [List.length_append, List.length_singleton, length_code operand operandMade, size]
  | .change direction moment operand position, start, code, made => by
      cases operand with
      | name text namePosition =>
          simp only [Formula.code, bind_eq_ok, pure_eq_ok] at made
          obtain ⟨slot, -, rfl⟩ := made
          simp only [List.length_singleton, size, placeSize]
      | index array index indexPosition =>
          simp only [Formula.code, bind_eq_ok, pure_eq_ok] at made
          obtain ⟨-, -, indexCode, indexMade, rfl⟩ := made
          simp only [List.length_append, List.length_singleton, length_code index indexMade, size,
            placeSize]
      | _ => cases made
  | .conditional condition whenTrue whenFalse position, start, code, made => by
      simp only [Formula.code, bind_eq_ok, pure_eq_ok] at made
      obtain ⟨conditionCode, conditionMade, trueCode, trueMade, falseCode, falseMade, rfl⟩ := made
      simp only [List.length_append, List.length_cons, length_code condition conditionMade,
        length_code whenTrue trueMade, length_code whenFalse falseMade, size]
      omega
  | .assign compound target value position, start, code, made => by
      cases target with
      | name text namePosition =>
          cases compound with
          | none =>
              simp only [Formula.code, bind_eq_ok, pure_eq_ok] at made
              obtain ⟨slot, -, valueCode, valueMade, rfl⟩ := made
              simp only [List.length_append, List.length_singleton,
                length_code value valueMade, size, placeSize]
              omega
          | some operator =>
              simp only [Formula.code, bind_eq_ok, pure_eq_ok] at made
              obtain ⟨slot, -, valueCode, valueMade, rfl⟩ := made
              simp only [List.length_append, List.length_cons, List.length_nil,
                length_code value valueMade, size, placeSize, oldValueSize]
              omega
      | index array index indexPosition =>
          cases compound with
          | none =>
              simp only [Formula.code, bind_eq_ok, pure_eq_ok] at made
              obtain ⟨-, -, indexCode, indexMade, valueCode, valueMade, rfl⟩ := made
              simp only [List.length_append, List.length_singleton, length_code index indexMade,
                length_code value valueMade, size, placeSize]
          | some operator =>
              simp only [Formula.code, bind_eq_ok, pure_eq_ok] at made
              obtain ⟨-, -, indexCode, indexMade, valueCode, valueMade, rfl⟩ := made
              simp only [List.length_append, List.length_cons, List.length_nil,
                length_code index indexMade, length_code value valueMade, size,
                  placeSize, oldValueSize]
              omega
      | _ => cases made
  | .call callee arguments position, start, code, made => by
      simp only [Formula.code, bind_eq_ok, pure_eq_ok] at made
      obtain ⟨instruction, -, argumentCode, argumentMade, rfl⟩ := made
      simp only [List.length_append, List.length_singleton,
        length_codes arguments argumentMade, size]
  | .index array index position, start, code, made => by
      simp only [Formula.code, bind_eq_ok, pure_eq_ok] at made
      obtain ⟨bank, -, indexCode, indexMade, rfl⟩ := made
      simp only [List.length_append, List.length_singleton, length_code index indexMade, size]

/-- The code of formulas has as many instructions as counted. -/
theorem length_codes : (formulas : List Formula) → {start : Nat} → {code : List Placed} →
    Formula.codes functions scope start formulas = .ok code → code.length = Formula.sizes formulas
  | [], start, code, made => by
      rw [Formula.codes, pure_eq_ok] at made
      rw [← made, sizes, List.length_nil]
  | first :: others, start, code, made => by
      simp only [Formula.codes, bind_eq_ok, pure_eq_ok] at made
      obtain ⟨firstCode, firstMade, otherCode, otherMade, rfl⟩ := made
      rw [List.length_append, length_code first firstMade, length_codes others otherMade, sizes]

end

/-- The code of an optional formula has as many instructions as counted. -/
theorem length_codeOrZero {start : Nat} {position : Position} {value : Option Formula}
    {code : List Placed} (made : codeOrZero functions scope start position value = .ok code) :
    code.length = sizeOr 1 value := by
  cases value with
  | none =>
      rw [codeOrZero, pure_eq_ok] at made
      rw [← made, sizeOr, List.length_singleton]
  | some formula => exact length_code formula made

end Formula

namespace Step

variable {functions : FunctionTable}

/-- When a binding has code, and which: it is writable or has a value, and its name is free. -/
theorem bindingCode_eq_ok {scope : Scope} {start : Nat} {name : String} {writable : Bool}
    {value : Option Formula} {position : Position} {code : List Placed} :
    bindingCode functions scope start name writable value position = .ok code ↔
      (value = none → writable = true) ∧ ∃ valueCode,
        Formula.codeOrZero functions scope start position value = .ok valueCode ∧
          scope.canBind name = .ok () ∧
            valueCode ++ [⟨.store scope.next, position⟩, ⟨.pop, position⟩] = code := by
  unfold bindingCode
  split
  case isTrue constant =>
    refine ⟨nofun, ?_⟩
    rintro ⟨writable, -⟩
    cases value <;> simp_all
  case isFalse allowed =>
    simp only [bind_eq_ok, pure_eq_ok, Formula.placed_eq_ok]
    constructor
    · rintro ⟨valueCode, valueMade, _, free, rfl⟩
      refine ⟨fun missing => ?_, valueCode, valueMade, free, rfl⟩
      simpa [missing] using allowed
    · rintro ⟨-, valueCode, valueMade, free, rfl⟩
      exact ⟨valueCode, valueMade, (), free, rfl⟩

/-- The condition of a `for` loop has as many instructions as counted. -/
theorem length_guardCode {scope : Scope} {start leave : Nat} {position : Position}
    {condition : Option Formula} {code : List Placed}
    (made : guardCode functions scope start leave position condition = .ok code) :
    code.length = clauseSize condition := by
  cases condition with
  | none =>
      rw [guardCode, pure_eq_ok] at made
      rw [← made, clauseSize, List.length_nil]
  | some condition =>
      simp only [guardCode, bind_eq_ok, pure_eq_ok] at made
      obtain ⟨conditionCode, conditionMade, rfl⟩ := made
      simp only [List.length_append, List.length_singleton, clauseSize,
        Formula.length_code condition conditionMade]

/-- The step of a `for` loop has as many instructions as counted. -/
theorem length_advanceCode {scope : Scope} {start : Nat} {position : Position}
    {step : Option Formula} {code : List Placed}
    (made : advanceCode functions scope start position step = .ok code) :
    code.length = clauseSize step := by
  cases step with
  | none =>
      rw [advanceCode, pure_eq_ok] at made
      rw [← made, clauseSize, List.length_nil]
  | some step =>
      simp only [advanceCode, bind_eq_ok, pure_eq_ok] at made
      obtain ⟨stepCode, stepMade, rfl⟩ := made
      simp only [List.length_append, List.length_singleton, clauseSize,
        Formula.length_code step stepMade]

/-- A jump to a target of the innermost loop is one instruction. -/
theorem length_loopJump {targets : Option LoopTargets} {target : LoopTargets → Nat}
    {missing : Reason} {position : Position} {code : List Placed}
    (made : loopJump targets target missing position = .ok code) : code.length = 1 := by
  cases targets with
  | none => cases made
  | some targets =>
      cases made
      exact List.length_singleton

mutual

/-- The code of a step has as many instructions as counted. -/
theorem length_code : (step : Step) → {targets : Option LoopTargets} → {scope : Scope} →
    {start : Nat} → {code : List Placed} →
    Step.code functions targets scope start step = .ok code → code.length = step.size
  | .bind name writable value position, targets, scope, start, code, made => by
      rw [Step.code, bindingCode_eq_ok] at made
      obtain ⟨-, valueCode, valueMade, -, rfl⟩ := made
      simp only [List.length_append, List.length_cons, List.length_nil, size,
        Formula.length_codeOrZero valueMade]
  | .evaluate value position, targets, scope, start, code, made => by
      simp only [Step.code, bind_eq_ok, pure_eq_ok] at made
      obtain ⟨valueCode, valueMade, rfl⟩ := made
      simp only [List.length_append, List.length_singleton, size,
        Formula.length_code value valueMade]
  | .tick position, targets, scope, start, code, made => by
      rw [Step.code, pure_eq_ok] at made
      rw [← made, size, List.length_singleton]
  | .wait duration position, targets, scope, start, code, made => by
      simp only [Step.code, bind_eq_ok, pure_eq_ok] at made
      obtain ⟨durationCode, durationMade, rfl⟩ := made
      simp only [List.length_append, List.length_singleton, size,
        Formula.length_code duration durationMade]
  | .branch condition whenTrue whenFalse position, targets, scope, start, code, made => by
      simp only [Step.code, bind_eq_ok, pure_eq_ok] at made
      obtain ⟨conditionCode, conditionMade, trueCode, trueMade, falseCode, falseMade, rfl⟩ := made
      simp only [List.length_append, List.length_cons, size,
        Formula.length_code condition conditionMade, length_codes whenTrue trueMade,
        length_otherwiseCode whenFalse falseMade]
      omega
  | .forever body position, targets, scope, start, code, made => by
      simp only [Step.code, bind_eq_ok, pure_eq_ok] at made
      obtain ⟨bodyCode, bodyMade, rfl⟩ := made
      simp only [List.length_append, List.length_singleton, size, length_codes body bodyMade]
  | .whileLoop condition body position, targets, scope, start, code, made => by
      simp only [Step.code, bind_eq_ok, pure_eq_ok] at made
      obtain ⟨conditionCode, conditionMade, bodyCode, bodyMade, rfl⟩ := made
      simp only [List.length_append, List.length_cons, List.length_nil, size,
        Formula.length_code condition conditionMade, length_codes body bodyMade]
      omega
  | .doLoop body condition position, targets, scope, start, code, made => by
      simp only [Step.code, bind_eq_ok, pure_eq_ok] at made
      obtain ⟨bodyCode, bodyMade, conditionCode, conditionMade, rfl⟩ := made
      simp only [List.length_append, List.length_singleton, size,
        Formula.length_code condition conditionMade, length_codes body bodyMade]
  | .forLoop first condition step body position, targets, scope, start, code, made => by
      simp only [Step.code, bind_eq_ok, pure_eq_ok] at made
      obtain ⟨firstCode, firstMade, conditionCode, conditionMade, bodyCode, bodyMade, stepCode,
        stepMade, rfl⟩ := made
      simp only [List.length_append, List.length_singleton, size, length_codes first firstMade,
        length_guardCode conditionMade, length_codes body bodyMade, length_advanceCode stepMade]
  | .block body position, targets, scope, start, code, made => by
      rw [Step.code] at made
      rw [size, length_codes body made]
  | .leaveLoop position, targets, scope, start, code, made => by
      rw [Step.code] at made
      exact length_loopJump made
  | .nextRound position, targets, scope, start, code, made => by
      rw [Step.code] at made
      exact length_loopJump made
  | .giveBack value position, targets, scope, start, code, made => by
      simp only [Step.code, bind_eq_ok, pure_eq_ok] at made
      obtain ⟨valueCode, valueMade, rfl⟩ := made
      simp only [List.length_append, List.length_singleton, size,
        Formula.length_codeOrZero valueMade]

/-- The code of steps has as many instructions as counted. -/
theorem length_codes : (steps : List Step) → {targets : Option LoopTargets} → {scope : Scope} →
    {start : Nat} → {code : List Placed} →
    Step.codes functions targets scope start steps = .ok code → code.length = Step.sizes steps
  | [], targets, scope, start, code, made => by
      rw [Step.codes, pure_eq_ok] at made
      rw [← made, sizes, List.length_nil]
  | first :: others, targets, scope, start, code, made => by
      simp only [Step.codes, bind_eq_ok, pure_eq_ok] at made
      obtain ⟨firstCode, firstMade, otherCode, otherMade, rfl⟩ := made
      rw [List.length_append, length_code first firstMade, length_codes others otherMade, sizes]

/-- The code of an optional second branch has as many instructions as counted. -/
theorem length_otherwiseCode : (steps : Option (List Step)) → {targets : Option LoopTargets} →
    {scope : Scope} → {start : Nat} → {position : Position} → {code : List Placed} →
    Step.otherwiseCode functions targets scope start position steps = .ok code →
    code.length = Step.otherwiseSize steps
  | none, targets, scope, start, position, code, made => by
      rw [Step.otherwiseCode, pure_eq_ok] at made
      rw [← made, otherwiseSize, List.length_nil]
  | some steps, targets, scope, start, position, code, made => by
      simp only [Step.otherwiseCode, bind_eq_ok, pure_eq_ok] at made
      obtain ⟨stepCode, stepMade, rfl⟩ := made
      rw [List.length_cons, length_codes steps stepMade, otherwiseSize, Nat.add_comm]

end

/-! ## Steps one after the other -/

/-- The code of steps one after the other. -/
theorem codes_append {targets : Option LoopTargets} {scope : Scope} {start : Nat}
    {first others : List Step} {code : List Placed} :
    codes functions targets scope start (first ++ others) = .ok code ↔
      ∃ firstCode otherCode, codes functions targets scope start first = .ok firstCode ∧
        codes functions targets (scope.afterSteps first) (start + sizes first) others =
          .ok otherCode ∧ firstCode ++ otherCode = code := by
  induction first generalizing scope start code with
  | nil =>
      simp only [List.nil_append, codes, pure_eq_ok, sizes]
      constructor
      · intro made
        exact ⟨[], code, rfl, made, rfl⟩
      · rintro ⟨_, otherCode, rfl, made, rfl⟩
        exact made
  | cons step later ih =>
      simp only [List.cons_append, codes, bind_eq_ok, pure_eq_ok, ih, sizes]
      constructor
      -- both directions only move the parentheses
      · rintro ⟨stepCode, stepMade, _, ⟨laterCode, otherCode, laterMade, otherMade, rfl⟩, rfl⟩
        refine ⟨_, otherCode, ⟨stepCode, stepMade, laterCode, laterMade, rfl⟩, ?_,
          List.append_assoc ..⟩
        rw [← Nat.add_assoc]
        exact otherMade
      · rintro ⟨_, otherCode, ⟨stepCode, stepMade, laterCode, laterMade, rfl⟩, otherMade, rfl⟩
        refine ⟨stepCode, stepMade, _, ⟨laterCode, otherCode, laterMade, ?_, rfl⟩,
          (List.append_assoc ..).symm⟩
        rw [Nat.add_assoc]
        exact otherMade

/-- The code of one step. -/
theorem codes_singleton {targets : Option LoopTargets} {scope : Scope} {start : Nat} {step : Step}
    {code : List Placed} : codes functions targets scope start [step] = .ok code ↔
      Step.code functions targets scope start step = .ok code := by
  simp only [codes, bind_eq_ok, pure_eq_ok]
  constructor
  · rintro ⟨stepCode, made, _, rfl, rfl⟩
    rw [List.append_nil]
    exact made
  · intro made
    exact ⟨code, made, [], rfl, List.append_nil code⟩

/-! ## Locals -/

/-- The number of locals of steps one after the other: the later ones follow the first ones. -/
theorem slots_append (later : Nat) (first others : List Step) :
    slots later (first ++ others) = slots (slots later others) first := by
  induction first with
  | nil => rfl
  | cons step steps ih => cases step <;> simp only [List.cons_append, slots, ih]

/-- The locals declared by steps and those needed after them are within the count. -/
theorem afterSteps_next_le (scope : Scope) (steps : List Step) (later : Nat) :
    (scope.afterSteps steps).next + later ≤ scope.next + slots later steps := by
  induction steps generalizing scope with
  | nil => exact Nat.le_refl _
  | cons step others ih =>
      have rest := ih (scope.afterStep step)
      rw [Scope.afterSteps, List.foldl_cons]
      refine Nat.le_trans rest ?_
      cases step <;> simp only [Scope.afterStep, Scope.bind, slots] <;> omega

/-- The more locals are needed after steps, the more are needed. -/
theorem slots_mono {fewer more : Nat} (le : fewer ≤ more) (steps : List Step) :
    slots fewer steps ≤ slots more steps := by
  induction steps with
  | nil => exact le
  | cons step others ih => cases step <;> simp only [slots] <;> omega

end Step

end LineRobot
