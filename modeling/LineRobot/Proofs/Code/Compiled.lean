import LineRobot.Proofs.Code.Emission
import LineRobot.Proofs.Code.Size

/-! # The code that is made

What `Formula.ofExpression` and `Formula.code` make of an expression is its code in the sense of
`Expression.Emits`, and likewise for statements, functions and programs. The main result is
`Program.emits_of_compile`. -/

namespace LineRobot

namespace Expression

variable {names : List String} {functions : FunctionTable} {scope : Scope}

/-- A call resolves just if it is no wait and its arguments resolve. -/
theorem ofExpression_call_eq_ok {callee : String} {arguments : List (Expression String)}
    {position : Position} {formula : Formula} :
    Formula.ofExpression names (.call callee arguments position) = .ok formula ↔
      callee ≠ Vocabulary.wait ∧ ∃ formulas,
        Formula.ofExpressions names arguments = .ok formulas ∧
          .call (Callee.ofName names callee) formulas position = formula := by
  rw [Formula.ofExpression]
  split
  case isTrue waits =>
    constructor
    · intro resolved
      cases resolved
    · intro call
      exact absurd waits call.1
  case isFalse waits =>
    simp only [bind_eq_ok, pure_eq_ok]
    exact ⟨fun call => ⟨waits, call⟩, And.right⟩

/-- Only a name resolves to a name. -/
theorem eq_name_of_resolved {expression : Expression String} {text : String} {position : Position}
    (resolved : Formula.ofExpression names expression = .ok (.name text position)) :
    expression = .name text position := by
  cases expression with
  | call callee arguments place =>
      rw [ofExpression_call_eq_ok] at resolved
      obtain ⟨-, formulas, -, same⟩ := resolved
      cases same
  | name other place =>
      rw [Formula.ofExpression, pure_eq_ok] at resolved
      cases resolved
      rfl
  | _ => simp [Formula.ofExpression, bind_eq_ok, pure_eq_ok, -bind_pure_comp] at resolved

/-- Only an array element resolves to an array element. -/
theorem exists_index_of_resolved {expression : Expression String} {array index : Formula}
    {position : Position}
    (resolved : Formula.ofExpression names expression = .ok (.index array index position)) :
    ∃ base subscript, expression = .index base subscript position ∧
      Formula.ofExpression names base = .ok array ∧
        Formula.ofExpression names subscript = .ok index := by
  cases expression with
  | call callee arguments place =>
      rw [ofExpression_call_eq_ok] at resolved
      obtain ⟨-, formulas, -, same⟩ := resolved
      cases same
  | index base subscript place =>
      simp only [Formula.ofExpression, bind_eq_ok, pure_eq_ok] at resolved
      obtain ⟨array, arrayResolved, index, indexResolved, same⟩ := resolved
      cases same
      exact ⟨base, subscript, rfl, arrayResolved, indexResolved⟩
  | _ => simp [Formula.ofExpression, bind_eq_ok, pure_eq_ok, -bind_pure_comp] at resolved

/-- An expression that resolves to a formula naming an array names it itself. -/
theorem bank?_of_resolved {expression : Expression String} {formula : Formula} {bank : Bank}
    (resolved : Formula.ofExpression names expression = .ok formula)
    (named : formula.bank = .ok bank) : expression.bank? = some bank := by
  cases formula with
  | name text position =>
      rw [eq_name_of_resolved resolved, bank?]
      rw [Formula.bank] at named
      split at named
      case h_1 found =>
        rw [found, Except.ok.inj named]
      case h_2 => cases named
  | _ => cases named

/-- A writable array is that of the variable slots. -/
theorem bank_of_writableBank {array : Formula} {result : Unit}
    (writable : array.writableBank = .ok result) : array.bank = .ok .slots := by
  simp only [Formula.writableBank, bind_eq_ok] at writable
  obtain ⟨bank, named, writable⟩ := writable
  cases bank with
  | slots => exact named
  | sensors => cases writable

/-- A name that can be assigned to is that of a writable local. -/
theorem lookup?_of_writableLocal {text : String} {position : Position} {slot : Nat}
    (writable : Formula.writableLocal scope text position = .ok slot) :
    scope.lookup? text = some ⟨slot, true⟩ := by
  unfold Formula.writableLocal at writable
  split at writable
  case h_1 found => rw [found, Except.ok.inj writable]
  case h_2 => cases writable
  case h_3 => split at writable <;> cases writable

/-- As many formulas as there are expressions. -/
theorem length_ofExpressions {expressions : List (Expression String)} {formulas : List Formula}
    (resolved : Formula.ofExpressions names expressions = .ok formulas) :
    formulas.length = expressions.length := by
  induction expressions generalizing formulas with
  | nil =>
      rw [Formula.ofExpressions, pure_eq_ok] at resolved
      rw [← resolved, List.length_nil, List.length_nil]
  | cons first others ih =>
      simp only [Formula.ofExpressions, bind_eq_ok, pure_eq_ok] at resolved
      obtain ⟨formula, -, later, laterResolved, rfl⟩ := resolved
      rw [List.length_cons, List.length_cons, ih laterResolved]

/-- The instruction of a call comes after the code of its arguments. -/
theorem emits_call {callee : String} {arguments : List (Expression String)} {start : Nat}
    {argumentCode : List Placed} {instruction : Instruction} {position : Position}
    (notWait : callee ≠ Vocabulary.wait)
    (emitted : EmitsAll functions scope start arguments argumentCode)
    (called : Formula.callInstruction functions (Callee.ofName names callee) arguments.length =
      .ok instruction) :
    Emits functions scope start (.call callee arguments position)
      (argumentCode ++ [⟨instruction, position⟩]) := by
  unfold Callee.ofName at called
  split at called
  case isTrue motor =>
    rw [Formula.callInstruction] at called
    split at called
    case isTrue two =>
      rw [← Except.ok.inj called, motor]
      exact .drive two emitted
    case isFalse => cases called
  case isFalse notMotor =>
    split at called
    case isTrue =>
      rw [Formula.callInstruction] at called
      split at called
      case h_1 => cases called
      case h_2 signature found =>
        split at called
        case isTrue enough =>
          rw [← Except.ok.inj called]
          exact .call notMotor notWait found enough emitted
        case isFalse => cases called
    case isFalse =>
      -- a call of nothing that is known has no instruction
      rw [Formula.callInstruction] at called
      split at called <;> cases called

mutual

/-- The code that is made of an expression is its code. -/
theorem emits_of_code : (expression : Expression String) → {formula : Formula} → {start : Nat} →
    {code : List Placed} → Formula.ofExpression names expression = .ok formula →
    Formula.code functions scope start formula = .ok code →
    Emits functions scope start expression code
  | .number value position, formula, start, code, resolved, made => by
      rw [Formula.ofExpression, pure_eq_ok] at resolved
      rw [← resolved, Formula.code, pure_eq_ok] at made
      rw [← made]
      exact .number
  | .name text position, formula, start, code, resolved, made => by
      rw [Formula.ofExpression, pure_eq_ok] at resolved
      simp only [← resolved, Formula.code, bind_eq_ok, pure_eq_ok, Formula.placed_eq_ok] at made
      obtain ⟨instruction, meant, rfl⟩ := made
      exact .name meant
  | .binary operator left right position, formula, start, code, resolved, made => by
      simp only [Formula.ofExpression, bind_eq_ok, pure_eq_ok] at resolved
      obtain ⟨leftFormula, leftResolved, rightFormula, rightResolved, rfl⟩ := resolved
      simp only [Formula.code, bind_eq_ok, pure_eq_ok] at made
      obtain ⟨leftCode, leftMade, rightCode, rightMade, rfl⟩ := made
      rw [← Formula.length_code leftFormula leftMade] at rightMade
      exact .binary (emits_of_code left leftResolved leftMade)
        (emits_of_code right rightResolved rightMade)
  | .logical connective left right position, formula, start, code, resolved, made => by
      simp only [Formula.ofExpression, bind_eq_ok, pure_eq_ok] at resolved
      obtain ⟨leftFormula, leftResolved, rightFormula, rightResolved, rfl⟩ := resolved
      simp only [Formula.code, bind_eq_ok, pure_eq_ok] at made
      obtain ⟨leftCode, leftMade, rightCode, rightMade, rfl⟩ := made
      -- the jumps count instructions, the rules measure the code
      rw [← Formula.length_code leftFormula leftMade, ← Formula.length_code rightFormula rightMade]
      rw [← Formula.length_code leftFormula leftMade] at rightMade
      exact .logical (emits_of_code left leftResolved leftMade)
        (emits_of_code right rightResolved rightMade)
  | .unary operator operand position, formula, start, code, resolved, made => by
      simp only [Formula.ofExpression, bind_eq_ok, pure_eq_ok] at resolved
      obtain ⟨operandFormula, operandResolved, rfl⟩ := resolved
      simp only [Formula.code, bind_eq_ok, pure_eq_ok] at made
      obtain ⟨operandCode, operandMade, rfl⟩ := made
      exact .unary (emits_of_code operand operandResolved operandMade)
  | .change direction moment operand position, formula, start, code, resolved, made => by
      simp only [Formula.ofExpression, bind_eq_ok, pure_eq_ok] at resolved
      obtain ⟨operandFormula, operandResolved, rfl⟩ := resolved
      -- only a name or an element can be changed
      cases operandFormula with
      | name text namePosition =>
          obtain rfl := eq_name_of_resolved operandResolved
          simp only [Formula.code, bind_eq_ok, pure_eq_ok] at made
          obtain ⟨slot, writable, rfl⟩ := made
          exact .changeLocal (lookup?_of_writableLocal writable)
      | index array index indexPosition =>
          obtain ⟨base, subscript, rfl, baseResolved, subscriptResolved⟩ :=
            exists_index_of_resolved operandResolved
          simp only [Formula.code, bind_eq_ok, pure_eq_ok] at made
          obtain ⟨_, writable, subscriptCode, subscriptMade, rfl⟩ := made
          exact .changeSlot (bank?_of_resolved baseResolved (bank_of_writableBank writable))
            (emits_of_code subscript subscriptResolved subscriptMade)
      | _ => cases made
  | .conditional condition whenTrue whenFalse position, formula, start, code, resolved, made => by
      simp only [Formula.ofExpression, bind_eq_ok, pure_eq_ok] at resolved
      obtain ⟨conditionFormula, conditionResolved, trueFormula, trueResolved, falseFormula,
        falseResolved, rfl⟩ := resolved
      simp only [Formula.code, bind_eq_ok, pure_eq_ok] at made
      obtain ⟨conditionCode, conditionMade, trueCode, trueMade, falseCode, falseMade, rfl⟩ := made
      rw [← Formula.length_code conditionFormula conditionMade,
        ← Formula.length_code trueFormula trueMade, ← Formula.length_code falseFormula falseMade]
      rw [← Formula.length_code conditionFormula conditionMade] at trueMade falseMade
      rw [← Formula.length_code trueFormula trueMade] at falseMade
      exact .conditional (emits_of_code condition conditionResolved conditionMade)
        (emits_of_code whenTrue trueResolved trueMade)
        (emits_of_code whenFalse falseResolved falseMade)
  | .assign compound target value position, formula, start, code, resolved, made => by
      simp only [Formula.ofExpression, bind_eq_ok, pure_eq_ok] at resolved
      obtain ⟨targetFormula, targetResolved, valueFormula, valueResolved, rfl⟩ := resolved
      -- a target that is neither a name nor an element has no code
      cases targetFormula with
      | name text namePosition =>
          obtain rfl := eq_name_of_resolved targetResolved
          cases compound with
          | none =>
              simp only [Formula.code, bind_eq_ok, pure_eq_ok] at made
              obtain ⟨slot, writable, valueCode, valueMade, rfl⟩ := made
              exact .assignLocal (lookup?_of_writableLocal writable)
                (emits_of_code value valueResolved valueMade)
          | some operator =>
              simp only [Formula.code, bind_eq_ok, pure_eq_ok] at made
              obtain ⟨slot, writable, valueCode, valueMade, rfl⟩ := made
              exact .updateLocal (lookup?_of_writableLocal writable)
                (emits_of_code value valueResolved valueMade)
      | index array index indexPosition =>
          obtain ⟨base, subscript, rfl, baseResolved, subscriptResolved⟩ :=
            exists_index_of_resolved targetResolved
          cases compound with
          | none =>
              simp only [Formula.code, bind_eq_ok, pure_eq_ok] at made
              obtain ⟨_, writable, subscriptCode, subscriptMade, valueCode, valueMade, rfl⟩ := made
              rw [← Formula.length_code index subscriptMade] at valueMade
              exact .assignSlot (bank?_of_resolved baseResolved (bank_of_writableBank writable))
                (emits_of_code subscript subscriptResolved subscriptMade)
                (emits_of_code value valueResolved valueMade)
          | some operator =>
              simp only [Formula.code, bind_eq_ok, pure_eq_ok] at made
              obtain ⟨_, writable, subscriptCode, subscriptMade, valueCode, valueMade, rfl⟩ := made
              rw [← Formula.length_code index subscriptMade] at valueMade
              exact .updateSlot (bank?_of_resolved baseResolved (bank_of_writableBank writable))
                (emits_of_code subscript subscriptResolved subscriptMade)
                (emits_of_code value valueResolved valueMade)
      | _ => cases made
  | .call callee arguments position, formula, start, code, resolved, made => by
      rw [ofExpression_call_eq_ok] at resolved
      obtain ⟨notWait, formulas, argumentsResolved, rfl⟩ := resolved
      simp only [Formula.code, bind_eq_ok, pure_eq_ok, Formula.placed_eq_ok] at made
      obtain ⟨instruction, called, argumentCode, argumentsMade, rfl⟩ := made
      rw [length_ofExpressions argumentsResolved] at called
      exact emits_call notWait (emitsAll_of_codes arguments argumentsResolved argumentsMade) called
  | .index array subscript position, formula, start, code, resolved, made => by
      simp only [Formula.ofExpression, bind_eq_ok, pure_eq_ok] at resolved
      obtain ⟨arrayFormula, arrayResolved, subscriptFormula, subscriptResolved, rfl⟩ := resolved
      simp only [Formula.code, bind_eq_ok, pure_eq_ok] at made
      obtain ⟨bank, named, subscriptCode, subscriptMade, rfl⟩ := made
      exact .index (bank?_of_resolved arrayResolved named)
        (emits_of_code subscript subscriptResolved subscriptMade)

/-- The code that is made of expressions is their code. -/
theorem emitsAll_of_codes : (expressions : List (Expression String)) → {formulas : List Formula} →
    {start : Nat} → {code : List Placed} →
    Formula.ofExpressions names expressions = .ok formulas →
    Formula.codes functions scope start formulas = .ok code →
    EmitsAll functions scope start expressions code
  | [], formulas, start, code, resolved, made => by
      rw [Formula.ofExpressions, pure_eq_ok] at resolved
      rw [← resolved, Formula.codes, pure_eq_ok] at made
      rw [← made]
      exact .nil
  | first :: others, formulas, start, code, resolved, made => by
      simp only [Formula.ofExpressions, bind_eq_ok, pure_eq_ok] at resolved
      obtain ⟨firstFormula, firstResolved, otherFormulas, othersResolved, rfl⟩ := resolved
      simp only [Formula.codes, bind_eq_ok, pure_eq_ok] at made
      obtain ⟨firstCode, firstMade, otherCode, othersMade, rfl⟩ := made
      rw [← Formula.length_code firstFormula firstMade] at othersMade
      exact .cons (emits_of_code first firstResolved firstMade)
        (emitsAll_of_codes others othersResolved othersMade)

end

/-- The code that is made of an optional value is its code. -/
theorem emitsOrZero_of_codeOrZero {value : Option (Expression String)} {formula : Option Formula}
    {start : Nat} {position : Position} {code : List Placed}
    (resolved : Formula.ofExpression? names value = .ok formula)
    (made : Formula.codeOrZero functions scope start position formula = .ok code) :
    EmitsOrZero functions scope start position value code := by
  cases value with
  | none =>
      rw [Formula.ofExpression?, pure_eq_ok] at resolved
      rw [← resolved, Formula.codeOrZero, pure_eq_ok] at made
      rw [← made]
      exact .zero
  | some value =>
      simp only [Formula.ofExpression?, bind_eq_ok, pure_eq_ok] at resolved
      obtain ⟨formula, resolved, rfl⟩ := resolved
      exact .value (emits_of_code value resolved made)

/-- The code that is made of the condition of a `for` loop is its code. -/
theorem emitsGuard_of_guardCode {condition : Option (Expression String)} {formula : Option Formula}
    {start leave : Nat} {position : Position} {code : List Placed}
    (resolved : Formula.ofExpression? names condition = .ok formula)
    (made : Step.guardCode functions scope start leave position formula = .ok code) :
    EmitsGuard functions scope start leave position condition code := by
  cases condition with
  | none =>
      rw [Formula.ofExpression?, pure_eq_ok] at resolved
      rw [← resolved, Step.guardCode, pure_eq_ok] at made
      rw [← made]
      exact .always
  | some condition =>
      simp only [Formula.ofExpression?, bind_eq_ok, pure_eq_ok] at resolved
      obtain ⟨formula, resolved, rfl⟩ := resolved
      simp only [Step.guardCode, bind_eq_ok, pure_eq_ok] at made
      obtain ⟨conditionCode, made, rfl⟩ := made
      exact .condition (emits_of_code condition resolved made)

/-- The code that is made of the step of a `for` loop is its code. -/
theorem emitsAdvance_of_advanceCode {step : Option (Expression String)} {formula : Option Formula}
    {start : Nat} {position : Position} {code : List Placed}
    (resolved : Formula.ofExpression? names step = .ok formula)
    (made : Step.advanceCode functions scope start position formula = .ok code) :
    EmitsAdvance functions scope start position step code := by
  cases step with
  | none =>
      rw [Formula.ofExpression?, pure_eq_ok] at resolved
      rw [← resolved, Step.advanceCode, pure_eq_ok] at made
      rw [← made]
      exact .nothing
  | some step =>
      simp only [Formula.ofExpression?, bind_eq_ok, pure_eq_ok] at resolved
      obtain ⟨formula, resolved, rfl⟩ := resolved
      simp only [Step.advanceCode, bind_eq_ok, pure_eq_ok] at made
      obtain ⟨stepCode, made, rfl⟩ := made
      exact .step (emits_of_code step resolved made)

/-- An expression statement is a wait or an evaluation. -/
theorem ofExpressionStatement_eq_ok {value : Expression String} {position : Position}
    {step : Step} :
    Step.ofExpressionStatement names position value = .ok step ↔
      (∃ duration callPosition formula, value = .call Vocabulary.wait [duration] callPosition ∧
        Formula.ofExpression names duration = .ok formula ∧ .wait formula position = step) ∨
      ∃ formula, Formula.ofExpression names value = .ok formula ∧
        .evaluate formula position = step := by
  unfold Step.ofExpressionStatement
  split
  case h_1 callee arguments callPosition =>
    split
    case isTrue waits =>
      subst waits
      -- a wait is no value, so it can only be a wait statement
      have refused (formula : Formula) :
          Formula.ofExpression names (.call Vocabulary.wait arguments callPosition) ≠ .ok formula :=
        fun resolved => (ofExpression_call_eq_ok.mp resolved).1 rfl
      split
      case h_1 duration =>
        simp only [bind_eq_ok, pure_eq_ok]
        constructor
        · rintro ⟨formula, resolved, rfl⟩
          exact .inl ⟨duration, callPosition, formula, rfl, resolved, rfl⟩
        · rintro (⟨_, _, formula, same, resolved, rfl⟩ | ⟨formula, resolved, -⟩)
          · cases same
            exact ⟨formula, resolved, rfl⟩
          · exact absurd resolved (refused formula)
      -- a wait with another number of arguments is refused
      case h_2 several =>
        refine ⟨nofun, ?_⟩
        rintro (⟨duration, _, _, same, -⟩ | ⟨formula, resolved, -⟩)
        · cases same
          exact absurd rfl (several duration)
        · exact absurd resolved (refused formula)
    case isFalse calls =>
      simp only [bind_eq_ok, pure_eq_ok]
      refine ⟨.inr, ?_⟩
      rintro (⟨_, _, _, same, -⟩ | evaluated)
      · cases same
        exact absurd rfl calls
      · exact evaluated
  case h_2 other =>
    simp only [bind_eq_ok, pure_eq_ok]
    refine ⟨.inr, ?_⟩
    rintro (⟨_, _, _, same, -⟩ | evaluated)
    · exact absurd same (other _ _ _)
    · exact evaluated

/-- The code that is made of an expression statement is its code, and it declares nothing. -/
theorem emitsEffect_of_codes {value : Expression String} {position : Position} {step : Step}
    {targets : Option LoopTargets} {start : Nat} {code : List Placed}
    (resolved : Step.ofExpressionStatement names position value = .ok step)
    (made : Step.codes functions targets scope start [step] = .ok code) :
    EmitsEffect functions scope start position value code ∧ scope.afterSteps [step] = scope := by
  rw [Step.codes_singleton] at made
  rw [ofExpressionStatement_eq_ok] at resolved
  obtain ⟨duration, callPosition, formula, rfl, resolved, rfl⟩ | ⟨formula, resolved, rfl⟩ :=
    resolved
  · simp only [Step.code, bind_eq_ok, pure_eq_ok] at made
    obtain ⟨durationCode, made, rfl⟩ := made
    exact ⟨.wait (emits_of_code duration resolved made), rfl⟩
  · simp only [Step.code, bind_eq_ok, pure_eq_ok] at made
    obtain ⟨valueCode, made, rfl⟩ := made
    exact ⟨.evaluate (emits_of_code value resolved made), rfl⟩

end Expression

section Statements

variable {names : List String} {functions : FunctionTable} {localCount : Nat}

/-- The code that is made of declarations is their code. -/
theorem Declarator.emits_of_codes {type : DeclaredType} {declarators : List Declarator}
    {steps : List Step} {targets : Option LoopTargets} {scope : Scope} {start later : Nat}
    {code : List Placed} (resolved : Step.ofDeclarators names type declarators = .ok steps)
    (made : Step.codes functions targets scope start steps = .ok code)
    (room : scope.next + Step.slots later steps ≤ localCount) :
    Declarator.Emits functions localCount (!type.constant) scope start declarators code
      (scope.afterSteps steps) := by
  induction declarators generalizing scope start steps code with
  | nil =>
      rw [Step.ofDeclarators, pure_eq_ok] at resolved
      rw [← resolved, Step.codes, pure_eq_ok] at made
      rw [← made, ← resolved]
      exact .nil
  | cons declarator others ih =>
      simp only [Step.ofDeclarators, bind_eq_ok, pure_eq_ok] at resolved
      obtain ⟨value, valueResolved, otherSteps, othersResolved, rfl⟩ := resolved
      simp only [Step.codes, bind_eq_ok, pure_eq_ok, Step.code, Step.bindingCode_eq_ok] at made
      obtain ⟨_, ⟨initialized, valueCode, valueMade, free, rfl⟩, otherCode, othersMade, rfl⟩ := made
      rw [Step.slots] at room
      -- the other declarations see this one, and have one local less
      rw [Step.size, ← Formula.length_codeOrZero valueMade, ← Nat.add_assoc] at othersMade
      have rest := ih othersResolved othersMade (by
        show scope.next + 1 + _ ≤ _
        omega)
      rw [List.append_assoc]
      refine .cons (fun missing => initialized ?_)
        (Expression.emitsOrZero_of_codeOrZero valueResolved valueMade) free (by omega) rest
      rw [missing, Formula.ofExpression?, pure_eq_ok] at valueResolved
      exact valueResolved.symm

/-- The code that is made of the first clause of a `for` loop is its code. -/
theorem ForStart.emits_of_codes {first : ForStart} {steps : List Step}
    {targets : Option LoopTargets} {scope : Scope} {start later : Nat} {code : List Placed}
    (resolved : Step.ofForStart names first = .ok steps)
    (made : Step.codes functions targets scope start steps = .ok code)
    (room : scope.next + Step.slots later steps ≤ localCount) :
    first.Emits functions localCount scope start code (scope.afterSteps steps) := by
  cases first with
  | nothing =>
      rw [Step.ofForStart, pure_eq_ok] at resolved
      rw [← resolved, Step.codes, pure_eq_ok] at made
      rw [← made, ← resolved]
      exact .nothing
  | declaration type declarators position =>
      rw [Step.ofForStart] at resolved
      exact .declaration (Declarator.emits_of_codes resolved made room)
  | expression value position =>
      simp only [Step.ofForStart, bind_eq_ok, pure_eq_ok] at resolved
      obtain ⟨step, resolved, rfl⟩ := resolved
      obtain ⟨emitted, same⟩ := Expression.emitsEffect_of_codes resolved made
      rw [same]
      exact .expression emitted

namespace Statement

mutual

/-- The code that is made of a statement is its code. -/
theorem emits_of_codes : (statement : Statement) → {steps : List Step} →
    {targets : Option LoopTargets} → {scope : Scope} → {start : Nat} → {code : List Placed} →
    Step.ofStatement names statement = .ok steps →
    Step.codes functions targets scope start steps = .ok code →
    scope.next + Step.slots 0 steps ≤ localCount →
    Emits functions localCount targets scope start statement code (scope.afterSteps steps)
  | .declaration type declarators position, steps, targets, scope, start, code, resolved, made,
      room => by
      rw [Step.ofStatement] at resolved
      exact .declaration (Declarator.emits_of_codes resolved made room)
  | .expression value position, steps, targets, scope, start, code, resolved, made, room => by
      simp only [Step.ofStatement, bind_eq_ok, pure_eq_ok] at resolved
      obtain ⟨step, resolved, rfl⟩ := resolved
      obtain ⟨emitted, same⟩ := Expression.emitsEffect_of_codes resolved made
      rw [same]
      exact .expression emitted
  | .branch condition whenTrue whenFalse position, steps, targets, scope, start, code, resolved,
      made, room => by
      simp only [Step.ofStatement, bind_eq_ok, pure_eq_ok] at resolved
      obtain ⟨formula, conditionResolved, trueSteps, trueResolved, falseSteps,
        falseResolved, rfl⟩ :=
        resolved
      simp only [Step.codes_singleton, Step.code, bind_eq_ok, pure_eq_ok] at made
      obtain ⟨conditionCode, conditionMade, trueCode, trueMade, falseCode, falseMade, rfl⟩ := made
      simp only [Step.slots, Step.innerSlots] at room
      have conditionEmitted := Expression.emits_of_code condition conditionResolved conditionMade
      have trueEmitted := emitsAll_of_codes whenTrue trueResolved trueMade (by
        show scope.next + _ ≤ _
        omega)
      rw [← Formula.length_code formula conditionMade] at falseMade trueEmitted ⊢
      rw [← Step.length_codes trueSteps trueMade] at falseMade ⊢
      cases whenFalse with
      | none =>
          rw [Step.ofStatements?, pure_eq_ok] at falseResolved
          subst falseResolved
          rw [Step.otherwiseCode, pure_eq_ok] at falseMade
          rw [← falseMade, List.append_nil]
          exact .branch conditionEmitted trueEmitted
      | some whenFalse =>
          simp only [Step.ofStatements?, bind_eq_ok, pure_eq_ok] at falseResolved
          obtain ⟨falseSteps, falseResolved, rfl⟩ := falseResolved
          simp only [Step.otherwiseCode, bind_eq_ok, pure_eq_ok] at falseMade
          obtain ⟨falseCode, falseMade, rfl⟩ := falseMade
          have falseEmitted := emitsAll_of_codes whenFalse falseResolved falseMade (by
            rw [Step.otherwiseSlots] at room
            show scope.next + _ ≤ _
            omega)
          rw [← Step.length_codes falseSteps falseMade]
          exact .branches conditionEmitted trueEmitted falseEmitted
  | .whileLoop condition body position, steps, targets, scope, start, code, resolved, made,
      room => by
      rw [Step.ofStatement] at resolved
      split at resolved
      case isTrue truth =>
        simp only [bind_eq_ok, pure_eq_ok] at resolved
        obtain ⟨bodySteps, bodyResolved, rfl⟩ := resolved
        rw [Step.codes_singleton] at made
        simp only [Step.code, Step.codes, bind_eq_ok, pure_eq_ok] at made
        obtain ⟨_, ⟨_, rfl, bodyCode, bodyMade, rfl⟩, rfl⟩ := made
        simp only [Step.slots, Step.innerSlots] at room
        have bodyEmitted := emitsAll_of_codes body bodyResolved bodyMade (by
          show scope.next + _ ≤ _
          omega)
        -- the tick is a step of the body, so the jumps count it with the body
        have leave : start + (1 + bodyCode.length) + 1 = start + bodyCode.length + 2 := by omega
        rw [Step.sizes, ← Step.length_codes bodySteps bodyMade, Step.size, leave] at bodyEmitted
        exact .forever truth bodyEmitted
      case isFalse truth =>
        simp only [bind_eq_ok, pure_eq_ok] at resolved
        obtain ⟨formula, conditionResolved, bodySteps, bodyResolved, rfl⟩ := resolved
        simp only [Step.codes_singleton, Step.code, bind_eq_ok, pure_eq_ok] at made
        obtain ⟨conditionCode, conditionMade, bodyCode, bodyMade, rfl⟩ := made
        simp only [Step.slots, Step.innerSlots] at room
        have conditionEmitted := Expression.emits_of_code condition conditionResolved conditionMade
        have bodyEmitted := emitsAll_of_codes body bodyResolved bodyMade (by
          show scope.next + _ ≤ _
          omega)
        rw [← Formula.length_code formula conditionMade, ← Step.length_codes bodySteps bodyMade]
          at bodyEmitted ⊢
        exact .whileLoop (eq_false_of_ne_true truth) conditionEmitted bodyEmitted
  | .doLoop body condition position, steps, targets, scope, start, code, resolved, made, room => by
      simp only [Step.ofStatement, bind_eq_ok, pure_eq_ok] at resolved
      obtain ⟨bodySteps, bodyResolved, formula, conditionResolved, rfl⟩ := resolved
      simp only [Step.codes_singleton, Step.code, bind_eq_ok, pure_eq_ok] at made
      obtain ⟨bodyCode, bodyMade, conditionCode, conditionMade, rfl⟩ := made
      simp only [Step.slots, Step.innerSlots] at room
      have conditionEmitted := Expression.emits_of_code condition conditionResolved conditionMade
      have bodyEmitted := emitsAll_of_codes body bodyResolved bodyMade (by
        show scope.next + _ ≤ _
        omega)
      rw [← Step.length_codes bodySteps bodyMade] at bodyEmitted conditionEmitted
      rw [← Formula.length_code formula conditionMade] at bodyEmitted
      exact .doLoop bodyEmitted conditionEmitted
  | .forLoop first condition step body position, steps, targets, scope, start, code, resolved, made,
      room => by
      simp only [Step.ofStatement, bind_eq_ok, pure_eq_ok] at resolved
      obtain ⟨firstSteps, firstResolved, conditionFormula, conditionResolved, stepFormula,
        stepResolved, bodySteps, bodyResolved, rfl⟩ := resolved
      simp only [Step.codes_singleton, Step.code, bind_eq_ok, pure_eq_ok] at made
      obtain ⟨firstCode, firstMade, guardCode, guardMade, bodyCode, bodyMade, stepCode, stepMade,
        rfl⟩ := made
      simp only [Step.slots, Step.innerSlots] at room
      -- the body stands behind what the first clause declares
      have inside := Step.afterSteps_next_le scope.opened firstSteps (Step.slots 0 bodySteps)
      have firstRoom : scope.opened.next + Step.slots (Step.slots 0 bodySteps) firstSteps ≤
          localCount := by
        show scope.next + _ ≤ _
        omega
      have firstEmitted := ForStart.emits_of_codes firstResolved firstMade firstRoom
      have guardEmitted := Expression.emitsGuard_of_guardCode conditionResolved guardMade
      have bodyEmitted := emitsAll_of_codes body bodyResolved bodyMade (by
        show (scope.opened.afterSteps firstSteps).next + _ ≤ _
        omega)
      have stepEmitted := Expression.emitsAdvance_of_advanceCode stepResolved stepMade
      rw [← Step.length_codes firstSteps firstMade, ← Step.length_guardCode guardMade,
        ← Step.length_codes bodySteps bodyMade, ← Step.length_advanceCode stepMade] at *
      exact .forLoop firstEmitted guardEmitted bodyEmitted stepEmitted
  | .block body position, steps, targets, scope, start, code, resolved, made, room => by
      simp only [Step.ofStatement, bind_eq_ok, pure_eq_ok] at resolved
      obtain ⟨bodySteps, bodyResolved, rfl⟩ := resolved
      simp only [Step.codes_singleton, Step.code] at made
      simp only [Step.slots, Step.innerSlots] at room
      exact .block (emitsAll_of_codes body bodyResolved made (by
        show scope.next + _ ≤ _
        omega))
  | .leaveLoop position, steps, targets, scope, start, code, resolved, made, room => by
      rw [Step.ofStatement, pure_eq_ok] at resolved
      subst resolved
      rw [Step.codes_singleton, Step.code] at made
      cases targets with
      | none => cases made
      | some targets =>
          cases made
          exact .leaveLoop
  | .nextRound position, steps, targets, scope, start, code, resolved, made, room => by
      rw [Step.ofStatement, pure_eq_ok] at resolved
      subst resolved
      rw [Step.codes_singleton, Step.code] at made
      cases targets with
      | none => cases made
      | some targets =>
          cases made
          exact .nextRound
  | .giveBack value position, steps, targets, scope, start, code, resolved, made, room => by
      simp only [Step.ofStatement, bind_eq_ok, pure_eq_ok] at resolved
      obtain ⟨formula, resolved, rfl⟩ := resolved
      simp only [Step.codes_singleton, Step.code, bind_eq_ok, pure_eq_ok] at made
      obtain ⟨valueCode, made, rfl⟩ := made
      exact .giveBack (Expression.emitsOrZero_of_codeOrZero resolved made)

/-- The code that is made of statements is their code. -/
theorem emitsAll_of_codes : (statements : List Statement) → {steps : List Step} →
    {targets : Option LoopTargets} → {scope : Scope} → {start : Nat} → {code : List Placed} →
    Step.ofStatements names statements = .ok steps →
    Step.codes functions targets scope start steps = .ok code →
    scope.next + Step.slots 0 steps ≤ localCount →
    EmitsAll functions localCount targets scope start statements code (scope.afterSteps steps)
  | [], steps, targets, scope, start, code, resolved, made, room => by
      rw [Step.ofStatements, pure_eq_ok] at resolved
      rw [← resolved, Step.codes, pure_eq_ok] at made
      rw [← made, ← resolved]
      exact .nil
  | first :: others, steps, targets, scope, start, code, resolved, made, room => by
      simp only [Step.ofStatements, bind_eq_ok, pure_eq_ok] at resolved
      obtain ⟨firstSteps, firstResolved, otherSteps, othersResolved, rfl⟩ := resolved
      rw [Step.codes_append] at made
      obtain ⟨firstCode, otherCode, firstMade, othersMade, rfl⟩ := made
      rw [Step.slots_append] at room
      -- the locals of the first statement are free again for the others, but for those it declares
      have firstRoom := Step.slots_mono (Nat.zero_le (Step.slots 0 otherSteps)) firstSteps
      have otherRoom := Step.afterSteps_next_le scope firstSteps (Step.slots 0 otherSteps)
      have firstEmitted := emits_of_codes first firstResolved firstMade (by omega)
      rw [← Step.length_codes firstSteps firstMade] at othersMade
      have othersEmitted := emitsAll_of_codes others othersResolved othersMade (by omega)
      rw [Scope.afterSteps, List.foldl_append]
      exact .cons firstEmitted othersEmitted

end

end Statement

end Statements

/-! ## Functions and programs -/

/-- Parameters take the first locals. -/
theorem Scope.next_of_withParameters {scope result : Scope} {names : List String}
    (declared : scope.withParameters names = .ok result) :
    result.next = scope.next + names.length := by
  induction names generalizing scope with
  | nil =>
      rw [Scope.withParameters, Except.ok.injEq] at declared
      rw [← declared, List.length_nil, Nat.add_zero]
  | cons name others ih =>
      simp only [Scope.withParameters, bind_eq_ok] at declared
      obtain ⟨-, -, declared⟩ := declared
      rw [ih declared, List.length_cons, Nat.add_comm others.length 1, ← Nat.add_assoc]
      rfl

/-- A routine that is a parsed function with its body resolved. -/
structure ParsedFunction.Resolves (names : List String) (function : ParsedFunction)
    (routine : Routine) : Prop where
  /-- They have the same name. -/
  name : routine.name = function.name
  /-- They have the same parameters. -/
  parameters : routine.parameters = function.parameters
  /-- The bodies match. -/
  body : Step.ofStatements names function.body = .ok routine.body
  /-- They stand at the same place. -/
  position : routine.position = function.position

/-- The routine of a definition is its parsed function resolved. -/
theorem Routine.resolves_of_ofDefinition {names : List String} {definition : Definition}
    {routine : Routine} (made : Routine.ofDefinition names definition = .ok routine) :
    ∃ function, ParsedFunction.ofDefinition definition = .ok function ∧
      function.name = definition.name ∧ function.Resolves names routine := by
  rw [Routine.ofDefinition] at made
  rw [ParsedFunction.ofDefinition]
  cases read : Statement.ofText definition.bodyPosition definition.body with
  | error error =>
      rw [read] at made
      cases made
  | ok statements =>
      rw [read] at made
      simp only [bind_eq_ok, pure_eq_ok] at made
      obtain ⟨body, resolved, rfl⟩ := made
      exact ⟨_, rfl, rfl, rfl, rfl, resolved, rfl⟩

/-- The routines of definitions are their parsed functions resolved. -/
theorem Program.resolves_of_routines {names : List String} {definitions : List Definition}
    {routines : List Routine} (made : Program.routines names definitions = .ok routines) :
    ∃ functions, definitions.mapM ParsedFunction.ofDefinition = .ok functions ∧
      functions.map ParsedFunction.name = definitions.map Definition.name ∧
        List.Forall₂ (ParsedFunction.Resolves names) functions routines := by
  induction definitions generalizing routines with
  | nil =>
      rw [Program.routines, pure_eq_ok] at made
      rw [← made]
      exact ⟨[], rfl, rfl, .nil⟩
  | cons definition others ih =>
      simp only [Program.routines, bind_eq_ok, pure_eq_ok] at made
      obtain ⟨routine, made, later, laterMade, rfl⟩ := made
      obtain ⟨function, parsed, name, resolves⟩ := Routine.resolves_of_ofDefinition made
      obtain ⟨functions, othersParsed, names, othersResolve⟩ := ih laterMade
      refine ⟨function :: functions, ?_, ?_, .cons resolves othersResolve⟩
      · rw [List.mapM_cons, parsed, othersParsed]
        rfl
      · rw [List.map_cons, List.map_cons, name, names]

/-- The code of a routine is the code of the parsed function that it comes from. -/
theorem ParsedFunction.Resolves.emits {names : List String} {functions : FunctionTable}
    {function : ParsedFunction} {routine : Routine} {parameters : List String} {code : Code}
    (resolves : function.Resolves names routine)
    (made : routine.code functions parameters = .ok code) :
    function.Emits functions parameters code := by
  simp only [Routine.code, bind_eq_ok, pure_eq_ok, Formula.placed_eq_ok] at made
  obtain ⟨scope, declared, body, bodyMade, rfl⟩ := made
  have next := Scope.next_of_withParameters declared
  refine ⟨rfl, Nat.le_add_right _ _, scope, body, _, declared,
    Statement.emitsAll_of_codes function.body resolves.body bodyMade ?_, by rw [resolves.position]⟩
  rw [next]
  exact Nat.le_of_eq (by rw [Scope.empty, Nat.zero_add])

/-- The table of routines is that of the parsed functions that they come from. -/
theorem Program.tableFrom_eq_ok {names : List String} {functions : List ParsedFunction}
    {routines : List Routine} {index : Nat} {table : FunctionTable}
    (resolve : List.Forall₂ (ParsedFunction.Resolves names) functions routines)
    (made : Program.tableFrom index routines = .ok table) :
    table = ParsedProgram.signatures index functions ∧
      ∀ function ∈ functions, Vocabulary.isReserved function.name = false := by
  induction resolve generalizing index table with
  | nil =>
      rw [Program.tableFrom, pure_eq_ok] at made
      exact ⟨made.symm, nofun⟩
  | @cons function routine others routines resolves _ ih =>
      rw [Program.tableFrom] at made
      split at made
      case isTrue => cases made
      case isFalse free =>
        simp only [bind_eq_ok, pure_eq_ok] at made
        obtain ⟨table, made, rfl⟩ := made
        obtain ⟨rfl, othersFree⟩ := ih made
        rw [resolves.name] at free
        refine ⟨by rw [ParsedProgram.signatures, resolves.name, resolves.parameters], ?_⟩
        rintro other (_ | ⟨_, member⟩)
        · exact eq_false_of_ne_true free
        · exact othersFree other member

/-- The codes of routines are those of the parsed functions that they come from. -/
theorem Program.emits_of_subroutineCodes {names : List String} {table : FunctionTable}
    {functions : List ParsedFunction} {routines : List Routine} {codes : List Code}
    (resolve : List.Forall₂ (ParsedFunction.Resolves names) functions routines)
    (made : Program.subroutineCodes table routines = .ok codes) :
    List.Forall₂ (fun function code => function.Emits table function.parameters code)
      functions codes := by
  induction resolve generalizing codes with
  | nil =>
      rw [Program.subroutineCodes, pure_eq_ok] at made
      rw [← made]
      exact .nil
  | cons resolves _ ih =>
      simp only [Program.subroutineCodes, bind_eq_ok, pure_eq_ok] at made
      obtain ⟨code, made, codes, othersMade, rfl⟩ := made
      rw [resolves.parameters] at made
      exact .cons (resolves.emits made) (ih othersMade)

/-- **A compiled program is the program of what has been parsed.** -/
theorem Program.emits_of_compile {source : String} {program : Program}
    (compiled : Program.compile source = .ok program) :
    ∃ parsed, ParsedProgram.ofSource source = .ok parsed ∧ parsed.Emits program := by
  simp only [Program.compile, Program.compileWith, Program.ofRoutines, bind_eq_ok,
    pure_eq_ok] at compiled
  obtain ⟨definitions, found, ⟨entry, subroutines⟩, split, routine, entryMade, routines,
    routinesMade, table, tableMade, entryCode, entryCoded, codes, coded, rfl⟩ := compiled
  obtain ⟨function, entryParsed, -, resolves⟩ := Routine.resolves_of_ofDefinition entryMade
  obtain ⟨functions, parsed, -, resolve⟩ := Program.resolves_of_routines routinesMade
  obtain ⟨rfl, unreserved⟩ := Program.tableFrom_eq_ok resolve tableMade
  refine ⟨⟨function, functions⟩, ?_, resolves.emits entryCoded,
    Program.emits_of_subroutineCodes resolve coded, unreserved⟩
  simp only [ParsedProgram.ofSource, bind_eq_ok, pure_eq_ok]
  exact ⟨definitions, found, (entry, subroutines), split, function, entryParsed, functions, parsed,
    rfl⟩

end LineRobot
