import LineRobot.Proofs.Code.Compiled
import LineRobot.Proofs.Delegation.Basic

/-! # Delegated waits are accepted

A compiled program still compiles after some of its waits have been delegated
(`ParsedProgram.Delegates.exists_compile`). Whether a name can be used does not depend on where it
stands in the text, and the functions of the program are still there, although under other
numbers. -/

namespace LineRobot

/-- What was known of the functions of a program with one table of them still holds with another one
and with the given names: they can be called with as many arguments. The new subroutine can be,
too. -/
structure FunctionTable.Extends (names : List String) (helper : String)
    (functions functions' : FunctionTable) : Prop where
  /-- The functions are still there. -/
  keeps : ∀ name signature, functions.lookup name = some signature →
    names.contains name = true ∧ ∃ signature', functions'.lookup name = some signature' ∧
      signature'.arity = signature.arity
  /-- The new subroutine has a name. -/
  named : names.contains helper = true
  /-- The new subroutine can be called with one argument. -/
  added : ∃ signature, functions'.lookup helper = some signature ∧ signature.arity = 1
  /-- Its name is not reserved. -/
  free : Vocabulary.isReserved helper = false

variable {names : List String} {helper : String} {functions functions' : FunctionTable}

namespace Expression

/-- An expression that has code wherever it stands. -/
def Accepted (names : List String) (functions : FunctionTable) (scope : Scope)
    (expression : Expression String) : Prop :=
  ∃ formula, Formula.ofExpression names expression = .ok formula ∧
    ∀ start, ∃ code, Formula.code functions scope start formula = .ok code

/-- Expressions that have code one after the other. -/
def AllAccepted (names : List String) (functions : FunctionTable) (scope : Scope)
    (expressions : List (Expression String)) : Prop :=
  ∃ formulas, Formula.ofExpressions names expressions = .ok formulas ∧
    ∀ start, ∃ code, Formula.codes functions scope start formulas = .ok code

section Forms

variable {scope : Scope} {start : Nat} {place : Position}

/-- An array that is named. -/
theorem exists_name_of_bank? {array : Expression String} {bank : Bank}
    (named : array.bank? = some bank) :
    ∃ text place, array = .name text place ∧ Bank.ofSpelling? text = some bank := by
  cases array with
  | name text place => exact ⟨text, place, rfl, named⟩
  | _ => cases named

/-- The name of an array still names it. -/
theorem Alike.accepted_bank {array array' : Expression String} {bank : Bank}
    (alike : Alike array array') (named : array.bank? = some bank) :
    ∃ formula, Formula.ofExpression names array' = .ok formula ∧ formula.bank = .ok bank := by
  obtain ⟨text, place, rfl, spelled⟩ := exists_name_of_bank? named
  cases alike with
  | name =>
      refine ⟨.name text _, rfl, ?_⟩
      rw [Formula.bank, spelled]

/-- The array of the variable slots can still be written. -/
theorem Alike.accepted_slots {array array' : Expression String} (alike : Alike array array')
    (named : array.bank? = some .slots) :
    ∃ formula, Formula.ofExpression names array' = .ok formula ∧ formula.writableBank = .ok () := by
  obtain ⟨formula, resolved, named⟩ := alike.accepted_bank named
  refine ⟨formula, resolved, ?_⟩
  rw [Formula.writableBank, named]
  rfl

/-- A local that can be assigned to still can. -/
theorem writableLocal_eq_ok {text : String} {slot : Nat}
    (declared : scope.lookup? text = some ⟨slot, true⟩) (place : Position) :
    Formula.writableLocal scope text place = .ok slot := by
  rw [Formula.writableLocal, declared]

/-- A call of a function with the right number of arguments is accepted. -/
theorem accepted_call {callee : String} {signature : Signature}
    {arguments : List (Expression String)} (notMotor : callee ≠ Vocabulary.motor)
    (notWait : callee ≠ Vocabulary.wait) (named : names.contains callee = true)
    (found : functions.lookup callee = some signature)
    (enough : arguments.length = signature.arity)
    (accepted : AllAccepted names functions scope arguments) :
    Accepted names functions scope (.call callee arguments place) := by
  obtain ⟨formulas, resolved, made⟩ := accepted
  have meant : Callee.ofName names callee = .subroutine callee := by
    rw [Callee.ofName, if_neg notMotor, if_pos named]
  have count : formulas.length = signature.arity := by
    rw [length_ofExpressions resolved, enough]
  refine ⟨.call (.subroutine callee) formulas place, ?_, fun start => ?_⟩
  · rw [ofExpression_call_eq_ok, meant]
    exact ⟨notWait, formulas, resolved, rfl⟩
  · obtain ⟨code, made⟩ := made start
    have instruction : Formula.callInstruction functions (.subroutine callee) formulas.length =
        .ok (.call signature.index formulas.length) := by
      rw [Formula.callInstruction, found]
      exact if_pos count
    simp only [Formula.code, bind_eq_ok, pure_eq_ok, Formula.placed_eq_ok]
    exact ⟨_, _, instruction, code, made, rfl⟩

/-- The motors can be set to two values. -/
theorem accepted_drive {arguments : List (Expression String)} (two : arguments.length = 2)
    (accepted : AllAccepted names functions scope arguments) :
    Accepted names functions scope (.call Vocabulary.motor arguments place) := by
  obtain ⟨formulas, resolved, made⟩ := accepted
  have count : formulas.length = 2 := by rw [length_ofExpressions resolved, two]
  refine ⟨.call .motor formulas place, ?_, fun start => ?_⟩
  · rw [ofExpression_call_eq_ok]
    exact ⟨by decide, formulas, resolved, by rw [Callee.ofName, if_pos rfl]⟩
  · obtain ⟨code, made⟩ := made start
    simp only [Formula.code, bind_eq_ok, pure_eq_ok, Formula.placed_eq_ok]
    exact ⟨_, .motor, if_pos count, code, made, rfl⟩

/-- An operator between two operands. -/
theorem accepted_binary {operator : Operator} {left right : Expression String}
    (leftAccepted : Accepted names functions scope left)
    (rightAccepted : Accepted names functions scope right) :
    Accepted names functions scope (.binary operator left right place) := by
  obtain ⟨leftFormula, leftResolved, leftMade⟩ := leftAccepted
  obtain ⟨rightFormula, rightResolved, rightMade⟩ := rightAccepted
  refine ⟨.binary operator leftFormula rightFormula place, ?_, fun start => ?_⟩
  · simp only [Formula.ofExpression, bind_eq_ok, pure_eq_ok]
    exact ⟨_, leftResolved, _, rightResolved, rfl⟩
  · obtain ⟨leftCode, leftMade⟩ := leftMade start
    obtain ⟨rightCode, rightMade⟩ := rightMade (start + leftFormula.size)
    simp only [Formula.code, bind_eq_ok, pure_eq_ok]
    exact ⟨_, leftCode, leftMade, rightCode, rightMade, rfl⟩

/-- A connective between two operands. -/
theorem accepted_logical {connective : Connective} {left right : Expression String}
    (leftAccepted : Accepted names functions scope left)
    (rightAccepted : Accepted names functions scope right) :
    Accepted names functions scope (.logical connective left right place) := by
  obtain ⟨leftFormula, leftResolved, leftMade⟩ := leftAccepted
  obtain ⟨rightFormula, rightResolved, rightMade⟩ := rightAccepted
  refine ⟨.logical connective leftFormula rightFormula place, ?_, fun start => ?_⟩
  · simp only [Formula.ofExpression, bind_eq_ok, pure_eq_ok]
    exact ⟨_, leftResolved, _, rightResolved, rfl⟩
  · obtain ⟨leftCode, leftMade⟩ := leftMade start
    obtain ⟨rightCode, rightMade⟩ := rightMade (start + leftFormula.size + 1)
    simp only [Formula.code, bind_eq_ok, pure_eq_ok]
    exact ⟨_, leftCode, leftMade, rightCode, rightMade, rfl⟩

/-- An operator before one operand. -/
theorem accepted_unary {operator : UnaryOperator} {operand : Expression String}
    (accepted : Accepted names functions scope operand) :
    Accepted names functions scope (.unary operator operand place) := by
  obtain ⟨formula, resolved, made⟩ := accepted
  refine ⟨.unary operator formula place, ?_, fun start => ?_⟩
  · simp only [Formula.ofExpression, bind_eq_ok, pure_eq_ok]
    exact ⟨_, resolved, rfl⟩
  · obtain ⟨code, made⟩ := made start
    simp only [Formula.code, bind_eq_ok, pure_eq_ok]
    exact ⟨_, code, made, rfl⟩

/-- A condition and the two expressions it chooses from. -/
theorem accepted_conditional {condition whenTrue whenFalse : Expression String}
    (accepted : Accepted names functions scope condition)
    (trueAccepted : Accepted names functions scope whenTrue)
    (falseAccepted : Accepted names functions scope whenFalse) :
    Accepted names functions scope (.conditional condition whenTrue whenFalse place) := by
  obtain ⟨formula, resolved, made⟩ := accepted
  obtain ⟨trueFormula, trueResolved, trueMade⟩ := trueAccepted
  obtain ⟨falseFormula, falseResolved, falseMade⟩ := falseAccepted
  refine ⟨.conditional formula trueFormula falseFormula place, ?_, fun start => ?_⟩
  · simp only [Formula.ofExpression, bind_eq_ok, pure_eq_ok]
    exact ⟨_, resolved, _, trueResolved, _, falseResolved, rfl⟩
  · obtain ⟨code, made⟩ := made start
    obtain ⟨trueCode, trueMade⟩ := trueMade (start + formula.size + 1)
    obtain ⟨falseCode, falseMade⟩ := falseMade (start + formula.size + trueFormula.size + 2)
    simp only [Formula.code, bind_eq_ok, pure_eq_ok]
    exact ⟨_, code, made, trueCode, trueMade, falseCode, falseMade, rfl⟩

/-- An element of an array. -/
theorem accepted_index {array subscript : Expression String} {arrayFormula : Formula} {bank : Bank}
    (resolved : Formula.ofExpression names array = .ok arrayFormula)
    (named : arrayFormula.bank = .ok bank) (accepted : Accepted names functions scope subscript) :
    Accepted names functions scope (.index array subscript place) := by
  obtain ⟨formula, subscriptResolved, made⟩ := accepted
  refine ⟨.index arrayFormula formula place, ?_, fun start => ?_⟩
  · simp only [Formula.ofExpression, bind_eq_ok, pure_eq_ok]
    exact ⟨_, resolved, _, subscriptResolved, rfl⟩
  · obtain ⟨code, made⟩ := made start
    simp only [Formula.code, bind_eq_ok, pure_eq_ok]
    exact ⟨_, bank, named, code, made, rfl⟩

/-- A change of a local. -/
theorem accepted_changeLocal {direction : Direction} {moment : Moment} {text : String}
    {namePlace : Position} {slot : Nat} (declared : scope.lookup? text = some ⟨slot, true⟩) :
    Accepted names functions scope (.change direction moment (.name text namePlace) place) := by
  refine ⟨.change direction moment (.name text namePlace) place, rfl, fun start => ?_⟩
  simp only [Formula.code, bind_eq_ok, pure_eq_ok]
  exact ⟨_, slot, writableLocal_eq_ok declared namePlace, rfl⟩

/-- A change of a variable slot. -/
theorem accepted_changeSlot {direction : Direction} {moment : Moment}
    {array subscript : Expression String} {arrayFormula : Formula} {indexPlace : Position}
    (resolved : Formula.ofExpression names array = .ok arrayFormula)
    (writable : arrayFormula.writableBank = .ok ())
    (accepted : Accepted names functions scope subscript) :
    Accepted names functions scope
      (.change direction moment (.index array subscript indexPlace) place) := by
  obtain ⟨formula, subscriptResolved, made⟩ := accepted
  refine ⟨.change direction moment (.index arrayFormula formula indexPlace) place, ?_,
    fun start => ?_⟩
  · simp only [Formula.ofExpression, bind_eq_ok, pure_eq_ok]
    exact ⟨_, ⟨_, resolved, _, subscriptResolved, rfl⟩, rfl⟩
  · obtain ⟨code, made⟩ := made start
    simp only [Formula.code, bind_eq_ok, pure_eq_ok]
    exact ⟨_, (), writable, code, made, rfl⟩

/-- An assignment to a local. -/
theorem accepted_assignLocal {compound : Option Operator} {text : String} {namePlace : Position}
    {slot : Nat} {assigned : Expression String}
    (declared : scope.lookup? text = some ⟨slot, true⟩)
    (accepted : Accepted names functions scope assigned) :
    Accepted names functions scope (.assign compound (.name text namePlace) assigned place) := by
  obtain ⟨formula, resolved, made⟩ := accepted
  refine ⟨.assign compound (.name text namePlace) formula place, ?_, fun start => ?_⟩
  · simp only [Formula.ofExpression, bind_eq_ok, pure_eq_ok]
    exact ⟨_, rfl, _, resolved, rfl⟩
  · simp only [Formula.code, bind_eq_ok]
    cases compound with
    | none =>
        obtain ⟨code, made⟩ := made start
        simp only [bind_eq_ok, pure_eq_ok]
        exact ⟨_, slot, writableLocal_eq_ok declared namePlace, code, made, rfl⟩
    | some operator =>
        obtain ⟨code, made⟩ := made (start + 1)
        simp only [bind_eq_ok, pure_eq_ok]
        exact ⟨_, slot, writableLocal_eq_ok declared namePlace, code, made, rfl⟩

/-- An assignment to a variable slot. -/
theorem accepted_assignSlot {compound : Option Operator}
    {array subscript assigned : Expression String} {arrayFormula : Formula} {indexPlace : Position}
    (resolved : Formula.ofExpression names array = .ok arrayFormula)
    (writable : arrayFormula.writableBank = .ok ())
    (accepted : Accepted names functions scope subscript)
    (assignedAccepted : Accepted names functions scope assigned) :
    Accepted names functions scope
      (.assign compound (.index array subscript indexPlace) assigned place) := by
  obtain ⟨formula, subscriptResolved, made⟩ := accepted
  obtain ⟨assignedFormula, assignedResolved, assignedMade⟩ := assignedAccepted
  refine ⟨.assign compound (.index arrayFormula formula indexPlace) assignedFormula place, ?_,
    fun start => ?_⟩
  · simp only [Formula.ofExpression, bind_eq_ok, pure_eq_ok]
    exact ⟨_, ⟨_, resolved, _, subscriptResolved, rfl⟩, _, assignedResolved, rfl⟩
  · obtain ⟨code, made⟩ := made start
    simp only [Formula.code, bind_eq_ok]
    -- a combined value has the old one on the stack below it, after two more instructions
    cases compound with
    | none =>
        obtain ⟨assignedCode, assignedMade⟩ := assignedMade (start + formula.size)
        simp only [bind_eq_ok, pure_eq_ok]
        exact ⟨_, (), writable, code, made, assignedCode, assignedMade, rfl⟩
    | some operator =>
        obtain ⟨assignedCode, assignedMade⟩ := assignedMade (start + formula.size + 2)
        simp only [bind_eq_ok, pure_eq_ok]
        exact ⟨_, (), writable, code, made, assignedCode, assignedMade, rfl⟩

/-- Expressions one after the other. -/
theorem allAccepted_cons {first : Expression String} {others : List (Expression String)}
    (accepted : Accepted names functions scope first)
    (othersAccepted : AllAccepted names functions scope others) :
    AllAccepted names functions scope (first :: others) := by
  obtain ⟨formula, resolved, made⟩ := accepted
  obtain ⟨formulas, othersResolved, othersMade⟩ := othersAccepted
  refine ⟨formula :: formulas, ?_, fun start => ?_⟩
  · simp only [Formula.ofExpressions, bind_eq_ok, pure_eq_ok]
    exact ⟨_, resolved, _, othersResolved, rfl⟩
  · obtain ⟨code, made⟩ := made start
    obtain ⟨otherCode, othersMade⟩ := othersMade (start + formula.size)
    simp only [Formula.codes, bind_eq_ok, pure_eq_ok]
    exact ⟨_, code, made, otherCode, othersMade, rfl⟩

end Forms

/-- **An expression that is alike is accepted, too.** -/
theorem Emits.accepted {scope : Scope} {start : Nat} {expression other : Expression String}
    {code : List Placed} (emits : Emits functions scope start expression code)
    (known : functions.Extends names helper functions') (alike : Alike expression other) :
    Accepted names functions' scope other := by
  -- by induction on the rules for code, whatever alike expression stands in its place
  refine @Emits.rec functions scope
    (fun _ expression _ _ => ∀ other, Alike expression other →
      Accepted names functions' scope other)
    (fun _ expressions _ _ => ∀ others, List.Forall₂ Alike expressions others →
      AllAccepted names functions' scope others)
    ?number ?name ?binary ?logical ?unary ?changeLocal ?changeSlot ?conditional ?assignLocal
    ?updateLocal ?assignSlot ?updateSlot ?drive ?call ?index ?nil ?cons start expression code emits
    other alike
  case number =>
    intro _ _ _ _ alike
    cases alike
    exact ⟨_, rfl, fun _ => ⟨_, rfl⟩⟩
  case name =>
    intro _ _ _ instruction meant _ alike
    cases alike
    refine ⟨.name _ _, rfl, fun start => ?_⟩
    simp only [Formula.code, bind_eq_ok, pure_eq_ok, Formula.placed_eq_ok]
    exact ⟨_, instruction, meant, rfl⟩
  case binary =>
    intro _ _ _ _ _ _ _ _ _ left right _ alike
    cases alike with
    | binary leftAlike rightAlike =>
        exact accepted_binary (left _ leftAlike) (right _ rightAlike)
  case logical =>
    intro _ _ _ _ _ _ _ _ _ left right _ alike
    cases alike with
    | logical leftAlike rightAlike =>
        exact accepted_logical (left _ leftAlike) (right _ rightAlike)
  case unary =>
    intro _ _ _ _ _ _ operand _ alike
    cases alike with
    | unary operandAlike => exact accepted_unary (operand _ operandAlike)
  case changeLocal =>
    intro _ _ _ _ _ _ _ declared _ alike
    cases alike with
    | change targetAlike =>
        cases targetAlike
        exact accepted_changeLocal declared
  case changeSlot =>
    intro _ _ _ _ _ _ _ _ named _ subscript _ alike
    cases alike with
    | change targetAlike =>
        cases targetAlike with
        | index arrayAlike subscriptAlike =>
            obtain ⟨formula, resolved, writable⟩ := arrayAlike.accepted_slots named
            exact accepted_changeSlot resolved writable (subscript _ subscriptAlike)
  case conditional =>
    intro _ _ _ _ _ _ _ _ _ _ _ condition whenTrue whenFalse _ alike
    cases alike with
    | conditional conditionAlike trueAlike falseAlike =>
        exact accepted_conditional (condition _ conditionAlike) (whenTrue _ trueAlike)
          (whenFalse _ falseAlike)
  case assignLocal | updateLocal =>
    intros
    rename_i declared _ assigned _ alike
    cases alike with
    | assign targetAlike assignedAlike =>
        cases targetAlike
        exact accepted_assignLocal declared (assigned _ assignedAlike)
  case assignSlot | updateSlot =>
    intros
    rename_i named _ _ subscript assigned _ alike
    cases alike with
    | assign targetAlike assignedAlike =>
        cases targetAlike with
        | index arrayAlike subscriptAlike =>
            obtain ⟨formula, resolved, writable⟩ := arrayAlike.accepted_slots named
            exact accepted_assignSlot resolved writable (subscript _ subscriptAlike)
              (assigned _ assignedAlike)
  case drive =>
    intro _ _ _ _ two _ arguments _ alike
    cases alike with
    | call argumentsAlike =>
        exact accepted_drive (argumentsAlike.length_eq.symm.trans two) (arguments _ argumentsAlike)
  case call =>
    intro _ callee _ _ signature _ notMotor notWait found enough _ arguments _ alike
    cases alike with
    | call argumentsAlike =>
        obtain ⟨named, signature', found', arity⟩ := known.keeps callee signature found
        refine accepted_call notMotor notWait named found' ?_ (arguments _ argumentsAlike)
        rw [← argumentsAlike.length_eq, enough, arity]
  case index =>
    intro _ _ _ _ _ _ named _ subscript _ alike
    cases alike with
    | index arrayAlike subscriptAlike =>
        obtain ⟨formula, resolved, named⟩ := arrayAlike.accepted_bank named
        exact accepted_index resolved named (subscript _ subscriptAlike)
  case nil =>
    intro _ _ alike
    cases alike
    exact ⟨[], rfl, fun _ => ⟨[], rfl⟩⟩
  case cons =>
    intro _ _ _ _ _ _ _ first later _ alike
    cases alike with
    | cons firstAlike laterAlike =>
        exact allAccepted_cons (first _ firstAlike) (later _ laterAlike)

/-- An optional expression that has code if it is there. -/
def OptionAccepted (names : List String) (functions : FunctionTable) (scope : Scope) :
    Option (Expression String) → Prop
  | none => True
  | some expression => Accepted names functions scope expression

section Optional

variable {scope : Scope} {start : Nat} {place : Position} {code : List Placed}
  {value value' : Option (Expression String)}

/-- What is made of an optional expression has code in each place where it can stand. -/
theorem OptionAccepted.exists_formula (accepted : OptionAccepted names functions scope value) :
    ∃ formula, Formula.ofExpression? names value = .ok formula ∧ (formula = none → value = none) ∧
      (∀ start place, ∃ code, Formula.codeOrZero functions scope start place formula = .ok code) ∧
      (∀ start leave place, ∃ code,
        Step.guardCode functions scope start leave place formula = .ok code) ∧
      ∀ start place, ∃ code, Step.advanceCode functions scope start place formula = .ok code := by
  cases value with
  | none =>
      exact ⟨none, rfl, fun _ => rfl, fun _ _ => ⟨_, rfl⟩, fun _ _ _ =>
        ⟨_, rfl⟩, fun _ _ => ⟨_, rfl⟩⟩
  | some expression =>
      obtain ⟨formula, resolved, made⟩ := accepted
      refine ⟨some formula, ?_, nofun, fun start _ => made start, fun start _ _ => ?_,
        fun start _ => ?_⟩
      · simp only [Formula.ofExpression?, bind_eq_ok, pure_eq_ok]
        exact ⟨_, resolved, rfl⟩
      · obtain ⟨code, made⟩ := made start
        simp only [Step.guardCode, bind_eq_ok, pure_eq_ok]
        exact ⟨_, code, made, rfl⟩
      · obtain ⟨code, made⟩ := made start
        simp only [Step.advanceCode, bind_eq_ok, pure_eq_ok]
        exact ⟨_, code, made, rfl⟩

variable (known : functions.Extends names helper functions')

include known

/-- An optional value that is alike is accepted, too. -/
theorem EmitsOrZero.accepted (emits : EmitsOrZero functions scope start place value code)
    (alike : Option.Rel Alike value value') : OptionAccepted names functions' scope value' := by
  cases emits with
  | zero =>
      cases alike
      trivial
  | value emits =>
      cases alike with
      | some alike => exact emits.accepted known alike

/-- A condition of a `for` loop that is alike is accepted, too. -/
theorem EmitsGuard.accepted {leave : Nat}
    (emits : EmitsGuard functions scope start leave place value code)
    (alike : Option.Rel Alike value value') : OptionAccepted names functions' scope value' := by
  cases emits with
  | always =>
      cases alike
      trivial
  | condition emits =>
      cases alike with
      | some alike => exact emits.accepted known alike

/-- A step of a `for` loop that is alike is accepted, too. -/
theorem EmitsAdvance.accepted (emits : EmitsAdvance functions scope start place value code)
    (alike : Option.Rel Alike value value') : OptionAccepted names functions' scope value' := by
  cases emits with
  | nothing =>
      cases alike
      trivial
  | step emits =>
      cases alike with
      | some alike => exact emits.accepted known alike

/-- A call of the new subroutine is accepted. -/
theorem accepted_helper {duration : Expression String}
    (accepted : Accepted names functions' scope duration) :
    Accepted names functions' scope (.call helper [duration] place) := by
  have free := known.free
  obtain ⟨signature, found, one⟩ := known.added
  refine accepted_call ?_ ?_ known.named found one.symm (allAccepted_cons accepted ⟨[], rfl, ?_⟩)
  · rintro rfl
    cases free
  · rintro rfl
    cases free
  · exact fun _ => ⟨[], rfl⟩

/-- **An expression evaluated for its effect is accepted, also if a wait is delegated.** It declares
nothing. -/
theorem EmitsEffect.accepted {value value' : Expression String} {there : Position}
    (emits : EmitsEffect functions scope start place value code)
    (delegates : value.Delegates helper value') :
    ∃ step, Step.ofExpressionStatement names there value' = .ok step ∧
      scope.afterStep step = scope ∧
        ∀ targets start, ∃ code, Step.code functions' targets scope start step = .ok code := by
  have evaluated (accepted : Accepted names functions' scope value') :
      ∃ step, Step.ofExpressionStatement names there value' = .ok step ∧
        scope.afterStep step = scope ∧
          ∀ targets start, ∃ code, Step.code functions' targets scope start step = .ok code := by
    obtain ⟨formula, resolved, made⟩ := accepted
    refine ⟨.evaluate formula there, ?_, rfl, fun targets start => ?_⟩
    · exact ofExpressionStatement_eq_ok.mpr (.inr ⟨formula, resolved, rfl⟩)
    · obtain ⟨code, made⟩ := made start
      simp only [Step.code, bind_eq_ok, pure_eq_ok]
      exact ⟨_, code, made, rfl⟩
  cases emits with
  | wait emits =>
      cases delegates with
      | keep alike =>
          cases alike with
          | call argumentsAlike =>
              cases argumentsAlike with
              | cons durationAlike noOthers =>
                  cases noOthers
                  obtain ⟨formula, resolved, made⟩ := emits.accepted known durationAlike
                  refine ⟨.wait formula there, ?_, rfl, fun targets start => ?_⟩
                  · exact ofExpressionStatement_eq_ok.mpr
                      (.inl ⟨_, _, formula, rfl, resolved, rfl⟩)
                  · obtain ⟨code, made⟩ := made start
                    simp only [Step.code, bind_eq_ok, pure_eq_ok]
                    exact ⟨_, code, made, rfl⟩
      | delegate alike => exact evaluated (accepted_helper known (emits.accepted known alike))
  | evaluate emits =>
      cases delegates with
      | keep alike => exact evaluated (emits.accepted known alike)
      | delegate =>
          -- the name of the wait function has no value
          generalize waits : Vocabulary.wait = callee at emits
          cases emits with
          | drive two => cases two
          | call _ notWait => exact absurd waits.symm notWait

end Optional

end Expression

/-! ## Statements -/

/-- Steps that have code wherever they stand, inside a loop or not as given, and after which the
scope is the given one. -/
def StepsAccepted (functions : FunctionTable) (inLoop : Bool) (scope : Scope)
    (resolved : Except Rejection (List Step)) (after : Scope) : Prop :=
  ∃ steps, resolved = .ok steps ∧ scope.afterSteps steps = after ∧
    ∀ targets start, Option.isSome targets = inLoop →
      ∃ code, Step.codes functions targets scope start steps = .ok code

namespace StepsAccepted

variable {inLoop : Bool} {scope after : Scope} {place : Position}

/-- One step that declares nothing. -/
theorem singleton {step : Step} (still : scope.afterStep step = scope)
    (made : ∀ targets start, Option.isSome targets = inLoop →
      ∃ code, Step.code functions targets scope start step = .ok code) :
    StepsAccepted functions inLoop scope (.ok [step]) scope := by
  refine ⟨[step], rfl, still, fun targets start inside => ?_⟩
  obtain ⟨code, made⟩ := made targets start inside
  exact ⟨code, Step.codes_singleton.mpr made⟩

/-- No steps. -/
theorem nil : StepsAccepted functions inLoop scope (.ok []) scope :=
  ⟨[], rfl, rfl, fun _ _ _ => ⟨[], rfl⟩⟩

/-- A binding of a name that is free. -/
theorem bind {name : String} {writable : Bool} {value : Option Formula}
    (needed : value = none → writable = true)
    (made : ∀ start place, ∃ code,
      Formula.codeOrZero functions scope start place value = .ok code)
    (free : scope.canBind name = .ok ()) :
    StepsAccepted functions inLoop scope (.ok [.bind name writable value place])
      (scope.bind name writable) := by
  refine ⟨[.bind name writable value place], rfl, rfl, fun targets start _ => ?_⟩
  obtain ⟨code, made⟩ := made start place
  simp only [Step.codes_singleton, Step.code, Step.bindingCode_eq_ok]
  exact ⟨_, needed, code, made, free, rfl⟩

/-- Steps one after the other. -/
theorem append {middle : Scope} {first others : Except Rejection (List Step)}
    (accepted : StepsAccepted functions inLoop scope first middle)
    (othersAccepted : StepsAccepted functions inLoop middle others after) :
    StepsAccepted functions inLoop scope (do return (← first) ++ (← others)) after := by
  obtain ⟨steps, rfl, rfl, made⟩ := accepted
  obtain ⟨otherSteps, rfl, rfl, othersMade⟩ := othersAccepted
  refine ⟨steps ++ otherSteps, rfl, List.foldl_append .., fun targets start inside => ?_⟩
  obtain ⟨code, made⟩ := made targets start inside
  obtain ⟨otherCode, othersMade⟩ := othersMade targets (start + Step.sizes steps) inside
  exact ⟨_, Step.codes_append.mpr ⟨code, otherCode, made, othersMade, rfl⟩⟩

end StepsAccepted

section Statements

variable {localCount : Nat} {scope after : Scope} {start : Nat} {place : Position}
  {code : List Placed} {type : DeclaredType}

/-- **Declarations that are alike are accepted, too.** -/
theorem Declarator.Emits.accepted {writable inLoop : Bool}
    {declarators declarators' : List Declarator}
    (emits : Declarator.Emits functions localCount writable scope start declarators code after)
    (known : functions.Extends names helper functions') (qualified : (!type.constant) = writable)
    (alike : List.Forall₂ Declarator.Alike declarators declarators') :
    StepsAccepted functions' inLoop scope (Step.ofDeclarators names type declarators') after := by
  subst qualified
  induction emits generalizing declarators' with
  | nil =>
      cases alike
      exact .nil
  | @cons scope _ _ declarator _ _ _ needed valueEmits free _ _ ih =>
      cases alike with
      | @cons _ declarator' _ others' declaratorAlike othersAlike =>
          obtain ⟨formula, resolved, missing, made, -⟩ :=
            (valueEmits.accepted known declaratorAlike.value).exists_formula
          -- a constant needs a first value, and it still has one
          have written : formula = none → (!type.constant) = true := by
            intro none
            have valueAlike := declaratorAlike.value
            rw [missing none] at valueAlike
            refine needed ?_
            generalize declarator.value = value at valueAlike
            cases valueAlike
            rfl
          simp only [Step.ofDeclarators, resolved, declaratorAlike.name]
          exact (StepsAccepted.bind written made free).append (ih othersAlike)

/-- An expression statement is accepted, also if a wait is delegated. -/
theorem Expression.EmitsEffect.stepsAccepted {inLoop : Bool} {value value' : Expression String}
    {there : Position} (emits : EmitsEffect functions scope start place value code)
    (known : functions.Extends names helper functions')
    (delegates : value.Delegates helper value') :
    StepsAccepted functions' inLoop scope
      (do return [← Step.ofExpressionStatement names there value']) scope := by
  obtain ⟨step, resolved, still, made⟩ := emits.accepted known delegates
  rw [resolved]
  exact .singleton still fun targets start _ => made targets start

/-- The first clause of a `for` loop is accepted, also if a wait is delegated. -/
theorem ForStart.Emits.accepted {inLoop : Bool} {first first' : ForStart}
    (emits : first.Emits functions localCount scope start code after)
    (known : functions.Extends names helper functions')
    (delegates : first.Delegates helper first') :
    StepsAccepted functions' inLoop scope (Step.ofForStart names first') after := by
  cases emits with
  | nothing =>
      cases delegates
      exact .nil
  | declaration emits =>
      cases delegates with
      | declaration alike => exact emits.accepted known rfl alike
  | expression emits =>
      cases delegates with
      | expression delegates => exact emits.stepsAccepted known delegates

namespace Statement

variable {inLoop : Bool} {condition : Expression String} {body whenTrue whenFalse : List Statement}

open Expression

/-- A condition with one branch. -/
theorem accepted_branch (accepted : Accepted names functions scope condition)
    (trueAccepted : StepsAccepted functions inLoop scope.opened (Step.ofStatements names whenTrue)
      after) :
    StepsAccepted functions inLoop scope
      (Step.ofStatement names (.branch condition whenTrue none place)) scope := by
  obtain ⟨formula, resolved, made⟩ := accepted
  obtain ⟨steps, stepsResolved, -, stepsMade⟩ := trueAccepted
  simp only [Step.ofStatement, Step.ofStatements?, resolved, stepsResolved]
  refine .singleton rfl fun targets start inside => ?_
  obtain ⟨code, made⟩ := made start
  obtain ⟨stepsCode, stepsMade⟩ := stepsMade targets (start + formula.size + 1) inside
  simp only [Step.code, Step.otherwiseCode, bind_eq_ok, pure_eq_ok]
  exact ⟨_, code, made, stepsCode, stepsMade, [], rfl, rfl⟩

/-- A condition with two branches. -/
theorem accepted_branches {afterFalse : Scope} (accepted : Accepted names functions scope condition)
    (trueAccepted : StepsAccepted functions inLoop scope.opened (Step.ofStatements names whenTrue)
      after)
    (falseAccepted : StepsAccepted functions inLoop scope.opened (Step.ofStatements names whenFalse)
      afterFalse) :
    StepsAccepted functions inLoop scope
      (Step.ofStatement names (.branch condition whenTrue (some whenFalse) place)) scope := by
  obtain ⟨formula, resolved, made⟩ := accepted
  obtain ⟨steps, stepsResolved, -, stepsMade⟩ := trueAccepted
  obtain ⟨falseSteps, falseResolved, -, falseMade⟩ := falseAccepted
  simp only [Step.ofStatement, Step.ofStatements?, resolved, stepsResolved, falseResolved]
  refine .singleton rfl fun targets start inside => ?_
  obtain ⟨code, made⟩ := made start
  obtain ⟨stepsCode, stepsMade⟩ := stepsMade targets (start + formula.size + 1) inside
  obtain ⟨falseCode, falseMade⟩ :=
    falseMade targets (start + formula.size + 1 + Step.sizes steps + 1) inside
  simp only [Step.code, Step.otherwiseCode, bind_eq_ok, pure_eq_ok]
  exact ⟨_, code, made, stepsCode, stepsMade, _, ⟨falseCode, falseMade, rfl⟩, rfl⟩

/-- A loop that suspends the program in each round. -/
theorem accepted_forever (truth : Step.isTruth condition = true)
    (accepted : StepsAccepted functions true scope.opened (Step.ofStatements names body) after) :
    StepsAccepted functions inLoop scope
      (Step.ofStatement names (.whileLoop condition body place)) scope := by
  obtain ⟨steps, resolved, -, made⟩ := accepted
  simp only [Step.ofStatement, truth, if_true, resolved]
  refine .singleton rfl fun targets start _ => ?_
  obtain ⟨code, made⟩ :=
    made (some ⟨start + Step.sizes (.tick place :: steps) + 1, start⟩) (start + 1) rfl
  simp only [Step.code, Step.codes, bind_eq_ok, pure_eq_ok]
  exact ⟨_, _, ⟨[⟨.tick, place⟩], rfl, code, made, rfl⟩, rfl⟩

/-- A loop with a condition. -/
theorem accepted_whileLoop (truth : Step.isTruth condition = false)
    (accepted : Accepted names functions scope condition)
    (bodyAccepted : StepsAccepted functions true scope.opened
      (Step.ofStatements names body) after) :
    StepsAccepted functions inLoop scope
      (Step.ofStatement names (.whileLoop condition body place)) scope := by
  obtain ⟨formula, resolved, made⟩ := accepted
  obtain ⟨steps, stepsResolved, -, stepsMade⟩ := bodyAccepted
  have untrue : ¬ Step.isTruth condition = true := ne_true_of_eq_false truth
  simp only [Step.ofStatement, if_neg untrue, resolved, stepsResolved]
  refine .singleton rfl fun targets start _ => ?_
  obtain ⟨code, made⟩ := made start
  obtain ⟨stepsCode, stepsMade⟩ := stepsMade
    (some ⟨start + formula.size + 1 + Step.sizes steps + 1, start⟩) (start + formula.size + 1) rfl
  simp only [Step.code, bind_eq_ok, pure_eq_ok]
  exact ⟨_, code, made, stepsCode, stepsMade, rfl⟩

/-- A loop with its condition at the end. -/
theorem accepted_doLoop
    (bodyAccepted : StepsAccepted functions true scope.opened (Step.ofStatements names body) after)
    (accepted : Accepted names functions scope condition) :
    StepsAccepted functions inLoop scope
      (Step.ofStatement names (.doLoop body condition place)) scope := by
  obtain ⟨formula, resolved, made⟩ := accepted
  obtain ⟨steps, stepsResolved, -, stepsMade⟩ := bodyAccepted
  simp only [Step.ofStatement, resolved, stepsResolved]
  refine .singleton rfl fun targets start _ => ?_
  obtain ⟨stepsCode, stepsMade⟩ := stepsMade
    (some ⟨start + Step.sizes steps + formula.size + 1, start + Step.sizes steps⟩) start rfl
  obtain ⟨code, made⟩ := made (start + Step.sizes steps)
  simp only [Step.code, bind_eq_ok, pure_eq_ok]
  exact ⟨_, stepsCode, stepsMade, code, made, rfl⟩

/-- A `for` loop. -/
theorem accepted_forLoop {first : ForStart} {condition step : Option (Expression String)}
    {inside : Scope}
    (firstAccepted : StepsAccepted functions inLoop scope.opened
      (Step.ofForStart names first) inside)
    (accepted : OptionAccepted names functions inside condition)
    (bodyAccepted : StepsAccepted functions true inside.opened (Step.ofStatements names body) after)
    (stepAccepted : OptionAccepted names functions inside step) :
    StepsAccepted functions inLoop scope
      (Step.ofStatement names (.forLoop first condition step body place)) scope := by
  obtain ⟨firstSteps, firstResolved, rfl, firstMade⟩ := firstAccepted
  obtain ⟨formula, resolved, -, -, made, -⟩ := accepted.exists_formula
  obtain ⟨steps, stepsResolved, -, stepsMade⟩ := bodyAccepted
  obtain ⟨stepFormula, stepResolved, -, -, -, stepMade⟩ := stepAccepted.exists_formula
  simp only [Step.ofStatement, firstResolved, resolved, stepResolved, stepsResolved]
  refine .singleton rfl fun targets start inside => ?_
  -- where a round begins, where the step stands and where the loop is left
  let round := start + Step.sizes firstSteps
  let advance := round + Step.clauseSize formula + Step.sizes steps
  let leave := advance + Step.clauseSize stepFormula + 1
  obtain ⟨firstCode, firstMade⟩ := firstMade targets start inside
  obtain ⟨code, made⟩ := made round leave place
  obtain ⟨stepsCode, stepsMade⟩ :=
    stepsMade (some ⟨leave, advance⟩) (round + Step.clauseSize formula) rfl
  obtain ⟨stepCode, stepMade⟩ := stepMade advance place
  simp only [Step.code, bind_eq_ok, pure_eq_ok]
  exact ⟨_, firstCode, firstMade, code, made, stepsCode, stepsMade, stepCode, stepMade, rfl⟩

/-- A block. -/
theorem accepted_block
    (accepted : StepsAccepted functions inLoop scope.opened (Step.ofStatements names body) after) :
    StepsAccepted functions inLoop scope (Step.ofStatement names (.block body place)) scope := by
  obtain ⟨steps, resolved, -, made⟩ := accepted
  simp only [Step.ofStatement, resolved]
  exact .singleton rfl made

/-- A return. -/
theorem accepted_giveBack {value : Option (Expression String)}
    (accepted : OptionAccepted names functions scope value) :
    StepsAccepted functions inLoop scope (Step.ofStatement names (.giveBack value place))
      scope := by
  obtain ⟨formula, resolved, -, made, -⟩ := accepted.exists_formula
  simp only [Step.ofStatement, resolved]
  refine .singleton rfl fun targets start _ => ?_
  obtain ⟨code, made⟩ := made start place
  simp only [Step.code, bind_eq_ok, pure_eq_ok]
  exact ⟨_, code, made, rfl⟩

/-- A jump to one of the targets of the innermost loop. -/
theorem exists_loopJump_eq_ok {targets : Option LoopTargets} (inside : targets.isSome = true)
    (target : LoopTargets → Nat) (missing : Reason) :
    ∃ code, Step.loopJump targets target missing place = .ok code := by
  cases targets with
  | none => cases inside
  | some targets => exact ⟨_, rfl⟩

/-- **Statements are accepted, also if some of their waits are delegated.** -/
theorem EmitsAll.accepted {targets : Option LoopTargets} {statements others : List Statement}
    (emits : EmitsAll functions localCount targets scope start statements code after)
    (known : functions.Extends names helper functions')
    (delegate : List.Forall₂ (Statement.Delegates helper) statements others) :
    StepsAccepted functions' targets.isSome scope (Step.ofStatements names others) after := by
  -- by induction on the rules for code, whatever stands in the place of a statement
  refine @EmitsAll.rec functions localCount
    (fun targets scope _ statement _ after _ => ∀ other, statement.Delegates helper other →
      StepsAccepted functions' targets.isSome scope (Step.ofStatement names other) after)
    (fun targets scope _ statements _ after _ => ∀ others,
      List.Forall₂ (Statement.Delegates helper) statements others →
      StepsAccepted functions' targets.isSome scope (Step.ofStatements names others) after)
    ?declaration ?expression ?branch ?branches ?forever ?whileLoop ?doLoop ?forLoop
      ?block ?leaveLoop
    ?nextRound ?giveBack ?nil ?cons targets scope start statements code after emits others delegate
  case declaration =>
    intro _ _ _ _ _ _ _ _ emits _ delegates
    cases delegates with
    | declaration alike => exact emits.accepted known rfl alike
  case expression =>
    intro _ _ _ _ _ _ emits _ delegates
    cases delegates with
    | expression delegates => exact emits.stepsAccepted known delegates
  case branch =>
    intro _ _ _ _ _ _ _ _ _ condition _ whenTrue _ delegates
    cases delegates with
    | branch alike trueDelegates =>
        exact accepted_branch (condition.accepted known alike) (whenTrue _ trueDelegates)
  case branches =>
    intro _ _ _ _ _ _ _ _ _ _ _ _ condition _ _ whenTrue whenFalse _ delegates
    cases delegates with
    | branches alike trueDelegates falseDelegates =>
        exact accepted_branches (condition.accepted known alike) (whenTrue _ trueDelegates)
          (whenFalse _ falseDelegates)
  case forever =>
    intro _ _ _ _ _ _ _ _ truth _ body _ delegates
    cases delegates with
    | whileLoop alike bodyDelegates =>
        exact accepted_forever (alike.isTruth.trans truth) (body _ bodyDelegates)
  case whileLoop =>
    intro _ _ _ _ _ _ _ _ _ truth condition _ body _ delegates
    cases delegates with
    | whileLoop alike bodyDelegates =>
        exact accepted_whileLoop (alike.isTruth.trans truth) (condition.accepted known alike)
          (body _ bodyDelegates)
  case doLoop =>
    intro _ _ _ _ _ _ _ _ _ _ condition body _ delegates
    cases delegates with
    | doLoop bodyDelegates alike =>
        exact accepted_doLoop (body _ bodyDelegates) (condition.accepted known alike)
  case forLoop =>
    intro _ _ _ _ _ _ _ _ _ _ _ _ _ _ first guard _ step body _ delegates
    cases delegates with
    | forLoop startDelegates conditionAlike stepAlike bodyDelegates =>
        exact accepted_forLoop (first.accepted known startDelegates)
          (guard.accepted known conditionAlike) (body _ bodyDelegates)
          (step.accepted known stepAlike)
  case block =>
    intro _ _ _ _ _ _ _ _ body _ delegates
    cases delegates with
    | block bodyDelegates => exact accepted_block (body _ bodyDelegates)
  case leaveLoop | nextRound =>
    intro _ _ _ _ _ delegates
    cases delegates
    exact .singleton rfl fun _ _ inside => exists_loopJump_eq_ok inside _ _
  case giveBack =>
    intro _ _ _ _ _ _ emits _ delegates
    cases delegates with
    | giveBack alike => exact accepted_giveBack (emits.accepted known alike)
  case nil =>
    intro _ _ _ _ delegate
    cases delegate
    exact .nil
  case cons =>
    intro _ _ _ _ _ _ _ _ _ _ _ first later _ delegate
    cases delegate with
    | cons firstDelegates laterDelegate =>
        exact (first _ firstDelegates).append (later _ laterDelegate)

end Statement

end Statements

end LineRobot
