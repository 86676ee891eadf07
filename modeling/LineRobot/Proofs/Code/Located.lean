import LineRobot.Code.Program

/-! # What is wrong with a function has a place

Once the functions of a source have been found and the entry function among them, whatever is still
rejected is rejected for a reason at a place (`Located`): the bodies when they are read and
resolved, the table of functions and the code. So of the stages of `Program.compile` only the search
for functions finds braces that are never closed (`Program.compileWith_eq_unclosedBrace_iff`). -/

namespace LineRobot

/-- If the computation fails, it is for a reason at a place. -/
def Located {α : Type} (computation : Except Rejection α) : Prop :=
  ∀ rejection, computation = .error rejection → ∃ reason position,
    rejection = .located reason position

namespace Located

variable {α β : Type} {first : Except Rejection α} {next : α → Except Rejection β}

/-- A value is no failure. -/
theorem pure (value : α) : Located (pure value : Except Rejection α) := by
  intro rejection failed
  cases failed

/-- A failure for a reason at a place. -/
theorem error (reason : Reason) (position : Position) :
    Located (.error (.located reason position) : Except Rejection α) := by
  intro rejection failed
  cases failed
  exact ⟨reason, position, rfl⟩

/-- A sequence of two computations fails as one of them does. -/
theorem bind (located : Located first) (others : ∀ value, Located (next value)) :
    Located (first >>= next) := by
  intro rejection failed
  cases done : first with
  | error other =>
      rw [done] at failed
      cases failed
      exact located _ done
  | ok value =>
      rw [done] at failed
      exact others value rejection failed

/-- A failure that is placed has a place. -/
theorem placed (position : Position) (result : Except Reason α) :
    Located (Formula.placed position result) := by
  cases result with
  | error reason => exact error reason position
  | ok value => exact pure value

/-- A reason at a place is no brace that is never closed. -/
theorem ne_unclosedBrace (located : Located first) (position : Position) :
    first ≠ .error (.unclosedBrace position) := by
  intro failed
  obtain ⟨reason, place, same⟩ := located _ failed
  cases same

end Located

/-! ## Resolving -/

namespace Formula

variable {names : List String}

mutual

/-- An expression is refused only for a reason at a place. -/
theorem located_ofExpression : (expression : Expression String) →
    Located (ofExpression names expression)
  | .number value position => by
      rw [ofExpression]
      exact .pure _
  | .name text position => by
      rw [ofExpression]
      exact .pure _
  | .binary operator left right position => by
      rw [ofExpression]
      exact (located_ofExpression left).bind fun _ =>
        (located_ofExpression right).bind fun _ => .pure _
  | .logical connective left right position => by
      rw [ofExpression]
      exact (located_ofExpression left).bind fun _ =>
        (located_ofExpression right).bind fun _ => .pure _
  | .unary operator operand position => by
      rw [ofExpression]
      exact (located_ofExpression operand).bind fun _ => .pure _
  | .change direction moment operand position => by
      rw [ofExpression]
      exact (located_ofExpression operand).bind fun _ => .pure _
  | .conditional condition whenTrue whenFalse position => by
      rw [ofExpression]
      exact (located_ofExpression condition).bind fun _ =>
        (located_ofExpression whenTrue).bind fun _ =>
        (located_ofExpression whenFalse).bind fun _ => .pure _
  | .assign compound target value position => by
      rw [ofExpression]
      exact (located_ofExpression target).bind fun _ =>
        (located_ofExpression value).bind fun _ => .pure _
  | .call name arguments position => by
      rw [ofExpression]
      split
      · exact .error .waitInExpression position
      · exact (located_ofExpressions arguments).bind fun _ => .pure _
  | .index array index position => by
      rw [ofExpression]
      exact (located_ofExpression array).bind fun _ =>
        (located_ofExpression index).bind fun _ => .pure _

/-- Expressions are refused only for a reason at a place. -/
theorem located_ofExpressions : (expressions : List (Expression String)) →
    Located (ofExpressions names expressions)
  | [] => by
      rw [ofExpressions]
      exact .pure _
  | first :: others => by
      rw [ofExpressions]
      exact (located_ofExpression first).bind fun _ =>
        (located_ofExpressions others).bind fun _ => .pure _

end

/-- An optional expression is refused only for a reason at a place. -/
theorem located_ofExpression? (expression : Option (Expression String)) :
    Located (ofExpression? names expression) := by
  cases expression with
  | none => exact .pure _
  | some expression => exact (located_ofExpression expression).bind fun _ => .pure _

end Formula

namespace Step

variable {names : List String}

/-- A declaration is refused only for a reason at a place. -/
theorem located_ofDeclarators (type : DeclaredType) (declarators : List Declarator) :
    Located (ofDeclarators names type declarators) := by
  induction declarators with
  | nil => exact .pure _
  | cons declarator others ih =>
      exact (Formula.located_ofExpression? declarator.value).bind fun _ => ih.bind fun _ => .pure _

/-- An expression statement is refused only for a reason at a place. -/
theorem located_ofExpressionStatement (position : Position) (expression : Expression String) :
    Located (ofExpressionStatement names position expression) := by
  have evaluated (expression : Expression String) :
      Located (Formula.ofExpression names expression >>= fun value =>
        Pure.pure (Step.evaluate value position)) :=
    (Formula.located_ofExpression expression).bind fun _ => .pure _
  cases expression with
  | call name arguments callPosition =>
      unfold ofExpressionStatement
      dsimp only
      split
      · split
        · exact (Formula.located_ofExpression _).bind fun _ => .pure _
        · exact .error (.waitArguments arguments.length) callPosition
      · exact evaluated _
  | _ => exact evaluated _

/-- The first steps of a `for` loop are refused only for a reason at a place. -/
theorem located_ofForStart (start : ForStart) : Located (ofForStart names start) := by
  cases start with
  | nothing => exact .pure _
  | declaration type declarators position => exact located_ofDeclarators type declarators
  | expression value position =>
      exact (located_ofExpressionStatement position value).bind fun _ => .pure _

mutual

/-- A statement is refused only for a reason at a place. -/
theorem located_ofStatement : (statement : Statement) → Located (ofStatement names statement)
  | .declaration type declarators position => by
      rw [ofStatement]
      exact located_ofDeclarators type declarators
  | .expression value position => by
      rw [ofStatement]
      exact (located_ofExpressionStatement position value).bind fun _ => .pure _
  | .branch condition whenTrue whenFalse position => by
      rw [ofStatement]
      exact (Formula.located_ofExpression condition).bind fun _ =>
        (located_ofStatements whenTrue).bind fun _ =>
        (located_ofStatements? whenFalse).bind fun _ => .pure _
  | .whileLoop condition body position => by
      rw [ofStatement]
      split
      · exact (located_ofStatements body).bind fun _ => .pure _
      · exact (Formula.located_ofExpression condition).bind fun _ =>
          (located_ofStatements body).bind fun _ =>
          .pure _
  | .doLoop body condition position => by
      rw [ofStatement]
      exact (located_ofStatements body).bind fun _ =>
        (Formula.located_ofExpression condition).bind fun _ =>
        .pure _
  | .forLoop start condition step body position => by
      rw [ofStatement]
      exact (located_ofForStart start).bind fun _ =>
        (Formula.located_ofExpression? condition).bind fun _ =>
        (Formula.located_ofExpression? step).bind fun _ =>
          (located_ofStatements body).bind fun _ => .pure _
  | .block body position => by
      rw [ofStatement]
      exact (located_ofStatements body).bind fun _ => .pure _
  | .leaveLoop position => by
      rw [ofStatement]
      exact .pure _
  | .nextRound position => by
      rw [ofStatement]
      exact .pure _
  | .giveBack value position => by
      rw [ofStatement]
      exact (Formula.located_ofExpression? value).bind fun _ => .pure _

/-- Statements are refused only for a reason at a place. -/
theorem located_ofStatements : (statements : List Statement) →
    Located (ofStatements names statements)
  | [] => by
      rw [ofStatements]
      exact .pure _
  | first :: others => by
      rw [ofStatements]
      exact (located_ofStatement first).bind fun _ =>
        (located_ofStatements others).bind fun _ => .pure _

/-- An optional branch is refused only for a reason at a place. -/
theorem located_ofStatements? : (branch : Option (List Statement)) →
    Located (ofStatements? names branch)
  | none => by
      rw [ofStatements?]
      exact .pure _
  | some statements => by
      rw [ofStatements?]
      exact (located_ofStatements statements).bind fun _ => .pure _

end

end Step

/-- A definition is refused only for a reason at a place. -/
theorem Routine.located_ofDefinition (names : List String) (definition : Definition) :
    Located (ofDefinition names definition) := by
  unfold ofDefinition
  split
  case h_1 error unreadable => exact .error (.unreadable error.cause) error.position
  case h_2 => exact (Step.located_ofStatements _).bind fun _ => .pure _

/-! ## Making code -/

namespace Formula

variable {functions : FunctionTable} {scope : Scope}

/-- What is indexed is refused only for a reason at a place. -/
theorem located_bank (array : Formula) : Located array.bank := by
  cases array with
  | name text position =>
      unfold bank
      dsimp only
      split
      · exact .pure _
      · exact .error .unindexable position
  | _ => exact .error .unindexable _

/-- What is indexed and assigned to is refused only for a reason at a place. -/
theorem located_writableBank (array : Formula) : Located array.writableBank := by
  refine (located_bank array).bind fun bank => ?_
  cases bank with
  | slots => exact .pure _
  | sensors => exact .error .sensorAssigned array.position

/-- A name assigned to is refused only for a reason at a place. -/
theorem located_writableLocal (name : String) (position : Position) :
    Located (writableLocal scope name position) := by
  unfold writableLocal
  split
  · exact .pure _
  · exact .error (.constantAssigned name) position
  · split
    · exact .error (.reservedAssigned name) position
    · exact .error (.unknownName name) position

mutual

/-- A formula is refused only for a reason at a place. -/
theorem located_code : (formula : Formula) → (start : Nat) →
    Located (code functions scope start formula)
  | .number value position, start => by
      rw [code]
      exact .pure _
  | .name text position, start => by
      rw [code]
      exact (Located.placed position _).bind fun _ => .pure _
  | .binary operator left right position, start => by
      rw [code]
      exact (located_code left _).bind fun _ => (located_code right _).bind fun _ => .pure _
  | .logical connective left right position, start => by
      rw [code]
      exact (located_code left _).bind fun _ => (located_code right _).bind fun _ => .pure _
  | .unary operator operand position, start => by
      rw [code]
      exact (located_code operand _).bind fun _ => .pure _
  | .change direction moment operand position, start => by
      cases operand with
      | name text namePosition =>
          rw [code]
          exact (located_writableLocal text namePosition).bind fun _ => .pure _
      | index array index indexPosition =>
          rw [code]
          exact (located_writableBank array).bind fun _ =>
            (located_code index _).bind fun _ => .pure _
      | _ => exact .error .unchangeable position
  | .conditional condition whenTrue whenFalse position, start => by
      rw [code]
      exact (located_code condition _).bind fun _ => (located_code whenTrue _).bind fun _ =>
        (located_code whenFalse _).bind fun _ => .pure _
  | .assign compound target value position, start => by
      cases target with
      | name text namePosition =>
          cases compound <;>
            rw [code] <;>
            exact (located_writableLocal text namePosition).bind fun _ =>
              (located_code value _).bind fun _ =>
              .pure _
      | index array index indexPosition =>
          cases compound <;>
            rw [code] <;>
            exact (located_writableBank array).bind fun _ => (located_code index _).bind fun _ =>
              (located_code value _).bind fun _ => .pure _
      | _ => exact .error .unassignable position
  | .call callee arguments position, start => by
      rw [code]
      exact (Located.placed position _).bind fun _ =>
        (located_codes arguments _).bind fun _ => .pure _
  | .index array index position, start => by
      rw [code]
      exact (located_bank array).bind fun _ => (located_code index _).bind fun _ => .pure _

/-- Formulas are refused only for a reason at a place. -/
theorem located_codes : (formulas : List Formula) → (start : Nat) →
    Located (codes functions scope start formulas)
  | [], start => by
      rw [codes]
      exact .pure _
  | first :: others, start => by
      rw [codes]
      exact (located_code first _).bind fun _ => (located_codes others _).bind fun _ => .pure _

end

/-- An optional formula is refused only for a reason at a place. -/
theorem located_codeOrZero (start : Nat) (position : Position) (value : Option Formula) :
    Located (codeOrZero functions scope start position value) := by
  cases value with
  | none => exact .pure _
  | some formula => exact located_code formula start

end Formula

namespace Step

variable {functions : FunctionTable}

/-- A binding is refused only for a reason at a place. -/
theorem located_bindingCode (scope : Scope) (start : Nat) (name : String) (writable : Bool)
    (value : Option Formula) (position : Position) :
    Located (bindingCode functions scope start name writable value position) := by
  unfold bindingCode
  split
  · exact .error (.uninitialized name) position
  · exact (Formula.located_codeOrZero start position value).bind fun _ =>
      (Located.placed position _).bind fun _ => .pure _

/-- A jump out of a round is refused only for a reason at a place. -/
theorem located_loopJump (targets : Option LoopTargets) (target : LoopTargets → Nat)
    (missing : Reason) (position : Position) :
    Located (loopJump targets target missing position) := by
  cases targets with
  | none => exact .error missing position
  | some targets => exact .pure _

/-- The condition of a `for` loop is refused only for a reason at a place. -/
theorem located_guardCode (scope : Scope) (start leave : Nat) (position : Position)
    (condition : Option Formula) :
    Located (guardCode functions scope start leave position condition) := by
  cases condition with
  | none => exact .pure _
  | some condition => exact (Formula.located_code condition start).bind fun _ => .pure _

/-- The step of a `for` loop is refused only for a reason at a place. -/
theorem located_advanceCode (scope : Scope) (start : Nat) (position : Position)
    (step : Option Formula) :
    Located (advanceCode functions scope start position step) := by
  cases step with
  | none => exact .pure _
  | some step => exact (Formula.located_code step start).bind fun _ => .pure _

mutual

/-- A step is refused only for a reason at a place. -/
theorem located_code : (step : Step) → (targets : Option LoopTargets) → (scope : Scope) →
    (start : Nat) →
    Located (code functions targets scope start step)
  | .bind name writable value position, targets, scope, start => by
      rw [code]
      exact located_bindingCode scope start name writable value position
  | .evaluate value position, targets, scope, start => by
      rw [code]
      exact (Formula.located_code value _).bind fun _ => .pure _
  | .tick position, targets, scope, start => by
      rw [code]
      exact .pure _
  | .wait duration position, targets, scope, start => by
      rw [code]
      exact (Formula.located_code duration _).bind fun _ => .pure _
  | .branch condition whenTrue whenFalse position, targets, scope, start => by
      rw [code]
      exact (Formula.located_code condition _).bind fun _ =>
        (located_codes whenTrue _ _ _).bind fun _ =>
        (located_otherwiseCode whenFalse _ _ _ _).bind fun _ => .pure _
  | .forever body position, targets, scope, start => by
      rw [code]
      exact (located_codes body _ _ _).bind fun _ => .pure _
  | .whileLoop condition body position, targets, scope, start => by
      rw [code]
      exact (Formula.located_code condition _).bind fun _ =>
        (located_codes body _ _ _).bind fun _ => .pure _
  | .doLoop body condition position, targets, scope, start => by
      rw [code]
      exact (located_codes body _ _ _).bind fun _ =>
        (Formula.located_code condition _).bind fun _ => .pure _
  | .forLoop first condition step body position, targets, scope, start => by
      rw [code]
      exact (located_codes first _ _ _).bind fun _ =>
        (located_guardCode _ _ _ position condition).bind fun _ =>
        (located_codes body _ _ _).bind fun _ =>
          (located_advanceCode _ _ position step).bind fun _ => .pure _
  | .block body position, targets, scope, start => by
      rw [code]
      exact located_codes body _ _ _
  | .leaveLoop position, targets, scope, start => by
      rw [code]
      exact located_loopJump targets _ _ position
  | .nextRound position, targets, scope, start => by
      rw [code]
      exact located_loopJump targets _ _ position
  | .giveBack value position, targets, scope, start => by
      rw [code]
      exact (Formula.located_codeOrZero start position value).bind fun _ => .pure _

/-- Steps are refused only for a reason at a place. -/
theorem located_codes : (steps : List Step) → (targets : Option LoopTargets) → (scope : Scope) →
    (start : Nat) →
    Located (codes functions targets scope start steps)
  | [], targets, scope, start => by
      rw [codes]
      exact .pure _
  | first :: others, targets, scope, start => by
      rw [codes]
      exact (located_code first _ _ _).bind fun _ =>
        (located_codes others _ _ _).bind fun _ => .pure _

/-- A second branch is refused only for a reason at a place. -/
theorem located_otherwiseCode : (branch : Option (List Step)) → (targets : Option LoopTargets) →
    (scope : Scope) → (start : Nat) → (position : Position) →
    Located (otherwiseCode functions targets scope start position branch)
  | none, targets, scope, start, position => by
      rw [otherwiseCode]
      exact .pure _
  | some steps, targets, scope, start, position => by
      rw [otherwiseCode]
      exact (located_codes steps _ _ _).bind fun _ => .pure _

end

end Step

/-- A routine is refused only for a reason at a place. -/
theorem Routine.located_code (functions : FunctionTable) (routine : Routine)
    (parameters : List String) :
    Located (routine.code functions parameters) :=
  (Located.placed routine.position _).bind fun _ =>
    (Step.located_codes routine.body _ _ _).bind fun _ => .pure _

/-! ## Programs -/

namespace Program

/-- A table of subroutines is refused only for a reason at a place. -/
theorem located_tableFrom (index : Nat) (subroutines : List Routine) :
    Located (tableFrom index subroutines) := by
  induction subroutines generalizing index with
  | nil => exact .pure _
  | cons routine others ih =>
      unfold tableFrom
      split
      · exact .error (.reserved routine.name) routine.position
      · exact (ih (index + 1)).bind fun _ => .pure _

/-- The code of subroutines is refused only for a reason at a place. -/
theorem located_subroutineCodes (functions : FunctionTable) (subroutines : List Routine) :
    Located (subroutineCodes functions subroutines) := by
  induction subroutines with
  | nil => exact .pure _
  | cons routine others ih =>
      exact (routine.located_code functions routine.parameters).bind fun _ =>
        ih.bind fun _ => .pure _

/-- Routines are refused only for a reason at a place. -/
theorem located_ofRoutines (entry : Routine) (subroutines : List Routine) :
    Located (ofRoutines entry subroutines) :=
  (located_tableFrom 1 subroutines).bind fun functions =>
    (entry.located_code functions []).bind fun _ =>
    (located_subroutineCodes functions subroutines).bind fun _ => .pure _

/-- Definitions are refused only for a reason at a place. -/
theorem located_routines (names : List String) (definitions : List Definition) :
    Located (routines names definitions) := by
  induction definitions with
  | nil => exact .pure _
  | cons definition others ih =>
      exact (Routine.located_ofDefinition names definition).bind fun _ => ih.bind fun _ => .pure _

/-- Definitions that have been found are never rejected for a brace. -/
theorem split_ne_unclosedBrace (definitions : List Definition) (position : Position) :
    Definition.split definitions ≠ .error (.unclosedBrace position) := by
  unfold Definition.split
  split
  · exact nofun
  · split <;> exact nofun

/-- **Only the search for functions finds a brace that is never closed.** -/
theorem compileWith_eq_unclosedBrace_iff (names : List String) (source : String)
    (position : Position) :
    compileWith names source = .error (.unclosedBrace position) ↔
      Definition.all (Source.clean source.toList) = .error (.unclosedBrace position) := by
  unfold compileWith
  cases found : Definition.all (Source.clean source.toList) with
  | error rejection =>
      constructor
      · intro failed
        cases failed
        rfl
      · intro failed
        cases failed
        rfl
  | ok definitions =>
      refine ⟨fun failed => ?_, nofun⟩
      -- what comes after the search fails otherwise
      change (Definition.split definitions >>= _) = _ at failed
      cases parted : Definition.split definitions with
      | error rejection =>
          rw [parted] at failed
          cases failed
          exact absurd parted (split_ne_unclosedBrace definitions position)
      | ok parts =>
          rw [parted] at failed
          have located :=
            (Routine.located_ofDefinition (parts.2.map Definition.name ++ names) parts.1).bind
            fun entry => (located_routines (parts.2.map Definition.name ++ names) parts.2).bind
              fun subroutines => located_ofRoutines entry subroutines
          exact absurd failed (located.ne_unclosedBrace position)

end Program

end LineRobot
