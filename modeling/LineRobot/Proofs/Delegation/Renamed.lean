import LineRobot.Proofs.Delegation.Accepted
import LineRobot.Proofs.Token.Renaming

/-! # Waits under another name

If a body has code, then the wait function is named in it only where a statement waits. So if the
name of the wait function is replaced in some places of its text, nothing has changed in the
statements but that some waits are delegated (`Statement.BodyWritten.delegates`).

Nothing that is declared is called like the wait function, as its name is reserved; this is what is
known of the scopes on the way through a body. -/

namespace LineRobot

open Source (Renaming)

variable {helper : String}

/-- A name that is not the one replaced stays. -/
theorem Source.Renaming.eq_of_ne {word other text text' : String}
    (related : Renaming word other text text') (different : text ≠ word) : text' = text :=
  related.resolve_right fun replaced => different replaced.1

/-! ## Expressions -/

namespace Expression

/-- Two expressions that differ at most in their places and in names that are related. -/
inductive Renamed (names : String → String → Prop) : Expression String → Expression String → Prop
  /-- The same number. -/
  | number {value : Float} {here there : Position} :
      Renamed names (.number value here) (.number value there)
  /-- Names that are related. -/
  | name {text text' : String} {here there : Position} :
      names text text' → Renamed names (.name text here) (.name text' there)
  /-- The same operator between two operands. -/
  | binary {operator : Operator} {left right left' right' : Expression String}
      {here there : Position} :
      Renamed names left left' → Renamed names right right' →
      Renamed names (.binary operator left right here) (.binary operator left' right' there)
  /-- The same connective between two operands. -/
  | logical {connective : Connective} {left right left' right' : Expression String}
      {here there : Position} :
      Renamed names left left' → Renamed names right right' →
      Renamed names (.logical connective left right here) (.logical connective left' right' there)
  /-- The same operator before one operand. -/
  | unary {operator : UnaryOperator} {operand operand' : Expression String}
      {here there : Position} :
      Renamed names operand operand' →
      Renamed names (.unary operator operand here) (.unary operator operand' there)
  /-- The same change of a variable. -/
  | change {direction : Direction} {moment : Moment} {target target' : Expression String}
      {here there : Position} :
      Renamed names target target' →
      Renamed names (.change direction moment target here) (.change direction moment target' there)
  /-- A condition and the two expressions it chooses from. -/
  | conditional {condition whenTrue whenFalse condition' whenTrue' whenFalse' : Expression String}
      {here there : Position} :
      Renamed names condition condition' → Renamed names whenTrue whenTrue' →
      Renamed names whenFalse whenFalse' →
      Renamed names (.conditional condition whenTrue whenFalse here)
        (.conditional condition' whenTrue' whenFalse' there)
  /-- The same kind of assignment. -/
  | assign {compound : Option Operator} {target value target' value' : Expression String}
      {here there : Position} :
      Renamed names target target' → Renamed names value value' →
      Renamed names (.assign compound target value here) (.assign compound target' value' there)
  /-- Calls of names that are related. -/
  | call {callee callee' : String} {arguments arguments' : List (Expression String)}
      {here there : Position} :
      names callee callee' → List.Forall₂ (Renamed names) arguments arguments' →
      Renamed names (.call callee arguments here) (.call callee' arguments' there)
  /-- An element of an array. -/
  | index {array subscript array' subscript' : Expression String} {here there : Position} :
      Renamed names array array' → Renamed names subscript subscript' →
      Renamed names (.index array subscript here) (.index array' subscript' there)

variable {names : String → String → Prop}

/-- The same operator before operands that differ in names. -/
theorem Renamed.apply {operand operand' : Expression String} (leading : Leading)
    (renamed : Renamed names operand operand') (here there : Position) :
    Renamed names (leading.apply operand here) (leading.apply operand' there) := by
  cases leading with
  | operator => exact .unary renamed
  | change => exact .change renamed
  | nothing => exact renamed

/-- The same operator between operands that differ in names. -/
theorem Renamed.join {left left' right right' : Expression String} (link : Link)
    (first : Renamed names left left') (second : Renamed names right right')
    (here there : Position) :
    Renamed names (link.join left right here) (link.join left' right' there) := by
  cases link with
  | operator => exact .binary first second
  | connective => exact .logical first second

mutual

/-- What the tokens of two texts write differs in their names. -/
theorem Written.renamed {input rest : List Token} {value value' : Expression String} :
    Written names input rest value value' → Renamed names value value'
  | .number | .character => .number
  | .name related => .name related
  | .parentheses inside => inside.renamed
  | .leading _ operand => operand.renamed.apply _ _ _
  | .change _ operand => .change operand.renamed
  | .index array subscript => .index array.renamed subscript.renamed
  | .call callee arguments =>
      match callee.renamed with
      | .name related => .call related arguments.renamed
  | .binary _ left right => left.renamed.join _ right.renamed _ _
  | .conditional condition whenTrue whenFalse =>
      .conditional condition.renamed whenTrue.renamed whenFalse.renamed
  | .assign _ target value => .assign target.renamed value.renamed

/-- So do arguments. -/
theorem ArgumentsWritten.renamed {input rest : List Token}
    {arguments arguments' : List (Expression String)} :
    ArgumentsWritten names input rest arguments arguments' →
      List.Forall₂ (Renamed names) arguments arguments'
  | .nothing => .nil
  | .last value => .cons value.renamed .nil
  | .cons value others => .cons value.renamed others.renamed

end

section

variable {functions : FunctionTable} {scope : Scope}

/-- The wait function is not the name of a value. -/
theorem ne_wait_of_nameInstruction (free : scope.lookup? Vocabulary.wait = none) {text : String}
    {instruction : Instruction} (meant : Formula.nameInstruction scope text = .ok instruction) :
    text ≠ Vocabulary.wait := by
  rintro rfl
  rw [Formula.nameInstruction, free] at meant
  cases meant

/-- The wait function is not the name of a local. -/
theorem ne_wait_of_lookup? (free : scope.lookup? Vocabulary.wait = none) {text : String}
    {found : Local} (known : scope.lookup? text = some found) : text ≠ Vocabulary.wait := by
  rintro rfl
  rw [free] at known
  cases known

/-- The wait function is not the name of an array, so that the name of one stays. -/
theorem Renamed.alike_of_bank? {array array' : Expression String} {bank : Bank}
    (renamed : Renamed (Renaming Vocabulary.wait helper) array array')
    (named : array.bank? = some bank) : Alike array array' := by
  obtain ⟨text, place, rfl, spelled⟩ := exists_name_of_bank? named
  cases renamed with
  | name related =>
      have different : text ≠ Vocabulary.wait := by
        rintro rfl
        cases spelled
      rw [related.eq_of_ne different]
      exact .name

/-- The wait function is not the constant for truth, so that the bare name of this one stays. -/
theorem Renamed.alike_of_isTruth {condition condition' : Expression String}
    (renamed : Renamed (Renaming Vocabulary.wait helper) condition condition')
    (truth : Step.isTruth condition = true) : Alike condition condition' := by
  cases renamed with
  | name related =>
      have spelled := of_decide_eq_true truth
      rw [related.eq_of_ne (by rw [spelled]; decide)]
      exact .name
  | _ => cases truth

mutual

/-- **An expression that has code stays**: the wait function is not named in it. -/
theorem Emits.alike (free : scope.lookup? Vocabulary.wait = none) {start : Nat}
    {value value' : Expression String} {code : List Placed}
    (emits : Emits functions scope start value code)
    (renamed : Renamed (Renaming Vocabulary.wait helper) value value') : Alike value value' := by
  cases emits with
  | number =>
      cases renamed
      exact .number
  | name meant =>
      -- a name with code is a constant or in scope, and the wait function is neither
      cases renamed with
      | name related =>
          rw [related.eq_of_ne (ne_wait_of_nameInstruction free meant)]
          exact .name
  | binary left right =>
      cases renamed with
      | binary left' right' => exact .binary (left.alike free left') (right.alike free right')
  | logical left right =>
      cases renamed with
      | logical left' right' => exact .logical (left.alike free left') (right.alike free right')
  | unary operand =>
      cases renamed with
      | unary operand' => exact .unary (operand.alike free operand')
  | changeLocal known =>
      cases renamed with
      | change target =>
          cases target with
          | name related =>
              rw [related.eq_of_ne (ne_wait_of_lookup? free known)]
              exact .change .name
  | changeSlot named subscript =>
      cases renamed with
      | change target =>
          cases target with
          | index array subscript' =>
              exact .change (.index (array.alike_of_bank? named) (subscript.alike free subscript'))
  | conditional condition whenTrue whenFalse =>
      cases renamed with
      | conditional condition' whenTrue' whenFalse' =>
          exact .conditional (condition.alike free condition') (whenTrue.alike free whenTrue')
            (whenFalse.alike free whenFalse')
  | assignLocal known value | updateLocal known value =>
      cases renamed with
      | assign target value' =>
          cases target with
          | name related =>
              rw [related.eq_of_ne (ne_wait_of_lookup? free known)]
              exact .assign .name (value.alike free value')
  | assignSlot named subscript value | updateSlot named subscript value =>
      cases renamed with
      | assign target value' =>
          cases target with
          | index array subscript' =>
              exact .assign (.index (array.alike_of_bank? named) (subscript.alike free subscript'))
                (value.alike free value')
  | drive _ arguments =>
      cases renamed with
      | call related arguments' =>
          rw [related.eq_of_ne (by decide)]
          exact .call (arguments.alike free arguments')
  | call _ different _ _ arguments =>
      cases renamed with
      | call related arguments' =>
          rw [related.eq_of_ne different]
          exact .call (arguments.alike free arguments')
  | index named subscript =>
      cases renamed with
      | index array subscript' =>
          exact .index (array.alike_of_bank? named) (subscript.alike free subscript')

/-- So do expressions behind one another. -/
theorem EmitsAll.alike (free : scope.lookup? Vocabulary.wait = none) {start : Nat}
    {values values' : List (Expression String)} {code : List Placed}
    (emits : EmitsAll functions scope start values code)
    (renamed : List.Forall₂ (Renamed (Renaming Vocabulary.wait helper)) values values') :
    List.Forall₂ Alike values values' := by
  cases emits with
  | nil =>
      cases renamed
      exact .nil
  | cons first others =>
      cases renamed with
      | cons first' others' => exact .cons (first.alike free first') (others.alike free others')

end

/-- An expression that is evaluated for its effect stays, or is a wait and is delegated. -/
theorem EmitsEffect.delegates (free : scope.lookup? Vocabulary.wait = none) {start : Nat}
    {position : Position} {value value' : Expression String} {code : List Placed}
    (emits : EmitsEffect functions scope start position value code)
    (renamed : Renamed (Renaming Vocabulary.wait helper) value value') :
    Delegates helper value value' := by
  cases emits with
  | evaluate emits => exact .keep (emits.alike free renamed)
  | wait duration =>
      cases renamed with
      | call related arguments =>
          cases arguments with
          | cons first none =>
              cases none
              have alike := duration.alike free first
              obtain rfl | ⟨-, rfl⟩ := related
              · exact .keep (.call (.cons alike .nil))
              · exact .delegate alike

/-- A clause that may be left out differs in its names. -/
theorem ClauseWritten.renamed {input rest : List Token} {close : Sign}
    {clause clause' : Option (Expression String)} :
    ClauseWritten names close input rest clause clause' →
      Option.Rel (Renamed names) clause clause'
  | .nothing => .none
  | .expression value => .some value.renamed

/-- An expression that may be left out stays. -/
theorem EmitsOrZero.alike (free : scope.lookup? Vocabulary.wait = none) {start : Nat}
    {position : Position} {value value' : Option (Expression String)} {code : List Placed}
    (emits : EmitsOrZero functions scope start position value code)
    (renamed : Option.Rel (Renamed (Renaming Vocabulary.wait helper)) value value') :
    Option.Rel Alike value value' := by
  cases emits with
  | zero =>
      cases renamed
      exact .none
  | value emits =>
      cases renamed with
      | some renamed => exact .some (emits.alike free renamed)

/-- The condition of a `for` loop stays. -/
theorem EmitsGuard.alike (free : scope.lookup? Vocabulary.wait = none) {start leave : Nat}
    {position : Position} {condition condition' : Option (Expression String)} {code : List Placed}
    (emits : EmitsGuard functions scope start leave position condition code)
    (renamed : Option.Rel (Renamed (Renaming Vocabulary.wait helper)) condition condition') :
    Option.Rel Alike condition condition' := by
  cases emits with
  | always =>
      cases renamed
      exact .none
  | condition emits =>
      cases renamed with
      | some renamed => exact .some (emits.alike free renamed)

/-- The step of a `for` loop stays. -/
theorem EmitsAdvance.alike (free : scope.lookup? Vocabulary.wait = none) {start : Nat}
    {position : Position} {step step' : Option (Expression String)} {code : List Placed}
    (emits : EmitsAdvance functions scope start position step code)
    (renamed : Option.Rel (Renamed (Renaming Vocabulary.wait helper)) step step') :
    Option.Rel Alike step step' := by
  cases emits with
  | nothing =>
      cases renamed
      exact .none
  | step emits =>
      cases renamed with
      | some renamed => exact .some (emits.alike free renamed)

end

end Expression

/-! ## Declarations -/

variable {functions : FunctionTable} {localCount : Nat} {scope after : Scope} {start : Nat}
  {code : List Placed}

/-- What is declared is not called like the wait function. -/
theorem Scope.lookup?_bind_wait {name : String} (free : scope.lookup? Vocabulary.wait = none)
    (declared : scope.canBind name = .ok ()) (writable : Bool) :
    name ≠ Vocabulary.wait ∧ (scope.bind name writable).lookup? Vocabulary.wait = none := by
  have different : name ≠ Vocabulary.wait := by
    rintro rfl
    rw [canBind, if_pos (by decide)] at declared
    cases declared
  exact ⟨different, (scope.lookup?_bind_of_ne writable different.symm).trans free⟩

/-- The parameters are not called like the wait function. -/
theorem Scope.lookup?_withParameters_wait {parameters : List String}
    (free : scope.lookup? Vocabulary.wait = none)
    (declared : scope.withParameters parameters = .ok after) :
    after.lookup? Vocabulary.wait = none := by
  induction parameters generalizing scope with
  | nil =>
      cases declared
      exact free
  | cons name others ih =>
      obtain ⟨_, bound, declared⟩ := bind_eq_ok.mp declared
      exact ih (lookup?_bind_wait free bound true).2 declared

namespace Declarator

/-- A declaration that has code stays. -/
theorem Written.alike {input rest : List Token} {declarator declarator' : Declarator}
    (written : Written (Renaming Vocabulary.wait helper) input rest declarator declarator')
    (free : scope.lookup? Vocabulary.wait = none) (different : declarator.name ≠ Vocabulary.wait)
    (emits : Expression.EmitsOrZero functions scope start declarator.position declarator.value
      code) : declarator.Alike declarator' := by
  cases written with
  | bare related => exact ⟨related.eq_of_ne different, .none⟩
  | valued related value =>
      exact ⟨related.eq_of_ne different, emits.alike free (.some value.renamed)⟩

/-- Declarations that have code stay. -/
theorem ListWritten.alike {input rest : List Token} {declarators declarators' : List Declarator}
    {writable : Bool}
    (written : ListWritten (Renaming Vocabulary.wait helper) input rest declarators declarators')
    (free : scope.lookup? Vocabulary.wait = none)
    (emits : Declarator.Emits functions localCount writable scope start declarators code after) :
    List.Forall₂ Alike declarators declarators' ∧ after.lookup? Vocabulary.wait = none := by
  induction written generalizing scope start code with
  | last written =>
      cases emits with
      | cons _ value declared _ none =>
          cases none
          obtain ⟨different, free'⟩ := Scope.lookup?_bind_wait free declared writable
          exact ⟨.cons (written.alike free different value) .nil, free'⟩
  | cons written _ ih =>
      cases emits with
      | cons _ value declared _ others =>
          obtain ⟨different, free'⟩ := Scope.lookup?_bind_wait free declared writable
          obtain ⟨alike, afterFree⟩ := ih free' others
          exact ⟨.cons (written.alike free different value) alike, afterFree⟩

/-- Declarations behind type words that have code stay. -/
theorem DeclarationWritten.alike {input rest : List Token}
    {declarators declarators' : List Declarator} {writable : Bool}
    (written :
      DeclarationWritten (Renaming Vocabulary.wait helper) input rest declarators declarators')
    (free : scope.lookup? Vocabulary.wait = none)
    (emits : Declarator.Emits functions localCount writable scope start declarators code after) :
    List.Forall₂ Alike declarators declarators' ∧ after.lookup? Vocabulary.wait = none := by
  induction written with
  | word _ ih => exact ih emits
  | declarators written => exact written.alike free emits

end Declarator

/-- A first clause that has code stays, but for a wait that is delegated. -/
theorem ForStart.Written.delegates {input rest : List Token} {first first' : ForStart}
    (written : ForStart.Written (Renaming Vocabulary.wait helper) input rest first first')
    (emits : ForStart.Emits functions localCount scope start first code after)
    (free : scope.lookup? Vocabulary.wait = none) :
    first.Delegates helper first' ∧ after.lookup? Vocabulary.wait = none := by
  cases written with
  | nothing =>
      cases emits
      exact ⟨.nothing, free⟩
  | declaration written =>
      cases emits with
      | declaration emits =>
          obtain ⟨alike, afterFree⟩ := written.alike free emits
          exact ⟨.declaration alike, afterFree⟩
  | expression written =>
      cases emits with
      | expression emits => exact ⟨.expression (emits.delegates free written.renamed), free⟩

/-! ## Statements -/

namespace Statement

/-- Where the first statements have code, the second ones are the same but for delegated waits, and
what they declare is not called like the wait function. -/
def AllFollow (functions : FunctionTable) (localCount : Nat) (helper : String)
    (body body' : List Statement) : Prop :=
  ∀ ⦃targets scope start code after⦄,
    EmitsAll functions localCount targets scope start body code after →
      scope.lookup? Vocabulary.wait = none →
        List.Forall₂ (Delegates helper) body body' ∧ after.lookup? Vocabulary.wait = none

/-- A statement with others behind it. -/
theorem AllFollow.cons {first first' : Statement} {others others' : List Statement}
    (head : ∀ {targets scope start code after},
      Emits functions localCount targets scope start first code after →
        scope.lookup? Vocabulary.wait = none →
          first.Delegates helper first' ∧ after.lookup? Vocabulary.wait = none)
    (tail : AllFollow functions localCount helper others others') :
    AllFollow functions localCount helper (first :: others) (first' :: others') := by
  intro targets scope start code after emits free
  cases emits with
  | cons firstEmits otherEmits =>
      obtain ⟨delegates, middleFree⟩ := head firstEmits free
      obtain ⟨delegate, afterFree⟩ := tail otherEmits middleFree
      exact ⟨.cons delegates delegate, afterFree⟩

/-- No statement has no code. -/
theorem AllFollow.nil : AllFollow functions localCount helper [] [] := by
  intro targets scope start code after emits free
  cases emits
  exact ⟨.nil, free⟩

/-- A statement that has code stays, but for waits that are delegated. -/
theorem Written.delegates {input rest : List Token} {statement statement' : Statement}
    (written : Written (Renaming Vocabulary.wait helper) input rest statement statement') :
    ∀ {targets scope start code after},
      Emits functions localCount targets scope start statement code after →
        scope.lookup? Vocabulary.wait = none →
          statement.Delegates helper statement' ∧ after.lookup? Vocabulary.wait = none := by
  induction written using Written.rec
    (motive_2 := fun _ _ body body' _ => AllFollow functions localCount helper body body')
    (motive_3 := fun _ _ body body' _ => AllFollow functions localCount helper body body') with
  | declaration written =>
      intro targets scope start code after emits free
      cases emits with
      | declaration emits =>
          obtain ⟨alike, afterFree⟩ := written.alike free emits
          exact ⟨.declaration alike, afterFree⟩
  | expression written =>
      intro targets scope start code after emits free
      cases emits with
      | expression emits => exact ⟨.expression (emits.delegates free written.renamed), free⟩
  | branch condition _ whenTrue =>
      intro targets scope start code after emits free
      cases emits with
      | branch conditionEmits trueEmits =>
          exact ⟨.branch (conditionEmits.alike free condition.renamed) (whenTrue trueEmits free).1,
            free⟩
  | branches condition _ _ whenTrue whenFalse =>
      intro targets scope start code after emits free
      cases emits with
      | branches conditionEmits trueEmits falseEmits =>
          exact ⟨.branches (conditionEmits.alike free condition.renamed)
            (whenTrue trueEmits free).1 (whenFalse falseEmits free).1, free⟩
  | whileLoop condition _ body =>
      intro targets scope start code after emits free
      cases emits with
      | forever truth bodyEmits =>
          exact ⟨.whileLoop (condition.renamed.alike_of_isTruth truth)
            (body bodyEmits free).1, free⟩
      | whileLoop _ conditionEmits bodyEmits =>
          exact ⟨.whileLoop (conditionEmits.alike free condition.renamed) (body bodyEmits free).1,
            free⟩
  | doLoop _ condition body =>
      intro targets scope start code after emits free
      cases emits with
      | doLoop bodyEmits conditionEmits =>
          exact ⟨.doLoop (body bodyEmits free).1 (conditionEmits.alike free condition.renamed),
            free⟩
  | forLoop first condition step _ body =>
      intro targets scope start code after emits free
      cases emits with
      | forLoop firstEmits guardEmits bodyEmits stepEmits =>
          -- the first part may bind a name, but none that hides the wait function
          obtain ⟨firstDelegates, inside⟩ := first.delegates firstEmits free
          exact ⟨.forLoop firstDelegates (guardEmits.alike inside condition.renamed)
            (stepEmits.alike inside step.renamed) (body bodyEmits inside).1, free⟩
  | block _ body =>
      intro targets scope start code after emits free
      cases emits with
      | block bodyEmits => exact ⟨.block (body bodyEmits free).1, free⟩
  | nothing =>
      intro targets scope start code after emits free
      cases emits
      exact ⟨.block .nil, free⟩
  | leaveLoop =>
      intro targets scope start code after emits free
      cases emits
      exact ⟨.leaveLoop, free⟩
  | nextRound =>
      intro targets scope start code after emits free
      cases emits
      exact ⟨.nextRound, free⟩
  | giveBack value =>
      intro targets scope start code after emits free
      cases emits with
      | giveBack emits => exact ⟨.giveBack (emits.alike free value.renamed), free⟩
  | nil => exact .nil
  | cons _ _ first others => exact .cons first others
  | braced _ body => exact body
  | single _ only => exact .cons only .nil

/-- **A body that has code stays, but for waits that are delegated.** -/
theorem BodyWritten.delegates {input : List Token} {body body' : List Statement}
    (written : BodyWritten (Renaming Vocabulary.wait helper) input body body') :
    AllFollow functions localCount helper body body' := by
  induction written with
  | nil => exact .nil
  | cons first _ ih => exact .cons first.delegates ih

end Statement

/-- **A function that has code stays, but for waits that are delegated**, if its body is written
with another name in the place of the wait function here and there. -/
theorem ParsedFunction.Emits.delegates {function : ParsedFunction} {parameters : List String}
    {code : Code} (emits : function.Emits functions parameters code) {input : List Token}
    {body : List Statement}
    (written :
      Statement.BodyWritten (Renaming Vocabulary.wait helper) input function.body body) :
    List.Forall₂ (Statement.Delegates helper) function.body body := by
  obtain ⟨scope, instructions, after, declared, bodyEmits, -⟩ := emits.body
  have free : scope.lookup? Vocabulary.wait = none := Scope.lookup?_withParameters_wait rfl declared
  exact (written.delegates bodyEmits free).1

end LineRobot
