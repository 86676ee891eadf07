import LineRobot.Proofs.Execution.Expressions

/-! # The code of statements realizes their meanings

`Statement.EmitsAll.realized`: a call that has come to the code of statements does what the
statements mean. After it, the call stands behind the code, or before a jump out of the innermost
loop or to its next round, or before an instruction that gives a value back
(`Activation.FollowsStatement`). -/

namespace LineRobot

/-- A scope whose open blocks around the innermost one are the given layers. -/
structure Scope.Fits (scope : Scope) (layers : List Layer) : Prop where
  /-- Its outer locals are those of the layers. -/
  outer : scope.outer = layers.flatten
  /-- Its locals are numbered. -/
  numbered : scope.Numbered

namespace Scope.Fits

variable {scope : Scope} {layers : List Layer}

/-- The layers of all open blocks. -/
theorem layered (fits : scope.Fits layers) :
    (scope.inner :: layers).flatten = scope.inner ++ scope.outer := by
  rw [List.flatten_cons, fits.outer]

/-- A declaration changes the innermost block only. -/
theorem bind (fits : scope.Fits layers) (name : String) (writable : Bool) :
    (scope.bind name writable).Fits layers :=
  ⟨fits.outer, fits.numbered.bind name writable⟩

/-- A block that is opened is a layer of its own. -/
theorem opened (fits : scope.Fits layers) : scope.opened.Fits (scope.inner :: layers) :=
  ⟨fits.layered.symm, fits.numbered.opened⟩

end Scope.Fits

section

variable {functions : FunctionTable} {localCount : Nat} {scope after : Scope} {start : Nat}
  {code : List Placed} {layers : List Layer}

/-- Declarations change the innermost block only. -/
theorem Declarator.Emits.fits {writable : Bool} {declarators : List Declarator}
    (emits : Declarator.Emits functions localCount writable scope start declarators code after)
    (fits : scope.Fits layers) : after.Fits layers := by
  induction emits with
  | nil => exact fits
  | cons _ _ _ _ _ ih => exact ih (fits.bind _ _)

/-- The first clause of a `for` loop changes the innermost block only. -/
theorem ForStart.Emits.fits {first : ForStart}
    (emits : first.Emits functions localCount scope start code after) (fits : scope.Fits layers) :
    after.Fits layers := by
  cases emits with
  | nothing => exact fits
  | declaration emits => exact emits.fits fits
  | expression => exact fits

/-- A statement changes the innermost block only. -/
theorem Statement.Emits.fits {targets : Option LoopTargets} {statement : Statement}
    (emits : statement.Emits functions localCount targets scope start code after)
    (fits : scope.Fits layers) : after.Fits layers := by
  cases emits with
  | declaration emits => exact emits.fits fits
  | _ => exact fits

end

/-! ## Expressions in statements -/

/-- An expression with code is evaluated for its effect by evaluating it: it is no wait. -/
theorem Expression.Emits.effect_eq {functions : FunctionTable} {scope : Scope} {start : Nat}
    {value : Expression String} {code : List Placed}
    (emits : value.Emits functions scope start code) (invoke : String → List Float → Meaning Float)
    (position : Position) : value.effect invoke position = discard (value.value invoke) := by
  unfold Expression.effect
  split
  case h_1 callee duration callPosition =>
    refine if_neg ?_
    cases emits with
    | drive two => cases two
    | call _ notWait => exact notWait
  case h_2 => rfl

section

variable {activation : Activation} {deep : Prop} {least : Nat}
  {invoke : String → List Float → Meaning Float} {functions : FunctionTable} {scope : Scope}
  {layers : List Layer} {start : Nat} {position : Position} {code : List Placed}
  {stack : List Float} {situation : Situation} {session : Session}
  (calls : activation.RealizesCalls deep least functions invoke) (fits : scope.Fits layers)
  (contains : activation.code.Contains start code)
  (stands : activation.Stands (scope.inner :: layers) start stack situation session)

include calls fits contains stands

/-- The code of an optional value pushes it, or zero. -/
theorem Expression.EmitsOrZero.realizes {value : Option (Expression String)}
    (emits : Expression.EmitsOrZero functions scope start position value code) :
    session.Realizes deep least (Expression.valueOr invoke 0 value) situation
      fun value after later => activation.Stands (scope.inner :: layers) (start + code.length)
        (value :: stack) after later := by
  cases emits with
  | zero =>
      obtain ⟨later, stepped, stands⟩ :=
        stands.next (start + 1) (0 :: stack) contains.1 fun _ => rfl
      exact .of_step stepped (.pure stands)
  | value emits => exact emits.realized calls fits.layered fits.numbered contains stands

/-- The code of an expression statement leaves nothing on the stack. -/
theorem Expression.EmitsEffect.realizes {value : Expression String}
    (emits : Expression.EmitsEffect functions scope start position value code) :
    session.Realizes deep least (value.effect invoke position) situation
      fun _ after later => activation.Stands (scope.inner :: layers) (start + code.length) stack
        after later := by
  cases emits with
  | wait emits =>
      rw [Code.contains_append, Code.contains_cons] at contains
      obtain ⟨durationHere, fetched, -⟩ := contains
      rw [List.length_append, List.length_singleton, ← Nat.add_assoc, Expression.effect, if_pos rfl]
      have realized := emits.realized calls fits.layered fits.numbered durationHere stands
      refine realized.bind fun duration after _ stands => ?_
      rw [Meaning.waitFor]
      split
      case isTrue finite =>
        exact stands.suspend fetched fun _ => Machine.Does.execute_eq (.wait rfl finite)
      case isFalse infinite =>
        exact .halted (stands.ends fetched (fun _ =>
          Machine.Refuses.execute_eq (.wait rfl infinite)) rfl) rfl
  | evaluate emits =>
      rw [Code.contains_append, Code.contains_cons] at contains
      obtain ⟨valueHere, fetched, -⟩ := contains
      rw [List.length_append, List.length_singleton, ← Nat.add_assoc, emits.effect_eq invoke]
      have realized := emits.realized calls fits.layered fits.numbered valueHere stands
      refine .discard (realized.and_then fun dropped after _ stands => ?_)
      obtain ⟨later, stepped, stands⟩ := stands.next _ stack fetched fun _ => rfl
      exact ⟨later, .single stepped, stands⟩

/-- The code of the condition of a loop goes on behind it, or leaves the loop. -/
theorem Expression.EmitsGuard.realizes {condition : Option (Expression String)} {leave : Nat}
    (emits : Expression.EmitsGuard functions scope start leave position condition code)
    {body : Meaning Signal} {goal : Signal → Situation → Session → Prop}
    (enters : ∀ after later,
      activation.Stands (scope.inner :: layers) (start + code.length) stack after later →
      later.Realizes deep least body after goal)
    (leaves : ∀ after later, activation.Stands (scope.inner :: layers) leave stack after later →
      goal .leaveLoop after later) :
    session.Realizes deep least
      (Meaning.whileTrue (Expression.valueOr invoke 1 condition) body) situation goal := by
  rw [Meaning.whileTrue]
  cases emits with
  | always =>
      -- a loop without a condition has no instruction for it: its meaning takes no step either
      have truth : Value.isTrue 1 = true := by decide
      have given : Expression.valueOr invoke 1 none situation = .ok (1, situation) := rfl
      refine .bind_of_ok given ?_
      rw [if_pos truth]
      exact enters _ _ stands
  | condition emits =>
      rw [Code.contains_append, Code.contains_cons] at contains
      obtain ⟨conditionHere, fetched, -⟩ := contains
      rw [List.length_append, List.length_singleton, ← Nat.add_assoc] at enters
      have realized := emits.realized calls fits.layered fits.numbered conditionHere stands
      refine realized.bind fun decision after _ stands => ?_
      obtain ⟨later, stepped, stands⟩ := stands.jumpIfFalse fetched
      refine .of_step stepped ?_
      cases truth : Value.isTrue decision with
      | true =>
          rw [truth, if_pos rfl] at stands
          rw [if_pos rfl]
          exact enters _ _ stands
      | false =>
          rw [truth, if_neg Bool.false_ne_true] at stands
          rw [if_neg Bool.false_ne_true]
          exact .pure (leaves _ _ stands)

/-- The code of the step of a loop leaves nothing on the stack. -/
theorem Expression.EmitsAdvance.realizes {step : Option (Expression String)}
    (emits : Expression.EmitsAdvance functions scope start position step code) :
    session.Realizes deep least (discard (Expression.valueOr invoke 0 step)) situation
      fun _ after later => activation.Stands (scope.inner :: layers) (start + code.length) stack
        after later := by
  cases emits with
  | nothing => exact .discard (.pure stands)
  | step emits =>
      rw [Code.contains_append, Code.contains_cons] at contains
      obtain ⟨stepHere, fetched, -⟩ := contains
      rw [List.length_append, List.length_singleton, ← Nat.add_assoc]
      have realized := emits.realized calls fits.layered fits.numbered stepHere stands
      refine .discard (realized.and_then fun dropped after _ stands => ?_)
      obtain ⟨later, stepped, stands⟩ := stands.next _ stack fetched fun _ => rfl
      exact ⟨later, .single stepped, stands⟩

/-- The code of declarations stores their values in new locals. -/
theorem Declarator.Emits.realizes {writable : Bool} {declarators : List Declarator} {after : Scope}
    (emits : Declarator.Emits functions activation.code.localCount writable scope start declarators
      code after) :
    session.Realizes deep least (Declarator.meanings invoke declarators) situation
      fun _ last later => activation.Stands (after.inner :: layers) (start + code.length) stack last
        later := by
  induction emits generalizing situation session with
  | nil => exact .pure stands
  | cons _ valueEmits _ room _ ih =>
      simp only [Code.contains_append, Code.contains_cons] at contains
      obtain ⟨valueHere, stored, popped, othersHere⟩ := contains
      rw [Declarator.meanings, List.length_append, List.length_cons, List.length_cons,
        Nat.add_comm _ 1, Nat.add_comm _ 1, ← Nat.add_assoc, ← Nat.add_assoc, ← Nat.add_assoc]
      refine (valueEmits.realizes calls fits valueHere stands).bind fun value after _ stands => ?_
      have free := fits.numbered.next_notMem_slotsOf fits.layered
      obtain ⟨blocks, later, declared, stepped, stands⟩ :=
        stands.declare _ writable free room stored
      refine .bind_of_ok (by rw [Meaning.declare, declared]) (.of_step stepped ?_)
      obtain ⟨later, stepped, stands⟩ := stands.next _ stack popped fun _ => rfl
      exact .of_step stepped (ih (fits.bind _ _) othersHere stands)

/-- The code of the first clause of a `for` loop realizes it. -/
theorem ForStart.Emits.realizes {first : ForStart} {after : Scope}
    (emits : first.Emits functions activation.code.localCount scope start code after) :
    session.Realizes deep least (first.meaning invoke) situation
      fun _ last later => activation.Stands (after.inner :: layers) (start + code.length) stack last
        later := by
  cases emits with
  | nothing => exact .pure stands
  | declaration emits => exact emits.realizes calls fits contains stands
  | expression emits => exact emits.realizes calls fits contains stands

end

/-! ## Where a call stands after a statement -/

namespace Activation

variable (activation : Activation) (targets : Option LoopTargets) (layers : List Layer)
  (counter : Nat) (stack : List Float)

/-- The call has come to a jump to one of the targets of the innermost loop. -/
def Jumps (target : LoopTargets → Nat) (situation : Situation) (session : Session) : Prop :=
  ∃ loop jump position, targets = some loop ∧
    activation.code.body[jump]? = some ⟨.jump (target loop), position⟩ ∧
      activation.Stands layers jump stack situation session

/-- The call has come to an instruction that gives back a value. -/
def GivesBack (value : Float) (world : World) (session : Session) : Prop :=
  ∃ counter position locals, activation.code.body[counter]? = some ⟨.giveBack, position⟩ ∧
    session = activation.session counter locals (value :: stack) world

/-- Where the call stands after a block: at an index, or before the jump or return that the block
ends with. -/
def FollowsBlock : Signal → Situation → Session → Prop
  | .next, situation, session => activation.Stands layers counter stack situation session
  | .leaveLoop, situation, session =>
      activation.Jumps targets layers stack LoopTargets.leave situation session
  | .nextRound, situation, session =>
      activation.Jumps targets layers stack LoopTargets.next situation session
  | .giveBack value, situation, session => activation.GivesBack stack value situation.world session

/-- Where the call stands after a statement in an open block: as after a block, but before a jump it
is open what the block has declared by then. -/
def FollowsStatement (layer : Layer) : Signal → Situation → Session → Prop
  | .next, situation, session => activation.Stands (layer :: layers) counter stack situation session
  | signal, situation, session => activation.FollowsBlock targets layers counter stack signal
      { situation with blocks := situation.blocks.tail } session

variable {activation targets layers counter stack} {layer : Layer} {signal : Signal}
  {situation : Situation} {session : Session}

/-- After the statements of a block comes what follows the block. -/
theorem FollowsStatement.closeBlock
    (follows : activation.FollowsStatement targets layers counter stack layer signal situation
      session) :
    activation.FollowsBlock targets layers counter stack signal
      { situation with blocks := situation.blocks.tail } session := by
  cases signal with
  | next => exact Stands.closeBlock follows
  | leaveLoop => exact follows
  | nextRound => exact follows
  | giveBack value => exact follows

/-- A block is a statement of the block around it. -/
theorem FollowsBlock.statement
    (follows : activation.FollowsBlock targets (layer :: layers) counter stack signal situation
      session) :
    activation.FollowsStatement targets layers counter stack layer signal situation session := by
  cases signal with
  | next => exact follows
  | leaveLoop =>
      obtain ⟨loop, jump, position, inside, fetched, stands⟩ := follows
      exact ⟨loop, jump, position, inside, fetched, stands.closeBlock⟩
  | nextRound =>
      obtain ⟨loop, jump, position, inside, fetched, stands⟩ := follows
      exact ⟨loop, jump, position, inside, fetched, stands.closeBlock⟩
  | giveBack value => exact follows

/-- A jump is a step. -/
theorem Jumps.step {target : LoopTargets → Nat} {loop : LoopTargets}
    (jumps : activation.Jumps (some loop) layers stack target situation session) :
    ∃ later, session.step = .ok later ∧
      activation.Stands layers (target loop) stack situation later := by
  obtain ⟨_, jump, position, same, fetched, stands⟩ := jumps
  cases same
  exact stands.jump fetched

/-- How the body of a loop ends a round, if control goes on with the next round behind it. -/
theorem FollowsBlock.endsRound {loop : LoopTargets} {again : Nat}
    {goal : Signal → Situation → Session → Prop}
    (follows : activation.FollowsBlock (some loop) layers counter stack signal situation session)
    (next : ∀ later, activation.Stands layers counter stack situation later →
      ∃ first, later.step = .ok first ∧ activation.Stands layers again stack situation first)
    (nextRound : loop.next = again)
    (leaves : ∀ later, activation.Stands layers loop.leave stack situation later →
      goal .next situation later)
    (returns : ∀ value later, activation.GivesBack stack value situation.world later →
      goal (.giveBack value) situation later) :
    Session.EndsRound (activation.Stands layers again stack) goal signal situation session := by
  cases signal with
  | next => exact next session follows
  | nextRound =>
      rw [← nextRound]
      exact Jumps.step follows
  | leaveLoop =>
      obtain ⟨later, stepped, stands⟩ := Jumps.step follows
      exact ⟨later, .single stepped, leaves later stands⟩
  | giveBack value => exact returns value session follows

end Activation

/-! ## Statements -/

namespace Statement

section

variable (activation : Activation) (deep : Prop) (least : Nat)
  (invoke : String → List Float → Meaning Float) (targets : Option LoopTargets) (scope : Scope)
  (start : Nat)

/-- Code realizes the meaning of a statement. -/
def Realized (statement : Statement) (code : List Placed) (after : Scope) : Prop :=
  ∀ {layers : List Layer} {stack : List Float} {situation : Situation} {session : Session},
    scope.Fits layers → activation.code.Contains start code →
    activation.Stands (scope.inner :: layers) start stack situation session →
    session.Realizes deep least (statement.meaning least invoke) situation
      (activation.FollowsStatement targets layers (start + code.length) stack after.inner)

/-- Code realizes the meaning of statements one after the other. -/
def AllRealized (statements : List Statement) (code : List Placed) (after : Scope) : Prop :=
  ∀ {layers : List Layer} {stack : List Float} {situation : Situation} {session : Session},
    scope.Fits layers → activation.code.Contains start code →
    activation.Stands (scope.inner :: layers) start stack situation session →
    session.Realizes deep least (meanings least invoke statements) situation
      (activation.FollowsStatement targets layers (start + code.length) stack after.inner)

end

variable {activation : Activation} {deep : Prop} {least : Nat}
  {invoke : String → List Float → Meaning Float} {functions : FunctionTable}
  {targets : Option LoopTargets} {scope after : Scope} {start : Nat} {position : Position}

/-- Statements in a block of their own. -/
theorem AllRealized.inBlock {body : List Statement} {code : List Placed} {layers : List Layer}
    {stack : List Float} {situation : Situation} {session : Session}
    (body_realized : AllRealized activation deep least invoke targets scope.opened start body code
      after) (fits : scope.Fits layers) (contains : activation.code.Contains start code)
    (stands : activation.Stands (scope.inner :: layers) start stack situation session) :
    session.Realizes deep least (Meaning.inBlock (meanings least invoke body)) situation
      (activation.FollowsBlock targets (scope.inner :: layers) (start + code.length) stack) := by
  refine .inBlock ?_
  refine (body_realized fits.opened contains stands.openBlock).and_then
    fun signal _ later follows => ?_
  exact ⟨later, .refl later, follows.closeBlock⟩

/-- Nothing is left to do. -/
theorem allRealized_nil :
    AllRealized activation deep least invoke targets scope start [] [] scope := by
  intro layers stack situation session _ _ stands
  rw [meanings]
  exact .pure stands

/-- The other statements follow if control goes on. -/
theorem allRealized_cons {first : Statement} {others : List Statement}
    {firstCode otherCode : List Placed} {middle : Scope}
    (firstEmits : first.Emits functions activation.code.localCount targets scope start firstCode
      middle)
    (firstRealized : Realized activation deep least invoke targets scope start first firstCode
      middle)
    (othersRealized : AllRealized activation deep least invoke targets middle
      (start + firstCode.length) others otherCode after) :
    AllRealized activation deep least invoke targets scope start (first :: others)
      (firstCode ++ otherCode) after := by
  intro layers stack situation session fits contains stands
  rw [Code.contains_append] at contains
  rw [meanings, List.length_append, ← Nat.add_assoc]
  refine (firstRealized fits contains.1 stands).bind fun signal last later follows => ?_
  cases signal with
  | next => exact othersRealized (firstEmits.fits fits) contains.2 follows
  | leaveLoop => exact .pure follows
  | nextRound => exact .pure follows
  | giveBack value => exact .pure follows

section

variable (calls : activation.RealizesCalls deep least functions invoke)

include calls

/-- Declarations. -/
theorem realized_declaration {type : DeclaredType} {declarators : List Declarator}
    {code : List Placed}
    (emits : Declarator.Emits functions activation.code.localCount (!type.constant) scope start
      declarators code after) :
    Realized activation deep least invoke targets scope start
      (.declaration type declarators position) code after := by
  intro layers stack situation session fits contains stands
  rw [meaning]
  exact (emits.realizes calls fits contains stands).bind fun _ _ _ stands => .pure stands

/-- An expression statement. -/
theorem realized_expression {value : Expression String} {code : List Placed}
    (emits : Expression.EmitsEffect functions scope start position value code) :
    Realized activation deep least invoke targets scope start (.expression value position) code
      scope := by
  intro layers stack situation session fits contains stands
  rw [meaning]
  exact (emits.realizes calls fits contains stands).bind fun _ _ _ stands => .pure stands

/-- A condition with one branch. -/
theorem realized_branch {condition : Expression String} {whenTrue : List Statement}
    {conditionCode trueCode : List Placed}
    (conditionEmits : condition.Emits functions scope start conditionCode)
    (trueRealized : AllRealized activation deep least invoke targets scope.opened
      (start + conditionCode.length + 1) whenTrue trueCode after) :
    Realized activation deep least invoke targets scope start
      (.branch condition whenTrue none position)
      (conditionCode ++
        ⟨.jumpIfFalse (start + conditionCode.length + 1 + trueCode.length), position⟩ ::
        trueCode) scope := by
  intro layers stack situation session fits contains stands
  rw [Code.contains_append, Code.contains_cons] at contains
  obtain ⟨conditionHere, fetched, trueHere⟩ := contains
  have ends : start + (conditionCode.length + (trueCode.length + 1)) =
      start + conditionCode.length + 1 + trueCode.length := by omega
  rw [List.length_append, List.length_cons, ends, meaning]
  have realized := conditionEmits.realized calls fits.layered fits.numbered conditionHere stands
  refine realized.bind fun decision _ _ stands => ?_
  obtain ⟨later, stepped, stands⟩ := stands.jumpIfFalse fetched
  refine .of_step stepped ?_
  cases truth : Value.isTrue decision with
  | true =>
      rw [truth, if_pos rfl] at stands
      rw [if_pos rfl]
      refine (trueRealized.inBlock fits trueHere stands).and_then fun _ _ later follows => ?_
      exact ⟨later, .refl later, follows.statement⟩
  | false =>
      rw [truth, if_neg Bool.false_ne_true] at stands
      rw [if_neg Bool.false_ne_true, otherwise]
      exact .pure stands

/-- A condition with two branches. -/
theorem realized_branches {condition : Expression String} {whenTrue whenFalse : List Statement}
    {conditionCode trueCode falseCode : List Placed} {afterFalse : Scope}
    (conditionEmits : condition.Emits functions scope start conditionCode)
    (trueRealized : AllRealized activation deep least invoke targets scope.opened
      (start + conditionCode.length + 1) whenTrue trueCode after)
    (falseRealized : AllRealized activation deep least invoke targets scope.opened
      (start + conditionCode.length + 1 + trueCode.length + 1) whenFalse falseCode afterFalse) :
    Realized activation deep least invoke targets scope start
      (.branch condition whenTrue (some whenFalse) position)
      (conditionCode ++
        ⟨.jumpIfFalse (start + conditionCode.length + 1 + trueCode.length + 1), position⟩ ::
        trueCode ++
        ⟨.jump (start + conditionCode.length + 1 + trueCode.length + 1 + falseCode.length),
          position⟩ :: falseCode) scope := by
  intro layers stack situation session fits contains stands
  simp only [Code.contains_append, Code.contains_cons, List.length_append, List.length_cons,
    ← Nat.add_assoc] at contains
  obtain ⟨⟨conditionHere, fetched, trueHere⟩, skip, falseHere⟩ := contains
  rw [Nat.add_right_comm (start + conditionCode.length)] at skip falseHere
  have ends : start + (conditionCode.length + (trueCode.length + 1) + (falseCode.length + 1)) =
      start + conditionCode.length + 1 + trueCode.length + 1 + falseCode.length := by omega
  simp only [List.length_append, List.length_cons, ends]
  rw [meaning]
  have realized := conditionEmits.realized calls fits.layered fits.numbered conditionHere stands
  refine realized.bind fun decision _ _ stands => ?_
  obtain ⟨later, stepped, stands⟩ := stands.jumpIfFalse fetched
  refine .of_step stepped ?_
  cases truth : Value.isTrue decision with
  | true =>
      rw [truth, if_pos rfl] at stands
      rw [if_pos rfl]
      refine (trueRealized.inBlock fits trueHere stands).and_then fun signal _ later follows => ?_
      -- only a branch that comes to its end jumps over the other one
      cases signal with
      | next =>
          obtain ⟨last, stepped, stands⟩ := Activation.Stands.jump follows skip
          exact ⟨last, .single stepped, stands⟩
      | leaveLoop => exact ⟨later, .refl later, follows.statement⟩
      | nextRound => exact ⟨later, .refl later, follows.statement⟩
      | giveBack value => exact ⟨later, .refl later, follows.statement⟩
  | false =>
      rw [truth, if_neg Bool.false_ne_true] at stands
      rw [if_neg Bool.false_ne_true, otherwise]
      refine (falseRealized.inBlock fits falseHere stands).and_then fun _ _ later follows => ?_
      exact ⟨later, .refl later, follows.statement⟩

omit calls in
/-- A loop without a condition. -/
theorem realized_forever {condition : Expression String} {body : List Statement}
    {bodyCode : List Placed} (truth : Step.isTruth condition = true)
    (bodyRealized : AllRealized activation deep least invoke
      (some ⟨start + bodyCode.length + 2, start⟩) scope.opened (start + 1) body bodyCode after) :
    Realized activation deep least invoke targets scope start (.whileLoop condition body position)
      (⟨.tick, position⟩ :: bodyCode ++ [⟨.jump start, position⟩]) scope := by
  intro layers stack situation session fits contains stands
  simp only [Code.contains_append, Code.contains_cons, List.length_cons] at contains
  obtain ⟨⟨suspended, bodyHere⟩, again, -⟩ := contains
  have ends : start + (bodyCode.length + 1 + (0 + 1)) = start + bodyCode.length + 2 := by omega
  simp only [List.length_append, List.length_cons, List.length_nil, ends]
  rw [meaning, if_pos truth]
  refine .rounds (fun situation session stands => ?_) stands
  -- each round gives control back first; the next round begins with the tick again
  refine (stands.suspend suspended fun _ => rfl).bind fun _ _ _ stands => ?_
  refine (bodyRealized.inBlock fits bodyHere stands).and_then fun _ _ later follows => ?_
  refine ⟨later, .refl later, follows.endsRound (fun last stands => ?_) rfl
    (fun last stands => stands) fun value last gives => gives⟩
  rw [Nat.add_assoc, Nat.add_comm 1] at stands
  exact stands.jump again

/-- A loop that checks its condition first. -/
theorem realized_whileLoop {condition : Expression String} {body : List Statement}
    {conditionCode bodyCode : List Placed} (truth : Step.isTruth condition = false)
    (conditionEmits : condition.Emits functions scope start conditionCode)
    (bodyRealized : AllRealized activation deep least invoke
      (some ⟨start + conditionCode.length + 1 + bodyCode.length + 1, start⟩) scope.opened
      (start + conditionCode.length + 1) body bodyCode after) :
    Realized activation deep least invoke targets scope start (.whileLoop condition body position)
      (conditionCode ++
        ⟨.jumpIfFalse (start + conditionCode.length + 1 + bodyCode.length + 1), position⟩ ::
        bodyCode ++ [⟨.jump start, position⟩]) scope := by
  intro layers stack situation session fits contains stands
  simp only [Code.contains_append, Code.contains_cons, List.length_append, List.length_cons,
    ← Nat.add_assoc] at contains
  obtain ⟨⟨conditionHere, leaves, bodyHere⟩, again, -⟩ := contains
  -- the condition and its jump are the guard, as in a `for` loop
  have guardHere : activation.code.Contains start (conditionCode ++
      [⟨.jumpIfFalse (start + conditionCode.length + 1 + bodyCode.length + 1), position⟩]) := by
    rw [Code.contains_append]
    exact ⟨conditionHere, leaves, trivial⟩
  have ends : start + (conditionCode.length + (bodyCode.length + 1) + (0 + 1)) =
      start + conditionCode.length + 1 + bodyCode.length + 1 := by omega
  simp only [List.length_append, List.length_cons, List.length_nil, ends]
  rw [meaning, if_neg (by rw [truth]; exact Bool.false_ne_true)]
  refine .rounds (fun situation session stands => ?_) stands
  refine Expression.EmitsGuard.realizes calls fits guardHere stands (.condition conditionEmits)
    (fun entered later stands => ?_) fun left later stands => ⟨later, .refl later, stands⟩
  rw [List.length_append, List.length_singleton, ← Nat.add_assoc] at stands
  refine (bodyRealized.inBlock fits bodyHere stands).and_then fun _ _ later follows => ?_
  refine ⟨later, .refl later, follows.endsRound (fun last stands => ?_) rfl
    (fun last stands => stands) fun value last gives => gives⟩
  rw [Nat.add_right_comm] at again
  exact stands.jump again

/-- A loop that runs its body first. -/
theorem realized_doLoop {condition : Expression String} {body : List Statement}
    {bodyCode conditionCode : List Placed}
    (bodyRealized : AllRealized activation deep least invoke
      (some ⟨start + bodyCode.length + conditionCode.length + 1, start + bodyCode.length⟩)
      scope.opened start body bodyCode after)
    (conditionEmits : condition.Emits functions scope (start + bodyCode.length) conditionCode) :
    Realized activation deep least invoke targets scope start (.doLoop body condition position)
      (bodyCode ++ conditionCode ++ [⟨.jumpIfTrue start, position⟩]) scope := by
  intro layers stack situation session fits contains stands
  simp only [Code.contains_append, Code.contains_cons, List.length_append,
    ← Nat.add_assoc] at contains
  obtain ⟨⟨bodyHere, conditionHere⟩, again, -⟩ := contains
  simp only [List.length_append, List.length_singleton, ← Nat.add_assoc]
  rw [meaning]
  refine .rounds (fun situation session stands => ?_) stands
  rw [Meaning.afterBody]
  refine (bodyRealized.inBlock fits bodyHere stands).bind fun signal after later follows => ?_
  -- the condition is checked after the body, and where a jump to the next round leads
  have checks {later : Session} (stands : activation.Stands (scope.inner :: layers)
      (start + bodyCode.length) stack after later) :
      later.Realizes deep least (Meaning.whileTrue (condition.value invoke) (pure .next)) after
        (Session.EndsRound (activation.Stands (scope.inner :: layers) start stack)
          (activation.FollowsStatement targets layers
            (start + bodyCode.length + conditionCode.length + 1) stack scope.inner)) := by
    have realized := conditionEmits.realized calls fits.layered fits.numbered conditionHere stands
    refine realized.bind fun decision last later stands => ?_
    obtain ⟨next, stepped, stands⟩ := stands.jumpIfTrue again
    cases truth : Value.isTrue decision with
    | true =>
        rw [truth, if_pos rfl] at stands
        rw [if_pos rfl]
        exact .pure ⟨next, stepped, stands⟩
    | false =>
        rw [truth, if_neg Bool.false_ne_true] at stands
        rw [if_neg Bool.false_ne_true]
        exact .pure ⟨next, .single stepped, stands⟩
  cases signal with
  | next => exact checks follows
  | nextRound =>
      obtain ⟨next, stepped, stands⟩ := Activation.Jumps.step follows
      exact .of_step stepped (checks stands)
  | leaveLoop =>
      obtain ⟨next, stepped, stands⟩ := Activation.Jumps.step follows
      exact .pure ⟨next, .single stepped, stands⟩
  | giveBack value => exact .pure follows

/-- A loop with a first clause and a step. -/
theorem realized_forLoop {first : ForStart} {condition step : Option (Expression String)}
    {body : List Statement} {firstCode guardCode bodyCode stepCode : List Placed} {inside : Scope}
    (firstEmits : first.Emits functions activation.code.localCount scope.opened start firstCode
      inside)
    (guardEmits : Expression.EmitsGuard functions inside (start + firstCode.length)
      (start + firstCode.length + guardCode.length + bodyCode.length + stepCode.length + 1) position
      condition guardCode)
    (bodyRealized : AllRealized activation deep least invoke
      (some ⟨start + firstCode.length + guardCode.length + bodyCode.length + stepCode.length + 1,
        start + firstCode.length + guardCode.length + bodyCode.length⟩)
      inside.opened (start + firstCode.length + guardCode.length) body bodyCode after)
    (stepEmits : Expression.EmitsAdvance functions inside
      (start + firstCode.length + guardCode.length + bodyCode.length) position step stepCode) :
    Realized activation deep least invoke targets scope start
      (.forLoop first condition step body position)
      (firstCode ++ guardCode ++ bodyCode ++ stepCode ++
        [⟨.jump (start + firstCode.length), position⟩]) scope := by
  intro layers stack situation session fits contains stands
  simp only [Code.contains_append, Code.contains_cons, List.length_append,
    ← Nat.add_assoc] at contains
  obtain ⟨⟨⟨⟨firstHere, guardHere⟩, bodyHere⟩, stepHere⟩, again, -⟩ := contains
  simp only [List.length_append, List.length_singleton, ← Nat.add_assoc]
  have insideFits := firstEmits.fits fits.opened
  rw [meaning]
  refine .inBlock ?_
  refine (firstEmits.realizes calls fits.opened firstHere stands.openBlock).bind
    fun _ started middle stands => ?_
  suffices loops : middle.Realizes deep least _ started
      (activation.FollowsStatement targets (scope.inner :: layers)
        (start + firstCode.length + guardCode.length + bodyCode.length + stepCode.length + 1) stack
        inside.inner) from
    loops.and_then fun _ _ later follows => ⟨later, .refl later, follows.closeBlock.statement⟩
  refine .rounds (fun situation session stands => ?_) stands
  refine guardEmits.realizes calls insideFits guardHere stands
    (fun entered later stands => ?_) fun left later stands => ⟨later, .refl later, stands⟩
  rw [Meaning.afterBody]
  refine (bodyRealized.inBlock insideFits bodyHere stands).bind fun signal after later follows => ?_
  -- the step follows the body, and is where a jump to the next round leads
  have advances {later : Session}
      (stands : activation.Stands (inside.inner :: scope.inner :: layers)
      (start + firstCode.length + guardCode.length + bodyCode.length) stack after later) :
      later.Realizes deep least
        (do
          discard (Expression.valueOr invoke 0 step)
          pure Signal.next) after
        (Session.EndsRound
          (activation.Stands (inside.inner :: scope.inner :: layers)
            (start + firstCode.length) stack)
          (activation.FollowsStatement targets (scope.inner :: layers)
            (start + firstCode.length + guardCode.length + bodyCode.length + stepCode.length + 1)
            stack inside.inner)) := by
    have realized := stepEmits.realizes calls insideFits stepHere stands
    exact realized.bind fun _ _ later stands => .pure (stands.jump again)
  cases signal with
  | next => exact advances follows
  | nextRound =>
      obtain ⟨next, stepped, stands⟩ := Activation.Jumps.step follows
      exact .of_step stepped (advances stands)
  | leaveLoop =>
      obtain ⟨next, stepped, stands⟩ := Activation.Jumps.step follows
      exact .pure ⟨next, .single stepped, stands⟩
  | giveBack value => exact .pure follows

/-- A value, or zero, is given back. -/
theorem realized_giveBack {value : Option (Expression String)} {code : List Placed}
    (emits : Expression.EmitsOrZero functions scope start position value code) :
    Realized activation deep least invoke targets scope start (.giveBack value position)
      (code ++ [⟨.giveBack, position⟩]) scope := by
  intro layers stack situation session fits contains stands
  rw [Code.contains_append, Code.contains_cons] at contains
  obtain ⟨valueHere, fetched, -⟩ := contains
  rw [meaning]
  refine (emits.realizes calls fits valueHere stands).bind fun given _ _ stands => .pure ?_
  obtain ⟨locals, -, -, rfl⟩ := stands
  exact ⟨_, position, locals, fetched, rfl⟩

end

/-- A block. -/
theorem realized_block {body : List Statement} {code : List Placed}
    (bodyRealized : AllRealized activation deep least invoke targets scope.opened start body code
      after) :
    Realized activation deep least invoke targets scope start (.block body position)
      code scope := by
  intro layers stack situation session fits contains stands
  rw [meaning]
  refine (bodyRealized.inBlock fits contains stands).and_then fun _ _ later follows => ?_
  exact ⟨later, .refl later, follows.statement⟩

/-- The innermost loop is left. -/
theorem realized_leaveLoop {loop : LoopTargets} :
    Realized activation deep least invoke (some loop) scope start (.leaveLoop position)
      [⟨.jump loop.leave, position⟩] scope := by
  intro layers stack situation session _ contains stands
  rw [meaning]
  exact .pure ⟨loop, start, position, rfl, contains.1, stands.closeBlock⟩

/-- The innermost loop goes on with its next round. -/
theorem realized_nextRound {loop : LoopTargets} :
    Realized activation deep least invoke (some loop) scope start (.nextRound position)
      [⟨.jump loop.next, position⟩] scope := by
  intro layers stack situation session _ contains stands
  rw [meaning]
  exact .pure ⟨loop, start, position, rfl, contains.1, stands.closeBlock⟩

/-- **The code of statements realizes their meaning.** -/
theorem EmitsAll.realized (calls : activation.RealizesCalls deep least functions invoke)
    {statements : List Statement} {code : List Placed}
    (emits : EmitsAll functions activation.code.localCount targets scope start statements code
      after) :
    AllRealized activation deep least invoke targets scope start statements code after := by
  -- by induction on the rules, for single statements and for lists of them at once
  refine @EmitsAll.rec functions activation.code.localCount
    (fun targets scope start statement code after _ =>
      Realized activation deep least invoke targets scope start statement code after)
    (fun targets scope start statements code after _ =>
      AllRealized activation deep least invoke targets scope start statements code after)
    ?declaration ?expression ?branch ?branches ?forever ?whileLoop ?doLoop ?forLoop
      ?block ?leaveLoop
    ?nextRound ?giveBack ?nil ?cons targets scope start statements code after emits
  case declaration => exact fun emits => realized_declaration calls emits
  case expression => exact fun emits => realized_expression calls emits
  case branch => exact fun condition _ whenTrue => realized_branch calls condition whenTrue
  case branches =>
    exact fun condition _ _ whenTrue whenFalse =>
      realized_branches calls condition whenTrue whenFalse
  case forever => exact fun truth _ body => realized_forever truth body
  case whileLoop =>
    exact fun truth condition _ body =>
      realized_whileLoop calls truth condition body
  case doLoop => exact fun _ condition body => realized_doLoop calls body condition
  case forLoop => exact fun first guard _ step body => realized_forLoop calls first guard body step
  case block => exact fun _ body => realized_block body
  case leaveLoop => exact realized_leaveLoop
  case nextRound => exact realized_nextRound
  case giveBack => exact fun emits => realized_giveBack calls emits
  case nil => exact allRealized_nil
  case cons => exact fun emits _ first others => allRealized_cons emits first others

end Statement

end LineRobot
