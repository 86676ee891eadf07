import LineRobot.Proofs.Code.Emission
import LineRobot.Proofs.Execution.Activation

/-! # The code of expressions realizes their values

`Expression.Emits.realized`: where the code of an expression stands in a function, a call that has
come to its first instruction does what the value of the expression means, and leaves the value on
top of the operands. There is one lemma for each form of expression. -/

namespace LineRobot

/-- Calls of subroutines from an activation do what the given meaning of calls says. -/
def Activation.RealizesCalls (activation : Activation) (deep : Prop) (least : Nat)
    (functions : FunctionTable) (invoke : String → List Float → Meaning Float) : Prop :=
  ∀ {name : String} {signature : Signature} {arguments : List Float} {layers : List Layer}
    {counter : Nat} {position : Position} {stack : List Float} {situation : Situation}
    {session : Session},
    functions.lookup name = some signature → arguments.length = signature.arity →
    activation.code.body[counter]? = some ⟨.call signature.index arguments.length, position⟩ →
    activation.Stands layers counter (arguments.reverse ++ stack) situation session →
    session.Realizes deep least (invoke name arguments) situation fun value after later =>
      activation.Stands layers (counter + 1) (value :: stack) after later

namespace Expression

section

variable (activation : Activation) (deep : Prop) (least : Nat)
  (invoke : String → List Float → Meaning Float) (layers : List Layer)

/-- Code realizes the value of an expression: it pushes it. -/
def Realized (start : Nat) (expression : Expression String) (code : List Placed) : Prop :=
  ∀ {stack : List Float} {situation : Situation} {session : Session},
    activation.code.Contains start code → activation.Stands layers start stack situation session →
    session.Realizes deep least (expression.value invoke) situation fun value after later =>
      activation.Stands layers (start + code.length) (value :: stack) after later

/-- Code realizes the values of expressions: it pushes them one after the other. -/
def AllRealized (start : Nat) (expressions : List (Expression String))
    (code : List Placed) : Prop :=
  ∀ {stack : List Float} {situation : Situation} {session : Session},
    activation.code.Contains start code → activation.Stands layers start stack situation session →
    session.Realizes deep least (values invoke expressions) situation fun found after later =>
      found.length = expressions.length ∧
        activation.Stands layers (start + code.length) (found.reverse ++ stack) after later

end

variable {activation : Activation} {deep : Prop} {least : Nat}
  {invoke : String → List Float → Meaning Float} {layers : List Layer} {start : Nat}
  {position : Position}

/-- A number is pushed. -/
theorem realized_number (literal : Float) :
    Realized activation deep least invoke layers start (.number literal position)
      [⟨.push literal, position⟩] := by
  intro stack situation session contains stands
  rw [value]
  obtain ⟨later, stepped, stands⟩ :=
    stands.next (start + 1) (literal :: stack) contains.1 fun _ => rfl
  exact .of_step stepped (.pure stands)

/-- The instruction of a name pushes its value. -/
theorem realized_name {scope : Scope} {text : String} {instruction : Instruction}
    (layered : layers.flatten = scope.inner ++ scope.outer)
    (meant : Formula.nameInstruction scope text = .ok instruction) :
    Realized activation deep least invoke layers start (.name text position)
      [⟨instruction, position⟩] := by
  intro stack situation session contains stands
  have fetched := contains.1
  unfold Formula.nameInstruction at meant
  rw [Scope.lookup?, ← layered] at meant
  rw [value]
  cases declared : layers.flatten.lookup text with
  | some found =>
      rw [declared] at meant
      cases meant
      obtain ⟨value, later, known, stepped, stands⟩ := stands.load declared fetched
      exact .of_ok (by rw [Meaning.readName, known]) (.single stepped) stands
  | none =>
      rw [declared] at meant
      -- a name that means no local means no variable, so both sides go on to the constants
      have unknown : Block.lookup? situation.blocks text = none := by
        obtain ⟨locals, -, agrees, -⟩ := stands
        exact agrees.lookup?_eq_none declared
      cases isConstant : Constant.ofSpelling? text with
      | some constant =>
          rw [isConstant] at meant
          cases meant
          obtain ⟨later, stepped, stands⟩ := stands.next (start + 1)
            (situation.world.memory.constant constant :: stack) fetched fun _ => rfl
          exact .of_ok (by rw [Meaning.readName, unknown, isConstant]) (.single stepped) stands
      | none =>
          rw [isConstant] at meant
          dsimp only at meant
          split at meant
          case h_1 => cases meant
          case h_2 =>
            cases isSlot : Vocabulary.slot? text with
            | none =>
                rw [isSlot] at meant
                cases meant
            | some slot =>
                rw [isSlot] at meant
                cases meant
                obtain ⟨later, stepped, stands⟩ := stands.next (start + 1)
                  (Float.ofNat slot :: stack) fetched fun _ => rfl
                refine .of_ok ?_ (.single stepped) stands
                rw [Meaning.readName, unknown, isConstant, isSlot]
                rfl

/-- An operator combines the two values on top. -/
theorem realized_binary {operator : Operator} {left right : Expression String}
    {leftCode rightCode : List Placed}
    (leftRealized : Realized activation deep least invoke layers start left leftCode)
    (rightRealized : Realized activation deep least invoke layers (start + leftCode.length) right
      rightCode) :
    Realized activation deep least invoke layers start (.binary operator left right position)
      (leftCode ++ rightCode ++ [⟨.binary operator, position⟩]) := by
  intro stack situation session contains stands
  simp only [Code.contains_append, Code.contains_cons, List.length_append,
    ← Nat.add_assoc] at contains
  obtain ⟨⟨leftHere, rightHere⟩, fetched, -⟩ := contains
  simp only [List.length_append, List.length_singleton, ← Nat.add_assoc]
  rw [value]
  refine (leftRealized leftHere stands).bind fun leftValue _ _ stands => ?_
  refine (rightRealized rightHere stands).bind fun rightValue after later stands => ?_
  rw [← bind_pure (Meaning.operate operator leftValue rightValue position)]
  refine .operate (fun missing => ?_) fun result applied => ?_
  · exact stands.ends fetched (fun _ => Machine.Refuses.execute_eq (.binary rfl missing)) rfl
  · obtain ⟨last, stepped, stands⟩ := stands.next _ (result :: stack) fetched fun _ =>
      Machine.Does.execute_eq (.binary rfl applied)
    exact .of_step stepped (.pure stands)

/-- An operator changes the value on top. -/
theorem realized_unary {operator : UnaryOperator} {operand : Expression String}
    {operandCode : List Placed}
    (operandRealized : Realized activation deep least invoke layers start operand operandCode) :
    Realized activation deep least invoke layers start (.unary operator operand position)
      (operandCode ++ [⟨.unary operator, position⟩]) := by
  intro stack situation session contains stands
  rw [Code.contains_append, Code.contains_cons] at contains
  obtain ⟨operandHere, fetched, -⟩ := contains
  rw [List.length_append, List.length_singleton, ← Nat.add_assoc, value]
  refine (operandRealized operandHere stands).bind fun operandValue _ _ stands => ?_
  obtain ⟨later, stepped, stands⟩ := stands.next _ (operator.apply operandValue :: stack) fetched
    fun _ => rfl
  exact .of_step stepped (.pure stands)

/-- The value of a connective that its operand decides. -/
theorem ofBool_of_isDecidedBy {connective : Connective} {operand : Float}
    (decides : connective.isDecidedBy operand = true) :
    Value.ofBool (Value.isTrue operand) = Formula.decidedValue connective := by
  cases connective <;> simp_all [Connective.isDecidedBy, Value.ofBool, Formula.decidedValue]

/-- The value of a connective whose last operand does not decide it. -/
theorem ofBool_of_not_isDecidedBy {connective : Connective} {operand : Float}
    (undecided : connective.isDecidedBy operand = false) :
    Value.ofBool (Value.isTrue operand) = Formula.undecidedValue connective := by
  cases connective <;> simp_all [Connective.isDecidedBy, Value.ofBool, Formula.undecidedValue]

/-- A connective pushes the value that an operand decides, or the other one. -/
theorem realized_logical {connective : Connective} {left right : Expression String}
    {leftCode rightCode : List Placed}
    (leftRealized : Realized activation deep least invoke layers start left leftCode)
    (rightRealized : Realized activation deep least invoke layers
      (start + leftCode.length + 1) right
      rightCode) :
    Realized activation deep least invoke layers start (.logical connective left right position)
      (leftCode ++
        ⟨Formula.decidingJump connective (start + leftCode.length + rightCode.length + 4),
          position⟩ :: rightCode ++
        [⟨Formula.decidingJump connective (start + leftCode.length + rightCode.length + 4),
            position⟩,
          ⟨.push (Formula.undecidedValue connective), position⟩,
          ⟨.jump (start + leftCode.length + rightCode.length + 4 + 1), position⟩,
          ⟨.push (Formula.decidedValue connective), position⟩]) := by
  intro stack situation session contains stands
  simp only [Code.contains_append, Code.contains_cons, List.length_append, List.length_cons,
    ← Nat.add_assoc] at contains
  obtain ⟨⟨leftHere, firstJump, rightHere⟩, secondJump, undecidedPush, skip, decidedPush, -⟩ :=
    contains
  have ends : start + (leftCode.length + (rightCode.length + 1) + (0 + 1 + 1 + 1 + 1)) =
      start + leftCode.length + rightCode.length + 4 + 1 := by omega
  simp only [List.length_append, List.length_cons, List.length_nil, ends]
  -- an operand that decides the value leads to the last instruction, which pushes it
  have decided {operand : Float} {after : Situation} {later : Session}
      (decides : connective.isDecidedBy operand = true)
      (stands : activation.Stands layers (start + leftCode.length + rightCode.length + 4)
        stack after
        later) :
      later.Realizes deep least (pure (Value.ofBool (Value.isTrue operand))) after
        fun value after later => activation.Stands layers
          (start + leftCode.length + rightCode.length + 4 + 1) (value :: stack) after later := by
    obtain ⟨last, stepped, stands⟩ := stands.next _ (Formula.decidedValue connective :: stack)
      decidedPush fun _ => rfl
    rw [ofBool_of_isDecidedBy decides]
    exact .of_step stepped (.pure stands)
  rw [value]
  refine (leftRealized leftHere stands).bind fun leftValue after _ stands => ?_
  obtain ⟨later, stepped, stands⟩ := stands.decidingJump firstJump
  refine .of_step stepped ?_
  cases decides : connective.isDecidedBy leftValue with
  | true =>
      rw [decides, if_pos rfl] at stands
      rw [if_pos rfl]
      exact decided decides stands
  | false =>
      rw [decides, if_neg Bool.false_ne_true] at stands
      rw [if_neg Bool.false_ne_true]
      refine (rightRealized rightHere stands).bind fun rightValue after _ stands => ?_
      rw [Nat.add_right_comm] at stands
      obtain ⟨later, stepped, stands⟩ := stands.decidingJump secondJump
      refine .of_step stepped ?_
      cases decides : connective.isDecidedBy rightValue with
      | true =>
          rw [decides, if_pos rfl] at stands
          exact decided decides stands
      | false =>
          rw [decides, if_neg Bool.false_ne_true] at stands
          obtain ⟨later, stepped, stands⟩ := stands.next _
            (Formula.undecidedValue connective :: stack) undecidedPush fun _ => rfl
          refine .of_step stepped ?_
          obtain ⟨later, stepped, stands⟩ := stands.jump skip
          rw [ofBool_of_not_isDecidedBy decides]
          exact .of_step stepped (.pure stands)

/-- A local goes up or down by one. -/
theorem realized_changeLocal {scope : Scope} {direction : Direction} {moment : Moment}
    {text : String} {namePosition : Position} {slot : Nat}
    (layered : layers.flatten = scope.inner ++ scope.outer) (numbered : scope.Numbered)
    (declared : scope.lookup? text = some ⟨slot, true⟩) :
    Realized activation deep least invoke layers start
      (.change direction moment (.name text namePosition) position)
      [⟨.change (.localSlot slot) direction moment, position⟩] := by
  intro stack situation session contains stands
  rw [Scope.lookup?, ← layered] at declared
  obtain ⟨old, blocks, later, known, assigned, stepped, stands⟩ :=
    stands.changeLocal declared (numbered.nodup_slotsOf layered) contains.1
  rw [value]
  exact .readLocal known (.writeLocal assigned (.of_step stepped (.pure stands)))

/-- A variable slot goes up or down by one. -/
theorem realized_changeSlot {direction : Direction} {moment : Moment}
    {array subscript : Expression String} {place : Position} {subscriptCode : List Placed}
    (named : array.bank? = some .slots)
    (subscriptRealized : Realized activation deep least invoke layers start subscript
      subscriptCode) :
    Realized activation deep least invoke layers start
      (.change direction moment (.index array subscript place) position)
      (subscriptCode ++ [⟨.change .slot direction moment, position⟩]) := by
  intro stack situation session contains stands
  rw [Code.contains_append, Code.contains_cons] at contains
  obtain ⟨subscriptHere, fetched, -⟩ := contains
  rw [List.length_append, List.length_singleton, ← Nat.add_assoc, value]
  refine .needSlots named ?_
  refine (subscriptRealized subscriptHere stands).bind fun index after _ stands => ?_
  refine .element (fun missing => ?_) fun slot found => ?_
  · exact stands.ends fetched (fun _ => Machine.Refuses.execute_eq (.changeSlot rfl missing)) rfl
  · refine .bind_of_ok rfl (.bind_of_ok rfl ?_)
    obtain ⟨later, stepped, stands⟩ := stands.next_memory _
      (moment.choose (after.world.memory.element .slots slot)
        (direction.apply (after.world.memory.element .slots slot)) :: stack)
      (after.world.memory.setSlot slot (direction.apply (after.world.memory.element .slots slot)))
      fetched fun _ => Machine.Does.execute_eq (.changeSlot rfl found)
    exact .of_step stepped (.pure stands)

/-- An array element is fetched. -/
theorem realized_index {array subscript : Expression String} {bank : Bank}
    {subscriptCode : List Placed} (named : array.bank? = some bank)
    (subscriptRealized : Realized activation deep least invoke layers start subscript
      subscriptCode) :
    Realized activation deep least invoke layers start (.index array subscript position)
      (subscriptCode ++ [⟨.fetch bank, position⟩]) := by
  intro stack situation session contains stands
  rw [Code.contains_append, Code.contains_cons] at contains
  obtain ⟨subscriptHere, fetched, -⟩ := contains
  rw [List.length_append, List.length_singleton, ← Nat.add_assoc, value, named]
  refine .bind_of_ok rfl ?_
  refine (subscriptRealized subscriptHere stands).bind fun index after _ stands => ?_
  refine .element (fun missing => ?_) fun cell found => ?_
  · exact stands.ends fetched (fun _ => Machine.Refuses.execute_eq (.fetch rfl missing)) rfl
  · obtain ⟨later, stepped, stands⟩ := stands.next _ (after.world.memory.element bank cell :: stack)
      fetched fun _ => Machine.Does.execute_eq (.fetch rfl found)
    exact .bind_of_ok rfl (.of_step stepped (.pure stands))

/-- A condition chooses one of two expressions. -/
theorem realized_conditional {condition whenTrue whenFalse : Expression String}
    {conditionCode trueCode falseCode : List Placed}
    (conditionRealized : Realized activation deep least invoke layers start condition conditionCode)
    (trueRealized : Realized activation deep least invoke layers (start + conditionCode.length + 1)
      whenTrue trueCode)
    (falseRealized : Realized activation deep least invoke layers
      (start + conditionCode.length + trueCode.length + 2) whenFalse falseCode) :
    Realized activation deep least invoke layers start
      (.conditional condition whenTrue whenFalse position)
      (conditionCode ++
        ⟨.jumpIfFalse (start + conditionCode.length + trueCode.length + 2), position⟩ ::
        trueCode ++
        ⟨.jump (start + conditionCode.length + trueCode.length + 2 + falseCode.length),
          position⟩ :: falseCode) := by
  intro stack situation session contains stands
  simp only [Code.contains_append, Code.contains_cons, List.length_append, List.length_cons,
    ← Nat.add_assoc] at contains
  obtain ⟨⟨conditionHere, branch, trueHere⟩, skip, falseHere⟩ := contains
  have ends : start + (conditionCode.length + (trueCode.length + 1) + (falseCode.length + 1)) =
      start + conditionCode.length + trueCode.length + 2 + falseCode.length := by omega
  simp only [List.length_append, List.length_cons, ends]
  rw [value]
  refine (conditionRealized conditionHere stands).bind fun decision after _ stands => ?_
  obtain ⟨later, stepped, stands⟩ := stands.jumpIfFalse branch
  refine .of_step stepped ?_
  cases truth : Value.isTrue decision with
  | true =>
      rw [truth, if_pos rfl] at stands
      rw [if_pos rfl]
      -- the first expression is followed by a jump, which is no part of its meaning
      have realized := trueRealized trueHere stands
      rw [← bind_pure (value invoke whenTrue)]
      refine realized.bind fun chosen after _ stands => ?_
      rw [Nat.add_right_comm] at stands
      obtain ⟨later, stepped, stands⟩ := stands.jump skip
      exact .of_step stepped (.pure stands)
  | false =>
      rw [truth, if_neg Bool.false_ne_true] at stands
      rw [if_neg Bool.false_ne_true]
      exact falseRealized falseHere stands

/-- A local is set to a value. -/
theorem realized_assignLocal {scope : Scope} {text : String} {assigned : Expression String}
    {namePosition : Position} {slot : Nat} {valueCode : List Placed}
    (layered : layers.flatten = scope.inner ++ scope.outer) (numbered : scope.Numbered)
    (declared : scope.lookup? text = some ⟨slot, true⟩)
    (valueRealized : Realized activation deep least invoke layers start assigned valueCode) :
    Realized activation deep least invoke layers start
      (.assign none (.name text namePosition) assigned position)
      (valueCode ++ [⟨.store slot, position⟩]) := by
  intro stack situation session contains stands
  rw [Scope.lookup?, ← layered] at declared
  rw [Code.contains_append, Code.contains_cons] at contains
  obtain ⟨valueHere, fetched, -⟩ := contains
  rw [List.length_append, List.length_singleton, ← Nat.add_assoc, value]
  refine (valueRealized valueHere stands).bind fun new after _ stands => ?_
  obtain ⟨blocks, later, written, stepped, stands⟩ :=
    stands.store declared (numbered.nodup_slotsOf layered) fetched
  exact .writeLocal written (.of_step stepped (.pure stands))

/-- A local is set to its old value combined with another one. -/
theorem realized_updateLocal {scope : Scope} {operator : Operator} {text : String}
    {assigned : Expression String} {namePosition : Position} {slot : Nat} {valueCode : List Placed}
    (layered : layers.flatten = scope.inner ++ scope.outer) (numbered : scope.Numbered)
    (declared : scope.lookup? text = some ⟨slot, true⟩)
    (valueRealized : Realized activation deep least invoke layers (start + 1) assigned valueCode) :
    Realized activation deep least invoke layers start
      (.assign (some operator) (.name text namePosition) assigned position)
      (⟨.load slot, position⟩ ::
        valueCode ++ [⟨.binary operator, position⟩, ⟨.store slot, position⟩]) := by
  intro stack situation session contains stands
  rw [Scope.lookup?, ← layered] at declared
  simp only [Code.contains_append, Code.contains_cons, List.length_cons] at contains
  obtain ⟨⟨loaded, valueHere⟩, combined, stored, -⟩ := contains
  have ends : start + (valueCode.length + 1 + (0 + 1 + 1)) =
      start + (valueCode.length + 1) + 1 + 1 :=
    by omega
  simp only [List.length_append, List.length_cons, List.length_nil, ends]
  rw [value]
  obtain ⟨old, later, known, stepped, stands⟩ := stands.load declared loaded
  refine .readLocal known (.of_step stepped ?_)
  refine (valueRealized valueHere stands).bind fun operand after _ stands => ?_
  rw [Nat.add_assoc, Nat.add_comm 1] at stands
  refine .operate (fun missing => ?_) fun new applied => ?_
  · exact stands.ends combined (fun _ => Machine.Refuses.execute_eq (.binary rfl missing)) rfl
  · obtain ⟨later, stepped, stands⟩ := stands.next _ (new :: stack) combined fun _ =>
      Machine.Does.execute_eq (.binary rfl applied)
    refine .of_step stepped ?_
    obtain ⟨blocks, later, written, stepped, stands⟩ :=
      stands.store declared (numbered.nodup_slotsOf layered) stored
    exact .writeLocal written (.of_step stepped (.pure stands))

/-- A variable slot is set to a value. Its index is checked last. -/
theorem realized_assignSlot {array subscript assigned : Expression String} {place : Position}
    {subscriptCode valueCode : List Placed} (named : array.bank? = some .slots)
    (subscriptRealized : Realized activation deep least invoke layers start subscript subscriptCode)
    (valueRealized : Realized activation deep least invoke layers (start + subscriptCode.length)
      assigned valueCode) :
    Realized activation deep least invoke layers start
      (.assign none (.index array subscript place) assigned position)
      (subscriptCode ++ valueCode ++ [⟨.deposit, position⟩]) := by
  intro stack situation session contains stands
  simp only [Code.contains_append, Code.contains_cons, List.length_append,
    ← Nat.add_assoc] at contains
  obtain ⟨⟨subscriptHere, valueHere⟩, fetched, -⟩ := contains
  simp only [List.length_append, List.length_singleton, ← Nat.add_assoc]
  rw [value]
  refine .needSlots named ?_
  refine (subscriptRealized subscriptHere stands).bind fun index _ _ stands => ?_
  refine (valueRealized valueHere stands).bind fun new after _ stands => ?_
  refine .element (fun missing => ?_) fun slot found => ?_
  · exact stands.ends fetched (fun _ => Machine.Refuses.execute_eq (.deposit rfl missing)) rfl
  · obtain ⟨later, stepped, stands⟩ := stands.next_memory _ (new :: stack)
      (after.world.memory.setSlot slot new) fetched fun _ =>
        Machine.Does.execute_eq (.deposit rfl found)
    exact .bind_of_ok rfl (.bind_of_ok rfl (.of_step stepped (.pure stands)))

/-- A variable slot is set to its old value combined with another one. Its index is checked when the
old value is read. -/
theorem realized_updateSlot {operator : Operator} {array subscript assigned : Expression String}
    {place : Position} {subscriptCode valueCode : List Placed} (named : array.bank? = some .slots)
    (subscriptRealized : Realized activation deep least invoke layers start subscript subscriptCode)
    (valueRealized : Realized activation deep least invoke layers
      (start + subscriptCode.length + 2) assigned valueCode) :
    Realized activation deep least invoke layers start
      (.assign (some operator) (.index array subscript place) assigned position)
      (subscriptCode ++ ⟨.duplicate, position⟩ :: ⟨.fetch .slots, position⟩ ::
        valueCode ++ [⟨.binary operator, position⟩, ⟨.deposit, position⟩]) := by
  intro stack situation session contains stands
  simp only [Code.contains_append, Code.contains_cons, List.length_append, List.length_cons,
    ← Nat.add_assoc] at contains
  obtain ⟨⟨subscriptHere, duplicated, fetched, valueHere⟩, combined, deposited, -⟩ := contains
  have ends : start + (subscriptCode.length + (valueCode.length + 1 + 1) + (0 + 1 + 1)) =
      start + subscriptCode.length + valueCode.length + 1 + 1 + 1 + 1 := by omega
  simp only [List.length_append, List.length_cons, List.length_nil, ends]
  rw [value]
  refine .needSlots named ?_
  refine (subscriptRealized subscriptHere stands).bind fun index before _ stands => ?_
  -- one copy of the index is for reading the old value, the other one for writing the new one
  obtain ⟨later, stepped, stands⟩ := stands.next _ (index :: index :: stack) duplicated fun _ => rfl
  refine .of_step stepped (.element (fun missing => ?_) fun slot found => ?_)
  · exact stands.ends fetched (fun _ => Machine.Refuses.execute_eq (.fetch rfl missing)) rfl
  · obtain ⟨later, stepped, stands⟩ := stands.next _
      (before.world.memory.element .slots slot :: index :: stack) fetched fun _ =>
        Machine.Does.execute_eq (.fetch rfl found)
    refine .bind_of_ok rfl (.of_step stepped ?_)
    refine (valueRealized valueHere stands).bind fun operand after _ stands => ?_
    rw [show start + subscriptCode.length + 2 + valueCode.length =
      start + subscriptCode.length + valueCode.length + 1 + 1 by omega] at stands
    refine .operate (fun missing => ?_) fun new applied => ?_
    · exact stands.ends combined (fun _ => Machine.Refuses.execute_eq (.binary rfl missing)) rfl
    · obtain ⟨later, stepped, stands⟩ := stands.next _ (new :: index :: stack) combined fun _ =>
        Machine.Does.execute_eq (.binary rfl applied)
      refine .of_step stepped ?_
      obtain ⟨later, stepped, stands⟩ := stands.next_memory _ (new :: stack)
        (after.world.memory.setSlot slot new) deposited fun _ =>
          Machine.Does.execute_eq (.deposit rfl found)
      exact .bind_of_ok rfl (.bind_of_ok rfl (.of_step stepped (.pure stands)))

/-! ## Calls -/

/-- No value is pushed. -/
theorem allRealized_nil : AllRealized activation deep least invoke layers start [] [] := by
  intro stack situation session _ stands
  rw [values]
  exact .pure ⟨rfl, stands⟩

/-- The first value is pushed before the others. -/
theorem allRealized_cons {first : Expression String} {others : List (Expression String)}
    {firstCode otherCode : List Placed}
    (firstRealized : Realized activation deep least invoke layers start first firstCode)
    (othersRealized : AllRealized activation deep least invoke layers (start + firstCode.length)
      others otherCode) :
    AllRealized activation deep least invoke layers start (first :: others)
      (firstCode ++ otherCode) := by
  intro stack situation session contains stands
  rw [Code.contains_append] at contains
  rw [List.length_append, ← Nat.add_assoc, values]
  refine (firstRealized contains.1 stands).bind fun head _ _ stands => ?_
  refine (othersRealized contains.2 stands).bind fun tail _ _ fits => ?_
  obtain ⟨length, stands⟩ := fits
  refine .pure ⟨by rw [List.length_cons, List.length_cons, length], ?_⟩
  rw [List.reverse_cons, List.append_assoc]
  exact stands

/-- The motors are set to two values, and zero is pushed. -/
theorem realized_drive {arguments : List (Expression String)} {argumentCode : List Placed}
    (two : arguments.length = 2)
    (argumentsRealized : AllRealized activation deep least invoke layers start arguments
      argumentCode) :
    Realized activation deep least invoke layers start (.call Vocabulary.motor arguments position)
      (argumentCode ++ [⟨.motor, position⟩]) := by
  intro stack situation session contains stands
  rw [Code.contains_append, Code.contains_cons] at contains
  obtain ⟨argumentsHere, fetched, -⟩ := contains
  rw [List.length_append, List.length_singleton, ← Nat.add_assoc, value]
  refine (argumentsRealized argumentsHere stands).bind fun found after _ fits => ?_
  obtain ⟨length, stands⟩ := fits
  rw [if_pos rfl]
  obtain ⟨left, right, rfl⟩ := List.length_eq_two.mp (length.trans two)
  obtain ⟨later, stepped, stands⟩ := stands.next_memory _ (0 :: stack)
    (after.world.memory.drive ⟨left, right⟩) fetched fun _ => rfl
  exact .bind_of_ok rfl (.bind_of_ok rfl (.of_step stepped (.pure stands)))

/-- A subroutine is called with its arguments, and its value is pushed. -/
theorem realized_call {functions : FunctionTable} {callee : String}
    {arguments : List (Expression String)} {signature : Signature} {argumentCode : List Placed}
    (calls : activation.RealizesCalls deep least functions invoke)
    (notMotor : callee ≠ Vocabulary.motor) (known : functions.lookup callee = some signature)
    (enough : arguments.length = signature.arity)
    (argumentsRealized : AllRealized activation deep least invoke layers start arguments
      argumentCode) :
    Realized activation deep least invoke layers start (.call callee arguments position)
      (argumentCode ++ [⟨.call signature.index arguments.length, position⟩]) := by
  intro stack situation session contains stands
  rw [Code.contains_append, Code.contains_cons] at contains
  obtain ⟨argumentsHere, fetched, -⟩ := contains
  rw [List.length_append, List.length_singleton, ← Nat.add_assoc, value]
  refine (argumentsRealized argumentsHere stands).bind fun found after _ fits => ?_
  obtain ⟨length, stands⟩ := fits
  rw [if_neg notMotor]
  rw [← length] at fetched
  exact calls known (length.trans enough) fetched stands

/-! ## All expressions -/

section All

variable {functions : FunctionTable} {scope : Scope}
  (calls : activation.RealizesCalls deep least functions invoke)
  (layered : layers.flatten = scope.inner ++ scope.outer) (numbered : scope.Numbered)

include calls layered numbered

/-- **The code of an expression realizes its value.** -/
theorem Emits.realized {start : Nat} {expression : Expression String} {code : List Placed}
    (emits : Emits functions scope start expression code) :
    Realized activation deep least invoke layers start expression code := by
  -- by induction on the rules, for single expressions and for lists of them at once
  refine @Emits.rec functions scope
    (fun start expression code _ =>
      Realized activation deep least invoke layers start expression code)
    (fun start expressions code _ =>
      AllRealized activation deep least invoke layers start expressions code)
    ?number ?name ?binary ?logical ?unary ?changeLocal ?changeSlot ?conditional ?assignLocal
    ?updateLocal ?assignSlot ?updateSlot ?drive ?call ?index ?nil ?cons start expression code emits
  case number => exact realized_number _
  case name => exact fun meant => realized_name layered meant
  case binary => exact fun _ _ left right => realized_binary left right
  case logical => exact fun _ _ left right => realized_logical left right
  case unary => exact fun _ operand => realized_unary operand
  case changeLocal => exact fun declared => realized_changeLocal layered numbered declared
  case changeSlot => exact fun named _ subscript => realized_changeSlot named subscript
  case conditional =>
    exact fun _ _ _ condition whenTrue whenFalse =>
      realized_conditional condition whenTrue whenFalse
  case assignLocal =>
    exact fun declared _ assigned => realized_assignLocal layered numbered declared assigned
  case updateLocal =>
    exact fun declared _ assigned => realized_updateLocal layered numbered declared assigned
  case assignSlot =>
    exact fun named _ _ subscript assigned => realized_assignSlot named subscript assigned
  case updateSlot =>
    exact fun named _ _ subscript assigned => realized_updateSlot named subscript assigned
  case drive => exact fun two _ arguments => realized_drive two arguments
  case call =>
    exact fun notMotor _ known enough _ arguments =>
      realized_call calls notMotor known enough arguments
  case index => exact fun named _ subscript => realized_index named subscript
  case nil => exact allRealized_nil
  case cons => exact fun _ _ first others => allRealized_cons first others

end All

end Expression

end LineRobot
