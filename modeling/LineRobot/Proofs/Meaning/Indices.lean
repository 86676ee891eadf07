import LineRobot.Proofs.Code.Emission
import LineRobot.Proofs.Meaning.Regular
import LineRobot.Proofs.Source.Order

/-! # Indices that are always in range

In a program that has code no name of the robot is declared, so that all its expressions and
statements keep to the names and constants of the robot (`Meaning.Heeds`), where the places of
faults are those of its accesses with other indices than fixed ones. Hence a fault for an index
comes only from such an access (`ParsedProgram.Emits.indexFaultsAt`). -/

namespace LineRobot

/-! ## Syntax -/

open Meaning

variable {channels : ChannelConstants} {places : Position → Prop} {invoke : String →
  List Float → Meaning Float}

/-- The accesses with another index than a fixed one are at given places. -/
def Access.Within (places : Position → Prop) (accesses : List Access) : Prop :=
  ∀ access ∈ accesses, access.subscript.isFixedIndex = false → places access.position

namespace Access

@[simp] theorem within_nil : Within places [] := nofun

@[simp] theorem within_cons {access : Access} {others : List Access} :
    Within places (access :: others) ↔
      (access.subscript.isFixedIndex = false → places access.position) ∧ Within places others :=
  List.forall_mem_cons

@[simp] theorem within_append {front back : List Access} :
    Within places (front ++ back) ↔ Within places front ∧ Within places back :=
  List.forall_mem_append

end Access

/-- A value that is an index if its expression is a fixed one. -/
def Expression.GivesIndex (expression : Expression String) (value : Float) : Prop :=
  expression.isFixedIndex = true → (Memory.index? value).isSome = true

/-- Nothing is asked of the value of another expression. -/
theorem Expression.GivesIndex.of_other {expression : Expression String}
    (isOther : expression.isFixedIndex = false) (value : Float) : expression.GivesIndex value := by
  intro isFixed
  rw [isOther] at isFixed
  cases isFixed

/-- An element is accessed with the value of an index. -/
theorem Expression.GivesIndex.heeds_element {subscript : Expression String} {index : Float}
    (gives : subscript.GivesIndex index) (bank : Bank) {position : Position}
    (located : subscript.isFixedIndex = false → places position) :
    Heeds channels places (element bank index position) fun _ => True := by
  refine .element bank ?_
  cases isFixed : subscript.isFixedIndex with
  | true => exact .inl (gives isFixed)
  | false => exact .inr (located isFixed)

namespace Expression

/-- The array of the variable slots is named. -/
theorem heeds_needSlots (array : Expression String) :
    Heeds channels places array.needSlots fun _ => True := by
  rw [needSlots]
  split
  case isTrue => exact .pure trivial
  case isFalse => exact .stop nofun

mutual

/-- An expression keeps to regular situations, if its accesses are at the places. -/
theorem heeds_value (inRange : channels.InRange)
    (heedsCalls : ∀ name arguments, Heeds channels places (invoke name arguments) fun _ => True) :
    (expression : Expression String) → Access.Within places expression.accesses →
      Heeds channels places (expression.value invoke) expression.GivesIndex
  | .number literal position, _ => by
      rw [value]
      exact .pure (.of_other rfl _)
  | .name text position, _ => by
      rw [value]
      exact .readName inRange text position
  | .binary operator left right position, located => by
      rw [accesses, Access.within_append] at located
      rw [value]
      refine (heeds_value inRange heedsCalls left located.1).bind fun leftValue _ => ?_
      refine (heeds_value inRange heedsCalls right located.2).bind fun rightValue _ => ?_
      exact (Heeds.operate operator leftValue rightValue position).imp fun _ _ => .of_other rfl _
  | .logical connective left right position, located => by
      rw [accesses, Access.within_append] at located
      rw [value]
      refine (heeds_value inRange heedsCalls left located.1).bind fun leftValue _ => ?_
      split
      case isTrue => exact .pure (.of_other rfl _)
      case isFalse =>
        exact (heeds_value inRange heedsCalls right located.2).bind fun _ _ =>
          .pure (.of_other rfl _)
  | .unary operator operand position, located => by
      rw [accesses] at located
      rw [value]
      exact (heeds_value inRange heedsCalls operand located).bind fun _ _ => .pure (.of_other rfl _)
  | .change direction moment target position, located =>
      match target, located with
      | .name text _, _ => by
          rw [value]
          refine (Heeds.readLocal text).bind fun old _ => ?_
          refine (Heeds.writeLocal text _).bind fun _ _ => ?_
          exact .pure (.of_other rfl _)
      | .index array subscript _, located => by
          have located : (subscript.isFixedIndex = false → places position) ∧
              Access.Within places subscript.accesses := by
            cases moment <;> simpa [accesses, and_comm] using located
          rw [value]
          refine (heeds_needSlots array).bind fun _ _ => ?_
          refine (heeds_value inRange heedsCalls subscript located.2).bind fun index gives => ?_
          refine (gives.heeds_element .slots located.1).bind fun slot _ => ?_
          refine Heeds.memory.bind fun memory same => ?_
          exact (Heeds.setSlot same slot _).bind fun _ _ => .pure (GivesIndex.of_other rfl _)
      | .number _ _, _ | .binary _ _ _ _, _ | .logical _ _ _ _, _ | .unary _ _ _,
          _ | .change _ _ _ _, _
      | .conditional _ _ _ _, _ | .assign _ _ _ _, _ | .call _ _ _, _ => by
          rw [value]
          · exact .stop nofun
          all_goals exact nofun
  | .conditional condition whenTrue whenFalse position, located => by
      rw [accesses, Access.within_append, Access.within_append] at located
      rw [value]
      refine (heeds_value inRange heedsCalls condition located.1.1).bind fun _ _ => ?_
      split
      case isTrue =>
        exact (heeds_value inRange heedsCalls whenTrue located.1.2).imp fun _ _ =>
          .of_other rfl _
      case isFalse =>
        exact (heeds_value inRange heedsCalls whenFalse located.2).imp fun _ _ =>
          .of_other rfl _
  | .assign compound target assigned position, located =>
      match target, located with
      | .name text _, located => by
          have located : Access.Within places assigned.accesses := by
            rw [accesses] at located
            · exact located
            · exact nofun
          cases compound with
          | none =>
              rw [value]
              refine (heeds_value inRange heedsCalls assigned located).bind fun new _ => ?_
              exact (Heeds.writeLocal text new).bind fun _ _ => .pure (.of_other rfl _)
          | some operator =>
              rw [value]
              refine (Heeds.readLocal text).bind fun old _ => ?_
              refine (heeds_value inRange heedsCalls assigned located).bind fun operand _ => ?_
              refine (Heeds.operate operator old operand position).bind fun new _ => ?_
              exact (Heeds.writeLocal text new).bind fun _ _ => .pure (.of_other rfl _)
      | .index array subscript _, located => by
          rw [accesses, Access.within_append, Access.within_cons] at located
          obtain ⟨inSubscript, here, inAssigned⟩ := located
          rw [value]
          refine (heeds_needSlots array).bind fun _ _ => ?_
          refine (heeds_value inRange heedsCalls subscript inSubscript).bind fun index gives => ?_
          cases compound with
          | none =>
              -- here the index is checked only after the value is known
              refine (heeds_value inRange heedsCalls assigned inAssigned).bind fun new _ => ?_
              refine (gives.heeds_element .slots here).bind fun slot _ => ?_
              refine Heeds.memory.bind fun memory same => ?_
              exact (Heeds.setSlot same slot _).bind fun _ _ => .pure (GivesIndex.of_other rfl _)
          | some operator =>
              refine (gives.heeds_element .slots here).bind fun slot _ => ?_
              refine Heeds.memory.bind fun before _ => ?_
              refine (heeds_value inRange heedsCalls assigned inAssigned).bind fun operand _ => ?_
              refine (Heeds.operate operator _ operand position).bind fun new _ => ?_
              refine Heeds.memory.bind fun memory same => ?_
              exact (Heeds.setSlot same slot _).bind fun _ _ => .pure (GivesIndex.of_other rfl _)
      | .number _ _, _ | .binary _ _ _ _, _ | .logical _ _ _ _, _ | .unary _ _ _,
          _ | .change _ _ _ _, _
      | .conditional _ _ _ _, _ | .assign _ _ _ _, _ | .call _ _ _, _ => by
          rw [value]
          · exact .stop nofun
          all_goals exact nofun
  | .call callee arguments position, located => by
      rw [accesses] at located
      rw [value]
      refine (heeds_values inRange heedsCalls arguments located).bind fun values _ => ?_
      split
      case isTrue =>
        split
        case h_1 first second =>
          refine Heeds.memory.bind fun memory same => ?_
          have driven : (memory.drive ⟨first, second⟩).channels = channels := same
          exact (Heeds.setMemory driven).bind fun _ _ => .pure (GivesIndex.of_other rfl _)
        case h_2 => exact .stop nofun
      case isFalse => exact (heedsCalls callee values).imp fun _ _ => .of_other rfl _
  | .index array subscript position, located => by
      rw [accesses, Access.within_cons] at located
      rw [value]
      have named : Heeds channels places (need array.bank?) fun _ => True :=
        .need fun _ _ => trivial
      refine named.bind fun bank _ => ?_
      refine (heeds_value inRange heedsCalls subscript located.2).bind fun index gives => ?_
      refine (gives.heeds_element bank located.1).bind fun cell _ => ?_
      exact Heeds.memory.bind fun _ _ => .pure (.of_other rfl _)

/-- Expressions keep to regular situations, if their accesses are at the places. -/
theorem heeds_values (inRange : channels.InRange)
    (heedsCalls : ∀ name arguments, Heeds channels places (invoke name arguments) fun _ => True) :
    (expressions : List (Expression String)) → Access.Within places (listAccesses expressions) →
      Heeds channels places (values invoke expressions) fun _ => True
  | [], _ => by
      rw [values]
      exact .pure trivial
  | first :: others, located => by
      rw [listAccesses, Access.within_append] at located
      rw [values]
      refine (heeds_value inRange heedsCalls first located.1).bind fun _ _ => ?_
      exact (heeds_values inRange heedsCalls others located.2).bind fun _ _ => .pure trivial

end

section

variable (inRange : channels.InRange)
  (heedsCalls : ∀ name arguments, Heeds channels places (invoke name arguments) fun _ => True)

include inRange heedsCalls

/-- So does an expression that may be left out. -/
theorem heeds_valueOr (missing : Float) {clause : Option (Expression String)}
    (located : Access.Within places (clauseAccesses clause)) :
    Heeds channels places (valueOr invoke missing clause) fun _ => True := by
  cases clause with
  | none => exact .pure trivial
  | some expression =>
      exact (heeds_value inRange heedsCalls expression located).imp fun _ _ => trivial

/-- So does an expression that is evaluated for its effect. -/
theorem heeds_effect (position : Position) {expression : Expression String}
    (located : Access.Within places expression.accesses) :
    Heeds channels places (expression.effect invoke position) fun _ => True := by
  have dropped := (heeds_value inRange heedsCalls expression located).discard
  unfold effect
  split
  case h_1 duration _ =>
    split
    case isTrue =>
      rw [accesses, listAccesses, Access.within_append] at located
      exact (heeds_value inRange heedsCalls duration located.1).bind fun value _ =>
        .waitFor value position
    case isFalse => exact dropped
  case h_2 => exact dropped

end

end Expression

/-- A name that can be declared is not one of the robot. -/
theorem Scope.unreserved_of_canBind {scope : Scope} {name : String}
    (free : scope.canBind name = .ok ()) :
    Vocabulary.isReserved name = false := by
  rw [canBind] at free
  split at free
  case isTrue => cases free
  case isFalse unreserved => exact Bool.eq_false_iff.mpr unreserved

/-- Parameters do not have names of the robot. -/
theorem Scope.unreserved_of_withParameters {scope result : Scope} {names : List String}
    (declared : scope.withParameters names = .ok result) : ∀ name ∈ names,
      Vocabulary.isReserved name = false := by
  induction names generalizing scope with
  | nil => exact nofun
  | cons name others ih =>
      rw [withParameters, bind_eq_ok] at declared
      obtain ⟨_, free, declared⟩ := declared
      exact List.forall_mem_cons.mpr ⟨unreserved_of_canBind free, ih declared⟩

section

variable {functions : FunctionTable} {localCount : Nat} {targets : Option LoopTargets}
  {scope after : Scope}
  {start : Nat} {code : List Placed} (inRange : channels.InRange)
  (heedsCalls : ∀ name arguments, Heeds channels places (invoke name arguments) fun _ => True)

include inRange heedsCalls

/-- Declarations that have code keep to regular situations, if their accesses are at the places. -/
theorem Declarator.Emits.heeds_meanings {writable : Bool} {declarators : List Declarator}
    (emits : Declarator.Emits functions localCount writable scope start declarators code after)
    (located : Access.Within places (listAccesses declarators)) :
    Heeds channels places (meanings invoke declarators) fun _ => True := by
  induction emits with
  | nil =>
      rw [meanings]
      exact .pure trivial
  | cons _ _ free _ _ ih =>
      rw [listAccesses, List.flatMap_cons, Access.within_append] at located
      rw [meanings]
      refine (Expression.heeds_valueOr inRange heedsCalls 0 located.1).bind fun value _ => ?_
      exact (Heeds.declare (Scope.unreserved_of_canBind free) value).bind fun _ _ => ih located.2

/-- So does the first clause of a `for` loop. -/
theorem ForStart.Emits.heeds_meaning {first : ForStart}
    (emits : first.Emits functions localCount scope start code after)
    (located : Access.Within places first.accesses) :
    Heeds channels places (first.meaning invoke) fun _ => True := by
  cases emits with
  | nothing => exact .pure trivial
  | declaration emits => exact emits.heeds_meanings inRange heedsCalls located
  | expression => exact Expression.heeds_effect inRange heedsCalls _ located

/-- **Statements that have code keep to regular situations**, if their accesses are at the
places. -/
theorem Statement.EmitsAll.heeds_meanings {statements : List Statement}
    (emits : EmitsAll functions localCount targets scope start statements code after)
    (located : Access.Within places (listAccesses statements)) (allowed : Nat) :
    Heeds channels places (meanings allowed invoke statements) fun _ => True := by
  -- by induction on the rules, for single statements and for lists of them at once
  revert located
  refine @EmitsAll.rec functions localCount
    (fun _ _ _ statement _ _ _ => Access.Within places statement.accesses →
      Heeds channels places (statement.meaning allowed invoke) fun _ => True)
    (fun _ _ _ statements _ _ _ => Access.Within places (listAccesses statements) →
      Heeds channels places (meanings allowed invoke statements) fun _ => True)
    ?declaration ?expression ?branch ?branches ?forever ?whileLoop ?doLoop ?forLoop
      ?block ?leaveLoop
    ?nextRound ?giveBack ?nil ?cons targets scope start statements code after emits
  case declaration =>
    intro _ _ _ _ _ _ _ _ emits located
    rw [accesses] at located
    rw [meaning]
    exact (emits.heeds_meanings inRange heedsCalls located).bind fun _ _ => .pure trivial
  case expression =>
    intro _ _ _ _ position _ _ located
    rw [accesses] at located
    rw [meaning]
    exact (Expression.heeds_effect inRange heedsCalls position located).bind fun _ _ =>
      .pure trivial
  case branch =>
    intro _ _ _ _ condition _ _ _ _ _ _ whenTrue located
    rw [accesses, Access.within_append, Access.within_append] at located
    rw [meaning]
    refine (Expression.heeds_value inRange heedsCalls condition located.1.1).bind fun _ _ => ?_
    split
    case isTrue => exact (whenTrue located.1.2).inBlock
    case isFalse =>
      rw [otherwise]
      exact .pure trivial
  case branches =>
    intro _ _ _ _ _ condition _ _ _ _ _ _ _ _ _ whenTrue whenFalse located
    rw [accesses, Access.within_append, Access.within_append, otherwiseAccesses] at located
    rw [meaning]
    refine (Expression.heeds_value inRange heedsCalls condition located.1.1).bind fun _ _ => ?_
    split
    case isTrue => exact (whenTrue located.1.2).inBlock
    case isFalse =>
      rw [otherwise]
      exact (whenFalse located.2).inBlock
  case forever =>
    intro _ _ _ _ _ _ _ _ truth _ body located
    rw [accesses, Access.within_append] at located
    rw [meaning, if_pos truth]
    exact .rounds ((Heeds.suspend .tick).bind fun _ _ => (body located.2).inBlock) allowed
  case whileLoop =>
    intro _ _ _ _ condition _ _ _ _ noTruth _ _ body located
    rw [accesses, Access.within_append] at located
    rw [meaning, if_neg (by rw [noTruth]; exact Bool.false_ne_true)]
    exact .rounds (.whileTrue (Expression.heeds_value inRange heedsCalls condition located.1)
      (body located.2).inBlock) allowed
  case doLoop =>
    intro _ _ _ _ condition _ _ _ _ _ _ body located
    rw [accesses, Access.within_append] at located
    rw [meaning]
    exact .rounds (.afterBody (body located.1).inBlock
      (.whileTrue (Expression.heeds_value inRange heedsCalls condition located.2)
        (.pure trivial))) allowed
  case forLoop =>
    intro _ _ _ _ _ _ _ _ _ _ _ _ _ _ firstEmits _ _ _ body located
    rw [accesses, Access.within_append, Access.within_append, Access.within_append] at located
    obtain ⟨⟨⟨inFirst, inCondition⟩, inStep⟩, inBody⟩ := located
    rw [meaning]
    refine ((firstEmits.heeds_meaning inRange heedsCalls inFirst).bind fun _ _ => ?_).inBlock
    have step := (Expression.heeds_valueOr inRange heedsCalls 0 inStep).discard
    exact .rounds (.whileTrue (Expression.heeds_valueOr inRange heedsCalls 1 inCondition)
      (.afterBody (body inBody).inBlock (step.bind fun _ _ => .pure trivial))) allowed
  case block =>
    intro _ _ _ _ _ _ _ _ body located
    rw [accesses] at located
    rw [meaning]
    exact (body located).inBlock
  case leaveLoop =>
    intro _ _ _ _ _
    rw [meaning]
    exact .pure trivial
  case nextRound =>
    intro _ _ _ _ _
    rw [meaning]
    exact .pure trivial
  case giveBack =>
    intro _ _ _ _ _ _ _ located
    rw [accesses] at located
    rw [meaning]
    exact (Expression.heeds_valueOr inRange heedsCalls 0 located).bind fun _ _ => .pure trivial
  case nil =>
    intro _ _ _ _
    rw [meanings]
    exact .pure trivial
  case cons =>
    intro _ _ _ _ _ _ _ _ _ _ _ first others located
    rw [listAccesses, Access.within_append] at located
    rw [meanings]
    refine (first located.1).bind fun signal _ => ?_
    cases signal with
    | next => exact others located.2
    | leaveLoop | nextRound | giveBack => exact .pure trivial

/-- So does the body of a function. -/
theorem ParsedFunction.Emits.heeds_body {function : ParsedFunction} {parameters : List String}
    {code : Code} (emits : function.Emits functions parameters code)
    (located : Access.Within places function.accesses) (allowed : Nat) :
    Heeds channels places (givenBack (Statement.meanings allowed invoke function.body)) fun _ =>
      True := by
  obtain ⟨_, _, _, -, bodyEmits, -⟩ := emits.body
  exact .givenBack (bodyEmits.heeds_meanings inRange heedsCalls located allowed)

end

namespace ParsedProgram

variable {parsed : ParsedProgram} {program : Program}

/-- Calls of subroutines keep to regular situations, if the accesses of the program are at the
places. -/
theorem Emits.heeds_invoke (emits : parsed.Emits program) (inRange : channels.InRange)
    (located : Access.Within places parsed.accesses) (allowed : Nat) :
    ∀ name arguments, Heeds channels places (parsed.invoke allowed name arguments) fun _ =>
      True := by
  induction allowed with
  | zero => exact fun _ _ => .stop nofun
  | succ allowed ih =>
      intro name arguments
      rw [invoke]
      split
      case h_1 => exact .stop nofun
      case h_2 function found =>
        split
        case isTrue =>
          have member : function ∈ parsed.subroutines := List.mem_of_find?_eq_some found
          have inFunction : Access.Within places function.accesses := fun access here =>
            located access (List.mem_append_right _ (List.mem_flatMap.mpr ⟨function, member, here⟩))
          obtain ⟨index, bound, rfl⟩ := List.getElem_of_mem member
          have functionEmits := emits.subroutines.get bound (emits.subroutines.length_eq ▸ bound)
          obtain ⟨_, _, _, declared, -⟩ := functionEmits.body
          refine .inCall ?_ (functionEmits.heeds_body inRange ih inFunction allowed)
          intro name isParameter
          obtain ⟨⟨_, _⟩, isZipped, rfl⟩ := List.mem_map.mp isParameter
          exact Scope.unreserved_of_withParameters declared _
            (List.of_mem_zip (List.mem_reverse.mp isZipped)).1
        case isFalse => exact .stop nofun

/-- **Only other indices than fixed ones are out of range.** If all accesses of a program with other
indices are at some places, the host sees faults for an index at these places only. -/
theorem Emits.indexFaultsAt (emits : parsed.Emits program)
    (located : Access.Within places parsed.accesses) {memory : Memory}
    (inRange : memory.channels.InRange) {allowed : Nat} {script : List Cells}
    {seen : List Observation} (halted : parsed.run allowed memory script = .halted seen) :
    ∀ observation ∈ seen, observation.IndexFaultsAt places := by
  cases script with
  | nil =>
      cases halted
      exact nofun
  | cons cells later =>
      have inEntry : Access.Within places parsed.entry.accesses := fun access here =>
        located access (List.mem_append_left _ here)
      have body :=
        emits.entry.heeds_body inRange (emits.heeds_invoke inRange located allowed) inEntry allowed
      have whole : Heeds memory.channels places (inCall []
          (givenBack (Statement.meanings allowed (parsed.invoke allowed) parsed.entry.body)))
            fun _ => True :=
        .inCall nofun body
      have kept := whole ⟨[], { memory with sensors := cells }, later, []⟩ ⟨rfl, nofun, nofun⟩
      rw [run] at halted
      split at halted
      case h_1 done =>
        rw [done] at kept
        cases halted
        exact World.indexFaultsAt_ended kept.1.seen nofun
      case h_2 done =>
        rw [done] at kept
        cases halted
        exact kept

end ParsedProgram

end LineRobot
