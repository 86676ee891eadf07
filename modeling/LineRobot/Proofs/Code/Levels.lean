import LineRobot.Proofs.Code.Emission
import LineRobot.Proofs.Code.Heights
import LineRobot.Proofs.Meaning.Locals
import LineRobot.Proofs.Success

/-! # Compiled code has heights

The code of an expression raises the height of the operand stack by one, whatever it is before, and
the code of a statement begins and ends at height zero. So each function of a compiled program has
heights that fit it (`ParsedProgram.Emits.fits`). -/

namespace LineRobot

/-- The locals of a scope are among those of a function. -/
structure Scope.Within (scope : Scope) (localCount : Nat) : Prop where
  /-- They are numbered. -/
  numbered : scope.Numbered
  /-- There are enough of them. -/
  room : scope.next ≤ localCount

namespace Scope

variable {scope : Scope} {localCount : Nat}

/-- A declaration that finds a free local stays among them. -/
theorem Within.bind (within : scope.Within localCount) (name : String) (writable : Bool)
    (free : scope.next < localCount) : (scope.bind name writable).Within localCount :=
  ⟨within.numbered.bind name writable, free⟩

/-- Opening a scope declares nothing. -/
theorem Within.opened (within : scope.Within localCount) : scope.opened.Within localCount :=
  ⟨within.numbered.opened, within.room⟩

/-- A name means one of the locals. -/
theorem Within.slot_lt (within : scope.Within localCount) {name : String} {found : Local}
    (declared : scope.lookup? name = some found) : found.slot < localCount := by
  have member : (name, found) ∈ scope.inner ++ scope.outer := by
    unfold lookup? at declared
    rw [List.lookup_eq_some_iff] at declared
    obtain ⟨earlier, later, split, -⟩ := declared
    rw [split]
    exact List.mem_append_right earlier List.mem_cons_self
  have numbered : found.slot ∈ (List.range scope.next).reverse := by
    rw [← within.numbered]
    exact List.mem_map_of_mem (f := fun named : String × Local => named.2.slot) member
  rw [List.mem_reverse, List.mem_range] at numbered
  exact Nat.lt_of_lt_of_le numbered within.room

/-- The parameters of a function are its first locals. -/
theorem within_of_withParameters {result : Scope} {names : List String}
    (declared : scope.withParameters names = .ok result) (numbered : scope.Numbered)
    (room : scope.next + names.length ≤ localCount) : result.Within localCount := by
  induction names generalizing scope with
  | nil =>
      cases declared
      exact ⟨numbered, room⟩
  | cons name others ih =>
      simp only [withParameters, bind_eq_ok] at declared
      obtain ⟨-, -, declared⟩ := declared
      refine ih declared (numbered.bind name true) ?_
      rw [List.length_cons] at room
      show scope.next + 1 + others.length ≤ localCount
      omega

end Scope

/-- The functions of a table are among those of a program. -/
def FunctionTable.Within (functions : FunctionTable) (program : Program) : Prop :=
  ∀ name signature, functions.lookup name = some signature →
    ∃ code, program.function? signature.index = some code ∧ code.arity = signature.arity

section Levels

variable {program : Program} {functions : FunctionTable} {localCount : Nat} {scope after : Scope}
  {start : Nat} {position : Position} {code : List Placed} {promises : List (Nat × Nat)}

namespace Expression

/-- What a name is read with names a local of the function, if any. -/
theorem refers_of_nameInstruction (within : scope.Within localCount) {text : String}
    {instruction : Instruction} (meant : Formula.nameInstruction scope text = .ok instruction) :
    (∃ slot, slot < localCount ∧ instruction = .load slot) ∨
      (∃ constant, instruction = .constant constant) ∨ ∃ value, instruction = .push value := by
  unfold Formula.nameInstruction at meant
  split at meant
  case h_1 found declared =>
    cases meant
    exact .inl ⟨_, within.slot_lt declared, rfl⟩
  case h_2 =>
    split at meant
    · cases meant
      exact .inr (.inl ⟨_, rfl⟩)
    · split at meant
      · cases meant
      · split at meant <;> cases meant
        exact .inr (.inr ⟨_, rfl⟩)

/-- The code of an expression raises every height by one. -/
def Raises (program : Program) (localCount start : Nat) (code : List Placed) : Prop :=
  ∀ height promises, Leads program localCount promises start code height (height + 1)

/-- A name is one instruction. -/
theorem raises_name (within : scope.Within localCount) {text : String} {instruction : Instruction}
    (meant : Formula.nameInstruction scope text = .ok instruction) :
    Raises program localCount start [⟨instruction, position⟩] := by
  intro height promises
  rcases refers_of_nameInstruction within meant with ⟨slot, known, rfl⟩ | ⟨_, rfl⟩ | ⟨_, rfl⟩
  · exact .onward known (Nat.zero_le _) rfl rfl rfl
  · exact .onward trivial (Nat.zero_le _) rfl rfl rfl
  · exact .onward trivial (Nat.zero_le _) rfl rfl rfl

/-- An instruction that takes one operand and leaves one, after the code of the operand. -/
theorem raises_apply {instruction : Instruction} {operandCode : List Placed}
    (operand : Raises program localCount start operandCode)
    (refers : instruction.Refers program localCount) (one : instruction.operands = 1)
    (result : instruction.results = 1) (running : instruction.isSuspension = false)
    (followers : ∀ index, instruction.followers index = [index + 1]) :
    Raises program localCount start (operandCode ++ [⟨instruction, position⟩]) := by
  intro height promises
  refine .append (operand height _) (.onward refers ?_ running (followers _) ?_)
  · rw [one]
    exact Nat.le_add_left 1 height
  · rw [one, result, Nat.add_sub_cancel]

/-- A connective leaves one of two values, at the same height. -/
theorem raises_logical {connective : Connective} {leftCode rightCode : List Placed}
    (left : Raises program localCount start leftCode)
    (right : Raises program localCount (start + leftCode.length + 1) rightCode) :
    Raises program localCount start
      (leftCode ++
        ⟨Formula.decidingJump connective (start + leftCode.length + rightCode.length + 4),
          position⟩ :: rightCode ++
        [⟨Formula.decidingJump connective (start + leftCode.length + rightCode.length + 4),
          position⟩, ⟨.push (Formula.undecidedValue connective), position⟩,
          ⟨.jump (start + leftCode.length + rightCode.length + 4 + 1), position⟩,
          ⟨.push (Formula.decidedValue connective), position⟩]) := by
  intro height promises
  generalize decided : start + leftCode.length + rightCode.length + 4 = target
  have tests : Formula.decidingJump connective target = .jumpIfFalse target ∨
      Formula.decidingJump connective target = .jumpIfTrue target := by
    cases connective
    · exact .inl rfl
    · exact .inr rfl
  generalize Formula.decidingJump connective target = deciding at tests
  have front :
      Leads program localCount ((target, height) :: (target + 1, height + 1) :: promises) start
      (leftCode ++ ⟨deciding, position⟩ :: rightCode ++
        [⟨deciding, position⟩, ⟨.push (Formula.undecidedValue connective), position⟩,
          ⟨.jump (target + 1), position⟩]) height height := by
    refine .append (.append (left height _)
      (.cons (.test List.mem_cons_self tests) (right height _))) ?_
    refine .cons (.test List.mem_cons_self tests) ?_
    refine .cons (.onward trivial (Nat.zero_le _) rfl rfl rfl) (.jump ?_)
    exact List.mem_cons_of_mem _ List.mem_cons_self
  -- the deciding jumps go to the last instruction
  have last : Leads program localCount promises target
      [⟨.push (Formula.decidedValue connective), position⟩] height (height + 1) :=
    .onward trivial (Nat.zero_le _) rfl rfl rfl
  have whole := Leads.appendPassing ?_ rfl front last
  · rwa [List.append_assoc] at whole
  · simp only [List.length_append, List.length_cons, List.length_nil]
    omega

/-- One of two expressions is evaluated, at the same height. -/
theorem raises_conditional {conditionCode trueCode falseCode : List Placed}
    (condition : Raises program localCount start conditionCode)
    (whenTrue : Raises program localCount (start + conditionCode.length + 1) trueCode)
    (whenFalse : Raises program localCount (start + conditionCode.length + trueCode.length + 2)
      falseCode) :
    Raises program localCount start
      (conditionCode ++
        ⟨.jumpIfFalse (start + conditionCode.length + trueCode.length + 2), position⟩ ::
        trueCode ++
        ⟨.jump (start + conditionCode.length + trueCode.length + 2 + falseCode.length), position⟩ ::
        falseCode) := by
  intro height promises
  exact .branches (condition height _) (whenTrue height _) (whenFalse height _) (by omega) rfl

/-- A variable slot is read and written again at the height of its index. -/
theorem raises_updateSlot {operator : Operator} {subscriptCode valueCode : List Placed}
    (subscript : Raises program localCount start subscriptCode)
    (assigned : Raises program localCount (start + subscriptCode.length + 2) valueCode) :
    Raises program localCount start
      (subscriptCode ++ ⟨.duplicate, position⟩ :: ⟨.fetch .slots, position⟩ ::
        valueCode ++ [⟨.binary operator, position⟩, ⟨.deposit, position⟩]) := by
  intro height promises
  have copied : Leads program localCount promises (start + subscriptCode.length)
      (⟨.duplicate, position⟩ :: ⟨.fetch .slots, position⟩ :: valueCode) (height + 1)
        (height + 3) := by
    refine .cons (.onward trivial (Nat.le_add_left 1 height) rfl rfl rfl) ?_
    exact .cons (.onward trivial (Nat.le_add_left 1 (height + 1)) rfl rfl rfl) (assigned _ _)
  refine .append (.append (subscript height _) copied) ?_
  refine .cons (.onward trivial (Nat.le_add_left 2 (height + 1)) rfl rfl rfl) ?_
  exact .onward trivial (Nat.le_add_left 2 height) rfl rfl rfl

variable (within : scope.Within localCount) (known : functions.Within program)

include within known

/-- **The code of an expression raises the height by one**, whatever it is before. -/
theorem Emits.raises {expression : Expression String}
    (emits : Emits functions scope start expression code) :
    Raises program localCount start code := by
  -- by induction on the rules; the code of expressions raises the height by their number
  refine @Emits.rec functions scope
    (fun start _ code _ => Raises program localCount start code)
    (fun start expressions code _ => ∀ height promises,
      Leads program localCount promises start code height (height + expressions.length))
    ?number ?name ?binary ?logical ?unary ?changeLocal ?changeSlot ?conditional ?assignLocal
    ?updateLocal ?assignSlot ?updateSlot ?drive ?call ?index ?nil ?cons start expression code emits
  case number => exact fun _ _ => .onward trivial (Nat.zero_le _) rfl rfl rfl
  case name => exact fun meant => raises_name within meant
  case binary =>
    intro _ _ _ _ _ _ _ _ _ left right height promises
    refine .append (.append (left height _) (right (height + 1) _)) ?_
    exact .onward trivial (Nat.le_add_left 2 height) rfl rfl rfl
  case logical => exact fun _ _ left right => raises_logical left right
  case unary => exact fun _ operand => raises_apply operand trivial rfl rfl rfl fun _ => rfl
  case changeSlot | index =>
    exact fun _ _ subscript => raises_apply subscript trivial rfl rfl rfl fun _ => rfl
  case changeLocal =>
    intro _ _ _ _ _ _ _ declared height promises
    exact .onward (within.slot_lt declared) (Nat.zero_le _) rfl rfl rfl
  case conditional =>
    exact fun _ _ _ condition whenTrue whenFalse => raises_conditional condition whenTrue whenFalse
  case assignLocal =>
    exact fun declared _ assigned =>
      raises_apply assigned (within.slot_lt declared) rfl rfl rfl fun _ => rfl
  case updateLocal =>
    intro _ _ _ _ _ _ _ _ declared _ assigned height promises
    have slot := within.slot_lt declared
    refine .append (.cons (.onward slot (Nat.zero_le _) rfl rfl rfl) (assigned (height + 1) _)) ?_
    refine .cons (.onward trivial (Nat.le_add_left 2 height) rfl rfl rfl) ?_
    exact .onward slot (Nat.le_add_left 1 height) rfl rfl rfl
  case assignSlot =>
    intro _ _ _ _ _ _ _ _ _ _ _ subscript assigned height promises
    refine .append (.append (subscript height _) (assigned (height + 1) _)) ?_
    exact .onward trivial (Nat.le_add_left 2 height) rfl rfl rfl
  case updateSlot => exact fun _ _ _ subscript assigned => raises_updateSlot subscript assigned
  case drive =>
    intro _ _ _ _ two _ arguments height promises
    have pushed := arguments height promises
    rw [two] at pushed
    exact .append pushed (.onward trivial (Nat.le_add_left 2 height) rfl rfl rfl)
  case call =>
    intro _ callee arguments _ signature _ _ _ found enough _ pushed height promises
    obtain ⟨called, number, arity⟩ := known callee signature found
    refine .append (pushed height _)
      (.onward ⟨called, number, arity.trans enough.symm⟩ (Nat.le_add_left _ height) rfl rfl ?_)
    show height + arguments.length - arguments.length + 1 = height + 1
    rw [Nat.add_sub_cancel]
  case nil => exact fun height promises => .nil
  case cons =>
    intro _ _ others _ _ _ _ first later height promises
    have rest := later (height + 1) promises
    rw [Nat.add_assoc, Nat.add_comm 1] at rest
    exact .append (first height _) rest

/-- An optional value raises every height by one. -/
theorem EmitsOrZero.raises {value : Option (Expression String)}
    (emits : EmitsOrZero functions scope start position value code) :
    Raises program localCount start code := by
  cases emits with
  | zero => exact fun _ _ => .onward trivial (Nat.zero_le _) rfl rfl rfl
  | value emits => exact emits.raises within known

/-- An expression evaluated for its effect keeps the height zero. A wait takes the only operand. -/
theorem EmitsEffect.leads {value : Expression String}
    (emits : EmitsEffect functions scope start position value code) :
    Leads program localCount promises start code 0 0 := by
  cases emits with
  | wait emits =>
      exact .append (emits.raises within known 0 _) (.takeAll trivial rfl rfl rfl)
  | evaluate emits =>
      exact .append (emits.raises within known 0 _)
        (.onward trivial (Nat.le_refl 1) rfl rfl rfl)

/-- The condition of a `for` loop keeps the height zero, also where it leaves the loop. -/
theorem EmitsGuard.leads {leave : Nat} {condition : Option (Expression String)}
    (emits : EmitsGuard functions scope start leave position condition code)
    (promised : (leave, 0) ∈ promises) : Leads program localCount promises start code 0 0 := by
  cases emits with
  | always => exact .nil
  | condition emits =>
      exact .append (emits.raises within known 0 _) (.test promised (.inl rfl))

/-- The step of a `for` loop keeps the height zero. -/
theorem EmitsAdvance.leads {step : Option (Expression String)}
    (emits : EmitsAdvance functions scope start position step code) :
    Leads program localCount promises start code 0 0 := by
  cases emits with
  | nothing => exact .nil
  | step emits =>
      exact .append (emits.raises within known 0 _)
        (.onward trivial (Nat.le_refl 1) rfl rfl rfl)

end Expression

/-! ## Statements -/

/-- Declarations keep to the locals of the function. -/
theorem Declarator.Emits.within {writable : Bool} {declarators : List Declarator}
    (emits : Declarator.Emits functions localCount writable scope start declarators code after)
    (within : scope.Within localCount) : after.Within localCount := by
  induction emits with
  | nil => exact within
  | cons _ _ _ free _ ih => exact ih (within.bind _ _ free)

/-- Declarations keep the height zero. -/
theorem Declarator.Emits.leads {writable : Bool} {declarators : List Declarator}
    (emits : Declarator.Emits functions localCount writable scope start declarators code after)
    (within : scope.Within localCount) (known : functions.Within program) :
    Leads program localCount promises start code 0 0 := by
  induction emits with
  | nil => exact .nil
  | cons _ value _ free _ ih =>
      refine .append (value.raises within known 0 _) ?_
      refine .cons (.onward free (Nat.le_refl 1) rfl rfl rfl) ?_
      exact .cons (.onward trivial (Nat.le_refl 1) rfl rfl rfl) (ih (within.bind _ _ free))

/-- The first clause of a `for` loop keeps to the locals of the function. -/
theorem ForStart.Emits.within {first : ForStart}
    (emits : first.Emits functions localCount scope start code after)
    (within : scope.Within localCount) : after.Within localCount := by
  cases emits with
  | declaration emits => exact emits.within within
  | _ => exact within

/-- The first clause of a `for` loop keeps the height zero. -/
theorem ForStart.Emits.leads {first : ForStart}
    (emits : first.Emits functions localCount scope start code after)
    (within : scope.Within localCount) (known : functions.Within program) :
    Leads program localCount promises start code 0 0 := by
  cases emits with
  | nothing => exact .nil
  | declaration emits => exact emits.leads within known
  | expression emits => exact emits.leads within known

namespace Statement

variable {targets : Option LoopTargets}

/-- A statement keeps to the locals of the function. -/
theorem Emits.within {statement : Statement}
    (emits : statement.Emits functions localCount targets scope start code after)
    (within : scope.Within localCount) : after.Within localCount := by
  cases emits with
  | declaration emits => exact emits.within within
  | _ => exact within

/-- The code of a statement keeps the height zero, also where it jumps to the given targets. -/
def Keeps (program : Program) (localCount : Nat) (targets : Option LoopTargets) (scope : Scope)
    (start : Nat) (code : List Placed) : Prop :=
  scope.Within localCount → ∀ promises,
    (∀ loop, targets = some loop → (loop.leave, 0) ∈ promises ∧ (loop.next, 0) ∈ promises) →
      Leads program localCount promises start code 0 0

/-- The body of a loop jumps to the targets of this loop only. -/
theorem Keeps.body {loop : LoopTargets}
    (body : Keeps program localCount (some loop) scope start code)
    (within : scope.Within localCount) (leave : (loop.leave, 0) ∈ promises)
    (next : (loop.next, 0) ∈ promises) : Leads program localCount promises start code 0 0 :=
  body within promises fun other same => by
    obtain rfl := Option.some.inj same
    exact ⟨leave, next⟩

/-- What is promised to a statement is promised to its parts, among more. -/
theorem Keeps.more (keeps : Keeps program localCount targets scope start code)
    (within : scope.Within localCount) {promise : Nat × Nat}
    (promised : ∀ loop, targets = some loop →
      (loop.leave, 0) ∈ promises ∧ (loop.next, 0) ∈ promises) :
    Leads program localCount (promise :: promises) start code 0 0 :=
  keeps within _ fun loop same => (promised loop same).imp (List.mem_cons_of_mem promise)
    (List.mem_cons_of_mem promise)

section Forms

variable {conditionCode bodyCode trueCode falseCode : List Placed}

/-- A branch that is passed over. -/
theorem keeps_branch
    (condition : scope.Within localCount → Expression.Raises program localCount start conditionCode)
    (whenTrue : Keeps program localCount targets scope.opened (start + conditionCode.length + 1)
      trueCode) :
    Keeps program localCount targets scope start
      (conditionCode ++
        ⟨.jumpIfFalse (start + conditionCode.length + 1 + trueCode.length), position⟩ ::
        trueCode) := by
  intro within promises promised
  refine .toEnd ?_ (.append (condition within 0 _)
    (.cons (.test List.mem_cons_self (.inl rfl)) (whenTrue.more within.opened promised)))
  rw [List.length_append, List.length_cons]
  omega

/-- Two branches, one of which is passed over. -/
theorem keeps_branches
    (condition : scope.Within localCount → Expression.Raises program localCount start conditionCode)
    (whenTrue : Keeps program localCount targets scope.opened (start + conditionCode.length + 1)
      trueCode)
    (whenFalse : Keeps program localCount targets scope.opened
      (start + conditionCode.length + 1 + trueCode.length + 1) falseCode) :
    Keeps program localCount targets scope start
      (conditionCode ++
        ⟨.jumpIfFalse (start + conditionCode.length + 1 + trueCode.length + 1), position⟩ ::
        trueCode ++
        ⟨.jump (start + conditionCode.length + 1 + trueCode.length + 1 + falseCode.length),
          position⟩ :: falseCode) := by
  intro within promises promised
  exact .branches (condition within 0 _) (whenTrue within.opened _ promised)
    (whenFalse within.opened _ promised) rfl rfl

/-- A loop that suspends the program in each round. -/
theorem keeps_forever
    (body : Keeps program localCount (some ⟨start + bodyCode.length + 2, start⟩) scope.opened
      (start + 1) bodyCode) :
    Keeps program localCount targets scope start
      (⟨.tick, position⟩ :: bodyCode ++ [⟨.jump start, position⟩]) := by
  intro within promises _
  have leave : (start + bodyCode.length + 2, 0) ∈
      (start, 0) :: (start + bodyCode.length + 2, 0) :: promises :=
    List.mem_cons_of_mem _ List.mem_cons_self
  have round := body.body within.opened leave List.mem_cons_self
  refine .toEnd ?_ (.toStart (.append (.cons (.takeAll trivial rfl rfl rfl) round)
    (.jump List.mem_cons_self)))
  simp only [List.length_append, List.length_cons, List.length_nil]
  omega

/-- A loop with a condition. -/
theorem keeps_whileLoop
    (condition : scope.Within localCount → Expression.Raises program localCount start conditionCode)
    (body : Keeps program localCount
      (some ⟨start + conditionCode.length + 1 + bodyCode.length + 1, start⟩) scope.opened
      (start + conditionCode.length + 1) bodyCode) :
    Keeps program localCount targets scope start
      (conditionCode ++
        ⟨.jumpIfFalse (start + conditionCode.length + 1 + bodyCode.length + 1), position⟩ ::
        bodyCode ++ [⟨.jump start, position⟩]) := by
  intro within promises _
  have leave : (start + conditionCode.length + 1 + bodyCode.length + 1, 0) ∈
      (start, 0) :: (start + conditionCode.length + 1 + bodyCode.length + 1, 0) :: promises :=
    List.mem_cons_of_mem _ List.mem_cons_self
  have round := body.body within.opened leave List.mem_cons_self
  refine .toEnd ?_ (.toStart (.append (.append (condition within 0 _)
    (.cons (.test leave (.inl rfl)) round)) (.jump List.mem_cons_self)))
  simp only [List.length_append, List.length_cons, List.length_nil]
  omega

/-- A loop with its condition at the end. -/
theorem keeps_doLoop
    (body : Keeps program localCount
      (some ⟨start + bodyCode.length + conditionCode.length + 1, start + bodyCode.length⟩)
      scope.opened start bodyCode)
    (condition : scope.Within localCount →
      Expression.Raises program localCount (start + bodyCode.length) conditionCode) :
    Keeps program localCount targets scope start
      (bodyCode ++ conditionCode ++ [⟨.jumpIfTrue start, position⟩]) := by
  intro within promises _
  -- the next round begins behind the body
  have round : Leads program localCount
      ((start, 0) :: (start + bodyCode.length + conditionCode.length + 1, 0) :: promises) start
      bodyCode 0 0 :=
    .toEnd rfl (body.body within.opened
      (List.mem_cons_of_mem _ (List.mem_cons_of_mem _ List.mem_cons_self)) List.mem_cons_self)
  refine .toEnd ?_ (.toStart (.append (.append round (condition within 0 _))
    (.test List.mem_cons_self (.inr rfl))))
  simp only [List.length_append, List.length_cons, List.length_nil]
  omega

end Forms

/-- A `for` loop. -/
theorem keeps_forLoop {inside : Scope} {first : ForStart}
    {condition step : Option (Expression String)}
    {firstCode guardCode bodyCode stepCode : List Placed} (known : functions.Within program)
    (firstEmits : first.Emits functions localCount scope.opened start firstCode inside)
    (guardEmits : Expression.EmitsGuard functions inside (start + firstCode.length)
      (start + firstCode.length + guardCode.length + bodyCode.length + stepCode.length + 1)
      position condition guardCode)
    (body : Keeps program localCount
      (some ⟨start + firstCode.length + guardCode.length + bodyCode.length + stepCode.length + 1,
        start + firstCode.length + guardCode.length + bodyCode.length⟩)
      inside.opened (start + firstCode.length + guardCode.length) bodyCode)
    (stepEmits : Expression.EmitsAdvance functions inside
      (start + firstCode.length + guardCode.length + bodyCode.length) position step stepCode) :
    Keeps program localCount targets scope start
      (firstCode ++ guardCode ++ bodyCode ++ stepCode ++
        [⟨.jump (start + firstCode.length), position⟩]) := by
  intro within promises _
  have insideWithin := firstEmits.within within.opened
  generalize begin : start + firstCode.length = rounds at guardEmits body stepEmits ⊢
  generalize behind : rounds + guardCode.length + bodyCode.length + stepCode.length + 1 = leave
    at guardEmits body
  have left : (leave, 0) ∈ (rounds, 0) :: (leave, 0) :: promises :=
    List.mem_cons_of_mem _ List.mem_cons_self
  have round : Leads program localCount ((rounds, 0) :: (leave, 0) :: promises)
      (rounds + guardCode.length) bodyCode 0 0 :=
    .toEnd rfl (body.body insideWithin.opened (List.mem_cons_of_mem _ left) List.mem_cons_self)
  have advanced : Leads program localCount ((rounds, 0) :: (leave, 0) :: promises)
      (rounds + (guardCode ++ bodyCode).length) stepCode 0 0 := by
    rw [List.length_append, ← Nat.add_assoc]
    exact stepEmits.leads insideWithin known
  -- the rounds begin behind the first clause
  have loop : Leads program localCount promises (start + firstCode.length)
      (guardCode ++ bodyCode ++ stepCode ++ [⟨.jump rounds, position⟩]) 0 0 := by
    rw [begin]
    refine .toEnd ?_ (.toStart (.append (.append (.append (guardEmits.leads insideWithin known left)
      round) advanced) (.jump List.mem_cons_self)))
    simp only [List.length_append, List.length_cons, List.length_nil]
    omega
  have whole := Leads.append (firstEmits.leads within.opened known) loop
  simpa only [List.append_assoc] using whole

/-- **The code of statements keeps the height zero.** -/
theorem EmitsAll.keeps (known : functions.Within program) {statements : List Statement}
    (emits : EmitsAll functions localCount targets scope start statements code after) :
    Keeps program localCount targets scope start code := by
  -- by induction on the rules, for single statements and for lists of them at once
  refine @EmitsAll.rec functions localCount
    (fun targets scope start _ code _ _ => Keeps program localCount targets scope start code)
    (fun targets scope start _ code _ _ => Keeps program localCount targets scope start code)
    ?declaration ?expression ?branch ?branches ?forever ?whileLoop ?doLoop ?forLoop
      ?block ?leaveLoop
    ?nextRound ?giveBack ?nil ?cons targets scope start statements code after emits
  case declaration => exact fun emits within _ _ => emits.leads within known
  case expression => exact fun emits within _ _ => emits.leads within known
  case branch =>
    exact fun condition _ whenTrue => keeps_branch (condition.raises · known) whenTrue
  case branches =>
    exact fun condition _ _ whenTrue whenFalse =>
      keeps_branches (condition.raises · known) whenTrue whenFalse
  case forever => exact fun _ _ body => keeps_forever body
  case whileLoop =>
    exact fun _ condition _ body => keeps_whileLoop (condition.raises · known) body
  case doLoop => exact fun _ condition body => keeps_doLoop body (condition.raises · known)
  case forLoop => exact fun first guard _ step body => keeps_forLoop known first guard body step
  case block => exact fun _ body within => body within.opened
  case leaveLoop => exact fun _ _ promised => .jump (promised _ rfl).1
  case nextRound => exact fun _ _ promised => .jump (promised _ rfl).2
  case giveBack =>
    intro _ _ _ _ _ _ emits within promises _
    refine .append (emits.raises within known 0 _) (.single trivial (Nat.le_refl 1) nofun ?_)
    exact fun _ member => absurd member List.not_mem_nil
  case nil => exact fun _ _ _ => .nil
  case cons =>
    intro _ _ _ _ _ _ _ _ _ emits _ first others within promises promised
    exact .append (first within _ promised) (others (emits.within within) _ promised)

end Statement

/-- The code of a function has heights. -/
theorem ParsedFunction.Emits.exists_fits {function : ParsedFunction} {parameters : List String}
    {code : Code} (emits : function.Emits functions parameters code)
    (known : functions.Within program) : ∃ heights, code.Fits program heights := by
  obtain ⟨scope, body, after, declared, bodyEmits, all⟩ := emits.body
  have within : scope.Within code.localCount := by
    refine Scope.within_of_withParameters declared Scope.numbered_empty ?_
    show 0 + parameters.length ≤ code.localCount
    have room := emits.room
    omega
  have front : Leads program code.localCount [] 0 (body ++ [⟨.push 0, function.position⟩]) 0 1 :=
    .append (bodyEmits.keeps known within [] nofun) (.onward trivial (Nat.zero_le _) rfl rfl rfl)
  have whole : code.body.toList = body ++ [⟨.push 0, function.position⟩] ++
      [⟨.giveBack, function.position⟩] := by
    rw [all, List.append_assoc]
    rfl
  exact front.exists_fits whole

end Levels

/-- The functions of a program have heights, and room for their parameters. -/
structure Program.Fits (program : Program) : Prop where
  /-- The heights of a function fit its code. -/
  heights : ∀ number code, program.function? number = some code →
    ∃ heights, code.Fits program heights
  /-- The parameters of a function are among its locals. -/
  room : ∀ number code, program.function? number = some code → code.arity ≤ code.localCount
  /-- The entry function has no parameters. -/
  entry : program.entry.arity = 0

namespace ParsedProgram

variable {parsed : ParsedProgram} {program : Program}

/-- The table of a parsed program names functions of its program. -/
theorem Emits.within (emits : parsed.Emits program) : parsed.table.Within program := by
  intro name signature known
  obtain ⟨function, code, -, found, arity, here⟩ := emits.exists_function known
  exact ⟨code, found, here.arity.trans arity⟩

/-- Each function of a program is the code of a function that has been parsed. -/
theorem Emits.exists_mem_emits (emits : parsed.Emits program) {number : Nat} {code : Code}
    (found : program.function? number = some code) :
    ∃ function ∈ parsed.entry :: parsed.subroutines, ∃ parameters,
      ParsedFunction.Emits parsed.table function parameters code := by
  cases number with
  | zero =>
      obtain rfl : program.entry = code := Option.some.inj found
      exact ⟨parsed.entry, List.mem_cons_self, [], emits.entry⟩
  | succ index =>
      have listed : program.subroutines.toList[index]? = some code := by
        rw [Array.getElem?_toList]
        exact found
      have length := emits.subroutines.length_eq
      have inside : index < parsed.subroutines.length := by
        rw [length]
        exact (List.getElem?_eq_some_iff.mp listed).1
      obtain ⟨bound, same⟩ := List.getElem?_eq_some_iff.mp listed
      have here := emits.subroutines.get inside bound
      rw [List.get_eq_getElem, List.get_eq_getElem, same] at here
      exact ⟨_, List.mem_cons_of_mem _ (List.getElem_mem inside), _, here⟩

/-- Each function of a program is the code of a parsed function. -/
theorem Emits.exists_emits (emits : parsed.Emits program) {number : Nat} {code : Code}
    (found : program.function? number = some code) :
    ∃ function parameters, ParsedFunction.Emits parsed.table function parameters code := by
  obtain ⟨function, -, parameters, here⟩ := emits.exists_mem_emits found
  exact ⟨function, parameters, here⟩

/-- **The functions of a compiled program have heights.** -/
theorem Emits.fits (emits : parsed.Emits program) : program.Fits where
  heights _ _ found := by
    obtain ⟨function, parameters, here⟩ := emits.exists_emits found
    exact here.exists_fits emits.within
  room _ _ found := by
    obtain ⟨function, parameters, here⟩ := emits.exists_emits found
    rw [here.arity]
    exact here.room
  entry := emits.entry.arity

end ParsedProgram

end LineRobot
