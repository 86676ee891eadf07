import LineRobot.Proofs.Code.Heights
import LineRobot.Proofs.Code.Emission

/-! # Where control goes

In the code of an expression control goes only onward, and so it does in the code of a statement,
but for four ways in which it may go elsewhere. A `return` leaves the function and a `break` leaves
the loop around the statement; whether there is one is seen in the syntax (`Statement.ways`). A
`continue` goes to the next round of that loop. Within the statement control comes back only where a
loop begins its next round: in a loop without a condition that is a tick, and the syntax tells if
there are other loops (`Statement.EmitsAll.flows`). -/

namespace LineRobot

/-! ## The ways of statements -/

/-- The ways in which control may go in a statement other than onward. -/
structure Ways where
  /-- It leaves the function. -/
  returns : Bool := false
  /-- It leaves the innermost loop around the statement. -/
  breaks : Bool := false
  /-- It comes back without a tick, in a loop that is not one without a condition. -/
  rewinds : Bool := false
deriving DecidableEq, Repr

namespace Ways

/-- The ways of two statements. -/
def or (first second : Ways) : Ways where
  returns := first.returns || second.returns
  breaks := first.breaks || second.breaks
  rewinds := first.rewinds || second.rewinds

/-- The ways of a loop with a body with the given ways: a `break` in the body does not leave what is
around the loop. -/
def loop (body : Ways) (rewinds : Bool) : Ways where
  returns := body.returns
  rewinds := body.rewinds || rewinds

/-- All ways are among other ones. -/
structure Among (ways others : Ways) : Prop where
  /-- It is left only if they leave the function. -/
  returns : ways.returns = true → others.returns = true
  /-- A loop is left only if they leave it. -/
  breaks : ways.breaks = true → others.breaks = true
  /-- Control comes back without a tick only if it does so on them. -/
  rewinds : ways.rewinds = true → others.rewinds = true

variable {ways first second : Ways}

/-- The ways of the first of two statements. -/
theorem Among.left : first.Among (first.or second) :=
  ⟨fun is => Bool.or_eq_true_iff.mpr (.inl is), fun is => Bool.or_eq_true_iff.mpr (.inl is),
    fun is => Bool.or_eq_true_iff.mpr (.inl is)⟩

/-- The ways of the second of two statements. -/
theorem Among.right : second.Among (first.or second) :=
  ⟨fun is => Bool.or_eq_true_iff.mpr (.inr is), fun is => Bool.or_eq_true_iff.mpr (.inr is),
    fun is => Bool.or_eq_true_iff.mpr (.inr is)⟩

end Ways

namespace Statement

mutual

/-- The ways in which control may go in a statement other than onward. -/
def ways : Statement → Ways
  | .branch _ whenTrue whenFalse _ => (waysOf whenTrue).or (waysOtherwise whenFalse)
  | .whileLoop condition body _ => (waysOf body).loop (!Step.isTruth condition)
  | .doLoop body _ _ => (waysOf body).loop true
  | .forLoop _ _ _ body _ => (waysOf body).loop true
  | .block body _ => waysOf body
  | .leaveLoop _ => { breaks := true }
  | .giveBack _ _ => { returns := true }
  | .declaration _ _ _ | .expression _ _ | .nextRound _ => {}

/-- The ways of statements. -/
def waysOf : List Statement → Ways
  | [] => {}
  | first :: others => (ways first).or (waysOf others)

/-- The ways of an optional second branch. -/
def waysOtherwise : Option (List Statement) → Ways
  | none => {}
  | some statements => waysOf statements

end

/-- The ways of statements one after the other. -/
theorem waysOf_append (first others : List Statement) :
    waysOf (first ++ others) = (waysOf first).or (waysOf others) := by
  induction first with
  | nil => simp [waysOf, Ways.or]
  | cons statement later ih => simp [waysOf, Ways.or, ih, Bool.or_assoc]

end Statement

/-! ## Onward -/

/-- Control stays in the function and goes from an index onward, up to the given one. -/
structure Instruction.Onward (last index : Nat) (instruction : Instruction) : Prop where
  /-- The function is not left. -/
  stays : instruction ≠ .giveBack
  /-- Every follower comes later. -/
  later : ∀ follower ∈ instruction.followers index, index < follower ∧ follower ≤ last

namespace Instruction.Onward

variable {instruction : Instruction} {last index target : Nat}

/-- An instruction after which the next one follows. -/
theorem next (followers : instruction.followers index = [index + 1]) (inside : index < last) :
    instruction.Onward last index where
  stays same := by
    rw [same] at followers
    cases followers
  later follower member := by
    rw [followers, List.mem_singleton] at member
    rw [member]
    exact ⟨Nat.lt_succ_self index, inside⟩

/-- A jump onward. -/
theorem jump (later : index < target) (inside : target ≤ last) :
    (Instruction.jump target).Onward last index where
  stays := nofun
  later follower member := by
    rw [List.mem_singleton.mp member]
    exact ⟨later, inside⟩

/-- A jump onward that is taken on a condition. -/
theorem test (tests : instruction = .jumpIfFalse target ∨ instruction = .jumpIfTrue target)
    (later : index < target) (inside : target ≤ last) : instruction.Onward last index where
  stays same := by rcases tests with rfl | rfl <;> cases same
  later follower member := by
    have either : follower = target ∨ follower = index + 1 := by
      rcases tests with rfl | rfl <;> simpa [Instruction.followers] using member
    omega

end Instruction.Onward

section Flow

variable {functions : FunctionTable} {localCount : Nat} {scope after : Scope} {start last : Nat}
  {position : Position} {segment : List Placed}

namespace Expression

/-- What a name is read with is followed by the next instruction. -/
theorem followers_of_nameInstruction {text : String} {instruction : Instruction}
    (meant : Formula.nameInstruction scope text = .ok instruction) (index : Nat) :
    instruction.followers index = [index + 1] := by
  unfold Formula.nameInstruction at meant
  repeat' split at meant
  all_goals cases meant
  all_goals rfl

/-- **In the code of an expression control goes only onward.** -/
theorem Emits.onward {expression : Expression String}
    (emits : Emits functions scope start expression segment)
    (inside : start + segment.length ≤ last) :
    Throughout (Instruction.Onward last) start segment := by
  -- by induction on the rules, for single expressions and for lists of them at once
  refine @Emits.rec functions scope
    (fun start _ segment _ => start + segment.length ≤ last →
      Throughout (Instruction.Onward last) start segment)
    (fun start _ segment _ => start + segment.length ≤ last →
      Throughout (Instruction.Onward last) start segment)
    ?number ?name ?binary ?logical ?unary ?changeLocal ?changeSlot ?conditional ?assignLocal
    ?updateLocal ?assignSlot ?updateSlot ?drive ?call ?index ?nil ?cons start
      expression segment emits
    inside
  case number | changeLocal =>
    intros
    rename_i inside
    exact ⟨.next rfl inside, trivial⟩
  case name =>
    exact fun meant inside => ⟨.next (followers_of_nameInstruction meant _) inside, trivial⟩
  case binary | assignSlot =>
    intros
    rename_i left right inside
    simp only [throughout_append, List.length_append, List.length_singleton] at inside ⊢
    exact ⟨⟨left (by omega), right (by omega)⟩, .next rfl (by omega), trivial⟩
  case logical =>
    intro _ connective _ _ _ _ _ _ _ left right inside
    have tests (target : Nat) : Formula.decidingJump connective target = .jumpIfFalse target ∨
        Formula.decidingJump connective target = .jumpIfTrue target := by
      cases connective
      · exact .inl rfl
      · exact .inr rfl
    simp only [throughout_append, throughout_cons, List.length_append, List.length_cons,
      List.length_nil] at inside ⊢
    exact ⟨⟨left (by omega), .test (tests _) (by omega) (by omega), right (by omega)⟩,
      .test (tests _) (by omega) (by omega), .next rfl (by omega),
      .jump (by omega) (by omega), .next rfl (by omega), trivial⟩
  case unary | changeSlot | index | assignLocal | drive | call =>
    intros
    rename_i operand inside
    simp only [throughout_append, List.length_append, List.length_singleton] at inside ⊢
    exact ⟨operand (by omega), .next rfl (by omega), trivial⟩
  case conditional =>
    intro _ _ _ _ _ _ _ _ _ _ _ condition whenTrue whenFalse inside
    simp only [throughout_append, throughout_cons, List.length_append, List.length_cons] at inside ⊢
    refine ⟨⟨condition (by omega), .test (.inl rfl) (by omega) (by omega),
      whenTrue (by omega)⟩, .jump (by omega) (by omega), ?_⟩
    exact (whenFalse (by omega)).at (by omega)
  case updateLocal =>
    intro _ _ _ _ _ _ _ _ _ _ value inside
    simp only [throughout_append, throughout_cons, List.length_append, List.length_cons,
      List.length_nil] at inside ⊢
    exact ⟨⟨.next rfl (by omega), value (by omega)⟩, .next rfl (by omega),
      .next rfl (by omega), trivial⟩
  case updateSlot =>
    intro _ _ _ _ _ _ _ _ _ _ _ _ subscript value inside
    simp only [throughout_append, throughout_cons, List.length_append, List.length_cons,
      List.length_nil] at inside ⊢
    exact ⟨⟨subscript (by omega), .next rfl (by omega), .next rfl (by omega),
      value (by omega)⟩, .next rfl (by omega), .next rfl (by omega), trivial⟩
  case nil => exact fun _ => trivial
  case cons =>
    intro _ _ _ _ _ _ _ first others inside
    rw [List.length_append] at inside
    rw [throughout_append]
    exact ⟨first (by omega), others (by omega)⟩

/-- An optional value is worked out onward. -/
theorem EmitsOrZero.onward {value : Option (Expression String)}
    (emits : EmitsOrZero functions scope start position value segment)
    (inside : start + segment.length ≤ last) :
    Throughout (Instruction.Onward last) start segment := by
  cases emits with
  | zero => exact ⟨.next rfl inside, trivial⟩
  | value emits => exact emits.onward inside

/-- An expression is evaluated for its effect onward. -/
theorem EmitsEffect.onward {value : Expression String}
    (emits : EmitsEffect functions scope start position value segment)
    (inside : start + segment.length ≤ last) :
    Throughout (Instruction.Onward last) start segment := by
  cases emits with
  | wait emits | evaluate emits =>
      rw [List.length_append, List.length_singleton] at inside
      rw [throughout_append]
      exact ⟨emits.onward (by omega), .next rfl (by omega), trivial⟩

/-- The condition of a `for` loop goes onward, also where it leaves the loop. -/
theorem EmitsGuard.onward {leave : Nat} {condition : Option (Expression String)}
    (emits : EmitsGuard functions scope start leave position condition segment)
    (later : start + segment.length ≤ leave) (inside : leave ≤ last) :
    Throughout (Instruction.Onward last) start segment := by
  cases emits with
  | always => trivial
  | condition emits =>
      rw [List.length_append, List.length_singleton] at later
      rw [throughout_append]
      exact ⟨emits.onward (by omega), .test (.inl rfl) (by omega) inside, trivial⟩

/-- The step of a `for` loop goes onward. -/
theorem EmitsAdvance.onward {step : Option (Expression String)}
    (emits : EmitsAdvance functions scope start position step segment)
    (inside : start + segment.length ≤ last) :
    Throughout (Instruction.Onward last) start segment := by
  cases emits with
  | nothing => trivial
  | step emits =>
      rw [List.length_append, List.length_singleton] at inside
      rw [throughout_append]
      exact ⟨emits.onward (by omega), .next rfl (by omega), trivial⟩

end Expression

/-- Declarations go onward. -/
theorem Declarator.Emits.onward {writable : Bool} {declarators : List Declarator}
    (emits : Declarator.Emits functions localCount writable scope start declarators segment after)
    (inside : start + segment.length ≤ last) :
    Throughout (Instruction.Onward last) start segment := by
  induction emits with
  | nil => trivial
  | cons _ value _ _ _ ih =>
      simp only [throughout_append, throughout_cons, List.length_append,
        List.length_cons] at inside ⊢
      exact ⟨value.onward (by omega), .next rfl (by omega), .next rfl (by omega), ih (by omega)⟩

/-- The first clause of a `for` loop goes onward. -/
theorem ForStart.Emits.onward {first : ForStart}
    (emits : first.Emits functions localCount scope start segment after)
    (inside : start + segment.length ≤ last) :
    Throughout (Instruction.Onward last) start segment := by
  cases emits with
  | nothing => trivial
  | declaration emits => exact emits.onward inside
  | expression emits => exact emits.onward inside

/-! ## Statements -/

/-- The instruction at an index is a tick. -/
def Code.TicksAt (code : Code) (index : Nat) : Prop :=
  code.body[index]?.map Placed.instruction = some .tick

/-- Where control may go from an index in the code of a statement with the given ways, which lies
from the index `first` up to the index `last`. -/
inductive Goes (code : Code) (targets : Option LoopTargets) (ways : Ways) (first last index : Nat) :
    Nat → Prop
  /-- Onward, not further than to what comes after the statement. -/
  | onward {follower : Nat} :
      index < follower → follower ≤ last → Goes code targets ways first last index follower
  /-- Back in the statement, to a tick if no loop rewinds. -/
  | again {follower : Nat} :
      first ≤ follower → follower ≤ index → (ways.rewinds = false → code.TicksAt follower) →
      Goes code targets ways first last index follower
  /-- Out of the innermost loop around the statement. -/
  | leave {loop : LoopTargets} :
      targets = some loop → ways.breaks = true → Goes code targets ways first last index loop.leave
  /-- To the next round of that loop. -/
  | next {loop : LoopTargets} :
      targets = some loop → Goes code targets ways first last index loop.next

/-- What an instruction in the code of a statement does with control. -/
structure Steady (code : Code) (targets : Option LoopTargets) (ways : Ways) (first last index : Nat)
    (instruction : Instruction) : Prop where
  /-- Only a `return` leaves the function. -/
  stays : instruction = .giveBack → ways.returns = true
  /-- Control goes on where it may go. -/
  goes : ∀ follower ∈ instruction.followers index, Goes code targets ways first last index follower

variable {code : Code} {targets : Option LoopTargets} {ways others : Ways}
  {first index target : Nat}
  {instruction : Instruction}

/-- Control that goes only onward is steady. -/
theorem Instruction.Onward.steady (onward : instruction.Onward last index) :
    Steady code targets ways first last index instruction where
  stays same := absurd same onward.stays
  goes follower member := .onward (onward.later follower member).1 (onward.later follower member).2

/-- A segment in which control goes only onward is steady. -/
theorem Throughout.steady (onward : Throughout (Instruction.Onward last) start segment) :
    Throughout (Steady code targets ways first last) start segment :=
  onward.imp fun _ _ _ _ onward => onward.steady

/-- A jump back to the beginning of a loop. -/
theorem Steady.again (inside : first ≤ target) (back : target ≤ index)
    (head : ways.rewinds = false → code.TicksAt target) :
    Steady code targets ways first last index (.jump target) where
  stays := nofun
  goes follower member := by
    rw [List.mem_singleton.mp member]
    exact .again inside back head

/-- What a statement does with control, a statement with more ways may do, too. -/
theorem Steady.among (steady : Steady code targets ways first last index instruction)
    (among : ways.Among others) : Steady code targets others first last index instruction where
  stays same := among.returns (steady.stays same)
  goes follower member := by
    cases steady.goes follower member with
    | onward later inside => exact .onward later inside
    | again inside back head =>
        exact .again inside back fun none => head (eq_false_of_ne_true fun rewinds => by
          rw [among.rewinds rewinds] at none
          cases none)
    | leave same breaks => exact .leave same (among.breaks breaks)
    | next same => exact .next same

namespace Statement

/-- Control in a segment of the code goes as the ways of its statements tell, and not further than
where the code around them begins and ends. -/
def Flows (code : Code) (targets : Option LoopTargets) (ways : Ways) (start : Nat)
    (segment : List Placed) : Prop :=
  code.Contains start segment → ∀ first last, first ≤ start → start + segment.length ≤ last →
    Throughout (Steady code targets ways first last) start segment

/-- A segment of a statement with more ways. -/
theorem Flows.among (flows : Flows code targets ways start segment) (among : ways.Among others) :
    Flows code targets others start segment :=
  fun contains first last begins ends =>
    (flows contains first last begins ends).imp fun _ _ _ _ steady => steady.among among

/-- The body of a loop, inside the code of the loop: a `break` goes onward, and a `continue` either
does so or goes back to the beginning of the loop. -/
theorem Flows.body {loop : LoopTargets} {rewinds : Bool}
    (flows : Flows code (some loop) ways start segment) (contains : code.Contains start segment)
    (begins : first ≤ start) (ends : start + segment.length ≤ last)
    (leave : start + segment.length ≤ loop.leave ∧ loop.leave ≤ last)
    (next : (start + segment.length ≤ loop.next ∧ loop.next ≤ last) ∨
      (first ≤ loop.next ∧ loop.next ≤ start ∧ (rewinds = false → code.TicksAt loop.next))) :
    Throughout (Steady code targets (ways.loop rewinds) first last) start segment := by
  refine (flows contains first last begins ends).imp fun index instruction after inside steady => ?_
  refine ⟨steady.stays, fun follower member => ?_⟩
  cases steady.goes follower member with
  | onward later inside => exact .onward later inside
  | again inside back head =>
      exact .again inside back fun none => head (Bool.or_eq_false_iff.mp none).1
  | leave same =>
      obtain rfl := Option.some.inj same
      exact .onward (by omega) leave.2
  | next same =>
      obtain rfl := Option.some.inj same
      rcases next with ⟨later, within⟩ | ⟨within, back, head⟩
      · exact .onward (by omega) within
      · exact .again within (by omega) fun none => head (Bool.or_eq_false_iff.mp none).2

section Forms

variable {conditionCode bodyCode trueCode falseCode : List Placed} {body whenTrue whenFalse : Ways}
  {otherwise : Nat}

/-- A branch. -/
theorem flows_branch
    (condition : ∀ last, start + conditionCode.length ≤ last →
      Throughout (Instruction.Onward last) start conditionCode)
    (flows : Flows code targets whenTrue (start + conditionCode.length + 1) trueCode) :
    Flows code targets whenTrue start
      (conditionCode ++
        ⟨.jumpIfFalse (start + conditionCode.length + 1 + trueCode.length), position⟩ ::
        trueCode) := by
  intro contains first last begins ends
  simp only [throughout_append, throughout_cons, Code.contains_append, Code.contains_cons,
    List.length_append, List.length_cons] at contains ends ⊢
  exact ⟨(condition last (by omega)).steady,
    (Instruction.Onward.test (.inl rfl) (by omega) (by omega)).steady,
    flows contains.2.2 first last (by omega) (by omega)⟩

/-- Two branches. -/
theorem flows_branches
    (condition : ∀ last, start + conditionCode.length ≤ last →
      Throughout (Instruction.Onward last) start conditionCode)
    (trueFlows : Flows code targets whenTrue (start + conditionCode.length + 1) trueCode)
    (falseFlows : Flows code targets whenFalse
      (start + conditionCode.length + 1 + trueCode.length + 1) falseCode) :
    Flows code targets (whenTrue.or whenFalse) start
      (conditionCode ++
        ⟨.jumpIfFalse (start + conditionCode.length + 1 + trueCode.length + 1), position⟩ ::
        trueCode ++
        ⟨.jump (start + conditionCode.length + 1 + trueCode.length + 1 + falseCode.length),
          position⟩ :: falseCode) := by
  intro contains first last begins ends
  simp only [throughout_append, throughout_cons, Code.contains_append, Code.contains_cons,
    List.length_append, List.length_cons] at contains ends ⊢
  obtain ⟨⟨-, -, trueContains⟩, -, falseContains⟩ := contains
  refine ⟨⟨(condition last (by omega)).steady,
    (Instruction.Onward.test (.inl rfl) (by omega) (by omega)).steady,
    trueFlows.among .left trueContains first last (by omega) (by omega)⟩,
    (Instruction.Onward.jump (by omega) (by omega)).steady, ?_⟩
  have behind : start + (conditionCode.length + (trueCode.length + 1)) + 1 =
      start + conditionCode.length + 1 + trueCode.length + 1 := by omega
  rw [behind] at falseContains ⊢
  exact falseFlows.among .right falseContains first last (by omega) (by omega)

/-- A loop that suspends the program in each round. -/
theorem flows_forever
    (flows : Flows code (some ⟨start + bodyCode.length + 2, start⟩) body (start + 1) bodyCode) :
    Flows code targets (body.loop false) start
      (⟨.tick, position⟩ :: bodyCode ++ [⟨.jump start, position⟩]) := by
  intro contains first last begins ends
  simp only [throughout_append, throughout_cons, Code.contains_append, Code.contains_cons,
    List.length_append, List.length_cons, List.length_nil] at contains ends ⊢
  obtain ⟨⟨head, bodyContains⟩, -⟩ := contains
  have ticks : code.TicksAt start := by
    rw [Code.TicksAt, head]
    rfl
  refine ⟨⟨(Instruction.Onward.next rfl (by omega)).steady, ?_⟩,
    .again begins (by omega) fun _ => ticks, trivial⟩
  exact flows.body bodyContains (by omega) (by omega) ⟨by simp only; omega, by simp only; omega⟩
    (.inr ⟨begins, by simp only; omega, fun _ => ticks⟩)

/-- A loop with a condition. -/
theorem flows_whileLoop
    (condition : ∀ last, start + conditionCode.length ≤ last →
      Throughout (Instruction.Onward last) start conditionCode)
    (flows : Flows code
      (some ⟨start + conditionCode.length + 1 + bodyCode.length + 1, start⟩) body
      (start + conditionCode.length + 1) bodyCode) :
    Flows code targets (body.loop true) start
      (conditionCode ++
        ⟨.jumpIfFalse (start + conditionCode.length + 1 + bodyCode.length + 1), position⟩ ::
        bodyCode ++ [⟨.jump start, position⟩]) := by
  intro contains first last begins ends
  simp only [throughout_append, throughout_cons, Code.contains_append, Code.contains_cons,
    List.length_append, List.length_cons, List.length_nil] at contains ends ⊢
  obtain ⟨⟨-, -, bodyContains⟩, -⟩ := contains
  have rewinds : (body.loop true).rewinds = true := Bool.or_true _
  refine ⟨⟨(condition last (by omega)).steady,
    (Instruction.Onward.test (.inl rfl) (by omega) (by omega)).steady, ?_⟩,
    .again begins (by omega) (absurd · (ne_false_of_eq_true rewinds)), trivial⟩
  exact flows.body bodyContains (by omega) (by omega) ⟨by simp only; omega, by simp only; omega⟩
    (.inr ⟨begins, by simp only; omega, fun same => absurd same.symm Bool.false_ne_true⟩)

/-- A loop with its condition at the end. -/
theorem flows_doLoop
    (flows : Flows code
      (some ⟨start + bodyCode.length + conditionCode.length + 1, start + bodyCode.length⟩) body
      start bodyCode)
    (condition : ∀ last, start + bodyCode.length + conditionCode.length ≤ last →
      Throughout (Instruction.Onward last) (start + bodyCode.length) conditionCode) :
    Flows code targets (body.loop true) start
      (bodyCode ++ conditionCode ++ [⟨.jumpIfTrue start, position⟩]) := by
  intro contains first last begins ends
  simp only [throughout_append, throughout_cons, Code.contains_append, List.length_append,
    List.length_cons, List.length_nil] at contains ends ⊢
  have rewinds : (body.loop true).rewinds = true := Bool.or_true _
  refine ⟨⟨?_, (condition last (by omega)).steady⟩,
    ⟨fun same => Instruction.noConfusion same, ?_⟩, trivial⟩
  · exact flows.body contains.1.1 begins (by omega) ⟨by simp only; omega, by simp only; omega⟩
      (.inl ⟨by simp only; omega, by simp only; omega⟩)
  · -- the jump at the end is taken back to the body or not at all
    intro follower member
    have either : follower = start ∨
        follower = start + (bodyCode.length + conditionCode.length) + 1 := by
      simpa [Instruction.followers] using member
    rcases either with rfl | rfl
    · exact .again begins (by omega) (absurd · (ne_false_of_eq_true rewinds))
    · exact .onward (by omega) (by omega)

end Forms

/-- A `for` loop. -/
theorem flows_forLoop {inside : Scope} {clause : ForStart}
    {condition step : Option (Expression String)} {body : Ways}
    {firstCode guardCode bodyCode stepCode : List Placed}
    (firstEmits : clause.Emits functions localCount scope.opened start firstCode inside)
    (guardEmits : Expression.EmitsGuard functions inside (start + firstCode.length)
      (start + firstCode.length + guardCode.length + bodyCode.length + stepCode.length + 1)
      position condition guardCode)
    (flows : Flows code
      (some ⟨start + firstCode.length + guardCode.length + bodyCode.length + stepCode.length + 1,
        start + firstCode.length + guardCode.length + bodyCode.length⟩) body
      (start + firstCode.length + guardCode.length) bodyCode)
    (stepEmits : Expression.EmitsAdvance functions inside
      (start + firstCode.length + guardCode.length + bodyCode.length) position step stepCode) :
    Flows code targets (body.loop true) start
      (firstCode ++ guardCode ++ bodyCode ++ stepCode ++
        [⟨.jump (start + firstCode.length), position⟩]) := by
  intro contains first last begins ends
  simp only [throughout_append, throughout_cons, Code.contains_append, List.length_append,
    List.length_cons, List.length_nil, ← Nat.add_assoc] at contains ends ⊢
  have rewinds : (body.loop true).rewinds = true := Bool.or_true _
  refine ⟨⟨⟨⟨(firstEmits.onward (by omega)).steady,
    (guardEmits.onward (by omega) (by omega)).steady⟩, ?_⟩, (stepEmits.onward (by omega)).steady⟩,
    .again (by omega) (by omega) (absurd · (ne_false_of_eq_true rewinds)), trivial⟩
  exact flows.body contains.1.1.2 (by omega) (by omega) ⟨by simp only; omega, by simp only; omega⟩
    (.inl ⟨by simp only; omega, by simp only; omega⟩)

/-- **In the code of statements control goes only in their ways.** -/
theorem EmitsAll.flows {statements : List Statement}
    (emits : EmitsAll functions localCount targets scope start statements segment after) :
    Flows code targets (waysOf statements) start segment := by
  -- by induction on the rules, for single statements and for lists of them at once
  refine @EmitsAll.rec functions localCount
    (fun targets _ start statement segment _ _ => Flows code targets statement.ways start segment)
    (fun targets _ start statements segment _ _ =>
      Flows code targets (waysOf statements) start segment)
    ?declaration ?expression ?branch ?branches ?forever ?whileLoop ?doLoop ?forLoop
      ?block ?leaveLoop
    ?nextRound ?giveBack ?nil ?cons targets scope start statements segment after emits
  case declaration => exact fun emits _ _ _ _ ends => (emits.onward ends).steady
  case expression => exact fun emits _ _ _ _ ends => (emits.onward ends).steady
  case branch =>
    intro _ _ _ _ _ _ _ _ _ condition _ whenTrue
    rw [ways]
    exact (flows_branch (fun _ => condition.onward) whenTrue).among .left
  case branches =>
    intro _ _ _ _ _ _ _ _ _ _ _ _ condition _ _ whenTrue whenFalse
    rw [ways]
    exact flows_branches (fun _ => condition.onward) whenTrue whenFalse
  case forever =>
    intro _ _ _ _ _ _ _ _ truth _ body
    rw [ways, truth]
    exact flows_forever body
  case whileLoop =>
    intro _ _ _ _ _ _ _ _ _ untrue condition _ body
    rw [ways, untrue]
    exact flows_whileLoop (fun _ => condition.onward) body
  case doLoop =>
    intro _ _ _ _ _ _ _ _ _ _ condition body
    rw [ways]
    exact flows_doLoop body fun _ => condition.onward
  case forLoop =>
    intro _ _ _ _ _ _ _ _ _ _ _ _ _ _ first guard _ step body
    rw [ways]
    exact flows_forLoop first guard body step
  case block =>
    intro _ _ _ _ _ _ _ _ body
    rw [ways]
    exact body
  case leaveLoop =>
    intro _ _ _ _ _ first last _ _
    refine ⟨⟨nofun, fun follower member => ?_⟩, trivial⟩
    rw [List.mem_singleton.mp member]
    exact .leave rfl rfl
  case nextRound =>
    intro _ _ _ _ _ first last _ _
    refine ⟨⟨nofun, fun follower member => ?_⟩, trivial⟩
    rw [List.mem_singleton.mp member]
    exact .next rfl
  case giveBack =>
    intro _ _ _ _ _ _ emits _ _ _ _ ends
    rw [List.length_append, ← Nat.add_assoc] at ends
    rw [throughout_append]
    have inside := Nat.le_trans (Nat.le_add_right _ _) ends
    exact ⟨(emits.onward inside).steady, ⟨fun _ => rfl, nofun⟩, trivial⟩
  case nil => exact fun _ _ _ _ _ => trivial
  case cons =>
    intro _ _ _ _ _ _ _ _ _ _ _ first others contains begin last begins ends
    rw [Code.contains_append] at contains
    rw [List.length_append] at ends
    rw [throughout_append, waysOf]
    exact ⟨first.among .left contains.1 begin last begins (by omega),
      others.among .right contains.2 begin last (by omega) (by omega)⟩

end Statement

end Flow

end LineRobot
