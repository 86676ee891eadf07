import LineRobot.Proofs.Code.Compiled
import LineRobot.Proofs.Code.Segment

/-! # Where code suspends the program

The code of a function suspends the program just where its text says so. Of a statement, its
`Outline` has the loops without a condition, the waits, and what continues the innermost loop around
it; of a segment of code, `ticksOf`, `waitsOf` and `jumpsTo` have the instructions that could belong
to them. Along the rules that say what code a statement has, the two agree
(`Statement.EmitsAll.suspends`): expressions neither suspend the program nor go back
(`Expression.Emits.calm`), and a loop keeps its own jumps inside (`Suspends.inLoop`). -/

namespace LineRobot

/-! ## The outline of statements -/

/-- Whether an expression is a call of the wait function. -/
def Expression.isWait : Expression String → Bool
  | .call callee _ _ => callee = Vocabulary.wait
  | _ => false

/-- A loop whose condition is the bare constant for truth. -/
structure EndlessLoop where
  /-- The statements of a round. -/
  body : List Statement
  /-- The place of the loop. -/
  position : Position

/-- What statements say about suspending the program. -/
structure Outline where
  /-- The loops without a condition, each one before those inside it. -/
  loops : List EndlessLoop := []
  /-- The places of the waits. -/
  waits : List Position := []
  /-- The places at which the innermost loop around the statements is continued. -/
  continues : List Position := []

namespace Outline

/-- The outline of statements one after the other. -/
def append (first second : Outline) : Outline where
  loops := first.loops ++ second.loops
  waits := first.waits ++ second.waits
  continues := first.continues ++ second.continues

/-- Nothing after statements leaves their outline. -/
theorem append_empty (outline : Outline) : outline.append {} = outline := by
  simp [append]

/-- The outline of a loop with a body of the given outline: what continues the loop does not
continue the one around it. -/
def inLoop (body : Outline) : Outline :=
  { body with continues := [] }

/-- The outline of a loop without a condition. -/
def inEndless (body : Outline) (loop : EndlessLoop) : Outline where
  loops := loop :: body.loops
  waits := body.waits

/-- The outline of an expression statement. -/
def ofEffect (value : Expression String) (position : Position) : Outline where
  waits := if value.isWait then [position] else []

end Outline

/-- The outline of the first clause of a `for` loop. -/
def ForStart.outline : ForStart → Outline
  | .expression value position => .ofEffect value position
  | .nothing | .declaration _ _ _ => {}

namespace Statement

mutual

/-- The outline of a statement. -/
def outline : Statement → Outline
  | .expression value position => .ofEffect value position
  | .branch _ whenTrue whenFalse _ => (outlineOf whenTrue).append (outlineOtherwise whenFalse)
  | .whileLoop condition body position =>
    if Step.isTruth condition then (outlineOf body).inEndless ⟨body, position⟩
    else (outlineOf body).inLoop
  | .doLoop body _ _ => (outlineOf body).inLoop
  | .forLoop start _ _ body _ => start.outline.append (outlineOf body).inLoop
  | .block body _ => outlineOf body
  | .nextRound position => { continues := [position] }
  | .declaration _ _ _ | .leaveLoop _ | .giveBack _ _ => {}

/-- The outline of statements. -/
def outlineOf : List Statement → Outline
  | [] => {}
  | first :: others => (outline first).append (outlineOf others)

/-- The outline of an optional second branch. -/
def outlineOtherwise : Option (List Statement) → Outline
  | none => {}
  | some statements => outlineOf statements

end

end Statement

/-! ## The suspensions of code -/

namespace Instruction

/-- The index that a jump goes on at. -/
def target? : Instruction → Option Nat
  | jump target | jumpIfFalse target | jumpIfTrue target => some target
  | _ => none

/-- An instruction neither suspends the program nor jumps to before an index. -/
def Calm (low : Nat) : Instruction → Prop
  | tick | wait => False
  | jump target | jumpIfFalse target | jumpIfTrue target => low ≤ target
  | _ => True

variable {low target : Nat}

@[simp] theorem calm_jump : (jump target).Calm low ↔ low ≤ target :=
  Iff.rfl

@[simp] theorem calm_jumpIfFalse : (jumpIfFalse target).Calm low ↔ low ≤ target :=
  Iff.rfl

@[simp] theorem calm_jumpIfTrue : (jumpIfTrue target).Calm low ↔ low ≤ target :=
  Iff.rfl

end Instruction

/-- The indices of the ticks of a segment that begins at an index. -/
def ticksOf (start : Nat) (segment : List Placed) : List Nat :=
  segment.findIdxs (fun placed => placed.instruction = .tick) start

/-- The places of the waits of a segment. -/
def waitsOf (segment : List Placed) : List Position :=
  (segment.filter fun placed => placed.instruction = .wait).map Placed.position

/-- The jumps of a segment to an index. -/
def jumpsTo (target : Nat) (segment : List Placed) : List Placed :=
  segment.filter fun placed => placed.instruction.target? = some target

/-- A loop without a condition spans the code from an index on: it begins there with a tick and ends
with a jump back to the tick, and the instructions between them are those of its statements. -/
structure EndlessLoop.Spans (code : Code) (loop : EndlessLoop) (head : Nat)
    (inside : List Placed) : Prop where
  /-- Its instructions, and what is inside. -/
  whole : code.Contains head (⟨.tick, loop.position⟩ :: inside ++ [⟨.jump head, loop.position⟩])
  /-- The other jumps to the tick are those that continue the loop. -/
  continues : jumpsTo head inside =
    (Statement.outlineOf loop.body).continues.map fun position => ⟨.jump head, position⟩
  /-- The waits inside are those of its statements. -/
  waits : waitsOf inside = (Statement.outlineOf loop.body).waits
  /-- The ticks inside are as many as the loops without a condition among its statements. -/
  ticks : (ticksOf (head + 1) inside).length = (Statement.outlineOf loop.body).loops.length

/-- A loop without a condition has its tick at an index. -/
def EndlessLoop.HasTick (code : Code) (loop : EndlessLoop) (head : Nat) : Prop :=
  ∃ inside, loop.Spans code head inside

/-- A segment of the code, in a loop with the given targets if it is in one, suspends the program as
an outline says. Of the indices before `low` it jumps just to those of the loop. -/
structure Suspends (code : Code) (targets : Option LoopTargets) (low start : Nat)
    (segment : List Placed) (outline : Outline) : Prop where
  /-- Each tick belongs to a loop without a condition. -/
  ticks : code.Contains start segment →
    List.Forall₂ (EndlessLoop.HasTick code) outline.loops (ticksOf start segment)
  /-- Each wait is one of the outline. -/
  waits : waitsOf segment = outline.waits
  /-- Each jump to the next round of the loop is one of the outline. -/
  jumps : ∀ target < low, (∀ loop ∈ targets, loop.leave ≠ target) →
    jumpsTo target segment =
      if targets.map LoopTargets.next = some target then
        outline.continues.map fun position => ⟨.jump target, position⟩
      else []

/-- No instruction of a segment suspends the program or jumps to before an index. -/
def Calm (low : Nat) (segment : List Placed) : Prop :=
  ∀ placed ∈ segment, placed.instruction.Calm low

section Calm

variable {low : Nat}

@[simp] theorem calm_nil : Calm low [] :=
  List.forall_mem_nil _

@[simp] theorem calm_cons {placed : Placed} {others : List Placed} :
    Calm low (placed :: others) ↔ placed.instruction.Calm low ∧ Calm low others :=
  List.forall_mem_cons

@[simp] theorem calm_append {first others : List Placed} :
    Calm low (first ++ others) ↔ Calm low first ∧ Calm low others :=
  List.forall_mem_append

/-- A calm instruction is no tick. -/
theorem Instruction.Calm.ne_tick {instruction : Instruction} (calm : instruction.Calm low) :
    instruction ≠ .tick := by
  rintro rfl
  exact calm

/-- A calm instruction is no wait. -/
theorem Instruction.Calm.ne_wait {instruction : Instruction} (calm : instruction.Calm low) :
    instruction ≠ .wait := by
  rintro rfl
  exact calm

/-- A calm instruction does not jump to before the index. -/
theorem Instruction.Calm.target?_ne {instruction : Instruction} (calm : instruction.Calm low)
    {target : Nat} (before : target < low) : instruction.target? ≠ some target := by
  intro jumps
  cases instruction with
  | jump other | jumpIfFalse other | jumpIfTrue other =>
      cases jumps
      exact absurd calm (Nat.not_le_of_lt before)
  | _ => exact nomatch jumps

variable {segment : List Placed}

/-- Calm code has no ticks. -/
theorem Calm.ticksOf_eq (calm : Calm low segment) (start : Nat) : ticksOf start segment = [] :=
  List.findIdxs_eq_nil_iff.mpr fun placed member => decide_eq_false (calm placed member).ne_tick

/-- Calm code has no waits. -/
theorem Calm.waitsOf_eq (calm : Calm low segment) : waitsOf segment = [] := by
  have none : segment.filter (fun placed => placed.instruction = .wait) = [] :=
    List.filter_eq_nil_iff.mpr fun placed member => by
      simpa using (calm placed member).ne_wait
  rw [waitsOf, none, List.map_nil]

/-- Calm code does not jump to before the index. -/
theorem Calm.jumpsTo_eq (calm : Calm low segment) {target : Nat} (before : target < low) :
    jumpsTo target segment = [] :=
  List.filter_eq_nil_iff.mpr fun placed member => by
    simpa using (calm placed member).target?_ne before

end Calm

/-! ## Segments that suspend as an outline says -/

section Suspends

variable {code : Code} {targets : Option LoopTargets} {low high start : Nat} {placed : Placed}
  {front segment back : List Placed} {first second : Outline}

@[simp] theorem ticksOf_append :
    ticksOf start (front ++ back) = ticksOf start front ++ ticksOf (start + front.length) back :=
  List.findIdxs_append

@[simp] theorem waitsOf_append : waitsOf (front ++ back) = waitsOf front ++ waitsOf back := by
  rw [waitsOf, List.filter_append, List.map_append]
  rfl

@[simp] theorem jumpsTo_append {target : Nat} :
    jumpsTo target (front ++ back) = jumpsTo target front ++ jumpsTo target back :=
  List.filter_append _ _

/-- Calm code suspends nothing. -/
theorem Calm.suspends (calm : Calm low segment) : Suspends code targets low start segment {} where
  ticks _ := by
    rw [calm.ticksOf_eq]
    exact .nil
  waits := calm.waitsOf_eq
  jumps target before _ := by
    rw [calm.jumpsTo_eq before]
    exact (ite_self []).symm

namespace Suspends

/-- A segment that begins at an index, in whatever way the index is written. -/
theorem moved (suspends : Suspends code targets low start segment first) {index : Nat}
    (same : start = index) :
    Suspends code targets low index segment first :=
  same ▸ suspends

/-- Fewer indices are looked at. -/
theorem lower (suspends : Suspends code targets high start segment first) (le : low ≤ high) :
    Suspends code targets low start segment first where
  ticks := suspends.ticks
  waits := suspends.waits
  jumps target before := suspends.jumps target (Nat.lt_of_lt_of_le before le)

/-- Segments one after the other. -/
theorem append (here : Suspends code targets low start front first)
    (behind : Suspends code targets low (start + front.length) back second) :
    Suspends code targets low start (front ++ back) (first.append second) where
  ticks contains := by
    rw [Code.contains_append] at contains
    rw [ticksOf_append]
    exact List.rel_append (here.ticks contains.1) (behind.ticks contains.2)
  waits := by
    rw [waitsOf_append, here.waits, behind.waits]
    rfl
  jumps target before stays := by
    rw [jumpsTo_append, here.jumps target before stays, behind.jumps target before stays,
      Outline.append, List.map_append]
    split
    case isTrue => rfl
    case isFalse => rfl

/-- Calm code in front of a segment. -/
theorem behind (calm : Calm low front)
    (suspends : Suspends code targets low (start + front.length) back first) :
    Suspends code targets low start (front ++ back) first :=
  (calm.suspends).append suspends

/-- Calm code behind a segment. -/
theorem before (suspends : Suspends code targets low start front first) (calm : Calm low back) :
    Suspends code targets low start (front ++ back) first := by
  have whole := suspends.append calm.suspends
  rwa [Outline.append_empty] at whole

/-- A calm instruction in front of a segment. -/
theorem cons (calm : placed.instruction.Calm low)
    (suspends : Suspends code targets low (start + 1) back first) :
    Suspends code targets low start (placed :: back) first := by
  have alone : Calm low [placed] := calm_cons.mpr ⟨calm, calm_nil⟩
  exact behind alone suspends

/-- The body of a loop, seen from outside: what continues the loop goes to no index before it. -/
theorem inLoop {loop : LoopTargets} (suspends : Suspends code (some loop) high start segment first)
    (le : low ≤ high) (next : low ≤ loop.next) (leave : low ≤ loop.leave) :
    Suspends code targets low start segment first.inLoop where
  ticks := suspends.ticks
  waits := suspends.waits
  jumps target before _ := by
    have stays : ∀ other ∈ some loop, other.leave ≠ target := by
      rintro other ⟨⟩
      exact Nat.ne_of_gt (Nat.lt_of_lt_of_le before leave)
    have elsewhere : (some loop).map LoopTargets.next ≠ some target := by
      intro same
      exact Nat.ne_of_gt (Nat.lt_of_lt_of_le before next) (Option.some.inj same)
    rw [suspends.jumps target (Nat.lt_of_lt_of_le before le) stays, if_neg elsewhere]
    exact (ite_self []).symm

/-- A loop without a condition. -/
theorem forever {body : List Statement} {position : Position}
    (suspends : Suspends code (some ⟨start + segment.length + 2, start⟩) (start + 1)
      (start + 1) segment
      (Statement.outlineOf body)) :
    Suspends code targets start start (⟨.tick, position⟩ :: segment ++ [⟨.jump start, position⟩])
      ((Statement.outlineOf body).inEndless ⟨body, position⟩) := by
  have leave : start < start + segment.length + 2 := by omega
  -- the tick is before the body, so among the jumps of the body to
  -- earlier indices are those that continue the loop;
  -- from outside it is the first index of the loop, and these jumps stay inside
  have around : Suspends code targets start (start + 1) (segment ++ [⟨.jump start, position⟩])
      (Statement.outlineOf body).inLoop :=
    (suspends.inLoop (Nat.le_succ start) (Nat.le_refl start) (Nat.le_of_lt leave)).before
      (calm_cons.mpr ⟨Nat.le_refl start, calm_nil⟩)
  have head := suspends.jumps start (Nat.lt_succ_self start) (by
    rintro loop ⟨⟩
    exact Nat.ne_of_gt leave)
  refine ⟨fun contains => ?ticks, ?waits, fun target before stays => ?jumps⟩
  case ticks =>
    have inside : code.Contains (start + 1) segment :=
      ((Code.contains_append (start + 1) segment [⟨.jump start, position⟩]).mp contains.2).1
    have spans : EndlessLoop.Spans code ⟨body, position⟩ start segment :=
      ⟨contains, head.trans (if_pos rfl), suspends.waits, (suspends.ticks inside).length_eq.symm⟩
    have indices : ticksOf start (⟨.tick, position⟩ :: segment ++ [⟨.jump start, position⟩]) =
        start :: ticksOf (start + 1) (segment ++ [⟨.jump start, position⟩]) :=
      List.findIdxs_cons.trans (if_pos (decide_eq_true rfl))
    rw [indices]
    exact .cons ⟨segment, spans⟩ (around.ticks contains.2)
  case waits => exact around.waits
  case jumps => exact around.jumps target before stays

end Suspends

end Suspends

/-! ## Expressions are calm -/

section Syntax

variable {functions : FunctionTable} {localCount : Nat} {scope after : Scope} {start low : Nat}
  {position : Position} {segment : List Placed}

namespace Expression

/-- What a name is read with is calm. -/
theorem calm_of_nameInstruction {text : String} {instruction : Instruction}
    (meant : Formula.nameInstruction scope text = .ok instruction) : instruction.Calm low := by
  unfold Formula.nameInstruction at meant
  repeat' split at meant
  all_goals cases meant
  all_goals trivial

/-- The jump of a connective is calm if it goes to no index before. -/
theorem calm_decidingJump {connective : Connective} {target : Nat} (after : low ≤ target) :
    (Formula.decidingJump connective target).Calm low := by
  cases connective with
  | and => exact after
  | or => exact after

/-- **The code of an expression is calm.** -/
theorem Emits.calm {expression : Expression String}
    (emits : Emits functions scope start expression segment) (le : low ≤ start) :
    Calm low segment := by
  -- by induction on the rules, for single expressions and for lists of them at once
  refine @Emits.rec functions scope (fun start _ segment _ => low ≤ start → Calm low segment)
    (fun start _ segment _ => low ≤ start → Calm low segment)
    ?number ?name ?binary ?logical ?unary ?changeLocal ?changeSlot ?conditional ?assignLocal
    ?updateLocal ?assignSlot ?updateSlot ?drive ?call ?index ?nil ?cons start expression
      segment emits le
  case number | changeLocal =>
    intros
    exact calm_cons.mpr ⟨trivial, calm_nil⟩
  case name =>
    intro _ _ _ _ meant _
    exact calm_cons.mpr ⟨calm_of_nameInstruction meant, calm_nil⟩
  case binary | assignSlot =>
    intros
    rename_i left right le
    simp only [calm_append, calm_cons, calm_nil]
    exact ⟨⟨left le, right (by omega)⟩, trivial, trivial⟩
  case logical =>
    intro _ _ _ _ _ _ _ _ _ left right le
    simp only [calm_append, calm_cons, calm_nil]
    exact ⟨⟨left le, calm_decidingJump (by omega), right (by omega)⟩, calm_decidingJump (by omega),
      trivial, Instruction.calm_jump.mpr (by omega), trivial, trivial⟩
  case unary | changeSlot | index | assignLocal | drive | call =>
    intros
    rename_i operand le
    simp only [calm_append, calm_cons, calm_nil]
    exact ⟨operand le, trivial, trivial⟩
  case conditional =>
    intro _ _ _ _ _ _ _ _ _ _ _ condition whenTrue whenFalse le
    simp only [calm_append, calm_cons]
    exact ⟨⟨condition le, Instruction.calm_jumpIfFalse.mpr (by omega), whenTrue (by omega)⟩,
      Instruction.calm_jump.mpr (by omega), whenFalse (by omega)⟩
  case updateLocal =>
    intro _ _ _ _ _ _ _ _ _ _ value le
    simp only [calm_append, calm_cons, calm_nil]
    exact ⟨⟨trivial, value (by omega)⟩, trivial, trivial, trivial⟩
  case updateSlot =>
    intro _ _ _ _ _ _ _ _ _ _ _ _ subscript value le
    simp only [calm_append, calm_cons, calm_nil]
    exact ⟨⟨subscript le, trivial, trivial, value (by omega)⟩, trivial, trivial, trivial⟩
  case nil => exact fun _ => calm_nil
  case cons =>
    intro _ _ _ _ _ _ _ first others le
    exact calm_append.mpr ⟨first le, others (by omega)⟩

/-- No expression that leaves a value is a wait. -/
theorem Emits.isWait_eq_false {expression : Expression String}
    (emits : Emits functions scope start expression segment) : expression.isWait = false := by
  cases emits with
  | drive => exact decide_eq_false (by decide : Vocabulary.motor ≠ Vocabulary.wait)
  | call _ other => exact decide_eq_false other
  | _ => rfl

/-- An optional value is calm. -/
theorem EmitsOrZero.calm {value : Option (Expression String)}
    (emits : EmitsOrZero functions scope start position value segment) (le : low ≤ start) :
    Calm low segment := by
  cases emits with
  | zero => exact calm_cons.mpr ⟨trivial, calm_nil⟩
  | value emits => exact emits.calm le

/-- The condition of a `for` loop is calm. -/
theorem EmitsGuard.calm {leave : Nat} {condition : Option (Expression String)}
    (emits : EmitsGuard functions scope start leave position condition segment) (le : low ≤ start)
    (later : low ≤ leave) : Calm low segment := by
  cases emits with
  | always => exact calm_nil
  | condition emits =>
      simp only [calm_append, calm_cons, calm_nil]
      exact ⟨emits.calm le, later, trivial⟩

/-- The step of a `for` loop is calm. -/
theorem EmitsAdvance.calm {step : Option (Expression String)}
    (emits : EmitsAdvance functions scope start position step segment) (le : low ≤ start) :
    Calm low segment := by
  cases emits with
  | nothing => exact calm_nil
  | step emits =>
      simp only [calm_append, calm_cons, calm_nil]
      exact ⟨emits.calm le, trivial, trivial⟩

end Expression

/-- Declarations are calm. -/
theorem Declarator.Emits.calm {writable : Bool} {declarators : List Declarator}
    (emits : Declarator.Emits functions localCount writable scope start declarators segment after)
    (le : low ≤ start) : Calm low segment := by
  induction emits with
  | nil => exact calm_nil
  | cons _ value _ _ _ ih =>
      simp only [calm_append, calm_cons]
      exact ⟨value.calm le, trivial, trivial, ih (by omega)⟩

/-! ## Statements -/

variable {code : Code} {targets : Option LoopTargets}

/-- A wait behind calm code. -/
theorem Calm.suspends_wait (calm : Calm low segment) :
    Suspends code targets low start (segment ++ [⟨.wait, position⟩]) { waits := [position] } where
  ticks _ := by
    have none : ticksOf (start + segment.length) [⟨.wait, position⟩] = [] :=
      List.findIdxs_cons.trans (if_neg (by simp))
    rw [ticksOf_append, calm.ticksOf_eq, none]
    exact .nil
  waits := by
    rw [waitsOf_append, calm.waitsOf_eq]
    rfl
  jumps target before _ := by
    rw [jumpsTo_append, calm.jumpsTo_eq before]
    exact (ite_self []).symm

/-- An expression statement suspends the program if it is a wait. -/
theorem Expression.EmitsEffect.suspends {value : Expression String}
    (emits : EmitsEffect functions scope start position value segment) :
    Suspends code targets start start segment (.ofEffect value position) := by
  cases emits with
  | wait emits => exact (emits.calm (Nat.le_refl start)).suspends_wait
  | evaluate emits =>
      rw [Outline.ofEffect, emits.isWait_eq_false]
      have calm := emits.calm (Nat.le_refl start)
      have dropped : Calm start [⟨.pop, position⟩] := calm_cons.mpr ⟨trivial, calm_nil⟩
      exact (calm_append.mpr ⟨calm, dropped⟩).suspends

/-- The first clause of a `for` loop suspends the program if it is a wait. -/
theorem ForStart.Emits.suspends {first : ForStart}
    (emits : first.Emits functions localCount scope start segment after) :
    Suspends code targets start start segment first.outline := by
  cases emits with
  | nothing => exact calm_nil.suspends
  | declaration emits => exact (emits.calm (Nat.le_refl start)).suspends
  | expression emits => exact emits.suspends

namespace Statement

open Instruction (calm_jump calm_jumpIfFalse calm_jumpIfTrue)

section Forms

variable {conditionCode bodyCode trueCode falseCode : List Placed}
  {body whenTrue whenFalse : Outline}
  {otherwise : Nat}

/-- A condition that may jump over what follows it. -/
theorem suspends_test (condition : Calm start conditionCode)
    (suspends : Suspends code targets start (start + conditionCode.length + 1) bodyCode body)
    (later : start ≤ otherwise) :
    Suspends code targets start start
      (conditionCode ++ ⟨.jumpIfFalse otherwise, position⟩ :: bodyCode) body :=
  .behind condition (.cons (calm_jumpIfFalse.mpr later) suspends)

/-- Two branches. -/
theorem suspends_branches (condition : Calm start conditionCode)
    (trueSuspends : Suspends code targets (start + conditionCode.length + 1)
      (start + conditionCode.length + 1) trueCode whenTrue)
    (falseSuspends : Suspends code targets (start + conditionCode.length + 1 + trueCode.length + 1)
      (start + conditionCode.length + 1 + trueCode.length + 1) falseCode whenFalse) :
    Suspends code targets start start
      (conditionCode ++
        ⟨.jumpIfFalse (start + conditionCode.length + 1 + trueCode.length + 1), position⟩ ::
        trueCode ++
        ⟨.jump (start + conditionCode.length + 1 + trueCode.length + 1 + falseCode.length),
          position⟩ :: falseCode)
      (whenTrue.append whenFalse) := by
  refine (suspends_test condition (trueSuspends.lower (by omega)) (by omega)).append ?_
  refine .cons (calm_jump.mpr (by omega)) ?_
  refine (falseSuspends.lower (by omega)).moved ?_
  simp only [List.length_append, List.length_cons]
  omega

/-- A loop with a condition. -/
theorem suspends_whileLoop (condition : Calm start conditionCode)
    (suspends : Suspends code
      (some ⟨start + conditionCode.length + 1 + bodyCode.length + 1, start⟩)
      (start + conditionCode.length + 1) (start + conditionCode.length + 1) bodyCode body) :
    Suspends code targets start start
      (conditionCode ++
        ⟨.jumpIfFalse (start + conditionCode.length + 1 + bodyCode.length + 1), position⟩ ::
        bodyCode ++ [⟨.jump start, position⟩])
      body.inLoop := by
  have inside :
      Suspends code targets start (start + conditionCode.length + 1) bodyCode body.inLoop :=
    suspends.inLoop (by omega) (Nat.le_refl start) (by dsimp only; omega)
  have back : Calm start [⟨.jump start, position⟩] :=
    calm_cons.mpr ⟨calm_jump.mpr (Nat.le_refl start), calm_nil⟩
  exact (suspends_test condition inside (by omega)).before back

/-- A loop with its condition at the end. -/
theorem suspends_doLoop
    (suspends : Suspends code
      (some ⟨start + bodyCode.length + conditionCode.length + 1,
        start + bodyCode.length⟩) start start
      bodyCode body)
    (condition : Calm start conditionCode) :
    Suspends code targets start start (bodyCode ++ conditionCode ++ [⟨.jumpIfTrue start, position⟩])
      body.inLoop := by
  have inside : Suspends code targets start start bodyCode body.inLoop :=
    suspends.inLoop (Nat.le_refl start) (Nat.le_add_right start _) (by dsimp only; omega)
  have back : Calm start [⟨.jumpIfTrue start, position⟩] :=
    calm_cons.mpr ⟨calm_jumpIfTrue.mpr (Nat.le_refl start), calm_nil⟩
  exact (inside.before condition).before back

/-- A `for` loop. -/
theorem suspends_forLoop {firstCode guardCode stepCode : List Placed} {first : Outline}
    (firstSuspends : Suspends code targets start start firstCode first)
    (guard : Calm start guardCode)
    (suspends : Suspends code
      (some ⟨start + firstCode.length + guardCode.length + bodyCode.length + stepCode.length + 1,
        start + firstCode.length + guardCode.length + bodyCode.length⟩)
      (start + firstCode.length + guardCode.length) (start + firstCode.length + guardCode.length)
      bodyCode body)
    (step : Calm start stepCode) :
    Suspends code targets start start
      (firstCode ++ guardCode ++ bodyCode ++ stepCode ++
        [⟨.jump (start + firstCode.length), position⟩])
      (first.append body.inLoop) := by
  have inside : Suspends code targets start (start + firstCode.length + guardCode.length) bodyCode
      body.inLoop :=
    suspends.inLoop (by omega) (by dsimp only; omega) (by dsimp only; omega)
  have back : Calm start [⟨.jump (start + firstCode.length), position⟩] :=
    calm_cons.mpr ⟨calm_jump.mpr (Nat.le_add_right start _), calm_nil⟩
  have round := ((firstSuspends.before guard).append (inside.moved (by
    rw [List.length_append, Nat.add_assoc]))).before step
  exact round.before back

/-- A jump to one index. -/
theorem jumpsTo_jump (target other : Nat) :
    jumpsTo other [⟨.jump target, position⟩] =
      if target = other then [⟨.jump target, position⟩] else [] := by
  simp [jumpsTo, Instruction.target?, List.filter_cons]

/-- A jump out of the loop. -/
theorem suspends_leaveLoop (loop : LoopTargets) :
    Suspends code (some loop) low start [⟨.jump loop.leave, position⟩] {} where
  ticks _ := .nil
  waits := rfl
  jumps target _ stays := by
    rw [jumpsTo_jump, if_neg (stays loop rfl)]
    exact (ite_self []).symm

/-- A jump to the next round of the loop. -/
theorem suspends_nextRound (loop : LoopTargets) :
    Suspends code (some loop) low start [⟨.jump loop.next, position⟩]
      { continues := [position] } where
  ticks _ := .nil
  waits := rfl
  jumps target _ _ := by
    rw [jumpsTo_jump, Option.map_some]
    by_cases same : loop.next = target
    · rw [if_pos same, if_pos (congrArg some same), same]
      rfl
    · rw [if_neg same, if_neg (mt Option.some.inj same)]

end Forms

/-- **The code of statements suspends the program as their outline says.** -/
theorem EmitsAll.suspends {statements : List Statement}
    (emits : EmitsAll functions localCount targets scope start statements segment after) :
    Suspends code targets start start segment (outlineOf statements) := by
  -- by induction on the rules, for single statements and for lists of them at once
  refine @EmitsAll.rec functions localCount
    (fun targets _ start statement segment _ _ =>
      Suspends code targets start start segment statement.outline)
    (fun targets _ start statements segment _ _ =>
      Suspends code targets start start segment (outlineOf statements))
    ?declaration ?expression ?branch ?branches ?forever ?whileLoop ?doLoop ?forLoop
      ?block ?leaveLoop
    ?nextRound ?giveBack ?nil ?cons targets scope start statements segment after emits
  case declaration =>
    intro _ _ _ _ _ _ _ _ emits
    rw [outline]
    exact (emits.calm (Nat.le_refl _)).suspends
  case expression =>
    intro _ _ _ _ _ _ emits
    rw [outline]
    exact emits.suspends
  case branch =>
    intro _ _ _ _ _ _ _ _ _ condition _ whenTrue
    rw [outline, outlineOtherwise, Outline.append_empty]
    exact suspends_test (condition.calm (Nat.le_refl _)) (whenTrue.lower (by omega)) (by omega)
  case branches =>
    intro _ _ _ _ _ _ _ _ _ _ _ _ condition _ _ whenTrue whenFalse
    rw [outline, outlineOtherwise]
    exact suspends_branches (condition.calm (Nat.le_refl _)) whenTrue whenFalse
  case forever =>
    intro _ _ _ _ _ _ _ _ truth _ body
    rw [outline, if_pos truth]
    exact body.forever
  case whileLoop =>
    intro _ _ _ _ _ _ _ _ _ untrue condition _ body
    rw [outline, if_neg (ne_true_of_eq_false untrue)]
    exact suspends_whileLoop (condition.calm (Nat.le_refl _)) body
  case doLoop =>
    intro _ _ _ _ _ _ _ _ _ _ condition body
    rw [outline]
    exact suspends_doLoop body (condition.calm (Nat.le_add_right _ _))
  case forLoop =>
    intro _ _ _ _ _ _ _ _ _ _ _ _ _ _ first guard _ step body
    rw [outline]
    exact suspends_forLoop first.suspends (guard.calm (by omega) (by omega)) body
      (step.calm (by omega))
  case block =>
    intro _ _ _ _ _ _ _ _ body
    rw [outline]
    exact body
  case leaveLoop =>
    intro loop _ _ _
    rw [outline]
    exact suspends_leaveLoop loop
  case nextRound =>
    intro loop _ _ _
    rw [outline]
    exact suspends_nextRound loop
  case giveBack =>
    intro _ _ start _ position _ emits
    rw [outline]
    have left : Calm start [⟨.giveBack, position⟩] := calm_cons.mpr ⟨trivial, calm_nil⟩
    exact (calm_append.mpr ⟨emits.calm (Nat.le_refl start), left⟩).suspends
  case nil => exact calm_nil.suspends
  case cons =>
    intro _ _ _ _ _ _ _ _ _ _ _ first others
    rw [outlineOf]
    exact first.append (others.lower (Nat.le_add_right _ _))

end Statement

end Syntax

/-! ## Functions -/

/-- The code of a function suspends the program just where its statements say so. -/
structure Code.SuspendsAs (code : Code) (body : List Statement) : Prop where
  /-- There is one tick for each loop without a condition, to which just the loop itself and what
  continues it go back. -/
  ticks : List.Forall₂ (EndlessLoop.HasTick code) (Statement.outlineOf body).loops
    (ticksOf 0 code.body.toList)
  /-- There is one wait for each expression statement that waits. -/
  waits : waitsOf code.body.toList = (Statement.outlineOf body).waits
  /-- There are no other suspensions. -/
  points : code.suspensionPoints =
    (Statement.outlineOf body).loops.length + (Statement.outlineOf body).waits.length

/-- Every suspension is a tick or a wait. -/
theorem countP_isSuspension (segment : List Placed) (start : Nat) :
    segment.countP (fun placed => placed.instruction.isSuspension) =
      (ticksOf start segment).length + (waitsOf segment).length := by
  rw [ticksOf, waitsOf, List.length_findIdxs, List.length_map, ← List.countP_eq_length_filter]
  induction segment with
  | nil => rfl
  | cons placed others ih =>
      rw [List.countP_cons, List.countP_cons, List.countP_cons, ih]
      cases placed.instruction with
      | tick => simp [Instruction.isSuspension]; omega
      | wait => simp [Instruction.isSuspension]; omega
      | _ => simp [Instruction.isSuspension]

/-- The code of a function suspends the program as its body says. -/
theorem ParsedFunction.Emits.suspendsAs {functions : FunctionTable} {function : ParsedFunction}
    {parameters : List String} {code : Code} (emits : function.Emits functions parameters code) :
    code.SuspendsAs function.body := by
  obtain ⟨scope, body, after, -, emits, whole⟩ := emits.body
  have last : Calm 0 [⟨.push 0, function.position⟩, ⟨.giveBack, function.position⟩] :=
    calm_cons.mpr ⟨trivial, calm_cons.mpr ⟨trivial, calm_nil⟩⟩
  have suspends : Suspends code none 0 0 code.body.toList (Statement.outlineOf function.body) := by
    rw [whole]
    exact emits.suspends.before last
  have ticks := suspends.ticks Code.contains_body
  refine ⟨ticks, suspends.waits, ?_⟩
  rw [Code.suspensionPoints, ← Array.countP_toList, countP_isSuspension _ 0, suspends.waits,
    ticks.length_eq]

/-- **A program is suspended just where its text says so.** In the code of every function there is
one suspension for each loop without a condition, at which its rounds begin, and one for each
statement that waits. -/
theorem Program.suspendsAs_of_compile {source : String} {program : Program}
    (compiled : Program.compile source = .ok program) :
    ∃ parsed, ParsedProgram.ofSource source = .ok parsed ∧
      List.Forall₂ (fun function code => Code.SuspendsAs code function.body)
        (parsed.entry :: parsed.subroutines) program.functions := by
  obtain ⟨parsed, read, emits⟩ := Program.emits_of_compile compiled
  refine ⟨parsed, read, .cons emits.entry.suspendsAs ?_⟩
  exact emits.subroutines.imp fun function code emits => emits.suspendsAs

/-- A loop without a condition inside another one, with a wait in the first clause of a `for` loop,
one in a branch without braces, and loops that are continued: the code has a tick for each of the
two loops and a wait for each of the two calls, and no other suspension. -/
theorem Program.suspendsAs_of_compile_nested :
    let source :=
      "void user_main(void) \x7b int i; while (TRUE) \x7b for (wait_ms(5); i < 3; i++) " ++
      "if (i) continue; if (i) continue; else wait_ms(1); while (TRUE) break; \x7d \x7d"
    ∃ program code, Program.compile source = .ok program ∧ program.functions = [code] ∧
      (ticksOf 0 code.body.toList).length = 2 ∧ waitsOf code.body.toList = [⟨1, 51⟩, ⟨1, 114⟩] ∧
      code.suspensionPoints = 4 := by
  intro source
  have accepted : (Program.compile source).isOk = true := by decide +kernel
  have outlined : (ParsedProgram.ofSource source).toOption.map (fun parsed =>
      ((Statement.outlineOf parsed.entry.body).loops.length,
        (Statement.outlineOf parsed.entry.body).waits, parsed.subroutines.length)) =
        some (2, [⟨1, 51⟩, ⟨1, 114⟩], 0) := by decide +kernel
  cases compiled : Program.compile source with
  | error rejection =>
      rw [compiled] at accepted
      cases accepted
  | ok program =>
      obtain ⟨parsed, read, suspends⟩ := Program.suspendsAs_of_compile compiled
      rw [read] at outlined
      have numbers := Option.some.inj outlined
      simp only [Prod.mk.injEq] at numbers
      obtain ⟨loops, waits, none⟩ := numbers
      rw [List.length_eq_zero_iff.mp none] at suspends
      obtain ⟨code, rest, suspendsAs, noOther, functions⟩ := List.forall₂_cons_left_iff.mp suspends
      rw [List.forall₂_nil_left_iff.mp noOther] at functions
      refine ⟨program, code, rfl, functions, suspendsAs.ticks.length_eq.symm.trans loops,
        suspendsAs.waits.trans waits, ?_⟩
      rw [suspendsAs.points, loops, waits]
      rfl

end LineRobot
