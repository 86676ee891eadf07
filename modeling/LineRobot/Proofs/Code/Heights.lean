import LineRobot.Code.Program
import LineRobot.Proofs.Code.Segment

/-! # Heights of the operand stack

The number of operands that a call has on the stack is the same whenever it comes to a given
instruction. `Code.Fits` says this of heights for the instructions of a function: each instruction
finds the operands it takes, and control goes on only where the height is that of the operands left.

The heights of code are put together from those of its parts. `Leads` says that a segment can be
given heights between one at its beginning and one behind it, and has a rule for each way to build
code; jumps out of a segment go to places whose heights are promised to it. -/

namespace LineRobot

namespace Instruction

/-- The number of operands that an instruction takes off the stack. -/
def operands : Instruction → Nat
  | store _ | fetch _ | change .slot _ _ | unary _ | jumpIfFalse _ | jumpIfTrue _ => 1
  | pop | duplicate | giveBack | wait => 1
  | deposit | binary _ | motor => 2
  | call _ count => count
  | _ => 0

/-- The number of operands that an instruction leaves on the stack for those it takes. -/
def results : Instruction → Nat
  | jump _ | jumpIfFalse _ | jumpIfTrue _ | pop | giveBack | tick | wait => 0
  | duplicate => 2
  | _ => 1

/-- The indices at which a call can go on after the instruction at the given index. -/
def followers (index : Nat) : Instruction → List Nat
  | jump target => [target]
  | jumpIfFalse target | jumpIfTrue target => [target, index + 1]
  | giveBack => []
  | _ => [index + 1]

/-- The local and the function that an instruction names exist, the function with as many parameters
as there are arguments. -/
def Refers (program : Program) (localCount : Nat) : Instruction → Prop
  | load slot | store slot | change (.localSlot slot) _ _ => slot < localCount
  | call function count => ∃ code, program.function? function = some code ∧ code.arity = count
  | _ => True

/-- An instruction with a height fits the heights of the function it belongs to. -/
structure Fits (program : Program) (localCount : Nat) (heights : List Nat) (index height : Nat)
    (instruction : Instruction) : Prop where
  /-- What it names exists. -/
  refers : instruction.Refers program localCount
  /-- It finds its operands. -/
  enough : instruction.operands ≤ height
  /-- The program is suspended with no other operands on the stack. -/
  alone : instruction.isSuspension = true → height = instruction.operands
  /-- Control goes on where the height is that of the operands left. -/
  onward : ∀ follower ∈ instruction.followers index,
    heights[follower]? = some (height - instruction.operands + instruction.results)

end Instruction

/-- Heights of a function that fit its instructions. -/
structure Code.Fits (code : Code) (program : Program) (heights : List Nat) : Prop where
  /-- There is one for each instruction. -/
  length : heights.length = code.size
  /-- A call begins without operands. -/
  first : heights[0]? = some 0
  /-- Each one fits its instruction. -/
  instruction : ∀ (index : Nat) (placed : Placed), code.body[index]? = some placed →
    ∃ height, heights[index]? = some height ∧
      placed.instruction.Fits program code.localCount heights index height

section Segments

variable (program : Program) (localCount : Nat) (heights : List Nat)

/-- The heights from an index on are the given ones. -/
def HaveHeights (start : Nat) (others : List Nat) : Prop :=
  EachFrom (fun index height => heights[index]? = some height) start others

/-- The instructions of a segment fit the heights of its function. -/
def SegmentFits (start : Nat) (segment : List Placed) : Prop :=
  Throughout (fun index instruction => ∃ height, heights[index]? = some height ∧
    instruction.Fits program localCount heights index height) start segment

variable {program localCount heights}

@[simp] theorem haveHeights_nil (start : Nat) : HaveHeights heights start [] :=
  trivial

@[simp] theorem haveHeights_cons (start height : Nat) (others : List Nat) :
    HaveHeights heights start (height :: others) ↔
      heights[start]? = some height ∧ HaveHeights heights (start + 1) others :=
  Iff.rfl

/-- Heights one after the other. -/
@[simp] theorem haveHeights_append (start : Nat) (first others : List Nat) :
    HaveHeights heights start (first ++ others) ↔
      HaveHeights heights start first ∧ HaveHeights heights (start + first.length) others :=
  eachFrom_append start first others

/-- A list has its own heights behind any part of it. -/
theorem haveHeights_length (first others : List Nat) :
    HaveHeights (first ++ others) first.length others :=
  eachFrom_length first others

@[simp] theorem segmentFits_nil (start : Nat) : SegmentFits program localCount heights start [] :=
  trivial

@[simp] theorem segmentFits_cons (start : Nat) (placed : Placed) (others : List Placed) :
    SegmentFits program localCount heights start (placed :: others) ↔
      (∃ height, heights[start]? = some height ∧
        placed.instruction.Fits program localCount heights start height) ∧
      SegmentFits program localCount heights (start + 1) others :=
  Iff.rfl

/-- Segments one after the other. -/
@[simp] theorem segmentFits_append (start : Nat) (first others : List Placed) :
    SegmentFits program localCount heights start (first ++ others) ↔
      SegmentFits program localCount heights start first ∧
        SegmentFits program localCount heights (start + first.length) others :=
  throughout_append start first others

/-- Each instruction of a segment that fits has a height that fits. -/
theorem SegmentFits.getElem? {start offset : Nat} {segment : List Placed} {placed : Placed}
    (fits : SegmentFits program localCount heights start segment)
    (found : segment[offset]? = some placed) :
    ∃ height, heights[start + offset]? = some height ∧
      placed.instruction.Fits program localCount heights (start + offset) height :=
  Throughout.getElem? fits found

end Segments

/-- A segment can be given heights that begin with `before` and fit wherever the height behind the
segment is `after` and the promised places have the promised heights. -/
def Leads (program : Program) (localCount : Nat) (promises : List (Nat × Nat)) (start : Nat)
    (code : List Placed) (before after : Nat) : Prop :=
  ∃ labels : List Nat, labels.length = code.length ∧ (labels ++ [after]).head? = some before ∧
    ∀ heights, (∀ promise ∈ promises, heights[promise.1]? = some promise.2) →
      HaveHeights heights start (labels ++ [after]) →
        SegmentFits program localCount heights start code

namespace Leads

variable {program : Program} {localCount start before middle after target : Nat}
  {promises : List (Nat × Nat)} {code first others : List Placed} {position : Position}

/-- The height at the beginning is the first one. -/
theorem getElem?_start {labels heights : List Nat}
    (begins : (labels ++ [after]).head? = some before)
    (levels : HaveHeights heights start (labels ++ [after])) : heights[start]? = some before := by
  cases labels with
  | nil =>
      rw [← begins]
      exact levels.1
  | cons height later =>
      rw [← begins]
      exact levels.1

/-- More may be promised than is needed. -/
theorem weaken {more : List (Nat × Nat)}
    (leads : Leads program localCount promises start code before after)
    (subset : ∀ promise ∈ promises, promise ∈ more) :
    Leads program localCount more start code before after := by
  obtain ⟨labels, length, begins, fits⟩ := leads
  exact ⟨labels, length, begins, fun heights kept =>
    fits heights fun promise member => kept promise (subset promise member)⟩

/-- The height behind a segment need not be promised. -/
theorem toEnd {behind : Nat} (isBehind : behind = start + code.length)
    (leads : Leads program localCount ((behind, after) :: promises) start code before after) :
    Leads program localCount promises start code before after := by
  obtain ⟨labels, length, begins, fits⟩ := leads
  refine ⟨labels, length, begins, fun heights kept levels => fits heights ?_ levels⟩
  rw [haveHeights_append, length] at levels
  rw [isBehind]
  exact List.forall_mem_cons.mpr ⟨levels.2.1, kept⟩

/-- The height at the beginning of a segment need not be promised, as in a loop. -/
theorem toStart (leads : Leads program localCount ((start, before) :: promises) start code before
      after) :
    Leads program localCount promises start code before after := by
  obtain ⟨labels, length, begins, fits⟩ := leads
  refine ⟨labels, length, begins, fun heights kept levels => fits heights ?_ levels⟩
  exact List.forall_mem_cons.mpr ⟨getElem?_start begins levels, kept⟩

/-- No code keeps the height. -/
theorem nil : Leads program localCount promises start [] after after :=
  ⟨[], rfl, rfl, fun _ _ _ => trivial⟩

/-- One instruction. It goes on behind itself or where the height is promised. -/
theorem single {placed : Placed} (refers : placed.instruction.Refers program localCount)
    (enough : placed.instruction.operands ≤ before)
    (alone : placed.instruction.isSuspension = true → before = placed.instruction.operands)
    (onward : ∀ follower ∈ placed.instruction.followers start,
      (follower, before - placed.instruction.operands + placed.instruction.results) ∈
        (start + 1, after) :: promises) :
    Leads program localCount promises start [placed] before after := by
  refine ⟨[before], rfl, rfl, fun heights kept levels => ⟨⟨before, levels.1, ?_⟩, trivial⟩⟩
  have known : ∀ promise ∈ (start + 1, after) :: promises,
      heights[promise.1]? = some promise.2 := List.forall_mem_cons.mpr ⟨levels.2.1, kept⟩
  exact ⟨refers, enough, alone, fun follower member => known _ (onward follower member)⟩

/-- Segments one after the other. -/
theorem append (leads : Leads program localCount promises start first before middle)
    (later : Leads program localCount promises (start + first.length) others middle after) :
    Leads program localCount promises start (first ++ others) before after := by
  obtain ⟨labels, length, begins, fits⟩ := leads
  obtain ⟨laterLabels, laterLength, laterBegins, laterFits⟩ := later
  refine ⟨labels ++ laterLabels, ?_, ?_, fun heights kept levels => ?_⟩
  · rw [List.length_append, List.length_append, length, laterLength]
  · cases labels with
    | nil =>
        -- without code the height stays
        rw [← begins]
        exact laterBegins
    | cons height labels => exact begins
  · rw [List.append_assoc, haveHeights_append, length] at levels
    obtain ⟨here, there⟩ := levels
    have between := getElem?_start laterBegins there
    rw [segmentFits_append]
    refine ⟨fits heights kept ?_, laterFits heights kept there⟩
    rw [haveHeights_append, length]
    exact ⟨here, between, trivial⟩

/-- Segments one after the other. The first one may jump to the beginning of the second one and
behind it. -/
theorem appendPassing {between behind : Nat} (isBetween : between = start + first.length)
    (isBehind : behind = between + others.length)
    (leads : Leads program localCount ((between, middle) :: (behind, after) :: promises) start first
      before middle)
    (later : Leads program localCount promises between others middle after) :
    Leads program localCount promises start (first ++ others) before after := by
  have onward : Leads program localCount ((behind, after) :: promises) (start + first.length) others
      middle after := by
    rw [← isBetween]
    exact later.weaken fun _ => List.mem_cons_of_mem _
  refine toEnd ?_ (append (leads.toEnd isBetween) onward)
  rw [isBehind, isBetween, List.length_append, Nat.add_assoc]

/-- A segment after one instruction. -/
theorem cons {placed : Placed}
    (leads : Leads program localCount promises start [placed] before middle)
    (later : Leads program localCount promises (start + 1) others middle after) :
    Leads program localCount promises start (placed :: others) before after :=
  append leads later

/-- An instruction at which control goes on behind it, before a segment that it is not part of. -/
theorem onward {instruction : Instruction}
    (refers : instruction.Refers program localCount) (enough : instruction.operands ≤ before)
    (running : instruction.isSuspension = false)
    (followers : instruction.followers start = [start + 1])
    (height : before - instruction.operands + instruction.results = after) :
    Leads program localCount promises start [⟨instruction, position⟩] before after := by
  refine single refers enough (fun suspends => ?_) fun follower member => ?_
  · rw [running] at suspends
    cases suspends
  · rw [followers, List.mem_singleton] at member
    rw [member, height]
    exact List.mem_cons_self

/-- A jump. What stands behind it may have any height. -/
theorem jump (promised : (target, before) ∈ promises) :
    Leads program localCount promises start [⟨.jump target, position⟩] before after := by
  refine single trivial (Nat.zero_le _) nofun fun follower member => ?_
  rw [List.mem_singleton.mp member]
  exact List.mem_cons_of_mem _ promised

/-- A jump that depends on the operand on top. -/
theorem test {instruction : Instruction} (promised : (target, after) ∈ promises)
    (tests : instruction = .jumpIfFalse target ∨ instruction = .jumpIfTrue target) :
    Leads program localCount promises start [⟨instruction, position⟩] (after + 1) after := by
  rcases tests with rfl | rfl <;>
    refine single trivial (Nat.le_add_left 1 after) nofun fun follower member => ?_ <;>
    rcases List.mem_cons.mp member with rfl | last
  case inl.inl | inr.inl => exact List.mem_cons_of_mem _ promised
  case inl.inr | inr.inr =>
    rw [List.mem_singleton.mp last]
    exact List.mem_cons_self

/-- An instruction that takes all operands and leaves none, such as a suspension. -/
theorem takeAll {instruction : Instruction} (refers : instruction.Refers program localCount)
    (all : before = instruction.operands) (results : instruction.results = 0)
    (followers : instruction.followers start = [start + 1]) :
    Leads program localCount promises start [⟨instruction, position⟩] before 0 := by
  refine single refers (Nat.le_of_eq all.symm) (fun _ => all) fun follower member => ?_
  rw [followers, List.mem_singleton] at member
  rw [member, all, Nat.sub_self, results]
  exact List.mem_cons_self

/-- Two segments one of which is passed over, as an operand decides. -/
theorem branches {condition whenTrue whenFalse : List Placed} {height other leave : Nat}
    (decides : Leads program localCount promises start condition before (height + 1))
    (trueLeads : Leads program localCount promises (start + condition.length + 1)
      whenTrue height after)
    (falseLeads : Leads program localCount promises other whenFalse height after)
    (otherwise : other = start + condition.length + 1 + whenTrue.length + 1)
    (behind : leave = other + whenFalse.length) :
    Leads program localCount promises start
      (condition ++ ⟨.jumpIfFalse other, position⟩ :: whenTrue ++
        ⟨.jump leave, position⟩ :: whenFalse) before after := by
  have tested : Leads program localCount ((other, height) :: (leave, after) :: promises) start
      (condition ++ ⟨.jumpIfFalse other, position⟩ :: whenTrue) before after := by
    refine append (decides.weaken fun promise member => ?_)
      (cons (test List.mem_cons_self (.inl rfl)) (trueLeads.weaken fun promise member => ?_)) <;>
    exact List.mem_cons_of_mem _ (List.mem_cons_of_mem _ member)
  -- the first segment ends with the jump
  rw [List.append_cons]
  refine appendPassing ?_ behind (append tested (jump ?_)) falseLeads
  · simp only [List.length_append, List.length_cons, List.length_nil]
    omega
  · exact List.mem_cons_of_mem _ List.mem_cons_self

/-- Code whose last instruction gives the operand on top back has heights. -/
theorem exists_fits {code : Code} {front : List Placed}
    (leads : Leads program code.localCount [] 0 front 0 1)
    (all : code.body.toList = front ++ [⟨.giveBack, position⟩]) :
    ∃ heights, code.Fits program heights := by
  obtain ⟨labels, length, begins, fits⟩ := leads
  have own : HaveHeights (labels ++ [1]) 0 (labels ++ [1]) :=
    haveHeights_length [] (labels ++ [1])
  -- nothing jumps out of the function, so the front needs no label but its own
  have frontFits := fits (labels ++ [1]) (fun _ member => absurd member List.not_mem_nil) own
  have lastFits : Instruction.Fits program code.localCount (labels ++ [1]) front.length 1
      .giveBack :=
    ⟨trivial, Nat.le_refl 1, nofun, fun _ member => absurd member List.not_mem_nil⟩
  have allFits : SegmentFits program code.localCount (labels ++ [1]) 0
      (front ++ [⟨.giveBack, position⟩]) := by
    rw [haveHeights_append, length] at own
    rw [segmentFits_append, Nat.zero_add]
    rw [Nat.zero_add] at own
    exact ⟨frontFits, ⟨1, own.2.1, lastFits⟩, trivial⟩
  refine ⟨labels ++ [1], ?_, ?_, fun index placed found => ?_⟩
  · rw [Code.size, ← Array.length_toList, all, List.length_append, List.length_append, length]
    rfl
  · rw [← List.head?_eq_getElem?]
    exact begins
  · rw [← Array.getElem?_toList, all] at found
    have fit := allFits.getElem? found
    rwa [Nat.zero_add] at fit

end Leads

end LineRobot
