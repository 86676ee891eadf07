import LineRobot.Proofs.Meaning.Interpreter

/-! # Meanings that keep to the names and constants of the robot

An index that is just the name of a channel constant or of a variable slot is a fixed index
(`Expression.isFixedIndex`). Its value is below the number of elements, as long as the channel
constants are (`ChannelConstants.InRange`): the names of the robot are not declared, so that such a
name always means the constant, and the constants are not changed.

`Meaning.Heeds` says this of a piece of a program: it keeps to regular situations, its value is fit
for what it is needed for, and if it ends the run, all faults for an index that the host has seen
are at one of some places. Pieces behind one another keep to it (`Meaning.Heeds.bind`), and so does
everything that syntax is given its meaning with. -/

namespace LineRobot

/-! ## Values of indices -/

/-- Each channel constant stands for an element of an array. -/
structure ChannelConstants.InRange (channels : ChannelConstants) : Prop where
  /-- The channel of the center sensor is one. -/
  center : channels.center < bankSize
  /-- The channel of the left sensor is one. -/
  left : channels.left < bankSize
  /-- The channel of the right sensor is one. -/
  right : channels.right < bankSize

/-- Whether an index is just the name of a channel constant or of a variable slot. -/
def Expression.isFixedIndex : Expression String → Bool
  | .name text _ =>
    [Constant.center, Constant.left, Constant.right].any (fun constant =>
      constant.spelling = text) ||
      Vocabulary.slotNames.contains text
  | _ => false

/-- A number below the number of elements is an index. -/
theorem Memory.isSome_index?_ofNat {channel : Nat} (inside : channel < bankSize) :
    (index? (Float.ofNat channel)).isSome = true := by
  -- there are few elements, so that each of them is tried
  have all : ∀ channel : Fin bankSize, (index? (Float.ofNat channel)).isSome = true := by
    decide +kernel
  exact all ⟨channel, inside⟩

/-- A name that is a fixed index is a channel constant, or no constant but a slot name. -/
theorem Vocabulary.cases_of_isFixedIndex {text : String} {position : Position}
    (isFixed : (Expression.name text position : Expression String).isFixedIndex = true) :
    isReserved text = true ∧
      ((∃ constant, constant ≠ Constant.truth ∧ Constant.ofSpelling? text = some constant) ∨
        Constant.ofSpelling? text = none ∧ ∃ slot, slot? text = some slot ∧ slot < bankSize) := by
  rw [Expression.isFixedIndex, Bool.or_eq_true, List.any_eq_true, List.contains_iff_mem] at isFixed
  rcases isFixed with ⟨constant, member, same⟩ | member
  · obtain rfl := of_decide_eq_true same
    have known : ∀ constant ∈ [Constant.center, .left, .right],
        isReserved constant.spelling = true ∧
        constant ≠ .truth ∧ Constant.ofSpelling? constant.spelling = some constant := by decide
    obtain ⟨reserved, notTruth, spelled⟩ := known constant member
    exact ⟨reserved, .inl ⟨constant, notTruth, spelled⟩⟩
  · have known : ∀ text ∈ slotNames, isReserved text = true ∧ Constant.ofSpelling? text = none ∧
        ∃ slot ∈ List.range bankSize, slot? text = some slot := by decide
    obtain ⟨reserved, noConstant, slot, inside, spelled⟩ := known text member
    exact ⟨reserved, .inr ⟨noConstant, slot, spelled, List.mem_range.mp inside⟩⟩

/-- The value of a channel constant is an index. -/
theorem Memory.isSome_index?_constant {memory : Memory} (inRange : memory.channels.InRange)
    {constant : Constant} (notTruth : constant ≠ .truth) :
    (index? (memory.constant constant)).isSome = true := by
  cases constant with
  | center => exact isSome_index?_ofNat inRange.center
  | left => exact isSome_index?_ofNat inRange.left
  | right => exact isSome_index?_ofNat inRange.right
  | truth => exact absurd rfl notTruth

/-! ## Names in blocks -/

namespace Block

/-- The names declared in blocks. -/
def names (blocks : List Block) : List String :=
  blocks.flatten.map Prod.fst

/-- Another value keeps the names of a block. -/
theorem map_fst_replace? {name : String} {value : Float} {block after : Block}
    (replaced : replace? name value block = some after) :
    after.map Prod.fst = block.map Prod.fst := by
  induction block generalizing after with
  | nil => cases replaced
  | cons entry earlier ih =>
      obtain ⟨other, old⟩ := entry
      rw [replace?] at replaced
      split at replaced
      case isTrue =>
        cases replaced
        rfl
      case isFalse =>
        obtain ⟨rest, inside, rfl⟩ := Option.map_eq_some_iff.mp replaced
        rw [List.map_cons, List.map_cons, ih inside]

/-- Another value keeps the names of blocks. -/
theorem names_assign? {name : String} {value : Float} {blocks after : List Block}
    (assigned : assign? name value blocks = some after) : names after = names blocks := by
  induction blocks generalizing after with
  | nil => cases assigned
  | cons block outer ih =>
      rw [assign?] at assigned
      split at assigned
      case h_1 replaced =>
        cases assigned
        simp only [names, List.flatten_cons, List.map_append, map_fst_replace? replaced]
      case h_2 =>
        obtain ⟨rest, further, rfl⟩ := Option.map_eq_some_iff.mp assigned
        have kept := ih further
        simp only [names, List.flatten_cons, List.map_append] at kept ⊢
        rw [kept]

/-- A declaration adds its name. -/
theorem names_declare? {name : String} {value : Float} {blocks after : List Block}
    (declared : declare? name value blocks = some after) : names after = name :: names blocks := by
  cases blocks with
  | nil => cases declared
  | cons block outer =>
      cases declared
      rfl

/-- A block that is left takes only its own names away. -/
theorem mem_names_of_tail {name : String} {blocks : List Block}
    (member : name ∈ names blocks.tail) :
    name ∈ names blocks := by
  cases blocks with
  | nil => exact member
  | cons block outer =>
      rw [names, List.flatten_cons, List.map_append]
      exact List.mem_append_right _ member

/-- A name that is not declared has no value. -/
theorem lookup?_of_notMem_names {name : String} {blocks : List Block}
    (absent : name ∉ names blocks) :
    lookup? blocks name = none := by
  rw [lookup?, List.lookup_eq_none_iff]
  intro entry member
  rw [bne_iff_ne]
  rintro rfl
  exact absent (List.mem_map_of_mem member)

end Block

/-! ## What is kept -/

/-- If the program has stopped for an index, it is at one of the given places. -/
def Observation.IndexFaultsAt (places : Position → Prop) (observation : Observation) : Prop :=
  ∀ bank index position, observation.outcome = .faulted ⟨.indexOutOfBounds bank index, position⟩ →
    places position

/-- The end of a program adds only its own outcome to what the host has seen. -/
theorem World.indexFaultsAt_ended {places : Position → Prop} {world : World} {outcome : Outcome}
    (seen : ∀ observation ∈ world.seen, observation.IndexFaultsAt places)
    (last : (world.observation outcome).IndexFaultsAt places) :
    ∀ observation ∈ world.ended outcome, observation.IndexFaultsAt places := by
  intro observation member
  rcases List.mem_append.mp member with earlier | here
  · exact seen observation earlier
  rcases List.mem_cons.mp here with rfl | later
  · exact last
  · obtain ⟨-, -, rfl⟩ := List.mem_map.mp later
    exact nofun

/-- A situation with given channel constants, in which no name of the robot is declared and the host
has seen faults for an index at given places only. -/
structure Situation.Regular (channels : ChannelConstants) (places : Position → Prop)
    (situation : Situation) :
    Prop where
  /-- The channel constants are the given ones. -/
  channels_eq : situation.world.memory.channels = channels
  /-- No name of the robot is declared. -/
  unreserved : ∀ name ∈ Block.names situation.blocks, Vocabulary.isReserved name = false
  /-- The host has seen faults for an index at the places only. -/
  seen : ∀ observation ∈ situation.world.seen, observation.IndexFaultsAt places

namespace Meaning

variable {α β : Type} {channels : ChannelConstants} {places : Position → Prop}

/-- A meaning keeps to regular situations and gives fit values; if it ends the run, the host has
seen faults for an index at the given places only. -/
def Heeds (channels : ChannelConstants) (places : Position → Prop) (meaning : Meaning α)
    (fit : α → Prop) :
    Prop :=
  ∀ situation : Situation, situation.Regular channels places →
    match meaning situation with
    | .ok (value, after) => after.Regular channels places ∧ fit value
    | .error (.halted seen) => ∀ observation ∈ seen, observation.IndexFaultsAt places
    | .error _ => True

namespace Heeds

variable {meaning : Meaning α} {fit : α → Prop} {goal : β → Prop}

/-- A value that is fit. -/
theorem pure {value : α} (isFit : fit value) : Heeds channels places (Pure.pure value) fit :=
  fun _ regular => ⟨regular, isFit⟩

/-- Meanings behind one another. -/
theorem bind {next : α → Meaning β} (first : Heeds channels places meaning fit)
    (rest : ∀ value, fit value → Heeds channels places (next value) goal) :
    Heeds channels places (meaning >>= next) goal := by
  -- what the first one keeps is what the rest begins with
  intro situation regular
  have kept := first situation regular
  have split : (meaning >>= next) situation =
      (meaning situation).bind fun result => next result.1 result.2 := rfl
  rw [split]
  cases done : meaning situation with
  | ok result =>
      rw [done] at kept
      exact rest result.1 kept.2 result.2 kept.1
  | error ending =>
      rw [done] at kept
      cases ending with
      | halted seen => exact kept
      | unfinished | meaningless => trivial

/-- Less is asked of a value. -/
theorem imp {other : α → Prop} (heeds : Heeds channels places meaning fit)
    (weaker : ∀ value, fit value → other value) : Heeds channels places meaning other := by
  intro situation regular
  have kept := heeds situation regular
  split at kept
  case h_1 => exact ⟨kept.1, weaker _ kept.2⟩
  case h_2 => exact kept
  case h_3 => trivial

/-- A value that is dropped. -/
theorem discard (heeds : Heeds channels places meaning fit) :
    Heeds channels places (Functor.discard meaning) fun _ => True := by
  rw [discard_eq]
  exact heeds.bind fun _ _ => .pure trivial

/-- A run that is unfinished or without meaning. -/
theorem stop {ending : Ending} (goesOn : ∀ seen, ending ≠ .halted seen) :
    Heeds channels places (Meaning.stop ending) fit := by
  intro situation _
  cases ending with
  | halted seen => exact absurd rfl (goesOn seen)
  | unfinished | meaningless => trivial

/-- A value that can be missing. -/
theorem need {value? : Option α} (isFit : ∀ value, value? = some value → fit value) :
    Heeds channels places (Meaning.need value?) fit := by
  cases value? with
  | none => exact .stop nofun
  | some value => exact .pure (isFit value rfl)

/-- The end of a program by a fault, which is at one of the places if it is one for an index. -/
theorem fault {cause : FaultCause} {position : Position}
    (allowed : ∀ bank index, cause = .indexOutOfBounds bank index → places position) :
    Heeds channels places (Meaning.fault cause position) fit := by
  intro situation regular
  refine World.indexFaultsAt_ended regular.seen fun bank index place faults => ?_
  cases faults
  exact allowed bank index rfl

/-- The memory has the given constants. -/
theorem memory : Heeds channels places Meaning.memory fun memory => memory.channels = channels :=
  fun _ regular => ⟨regular, regular.channels_eq⟩

/-- Another memory with the same constants. -/
theorem setMemory {memory : Memory} (same : memory.channels = channels) :
    Heeds channels places (Meaning.setMemory memory) fun _ => True :=
  fun _ regular => ⟨⟨same, regular.unreserved, regular.seen⟩, trivial⟩

/-- A variable slot is set. -/
theorem setSlot {memory : Memory} (same : memory.channels = channels) (slot : Fin bankSize)
    (value : Float) :
    Heeds channels places (Meaning.setMemory (memory.setSlot slot value)) fun _ => True :=
  have kept : (memory.setSlot slot value).channels = channels := same
  setMemory kept

/-- A local variable is read. -/
theorem readLocal (name : String) : Heeds channels places (Meaning.readLocal name) fun _ =>
    True := by
  intro situation regular
  rw [Meaning.readLocal]
  exact need (fun _ _ => trivial) situation regular

/-- A local variable is assigned to. -/
theorem writeLocal (name : String) (value : Float) :
    Heeds channels places (Meaning.writeLocal name value) fun _ => True := by
  intro situation regular
  rw [Meaning.writeLocal]
  cases assigned : Block.assign? name value situation.blocks with
  | none => trivial
  | some blocks =>
      refine ⟨⟨regular.channels_eq, ?_, regular.seen⟩, trivial⟩
      rw [Block.names_assign? assigned]
      exact regular.unreserved

/-- A variable is declared whose name is not one of the robot. -/
theorem declare {name : String} (unreserved : Vocabulary.isReserved name = false) (value : Float) :
    Heeds channels places (Meaning.declare name value) fun _ => True := by
  intro situation regular
  rw [Meaning.declare]
  cases declared : Block.declare? name value situation.blocks with
  | none => trivial
  | some blocks =>
      refine ⟨⟨regular.channels_eq, ?_, regular.seen⟩, trivial⟩
      rw [Block.names_declare? declared]
      exact List.forall_mem_cons.mpr ⟨unreserved, regular.unreserved⟩

/-- A meaning in a block of its own. -/
theorem inBlock (heeds : Heeds channels places meaning fit) :
    Heeds channels places (Meaning.inBlock meaning) fit := by
  intro situation regular
  have kept := heeds { situation with blocks := [] :: situation.blocks }
    ⟨regular.channels_eq, regular.unreserved, regular.seen⟩
  rw [Meaning.inBlock]
  cases done : meaning { situation with blocks := [] :: situation.blocks } with
  | ok result =>
      rw [done] at kept
      obtain ⟨after, isFit⟩ := kept
      refine ⟨⟨after.channels_eq, fun name member => after.unreserved name ?_, after.seen⟩, isFit⟩
      exact Block.mem_names_of_tail member
  | error ending =>
      rw [done] at kept
      cases ending with
      | halted seen => exact kept
      | unfinished | meaningless => trivial

/-- A meaning in a call of its own, whose parameters have no names of the robot. -/
theorem inCall {parameters : Block}
    (unreserved : ∀ name ∈ parameters.map Prod.fst, Vocabulary.isReserved name = false)
    (heeds : Heeds channels places meaning fit) :
    Heeds channels places (Meaning.inCall parameters meaning) fit := by
  intro situation regular
  have kept := heeds { situation with blocks := [parameters] }
    ⟨regular.channels_eq, by simpa [Block.names] using unreserved, regular.seen⟩
  rw [Meaning.inCall]
  cases done : meaning { situation with blocks := [parameters] } with
  | ok result =>
      rw [done] at kept
      exact ⟨⟨kept.1.channels_eq, regular.unreserved, kept.1.seen⟩, kept.2⟩
  | error ending =>
      rw [done] at kept
      cases ending with
      | halted seen => exact kept
      | unfinished | meaningless => trivial

/-- The program suspends itself. -/
theorem suspend (suspension : Suspension) :
    Heeds channels places (Meaning.suspend suspension) fun _ => True := by
  intro situation regular
  have seen :
      ∀ observation ∈ situation.world.seen ++ [situation.world.observation (.suspended suspension)],
      observation.IndexFaultsAt places := by
    intro observation member
    rcases List.mem_append.mp member with earlier | here
    · exact regular.seen observation earlier
    · rw [List.mem_singleton.mp here]
      exact nofun
  rw [Meaning.suspend]
  dsimp only
  cases situation.world.script with
  | nil => exact seen
  | cons next later => exact ⟨⟨regular.channels_eq, regular.unreserved, seen⟩, trivial⟩

/-- The program waits. -/
theorem waitFor (duration : Float) (position : Position) :
    Heeds channels places (Meaning.waitFor duration position) fun _ => True := by
  rw [Meaning.waitFor]
  split
  case isTrue => exact .suspend _
  case isFalse => exact .fault nofun

/-- An operator on two values. -/
theorem operate (operator : Operator) (left right : Float) (position : Position) :
    Heeds channels places (Meaning.operate operator left right position) fun _ => True := by
  rw [Meaning.operate]
  split
  case h_1 => exact .pure trivial
  case h_2 => exact .fault nofun

/-- An array element whose index is in range, or whose access is at one of the places. -/
theorem element (bank : Bank) {index : Float} {position : Position}
    (allowed : (Memory.index? index).isSome = true ∨ places position) :
    Heeds channels places (Meaning.element bank index position) fun _ => True := by
  rw [Meaning.element]
  split
  case h_1 => exact .pure trivial
  case h_2 missing =>
    refine .fault fun _ _ _ => ?_
    rw [missing] at allowed
    exact allowed.resolve_left Bool.false_ne_true

/-- A name gives an index if it is a fixed one. -/
theorem readName (inRange : channels.InRange) (name : String) (position : Position) :
    Heeds channels places (Meaning.readName name) fun value =>
      (Expression.name name position : Expression String).isFixedIndex = true →
        (Memory.index? value).isSome = true := by
  by_cases isFixed : (Expression.name name position : Expression String).isFixedIndex = true
  · obtain ⟨reserved, meant⟩ := Vocabulary.cases_of_isFixedIndex isFixed
    intro situation regular
    have undeclared : Block.lookup? situation.blocks name = none := by
      refine Block.lookup?_of_notMem_names fun member => ?_
      rw [regular.unreserved name member] at reserved
      cases reserved
    rw [Meaning.readName, undeclared]
    dsimp only
    rcases meant with ⟨constant, notTruth, spelled⟩ | ⟨noConstant, slot, spelled, inside⟩
    · rw [spelled]
      refine ⟨regular, fun _ => Memory.isSome_index?_constant ?_ notTruth⟩
      rw [regular.channels_eq]
      exact inRange
    · rw [noConstant, spelled]
      exact ⟨regular, fun _ => Memory.isSome_index?_ofNat inside⟩
  · intro situation regular
    have kept : ∀ value, ((Expression.name name position : Expression String).isFixedIndex = true →
        (Memory.index? value).isSome = true) := fun _ yes => absurd yes isFixed
    rw [Meaning.readName]
    cases Block.lookup? situation.blocks name with
    | some value => exact ⟨regular, kept value⟩
    | none =>
        cases Constant.ofSpelling? name with
        | some constant => exact ⟨regular, kept _⟩
        | none => exact need (fun value _ => kept value) situation regular

/-- Rounds of a loop. -/
theorem rounds {round : Meaning Signal} (heeds : Heeds channels places round fun _ => True)
    (allowed : Nat) :
    Heeds channels places (Meaning.rounds round allowed) fun _ => True := by
  induction allowed with
  | zero => exact .stop nofun
  | succ allowed ih =>
      rw [Meaning.rounds]
      refine heeds.bind fun signal _ => ?_
      cases signal with
      | next | nextRound => exact ih
      | leaveLoop | giveBack => exact .pure trivial

/-- What follows the body of a loop. -/
theorem afterBody {body rest : Meaning Signal} (heeds : Heeds channels places body fun _ => True)
    (heedsRest : Heeds channels places rest fun _ => True) :
    Heeds channels places (Meaning.afterBody body rest) fun _ => True := by
  rw [Meaning.afterBody]
  refine heeds.bind fun signal _ => ?_
  cases signal with
  | next | nextRound => exact heedsRest
  | leaveLoop | giveBack => exact .pure trivial

/-- A meaning under a condition. -/
theorem whileTrue {condition : Meaning Float} {body : Meaning Signal} {conditionFit : Float → Prop}
    (heeds : Heeds channels places condition conditionFit)
    (heedsBody : Heeds channels places body fun _ => True) :
    Heeds channels places (Meaning.whileTrue condition body) fun _ => True := by
  rw [Meaning.whileTrue]
  refine heeds.bind fun value _ => ?_
  split
  case isTrue => exact heedsBody
  case isFalse => exact .pure trivial

/-- A function body. -/
theorem givenBack {body : Meaning Signal} (heeds : Heeds channels places body fun _ => True) :
    Heeds channels places (Meaning.givenBack body) fun _ => True := by
  rw [Meaning.givenBack]
  refine heeds.bind fun signal _ => ?_
  cases signal <;> exact .pure trivial

end Heeds

end Meaning

end LineRobot
