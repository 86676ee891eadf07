import Mathlib.Data.List.Nodup
import LineRobot.Code.Program
import LineRobot.Proofs.Code.Size

/-! # Well-formed programs

Which routines have code can be said without making any: `Formula.WellFormed`, `Step.WellFormed` and
`Program.WellFormed` are rules about names, in which neither numbers of locals nor jumps occur. A
`Sight` holds what is declared at a point of a routine. `Program.exists_ofRoutines_iff` says that a
program can be made of routines just if these rules hold. -/

namespace LineRobot

/-! ## What is declared -/

/-- What is declared at a point of a routine. -/
structure Sight where
  /-- The names declared in the innermost open scope. -/
  here : List String
  /-- The declarations in all open scopes, those of inner scopes first and later ones before earlier
  ones, and whether what they declare may be assigned to. -/
  declared : List (String × Bool)

namespace Sight

/-- Nothing is declared. -/
def empty : Sight :=
  ⟨[], []⟩

/-- A new innermost scope has been opened. -/
def opened (sight : Sight) : Sight :=
  ⟨[], sight.declared⟩

/-- A name has been declared in the innermost scope. -/
def bind (sight : Sight) (name : String) (writable : Bool) : Sight :=
  ⟨name :: sight.here, (name, writable) :: sight.declared⟩

/-- Names have been declared one after the other, to be assigned to. -/
def withParameters (sight : Sight) (names : List String) : Sight :=
  names.foldl (fun sight name => sight.bind name true) sight

/-- What is declared after a step: a binding declares its name. -/
def afterStep (sight : Sight) : Step → Sight
  | .bind name writable _ _ => sight.bind name writable
  | _ => sight

/-- What is declared after steps. -/
def afterSteps (sight : Sight) (steps : List Step) : Sight :=
  steps.foldl afterStep sight

/-- A name stands for a value: it is that of a local, of a constant of the robot or of a variable
slot. -/
def Readable (sight : Sight) (name : String) : Prop :=
  name ∈ sight.declared.map Prod.fst ∨ (∃ constant : Constant, name = constant.spelling) ∨
    name ∈ Vocabulary.slotNames

/-- A name means a local that may be assigned to: its innermost declaration says so. -/
def Writable (sight : Sight) (name : String) : Prop :=
  sight.declared.lookup name = some true

/-- A name may be declared in the innermost scope. -/
def Free (sight : Sight) (name : String) : Prop :=
  Vocabulary.isReserved name = false ∧ name ∉ sight.here

/-- After a declaration the other names are as free as before. -/
theorem free_bind {sight : Sight} {name other : String} {writable : Bool} :
    (sight.bind name writable).Free other ↔ other ≠ name ∧ sight.Free other := by
  simp only [Free, bind, List.mem_cons, not_or]
  exact and_left_comm

end Sight

/-! ## The rules -/

/-- What can be called with how many arguments. -/
inductive Callee.Takes (subroutines : List Routine) : Callee → Nat → Prop
  /-- The motors are set to two values. -/
  | motor : Takes subroutines .motor 2
  /-- A subroutine has as many arguments as parameters. -/
  | subroutine {routine : Routine} : routine ∈ subroutines →
      Takes subroutines (.subroutine routine.name) routine.parameters.length

namespace Formula

variable (subroutines : List Routine) (sight : Sight)

mutual

/-- A formula only uses what there is. -/
inductive WellFormed : Formula → Prop
  /-- A number. -/
  | number {value : Float} {position : Position} : WellFormed (.number value position)
  /-- A name that stands for a value. -/
  | name {text : String} {position : Position} :
      sight.Readable text → WellFormed (.name text position)
  /-- An operator between two operands. -/
  | binary {operator : Operator} {left right : Formula} {position : Position} :
      WellFormed left → WellFormed right → WellFormed (.binary operator left right position)
  /-- A connective between two operands. -/
  | logical {connective : Connective} {left right : Formula} {position : Position} :
      WellFormed left → WellFormed right → WellFormed (.logical connective left right position)
  /-- An operator before one operand. -/
  | unary {operator : UnaryOperator} {operand : Formula} {position : Position} :
      WellFormed operand → WellFormed (.unary operator operand position)
  /-- A change of something that can be assigned to. -/
  | change {direction : Direction} {moment : Moment} {operand : Formula} {position : Position} :
      Assignable operand → WellFormed (.change direction moment operand position)
  /-- A condition and the two formulas it chooses from. -/
  | conditional {condition whenTrue whenFalse : Formula} {position : Position} :
      WellFormed condition → WellFormed whenTrue → WellFormed whenFalse →
      WellFormed (.conditional condition whenTrue whenFalse position)
  /-- An assignment to something that can be assigned to. -/
  | assign {compound : Option Operator} {target value : Formula} {position : Position} :
      Assignable target → WellFormed value → WellFormed (.assign compound target value position)
  /-- A call with as many arguments as are taken. -/
  | call {callee : Callee} {arguments : List Formula} {position : Position} :
      callee.Takes subroutines arguments.length → (∀ argument ∈ arguments, WellFormed argument) →
      WellFormed (.call callee arguments position)
  /-- An element of one of the two arrays. -/
  | index {bank : Bank} {index : Formula} {namePosition position : Position} :
      WellFormed index → WellFormed (.index (.name bank.spelling namePosition) index position)

/-- A formula is the place of a value: a local that is not constant, or a variable slot. -/
inductive Assignable : Formula → Prop
  /-- A local. -/
  | name {text : String} {position : Position} :
      sight.Writable text → Assignable (.name text position)
  /-- A variable slot. -/
  | slot {index : Formula} {namePosition position : Position} :
      WellFormed index → Assignable (.index (.name Bank.slots.spelling namePosition) index position)

end

end Formula

namespace Step

variable (subroutines : List Routine)

mutual

/-- A step only uses what there is, and leaves a loop only inside of one. -/
inductive WellFormed : Sight → Bool → Step → Prop
  /-- A constant has a first value, which does not see the new name. -/
  | bind {sight : Sight} {inLoop : Bool} {name : String} {writable : Bool} {value : Option Formula}
      {position : Position} :
      (value = none → writable = true) → (∀ formula ∈ value, formula.WellFormed subroutines sight) →
      sight.Free name → WellFormed sight inLoop (.bind name writable value position)
  /-- A formula. -/
  | evaluate {sight : Sight} {inLoop : Bool} {value : Formula} {position : Position} :
      value.WellFormed subroutines sight → WellFormed sight inLoop (.evaluate value position)
  /-- A tick. -/
  | tick {sight : Sight} {inLoop : Bool} {position : Position} :
      WellFormed sight inLoop (.tick position)
  /-- A wait. -/
  | wait {sight : Sight} {inLoop : Bool} {duration : Formula} {position : Position} :
      duration.WellFormed subroutines sight → WellFormed sight inLoop (.wait duration position)
  /-- Each branch has a scope of its own. -/
  | branch {sight : Sight} {inLoop : Bool} {condition : Formula} {whenTrue : List Step}
      {whenFalse : Option (List Step)} {position : Position} :
      condition.WellFormed subroutines sight → AllWellFormed sight.opened inLoop whenTrue →
      (∀ steps ∈ whenFalse, AllWellFormed sight.opened inLoop steps) →
      WellFormed sight inLoop (.branch condition whenTrue whenFalse position)
  /-- The body of a loop has a scope of its own. -/
  | forever {sight : Sight} {inLoop : Bool} {body : List Step} {position : Position} :
      AllWellFormed sight.opened true body → WellFormed sight inLoop (.forever body position)
  /-- The condition stands outside the scope of the body. -/
  | whileLoop {sight : Sight} {inLoop : Bool} {condition : Formula} {body : List Step}
      {position : Position} :
      condition.WellFormed subroutines sight → AllWellFormed sight.opened true body →
      WellFormed sight inLoop (.whileLoop condition body position)
  /-- The condition stands outside the scope of the body. -/
  | doLoop {sight : Sight} {inLoop : Bool} {body : List Step} {condition : Formula}
      {position : Position} :
      AllWellFormed sight.opened true body → condition.WellFormed subroutines sight →
      WellFormed sight inLoop (.doLoop body condition position)
  /-- The scope of the first steps covers the condition, the step and the body, whose scope is
  inside it. The first steps are not inside the loop. -/
  | forLoop {sight : Sight} {inLoop : Bool} {first : List Step} {condition step : Option Formula}
      {body : List Step} {position : Position} :
      AllWellFormed sight.opened inLoop first →
      (∀ formula ∈ condition, formula.WellFormed subroutines (sight.opened.afterSteps first)) →
      (∀ formula ∈ step, formula.WellFormed subroutines (sight.opened.afterSteps first)) →
      AllWellFormed (sight.opened.afterSteps first).opened true body →
      WellFormed sight inLoop (.forLoop first condition step body position)
  /-- A block has a scope of its own. -/
  | block {sight : Sight} {inLoop : Bool} {body : List Step} {position : Position} :
      AllWellFormed sight.opened inLoop body → WellFormed sight inLoop (.block body position)
  /-- A loop is left inside of one. -/
  | leaveLoop {sight : Sight} {inLoop : Bool} {position : Position} :
      inLoop = true → WellFormed sight inLoop (.leaveLoop position)
  /-- The next round of a loop is begun inside of one. -/
  | nextRound {sight : Sight} {inLoop : Bool} {position : Position} :
      inLoop = true → WellFormed sight inLoop (.nextRound position)
  /-- A routine is left with a value. -/
  | giveBack {sight : Sight} {inLoop : Bool} {value : Option Formula} {position : Position} :
      (∀ formula ∈ value, formula.WellFormed subroutines sight) →
      WellFormed sight inLoop (.giveBack value position)

/-- Each of the steps is well-formed after those before it. -/
inductive AllWellFormed : Sight → Bool → List Step → Prop
  /-- No steps. -/
  | nil {sight : Sight} {inLoop : Bool} : AllWellFormed sight inLoop []
  /-- The others see what the first one declares. -/
  | cons {sight : Sight} {inLoop : Bool} {first : Step} {others : List Step} :
      WellFormed sight inLoop first → AllWellFormed (sight.afterStep first) inLoop others →
      AllWellFormed sight inLoop (first :: others)

end

end Step

/-- A routine with the given parameters only uses what there is. The parameters are declared in the
scope of the first steps. -/
structure Routine.WellFormed (subroutines : List Routine) (routine : Routine)
    (parameters : List String) : Prop where
  /-- No parameter is repeated. -/
  distinct : parameters.Nodup
  /-- No parameter has a reserved name. -/
  free : ∀ name ∈ parameters, Vocabulary.isReserved name = false
  /-- The steps are well-formed outside of loops. -/
  body : Step.AllWellFormed subroutines (Sight.empty.withParameters parameters) false routine.body

/-- An entry routine and subroutines only use what there is. The parameters of the entry routine do
not matter. -/
structure Program.WellFormed (entry : Routine) (subroutines : List Routine) : Prop where
  /-- No subroutine has a reserved name. -/
  free : ∀ routine ∈ subroutines, Vocabulary.isReserved routine.name = false
  /-- The entry routine is well-formed without parameters. -/
  entry : entry.WellFormed subroutines []
  /-- The subroutines are well-formed. -/
  subroutines : ∀ routine ∈ subroutines, routine.WellFormed subroutines routine.parameters

/-! ## Scopes and sights -/

namespace Scope

/-- What a scope declares, without the numbers of its locals. -/
def sight (scope : Scope) : Sight :=
  ⟨scope.inner.map Prod.fst,
    (scope.inner ++ scope.outer).map fun (name, found) => (name, found.writable)⟩

@[simp] theorem sight_empty : empty.sight = Sight.empty := rfl

@[simp] theorem sight_opened (scope : Scope) : scope.opened.sight = scope.sight.opened := rfl

@[simp] theorem sight_bind (scope : Scope) (name : String) (writable : Bool) :
    (scope.bind name writable).sight = scope.sight.bind name writable := rfl

@[simp] theorem sight_afterStep (scope : Scope) (step : Step) :
    (scope.afterStep step).sight = scope.sight.afterStep step := by
  cases step <;> rfl

@[simp] theorem sight_afterSteps (scope : Scope) (steps : List Step) :
    (scope.afterSteps steps).sight = scope.sight.afterSteps steps := by
  induction steps generalizing scope with
  | nil => rfl
  | cons step steps ih => exact (ih (scope.afterStep step)).trans (by rw [sight_afterStep]; rfl)

/-- What a name means does not depend on the numbers of locals. -/
theorem lookup_sight (scope : Scope) (name : String) :
    scope.sight.declared.lookup name = (scope.lookup? name).map Local.writable := by
  rw [sight, lookup?]
  induction scope.inner ++ scope.outer with
  | nil => rfl
  | cons first others ih =>
      rw [List.map_cons, List.lookup_cons, List.lookup_cons, ih]
      split <;> rfl

/-- A name has an entry just if it is the first part of one. -/
theorem isSome_lookup_iff {α : Type} {entries : List (String × α)} {name : String} :
    (entries.lookup name).isSome = true ↔ name ∈ entries.map Prod.fst := by
  simp only [List.lookup_isSome_iff, List.mem_map, beq_iff_eq]
  exact exists_congr fun entry => and_congr_right' eq_comm

/-- A name is declared just if it means a local. -/
theorem mem_sight (scope : Scope) (name : String) :
    name ∈ scope.sight.declared.map Prod.fst ↔ (scope.lookup? name).isSome = true := by
  rw [← isSome_lookup_iff, lookup_sight, Option.isSome_map]

/-- A name can be declared just if it is free. -/
theorem succeeds_canBind (scope : Scope) (name : String) :
    Succeeds (scope.canBind name) ↔ scope.sight.Free name := by
  rw [Sight.Free, show scope.sight.here = scope.inner.map Prod.fst from rfl,
    ← isSome_lookup_iff, canBind]
  split
  case isTrue reserved => simp [reserved]
  case isFalse allowed =>
    split
    case isTrue repeated => simp [repeated]
    case isFalse new => simp [allowed, new]

/-- Parameters can be declared just if they are distinct and free. -/
theorem succeeds_withParameters {scope : Scope} {names : List String} :
    Succeeds (scope.withParameters names) ↔ names.Nodup ∧ ∀ name ∈ names,
      scope.sight.Free name := by
  induction names generalizing scope with
  | nil => simp [withParameters]
  | cons name others ih =>
      rw [withParameters, succeeds_bind_iff fun _ _ => ih, succeeds_canBind]
      simp only [List.nodup_cons, List.forall_mem_cons, sight_bind, Sight.free_bind]
      constructor
      · rintro ⟨free, distinct, apart⟩
        exact ⟨⟨fun repeated => (apart name repeated).1 rfl, distinct⟩, free,
          fun other member => (apart other member).2⟩
      · rintro ⟨⟨new, distinct⟩, free, others⟩
        refine ⟨free, distinct, fun other member => ⟨?_, others other member⟩⟩
        rintro rfl
        exact new member

/-- What is declared after parameters. -/
theorem sight_of_withParameters {scope result : Scope} {names : List String}
    (done : scope.withParameters names = .ok result) :
    result.sight = scope.sight.withParameters names := by
  induction names generalizing scope with
  | nil => exact congrArg sight (pure_eq_ok.mp done).symm
  | cons name others ih =>
      rw [withParameters, bind_eq_ok] at done
      obtain ⟨-, -, done⟩ := done
      exact ih done

end Scope

/-! ## The robot's names -/

/-- The name of an array stands for that array. -/
theorem Bank.ofSpelling?_eq_some_iff {name : String} {bank : Bank} :
    ofSpelling? name = some bank ↔ name = bank.spelling := by
  constructor
  · intro found
    simpa [eq_comm] using List.find?_some found
  · rintro rfl
    cases bank <;> decide

/-- The name of a constant stands for a constant. -/
theorem Constant.isSome_ofSpelling?_iff {name : String} :
    (ofSpelling? name).isSome = true ↔ ∃ constant : Constant, name = constant.spelling := by
  rw [Option.isSome_iff_exists]
  constructor
  · rintro ⟨constant, found⟩
    exact ⟨constant, by simpa [eq_comm] using List.find?_some found⟩
  · rintro ⟨constant, rfl⟩
    exact ⟨constant, by cases constant <;> decide⟩

/-- The names of the variable slots stand for a slot. -/
theorem Vocabulary.isSome_slot?_iff {name : String} :
    (slot? name).isSome = true ↔ name ∈ slotNames := by
  rw [slot?, List.findIdx?_isSome]
  simp

/-- No array has the name of a variable slot. -/
theorem Bank.ofSpelling?_of_mem_slotNames {name : String} (member : name ∈ Vocabulary.slotNames) :
    ofSpelling? name = none := by
  revert name
  decide

/-! ## Formulas with code -/

/-- A property of what is there, if anything is. -/
theorem forall_mem_some {α : Type} {property : α → Prop} {value : α} :
    (∀ other ∈ some value, property other) ↔ property value := by
  simp

/-- The table has the subroutines and the numbers of their parameters. -/
def FunctionTable.Lists (functions : FunctionTable) (subroutines : List Routine) : Prop :=
  ∀ name arity, (∃ index, functions.lookup name = some ⟨index, arity⟩) ↔
    ∃ routine ∈ subroutines, routine.name = name ∧ routine.parameters.length = arity

variable {functions : FunctionTable} {subroutines : List Routine}

namespace Formula

variable {scope : Scope}

/-- The two arrays can be indexed, and nothing else. -/
theorem bank_eq_ok {array : Formula} {bank : Bank} :
    array.bank = .ok bank ↔ ∃ position, array = .name bank.spelling position := by
  constructor
  · unfold Formula.bank
    split
    case h_2 => exact nofun
    case h_1 text position =>
      split
      case h_2 => exact nofun
      case h_1 other found =>
        intro done
        cases done
        rw [Bank.ofSpelling?_eq_some_iff.mp found]
        exact ⟨position, rfl⟩
  · rintro ⟨position, rfl⟩
    rw [Formula.bank, Bank.ofSpelling?_eq_some_iff.mpr rfl]

/-- Placing a failure changes no success. -/
theorem succeeds_placed {α : Type} {position : Position} {result : Except Reason α} :
    Succeeds (placed position result) ↔ Succeeds result :=
  exists_congr fun _ => placed_eq_ok

/-- The array of the variable slots can be written, and nothing else. -/
theorem succeeds_writableBank {array : Formula} :
    Succeeds array.writableBank ↔ ∃ position, array = .name Bank.slots.spelling position := by
  rw [writableBank, succeeds_bind, ← bank_eq_ok]
  constructor
  · rintro ⟨bank, named, succeeds⟩
    cases bank with
    | slots => exact named
    | sensors => exact absurd succeeds not_succeeds_error
  · intro named
    exact ⟨.slots, named, succeeds_pure⟩

/-- The locals that are not constant can be assigned to. -/
theorem succeeds_writableLocal {text : String} {position : Position} :
    Succeeds (writableLocal scope text position) ↔ scope.sight.Writable text := by
  rw [Sight.Writable, Scope.lookup_sight]
  unfold writableLocal
  split
  case h_1 slot found => simp [found]
  case h_2 slot found => simp [found]
  case h_3 missing =>
    rw [missing]
    split <;> simp

/-- The names that stand for a value have an instruction. -/
theorem succeeds_nameInstruction {text : String} :
    Succeeds (nameInstruction scope text) ↔ scope.sight.Readable text := by
  rw [Sight.Readable, Scope.mem_sight, ← Constant.isSome_ofSpelling?_iff,
    ← Vocabulary.isSome_slot?_iff]
  unfold nameInstruction
  cases scope.lookup? text with
  | some found => simp
  | none =>
      cases Constant.ofSpelling? text with
      | some constant => simp
      | none =>
          cases named : Bank.ofSpelling? text with
          | none => cases Vocabulary.slot? text <;> simp
          | some bank =>
              have noSlot : ¬ (Vocabulary.slot? text).isSome = true := by
                rw [Vocabulary.isSome_slot?_iff]
                intro member
                rw [Bank.ofSpelling?_of_mem_slotNames member] at named
                cases named
              simp [noSlot]

/-- Calls have an instruction if the number of arguments is right. -/
theorem succeeds_callInstruction (lists : functions.Lists subroutines) {callee : Callee}
    {count : Nat} :
    Succeeds (callInstruction functions callee count) ↔ callee.Takes subroutines count := by
  cases callee with
  | motor =>
      rw [callInstruction]
      split
      case isTrue two =>
        subst two
        exact iff_of_true succeeds_ok .motor
      case isFalse other =>
        refine iff_of_false not_succeeds_error fun takes => ?_
        cases takes
        exact other rfl
  | unknown name =>
      rw [callInstruction]
      refine iff_of_false ?_ nofun
      split <;> exact not_succeeds_error
  | subroutine name =>
      have listed := lists name count
      rw [callInstruction]
      constructor
      · cases found : functions.lookup name with
        | none => exact fun succeeds => absurd succeeds not_succeeds_error
        | some signature =>
            dsimp only
            split
            case isFalse => exact fun succeeds => absurd succeeds not_succeeds_error
            case isTrue enough =>
              subst enough
              obtain ⟨routine, member, rfl, same⟩ := listed.mp ⟨signature.index, found⟩
              rw [← same]
              exact fun _ => .subroutine member
      · intro takes
        cases takes with
        | @subroutine routine member =>
            obtain ⟨index, found⟩ := listed.mpr ⟨routine, member, rfl, rfl⟩
            simp [found]

/-- A name can be assigned to just if it means a local that is not constant. -/
theorem assignable_name_iff {sight : Sight} {text : String} {position : Position} :
    Assignable subroutines sight (.name text position) ↔ sight.Writable text := by
  constructor
  · intro assignable
    cases assignable with
    | name writable => exact writable
  · exact .name

/-- An array element can be assigned to just if the array is that of the variable slots. -/
theorem assignable_index_iff {sight : Sight} {array index : Formula} {position : Position} :
    Assignable subroutines sight (.index array index position) ↔
      (∃ position, array = .name Bank.slots.spelling position) ∧
        index.WellFormed subroutines sight := by
  constructor
  · intro assignable
    cases assignable with
    | slot index => exact ⟨⟨_, rfl⟩, index⟩
  · rintro ⟨⟨namePosition, rfl⟩, index⟩
    exact .slot index

/-- A change is well-formed just if there is something to change. -/
theorem wellFormed_change_iff {sight : Sight} {direction : Direction} {moment : Moment}
    {operand : Formula} {position : Position} :
    WellFormed subroutines sight (.change direction moment operand position) ↔
      Assignable subroutines sight operand := by
  constructor
  · intro wellFormed
    cases wellFormed with
    | change assignable => exact assignable
  · exact .change

/-- An assignment is well-formed just if there is something to assign to, and a value. -/
theorem wellFormed_assign_iff {sight : Sight} {compound : Option Operator} {target value : Formula}
    {position : Position} :
    WellFormed subroutines sight (.assign compound target value position) ↔
      Assignable subroutines sight target ∧ value.WellFormed subroutines sight := by
  constructor
  · intro wellFormed
    cases wellFormed with
    | assign assignable value => exact ⟨assignable, value⟩
  · rintro ⟨assignable, value⟩
    exact .assign assignable value

mutual

/-- A formula has code just if it is well-formed. -/
theorem succeeds_code (lists : functions.Lists subroutines) : (formula : Formula) → (start : Nat) →
    (Succeeds (Formula.code functions scope start formula) ↔
      formula.WellFormed subroutines scope.sight)
  | .number value position, start => by
      rw [Formula.code]
      exact iff_of_true succeeds_pure .number
  | .name text position, start => by
      rw [Formula.code, succeeds_bind_pure, succeeds_placed, succeeds_nameInstruction]
      constructor
      · exact .name
      · intro wellFormed
        cases wellFormed with
        | name readable => exact readable
  | .binary operator left right position, start => by
      rw [Formula.code, succeeds_bind_iff fun _ _ => succeeds_bind_pure, succeeds_code lists left,
        succeeds_code lists right]
      constructor
      · rintro ⟨left, right⟩
        exact .binary left right
      · intro wellFormed
        cases wellFormed with
        | binary left right => exact ⟨left, right⟩
  | .logical connective left right position, start => by
      rw [Formula.code, succeeds_bind_iff fun _ _ => succeeds_bind_pure, succeeds_code lists left,
        succeeds_code lists right]
      constructor
      · rintro ⟨left, right⟩
        exact .logical left right
      · intro wellFormed
        cases wellFormed with
        | logical left right => exact ⟨left, right⟩
  | .unary operator operand position, start => by
      rw [Formula.code, succeeds_bind_pure, succeeds_code lists operand]
      constructor
      · exact .unary
      · intro wellFormed
        cases wellFormed with
        | unary operand => exact operand
  | .conditional condition whenTrue whenFalse position, start => by
      rw [Formula.code,
        succeeds_bind_iff fun _ _ => succeeds_bind_iff fun _ _ => succeeds_bind_pure,
        succeeds_code lists condition, succeeds_code lists whenTrue, succeeds_code lists whenFalse]
      constructor
      · rintro ⟨condition, whenTrue, whenFalse⟩
        exact .conditional condition whenTrue whenFalse
      · intro wellFormed
        cases wellFormed with
        | conditional condition whenTrue whenFalse => exact ⟨condition, whenTrue, whenFalse⟩
  | .change direction moment operand position, start => by
      rw [wellFormed_change_iff]
      cases operand with
      | name text namePosition =>
          rw [Formula.code, succeeds_bind_pure, succeeds_writableLocal, assignable_name_iff]
      | index array index indexPosition =>
          rw [Formula.code, succeeds_bind_iff fun _ _ => succeeds_bind_pure, succeeds_writableBank,
            succeeds_code lists index, assignable_index_iff]
      | _ => exact iff_of_false not_succeeds_error nofun
  | .assign compound target value position, start => by
      rw [wellFormed_assign_iff]
      cases target with
      | name text namePosition =>
          -- a combined value has its code elsewhere
          rw [assignable_name_iff]
          cases compound <;>
            rw [Formula.code, succeeds_bind_iff fun _ _ => succeeds_bind_pure,
              succeeds_writableLocal, succeeds_code lists value]
      | index array index indexPosition =>
          rw [assignable_index_iff, and_assoc]
          cases compound <;>
            rw [Formula.code,
              succeeds_bind_iff fun _ _ => succeeds_bind_iff fun _ _ => succeeds_bind_pure,
              succeeds_writableBank, succeeds_code lists index, succeeds_code lists value]
      | _ => exact iff_of_false not_succeeds_error fun wellFormed => nomatch wellFormed.1
  | .call callee arguments position, start => by
      rw [Formula.code, succeeds_bind_iff fun _ _ => succeeds_bind_pure, succeeds_placed,
        succeeds_callInstruction lists, succeeds_codes lists arguments]
      constructor
      · rintro ⟨takes, arguments⟩
        exact .call takes arguments
      · intro wellFormed
        cases wellFormed with
        | call takes arguments => exact ⟨takes, arguments⟩
  | .index array index position, start => by
      rw [Formula.code, succeeds_bind_iff fun _ _ => succeeds_bind_pure, succeeds_code lists index]
      constructor
      · rintro ⟨⟨bank, named⟩, index⟩
        obtain ⟨namePosition, rfl⟩ := bank_eq_ok.mp named
        exact .index index
      · intro wellFormed
        cases wellFormed with
        | index index => exact ⟨⟨_, bank_eq_ok.mpr ⟨_, rfl⟩⟩, index⟩

/-- Formulas have code just if they are well-formed. -/
theorem succeeds_codes (lists : functions.Lists subroutines) :
    (formulas : List Formula) → (start : Nat) →
    (Succeeds (Formula.codes functions scope start formulas) ↔
      ∀ formula ∈ formulas, formula.WellFormed subroutines scope.sight)
  | [], start => by
      rw [Formula.codes]
      exact iff_of_true succeeds_pure nofun
  | first :: others, start => by
      rw [Formula.codes, succeeds_bind_iff fun _ _ => succeeds_bind_pure, succeeds_code lists first,
        succeeds_codes lists others, List.forall_mem_cons]

end

/-- An optional formula has code just if it is well-formed. -/
theorem succeeds_codeOrZero (lists : functions.Lists subroutines) {start : Nat}
    {position : Position} {value : Option Formula} :
    Succeeds (codeOrZero functions scope start position value) ↔
      ∀ formula ∈ value, formula.WellFormed subroutines scope.sight := by
  cases value with
  | none => exact iff_of_true succeeds_pure nofun
  | some formula => rw [codeOrZero, succeeds_code lists formula, forall_mem_some]

end Formula

/-! ## Steps with code -/

namespace Step

variable {scope : Scope} {position : Position}

/-- A binding has code just if it is well-formed. -/
theorem succeeds_bindingCode (lists : functions.Lists subroutines) {start : Nat} {name : String}
    {writable : Bool} {value : Option Formula} :
    Succeeds (bindingCode functions scope start name writable value position) ↔
      (value = none → writable = true) ∧
        (∀ formula ∈ value, formula.WellFormed subroutines scope.sight) ∧
          scope.sight.Free name := by
  rw [← Formula.succeeds_codeOrZero lists, ← Scope.succeeds_canBind]
  constructor
  · rintro ⟨code, made⟩
    obtain ⟨initialized, valueCode, valueMade, free, -⟩ := bindingCode_eq_ok.mp made
    exact ⟨initialized, ⟨valueCode, valueMade⟩, ⟨(), free⟩⟩
  · rintro ⟨initialized, ⟨valueCode, valueMade⟩, ⟨_, free⟩⟩
    exact ⟨_, bindingCode_eq_ok.mpr ⟨initialized, valueCode, valueMade, free, rfl⟩⟩

/-- The condition of a `for` loop has code just if it is well-formed. -/
theorem succeeds_guardCode (lists : functions.Lists subroutines) {start leave : Nat}
    {condition : Option Formula} :
    Succeeds (guardCode functions scope start leave position condition) ↔
      ∀ formula ∈ condition, formula.WellFormed subroutines scope.sight := by
  cases condition with
  | none => exact iff_of_true succeeds_pure nofun
  | some formula =>
      rw [guardCode, succeeds_bind_pure, Formula.succeeds_code lists formula, forall_mem_some]

/-- The step of a `for` loop has code just if it is well-formed. -/
theorem succeeds_advanceCode (lists : functions.Lists subroutines) {start : Nat}
    {step : Option Formula} :
    Succeeds (advanceCode functions scope start position step) ↔
      ∀ formula ∈ step, formula.WellFormed subroutines scope.sight := by
  cases step with
  | none => exact iff_of_true succeeds_pure nofun
  | some formula =>
      rw [advanceCode, succeeds_bind_pure, Formula.succeeds_code lists formula, forall_mem_some]

/-- There is a target to jump to just inside of a loop. -/
theorem succeeds_loopJump {targets : Option LoopTargets} {target : LoopTargets → Nat}
    {missing : Reason} :
    Succeeds (loopJump targets target missing position) ↔ targets.isSome = true := by
  cases targets with
  | none => exact iff_of_false not_succeeds_error nofun
  | some targets => exact iff_of_true succeeds_ok rfl

mutual

/-- A step has code just if it is well-formed. -/
theorem succeeds_code (lists : functions.Lists subroutines) : (step : Step) →
    (targets : Option LoopTargets) → (scope : Scope) → (start : Nat) →
    (Succeeds (Step.code functions targets scope start step) ↔
      step.WellFormed subroutines scope.sight targets.isSome)
  | .bind name writable value position, targets, scope, start => by
      rw [Step.code, succeeds_bindingCode lists]
      constructor
      · rintro ⟨initialized, value, free⟩
        exact .bind initialized value free
      · intro wellFormed
        cases wellFormed with
        | bind initialized value free => exact ⟨initialized, value, free⟩
  | .evaluate value position, targets, scope, start => by
      rw [Step.code, succeeds_bind_pure, Formula.succeeds_code lists]
      constructor
      · exact .evaluate
      · intro wellFormed
        cases wellFormed with
        | evaluate value => exact value
  | .tick position, targets, scope, start => by
      rw [Step.code]
      exact iff_of_true succeeds_pure .tick
  | .wait duration position, targets, scope, start => by
      rw [Step.code, succeeds_bind_pure, Formula.succeeds_code lists]
      constructor
      · exact .wait
      · intro wellFormed
        cases wellFormed with
        | wait duration => exact duration
  | .branch condition whenTrue whenFalse position, targets, scope, start => by
      rw [Step.code, succeeds_bind_iff fun _ _ => succeeds_bind_iff fun _ _ => succeeds_bind_pure,
        Formula.succeeds_code lists, succeeds_codes lists whenTrue,
          succeeds_otherwiseCode lists whenFalse,
        Scope.sight_opened]
      constructor
      · rintro ⟨condition, whenTrue, whenFalse⟩
        exact .branch condition whenTrue whenFalse
      · intro wellFormed
        cases wellFormed with
        | branch condition whenTrue whenFalse => exact ⟨condition, whenTrue, whenFalse⟩
  | .forever body position, targets, scope, start => by
      rw [Step.code, succeeds_bind_pure, succeeds_codes lists body, Scope.sight_opened,
        Option.isSome_some]
      constructor
      · exact .forever
      · intro wellFormed
        cases wellFormed with
        | forever body => exact body
  | .whileLoop condition body position, targets, scope, start => by
      rw [Step.code, succeeds_bind_iff fun _ _ => succeeds_bind_pure, Formula.succeeds_code lists,
        succeeds_codes lists body, Scope.sight_opened, Option.isSome_some]
      constructor
      · rintro ⟨condition, body⟩
        exact .whileLoop condition body
      · intro wellFormed
        cases wellFormed with
        | whileLoop condition body => exact ⟨condition, body⟩
  | .doLoop body condition position, targets, scope, start => by
      rw [Step.code, succeeds_bind_iff fun _ _ => succeeds_bind_pure, Formula.succeeds_code lists,
        succeeds_codes lists body, Scope.sight_opened, Option.isSome_some]
      constructor
      · rintro ⟨body, condition⟩
        exact .doLoop body condition
      · intro wellFormed
        cases wellFormed with
        | doLoop body condition => exact ⟨body, condition⟩
  | .forLoop first condition step body position, targets, scope, start => by
      rw [Step.code,
        succeeds_bind_iff fun _ _ => succeeds_bind_iff fun _ _ => succeeds_bind_iff fun _ _ =>
          succeeds_bind_pure,
        succeeds_codes lists first, succeeds_guardCode lists, succeeds_codes lists body,
        succeeds_advanceCode lists]
      -- what the first steps bind is in sight in the guard, the body and the last step
      simp only [Scope.sight_opened, Scope.sight_afterSteps, Option.isSome_some]
      constructor
      · rintro ⟨first, condition, body, step⟩
        exact .forLoop first condition step body
      · intro wellFormed
        cases wellFormed with
        | forLoop first condition step body => exact ⟨first, condition, body, step⟩
  | .block body position, targets, scope, start => by
      rw [Step.code, succeeds_codes lists body, Scope.sight_opened]
      constructor
      · exact .block
      · intro wellFormed
        cases wellFormed with
        | block body => exact body
  | .leaveLoop position, targets, scope, start => by
      rw [Step.code, succeeds_loopJump]
      constructor
      · exact .leaveLoop
      · intro wellFormed
        cases wellFormed with
        | leaveLoop inLoop => exact inLoop
  | .nextRound position, targets, scope, start => by
      rw [Step.code, succeeds_loopJump]
      constructor
      · exact .nextRound
      · intro wellFormed
        cases wellFormed with
        | nextRound inLoop => exact inLoop
  | .giveBack value position, targets, scope, start => by
      rw [Step.code, succeeds_bind_pure, Formula.succeeds_codeOrZero lists]
      constructor
      · exact .giveBack
      · intro wellFormed
        cases wellFormed with
        | giveBack value => exact value

/-- Steps have code just if they are well-formed. -/
theorem succeeds_codes (lists : functions.Lists subroutines) : (steps : List Step) →
    (targets : Option LoopTargets) → (scope : Scope) → (start : Nat) →
    (Succeeds (Step.codes functions targets scope start steps) ↔
      AllWellFormed subroutines scope.sight targets.isSome steps)
  | [], targets, scope, start => by
      rw [Step.codes]
      exact iff_of_true succeeds_pure .nil
  | first :: others, targets, scope, start => by
      rw [Step.codes, succeeds_bind_iff fun _ _ => succeeds_bind_pure, succeeds_code lists first,
        succeeds_codes lists others, Scope.sight_afterStep]
      constructor
      · rintro ⟨first, others⟩
        exact .cons first others
      · intro wellFormed
        cases wellFormed with
        | cons first others => exact ⟨first, others⟩

/-- An optional second branch has code just if it is well-formed. -/
theorem succeeds_otherwiseCode (lists : functions.Lists subroutines) :
    (branch : Option (List Step)) →
    (targets : Option LoopTargets) → (scope : Scope) → (start : Nat) → (position : Position) →
    (Succeeds (Step.otherwiseCode functions targets scope start position branch) ↔
      ∀ steps ∈ branch, AllWellFormed subroutines scope.sight.opened targets.isSome steps)
  | none, targets, scope, start, position => by
      rw [Step.otherwiseCode]
      exact iff_of_true succeeds_pure nofun
  | some steps, targets, scope, start, position => by
      rw [Step.otherwiseCode, succeeds_bind_pure, succeeds_codes lists steps, Scope.sight_opened,
        forall_mem_some]

end

end Step

/-! ## Programs -/

/-- A routine has code just if it is well-formed. -/
theorem Routine.succeeds_code (lists : functions.Lists subroutines) {routine : Routine}
    {parameters : List String} :
    Succeeds (routine.code functions parameters) ↔ routine.WellFormed subroutines parameters := by
  have body (scope : Scope)
      (done : Formula.placed routine.position (Scope.empty.withParameters parameters) = .ok scope) :
      Succeeds (Step.codes functions none scope 0 routine.body) ↔
        Step.AllWellFormed subroutines (Sight.empty.withParameters parameters) false
          routine.body := by
    rw [Step.succeeds_codes lists, Scope.sight_of_withParameters (Formula.placed_eq_ok.mp done),
      Scope.sight_empty, Option.isSome_none]
  rw [Routine.code, succeeds_bind_iff fun scope done => succeeds_bind_pure.trans (body scope done),
    Formula.succeeds_placed, Scope.succeeds_withParameters]
  constructor
  · rintro ⟨⟨distinct, free⟩, body⟩
    exact ⟨distinct, fun name member => (free name member).1, body⟩
  · rintro ⟨distinct, free, body⟩
    exact ⟨⟨distinct, fun name member => ⟨free name member, List.not_mem_nil⟩⟩, body⟩

namespace Program

/-- The table has an entry for each subroutine if none has a reserved name. -/
theorem tableFrom_cons_eq_ok {index : Nat} {routine : Routine} {others : List Routine}
    {functions : FunctionTable} :
    tableFrom index (routine :: others) = .ok functions ↔
      Vocabulary.isReserved routine.name = false ∧ ∃ table,
        tableFrom (index + 1) others = .ok table ∧
        (routine.name, ⟨index, routine.parameters.length⟩) :: table = functions := by
  rw [tableFrom]
  split
  case isTrue reserved => exact iff_of_false nofun fun made => nomatch reserved.symm.trans made.1
  case isFalse allowed =>
    rw [bind_eq_ok]
    simp only [pure_eq_ok]
    exact (and_iff_right (eq_false_of_ne_true allowed)).symm

/-- The table can be made just if no subroutine has a reserved name. -/
theorem succeeds_tableFrom {index : Nat} {routines : List Routine} :
    Succeeds (tableFrom index routines) ↔
      ∀ routine ∈ routines, Vocabulary.isReserved routine.name = false := by
  induction routines generalizing index with
  | nil => exact iff_of_true succeeds_pure nofun
  | cons routine others ih =>
      rw [List.forall_mem_cons, ← @ih (index + 1)]
      simp only [Succeeds, tableFrom_cons_eq_ok]
      constructor
      · rintro ⟨_, free, table, made, rfl⟩
        exact ⟨free, table, made⟩
      · rintro ⟨free, table, made⟩
        exact ⟨_, free, table, made, rfl⟩

/-- The table that is made lists the subroutines, if their names are distinct. -/
theorem lists_of_tableFrom {index : Nat} {routines : List Routine} {functions : FunctionTable}
    (made : tableFrom index routines = .ok functions)
    (distinct : (routines.map Routine.name).Nodup) :
    functions.Lists routines := by
  induction routines generalizing index functions with
  | nil =>
      cases pure_eq_ok.mp made
      exact fun name arity => iff_of_false (fun ⟨_, found⟩ => nomatch found) nofun
  | cons routine others ih =>
      obtain ⟨-, table, othersMade, rfl⟩ := tableFrom_cons_eq_ok.mp made
      rw [List.map_cons, List.nodup_cons] at distinct
      intro name arity
      by_cases same : name = routine.name
      case pos =>
        -- the entry is that of the first routine, since no other one has its name
        subst same
        rw [List.lookup_cons_self]
        constructor
        · rintro ⟨_, found⟩
          cases found
          exact ⟨routine, List.mem_cons_self, rfl, rfl⟩
        · rintro ⟨other, member, same, rfl⟩
          rcases List.mem_cons.mp member with rfl | member
          · exact ⟨index, rfl⟩
          · exact absurd (same ▸ List.mem_map_of_mem member) distinct.1
      case neg =>
        rw [List.lookup_cons, beq_false_of_ne same]
        refine (ih othersMade distinct.2 name arity).trans (exists_congr fun other => ?_)
        rw [List.mem_cons]
        refine and_congr_left fun named => ?_
        rw [or_iff_right]
        rintro rfl
        exact same named.1.symm

/-- The subroutines have code just if all of them are well-formed. -/
theorem succeeds_subroutineCodes (lists : functions.Lists subroutines) {routines : List Routine} :
    Succeeds (subroutineCodes functions routines) ↔
      ∀ routine ∈ routines, routine.WellFormed subroutines routine.parameters := by
  induction routines with
  | nil => exact iff_of_true succeeds_pure nofun
  | cons routine others ih =>
      rw [subroutineCodes, succeeds_bind_iff fun _ _ => succeeds_bind_pure,
        Routine.succeeds_code lists, ih, List.forall_mem_cons]

/-- **Just the well-formed programs have code**: a program can be made of an entry routine and of
subroutines with distinct names if and only if the rules hold for them. -/
theorem exists_ofRoutines_iff {entry : Routine} {subroutines : List Routine}
    (distinct : (subroutines.map Routine.name).Nodup) :
    (∃ program, ofRoutines entry subroutines = .ok program) ↔ WellFormed entry subroutines := by
  have codes (functions : FunctionTable) (made : tableFrom 1 subroutines = .ok functions) :
      Succeeds (entry.code functions [] >>= fun entryCode =>
          subroutineCodes functions subroutines >>= fun codes =>
            pure (⟨entryCode, codes.toArray⟩ : Program)) ↔
        entry.WellFormed subroutines [] ∧
          ∀ routine ∈ subroutines, routine.WellFormed subroutines routine.parameters := by
    have lists := lists_of_tableFrom made distinct
    rw [succeeds_bind_iff fun _ _ => succeeds_bind_pure, Routine.succeeds_code lists,
      succeeds_subroutineCodes lists]
  show Succeeds (ofRoutines entry subroutines) ↔ _
  rw [ofRoutines, succeeds_bind_iff codes, succeeds_tableFrom]
  constructor
  · rintro ⟨free, entry, others⟩
    exact ⟨free, entry, others⟩
  · rintro ⟨free, entry, others⟩
    exact ⟨free, entry, others⟩

/-- A subroutine that declares one name in three scopes, the parameter's among them. -/
def nestedRoutine : Routine :=
  { name := "search"
    parameters := ["x"]
    body :=
      [.bind "low" false (some (.name "x" .start)) .start,
        .forLoop [.bind "x" true (some (.name "low" .start)) .start]
          (some (.binary .less (.name "x" .start) (.name "VAR_J" .start) .start))
          (some (.change .up .before (.name "x" .start) .start))
          [.bind "x" true (some (.index (.name "gV" .start) (.name "x" .start) .start)) .start,
            .branch (.name "x" .start) [.leaveLoop .start] none .start] .start,
        .giveBack (some (.name "x" .start)) .start]
    position := .start }

/-- An entry routine with a loop that ends on a condition and with a call. -/
def loopRoutine (condition : Formula) : Routine :=
  { name := "user_main"
    parameters := []
    body :=
      [.doLoop
        [.bind "y" true none .start,
          .evaluate (.assign none (.name "y" .start)
            (.call (.subroutine "search") [.name "CN2" .start] .start) .start) .start]
        condition .start]
    position := .start }

/-- An instance of `exists_ofRoutines_iff`: the rules hold for a condition that asks for a slot, and
fail for one that asks for a local of the body. -/
theorem exists_ofRoutines_iff_nested :
    ([nestedRoutine].map Routine.name).Nodup ∧
      WellFormed (loopRoutine (.index (.name "gV" .start) (.name "VAR_A" .start) .start))
        [nestedRoutine] ∧
      ¬ WellFormed (loopRoutine (.name "y" .start)) [nestedRoutine] := by
  have distinct : ([nestedRoutine].map Routine.name).Nodup := by decide
  refine ⟨distinct, (exists_ofRoutines_iff distinct).mp ?_, fun wellFormed => ?_⟩
  · have accepted : Succeeds (ofRoutines
        (loopRoutine (.index (.name "gV" .start) (.name "VAR_A" .start) .start))
          [nestedRoutine]) := by
      decide +kernel
    exact accepted
  · have rejected : ¬ Succeeds (ofRoutines (loopRoutine (.name "y" .start)) [nestedRoutine]) := by
      decide +kernel
    exact rejected ((exists_ofRoutines_iff distinct).mpr wellFormed)

end Program

end LineRobot
