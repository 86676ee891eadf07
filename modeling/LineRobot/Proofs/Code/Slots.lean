import LineRobot.Proofs.Code.Assembled

/-! # Locals never share a number

While a function is assembled, the locals of all open scopes have numbers of their own, at each
point of it and whatever comes of it (`Routine.keepsSlotsApart`). Parameters come first, a scope
begins at the number that was free when it was opened, which is free again when it has been closed,
and each instruction emitted uses the local of an open scope, so that the function has that
local. -/

namespace LineRobot

/-- The locals at one point of assembling a function. -/
structure Allocation.IsApart (point : Allocation) : Prop where
  /-- A scope is open. -/
  isOpen : point.scopes ≠ []
  /-- No two locals of open scopes have the same number. -/
  nodup_slots : point.slots.Nodup
  /-- The numbers are below the next free one. -/
  lt_next : ∀ slot ∈ point.slots, slot < point.next
  /-- There are as many locals as needed. -/
  next_le_count : point.next ≤ point.count
  /-- A name means its innermost declaration. -/
  lookup?_iff : ∀ name found,
    point.scope.lookup? name = some found ↔ Allocation.IsInnermost point.scopes name found

/-- The locals of parameters, the latest first: they are numbered from zero on and can be assigned
to. -/
def parameterLocals (names : List String) : List (String × Local) :=
  (names.zipIdx.map fun named => (named.1, ⟨named.2, true⟩)).reverse

/-- The locals of a function keep their numbers apart while it is assembled, starting with the given
locals and with the given acts. -/
structure Routine.KeepsSlotsApart (functions : FunctionTable) (routine : Routine)
    (names : List String) (start : Allocation) (acts : List Act) : Prop where
  /-- What is assembled is the code of the routine, or there is none for the same reason. -/
  code_eq : routine.assembledCode functions names =
    (routine.code functions names).mapError Stop.rejected
  /-- A scope is open wherever a local is declared. -/
  code_ne : ∀ position, routine.assembledCode functions names ≠ .error (.noOpenScope position)
  /-- At each point the locals are apart. -/
  apart : ∀ part, part <+: acts → (start.afterAll part).IsApart
  /-- A scope begins at the number that was free when it was opened, and the first one at zero. -/
  opened : ∀ part, part <+: acts → ∀ inner scope outer, (start.afterAll part).scopes =
    inner ++ scope :: outer →
    (outer = [] ∧ scope.base = 0) ∨
      ∃ earlier since, part = earlier ++ .opens :: since ∧
        start.IsOpening earlier since scope.base outer
  /-- To close a scope leaves what was free and open when it was opened. -/
  closed : ∀ part, part ++ [.closes] <+: acts →
    ∃ earlier since, part = earlier ++ .opens :: since ∧
      start.IsOpening earlier since (start.afterAll (part ++ [.closes])).next
        (start.afterAll (part ++ [.closes])).scopes
  /-- The first acts declare the parameters, which stay the first locals. -/
  parameters : ∀ part, part <+: acts → ∃ inner more,
    (start.afterAll part).scopes = inner ++ [⟨more ++ parameterLocals (names.take part.length), 0⟩]
  /-- An instruction uses the local of a scope that is open when it is emitted. -/
  uses : ∀ part placed, part ++ [.emits placed] <+: acts →
    ∀ slot ∈ placed.instruction.local?, slot ∈ (start.afterAll part).slots
  /-- The function has each local that its code uses. -/
  lt_localCount : ∀ code, routine.code functions names = .ok code →
    ∀ placed ∈ code.body, ∀ slot ∈ placed.instruction.local?, slot < code.localCount

/-! ## Parameters -/

/-- One parameter more gets the next number. -/
theorem parameterLocals_append_singleton (names : List String) (name : String) :
    parameterLocals (names ++ [name]) = (name, ⟨names.length, true⟩) :: parameterLocals names := by
  simp [parameterLocals, List.zipIdx_append]

namespace Allocation

/-- The acts that declare parameters. -/
def declarations (names : List String) : List Act :=
  names.map fun name => .declares name true

/-- Parameters are declared as the first locals. -/
theorem afterAll_declarations (arity : Nat) (names : List String) :
    ((initial arity).afterAll (declarations names)).scopes = [⟨parameterLocals names, 0⟩] ∧
      ((initial arity).afterAll (declarations names)).next = names.length := by
  induction names using List.reverseRecOn with
  | nil => exact ⟨rfl, rfl⟩
  | append_singleton names name ih =>
      obtain ⟨scopes, next⟩ := ih
      have split : declarations (names ++ [name]) = declarations names ++ [.declares name true] :=
        List.map_append
      rw [split, afterAll_append, afterAll_cons, afterAll_nil, after, scopes]
      refine ⟨?_, ?_⟩
      · rw [parameterLocals_append_singleton, next]
      · simp [next]

end Allocation

open Assembler

/-- What is done first declares parameters until one cannot be declared. -/
theorem Assembler.exists_of_declareAll (position : Position) (names : List String)
    (allocation : Allocation) :
    ∃ declared result, declareAll position names allocation =
      ⟨Allocation.declarations declared, result⟩ ∧
      declared <+: names ∧ (result = .ok () → declared = names) := by
  induction names generalizing allocation with
  | nil => exact ⟨[], .ok (), rfl, List.nil_prefix, fun _ => rfl⟩
  | cons name others ih =>
      rw [declareAll]
      rcases declare_cases name true position allocation with ⟨stop, stops⟩ | ⟨-, -, declares⟩
      · exact ⟨[], .error stop, bind_of_error stops, List.nil_prefix, fun ok => by cases ok⟩
      · obtain ⟨declared, result, done, isPart, all⟩ :=
          ih (allocation.afterAll [.declares name true])
        refine ⟨name :: declared, result, ?_, List.cons_prefix_cons.mpr ⟨rfl, isPart⟩,
          fun ok => by rw [all ok]⟩
        rw [bind_of_ok declares, done]
        rfl

section Points

variable {functions : FunctionTable} {routine : Routine} {names : List String}

/-- What is done for a routine: parameters are declared, and if all of them are, then more is done
in order. -/
theorem Routine.exists_declarations (functions : FunctionTable) (routine : Routine)
    (names : List String) :
    ∃ declared rest, (routine.assembled functions names).acts =
      Allocation.declarations declared ++ rest ∧
      declared <+: names ∧ (rest = [] ∨ declared = names) ∧
      ((Allocation.initial names.length).afterAll (Allocation.declarations declared)).Orderly
        rest := by
  obtain ⟨declared, result, done, isPart, all⟩ :=
    exists_of_declareAll routine.position names (.initial names.length)
  rw [assembled, assembler]
  cases result with
  | error stop =>
      rw [bind_of_error done]
      exact ⟨declared, [], (List.append_nil _).symm, isPart, .inl rfl, .nothing⟩
  | ok _ =>
      rw [bind_of_ok done]
      refine ⟨declared, _, rfl, isPart, .inr (all rfl), ?_⟩
      exact OrderlyAt.bind (Step.orderlyAt_assemblers _ _ _ _) fun _ =>
        orderlyAt_emit (by simp [Instruction.local?])

/-- While parameters are declared, the locals are those of the ones declared so far. -/
theorem Allocation.scopes_of_prefix {declared : List String} {part : List Act}
    (isFirst : declared <+: names) (isPart : part <+: declarations declared) :
    ((initial names.length).afterAll part).scopes =
      [⟨parameterLocals (names.take part.length), 0⟩] := by
  have length : part.length ≤ declared.length := by
    simpa [declarations] using isPart.length_le
  have same : declarations (names.take part.length) = part := by
    obtain ⟨others, rfl⟩ := isFirst
    rw [List.take_append_of_le_length length, declarations, List.map_take]
    exact (List.prefix_iff_eq_take.mp isPart).symm
  have declares := (afterAll_declarations names.length (names.take part.length)).1
  rw [same] at declares
  exact declares

/-- The first locals are those of the parameters, at each point. -/
theorem Routine.exists_parameterLocals {part : List Act}
    (isPart : part <+: (routine.assembled functions names).acts) :
    ∃ inner more, ((Allocation.initial names.length).afterAll part).scopes =
      inner ++ [⟨more ++ parameterLocals (names.take part.length), 0⟩] := by
  obtain ⟨declared, rest, acts, isFirst, complete, orderly⟩ :=
    exists_declarations functions routine names
  rw [acts] at isPart
  rcases complete with rfl | rfl
  · -- a parameter cannot be declared
    rw [List.append_nil] at isPart
    exact ⟨[], [], Allocation.scopes_of_prefix isFirst isPart⟩
  · rcases Allocation.prefix_append_cases isPart with inFirst | ⟨later, rfl, inRest⟩
    · exact ⟨[], [], Allocation.scopes_of_prefix isFirst inFirst⟩
    · obtain ⟨scopes, -⟩ := Allocation.afterAll_declarations declared.length declared
      obtain ⟨inner, more, after⟩ := orderly.retains scopes inRest
      have all : declared.take (Allocation.declarations declared ++ later).length = declared := by
        refine List.take_of_length_le ?_
        rw [List.length_append, Allocation.declarations, List.length_map]
        exact Nat.le_add_right _ _
      exact ⟨inner, more, by rw [Allocation.afterAll_append, all, after]⟩

/-- Each of permitted acts is permitted when its turn comes. -/
theorem Allocation.PermitsAll.permits {allocation : Allocation} {acts part : List Act} {act : Act}
    (permitsAll : allocation.PermitsAll acts) (isPart : part ++ [act] <+: acts) :
    (allocation.afterAll part).Permits act := by
  obtain ⟨others, rfl⟩ := isPart
  rw [List.append_assoc, permitsAll_append] at permitsAll
  exact permitsAll.2.1

/-- At each point of assembling a routine the locals are apart. -/
theorem Routine.isSound_afterAll {part : List Act}
    (isPart : part <+: (routine.assembled functions names).acts) :
    ((Allocation.initial names.length).afterAll part).IsSound := by
  have permits := (orderly_assembled functions routine names).permitsAll
  obtain ⟨others, split⟩ := isPart
  rw [← split, Allocation.permitsAll_append] at permits
  exact (Allocation.isSound_initial _).afterAll permits.1

/-- At each point of assembling a routine a scope is open. -/
theorem Routine.scopes_ne_nil {part : List Act}
    (isPart : part <+: (routine.assembled functions names).acts) :
    ((Allocation.initial names.length).afterAll part).scopes ≠ [] := by
  obtain ⟨inner, more, scopes⟩ := exists_parameterLocals isPart
  rw [scopes]
  exact List.append_ne_nil_of_right_ne_nil inner (List.cons_ne_nil _ _)

/-- An instruction uses the local of a scope that is open when it is emitted. -/
theorem Routine.mem_slots_of_emits {part : List Act} {placed : Placed}
    (isPart : part ++ [.emits placed] <+: (routine.assembled functions names).acts) :
    ∀ slot ∈ placed.instruction.local?,
      slot ∈ ((Allocation.initial names.length).afterAll part).slots :=
  (orderly_assembled functions routine names).permitsAll.permits isPart

/-- A local that an instruction of assembled code uses is among those that are needed. -/
theorem Routine.lt_count_of_emitted {placed : Placed}
    (member : placed ∈ Act.emitted (routine.assembled functions names).acts) :
    ∀ slot ∈ placed.instruction.local?,
      slot <
        ((Allocation.initial names.length).afterAll
          (routine.assembled functions names).acts).count := by
  intro slot used
  obtain ⟨act, inActs, emits⟩ := List.mem_filterMap.mp member
  cases act with
  | emits other =>
      cases emits
      obtain ⟨part, others, split⟩ := List.append_of_mem inActs
      have isPart : part ++ [.emits placed] <+: (routine.assembled functions names).acts :=
        ⟨others, by rw [split, List.append_assoc]; rfl⟩
      have isSound := isSound_afterAll ((List.prefix_append part _).trans isPart)
      have live := isSound.mem_slots_iff.mp (mem_slots_of_emits isPart slot used)
      have grows :=
        Allocation.count_le_afterAll ((Allocation.initial names.length).afterAll part)
          (.emits placed :: others)
      rw [← Allocation.afterAll_append, ← split] at grows
      exact Nat.lt_of_lt_of_le live (Nat.le_trans isSound.counted grows)
  | opens | closes | declares => cases emits

end Points

/-- The locals of a function that is assembled never share a number. -/
theorem Routine.keepsSlotsApart (functions : FunctionTable) (routine : Routine)
    (names : List String) :
    routine.KeepsSlotsApart functions names (.initial names.length)
      (routine.assembled functions names).acts where
  code_eq := assembledCode_eq functions routine names
  code_ne := by
    intro position missing
    rw [assembledCode_eq] at missing
    cases made : routine.code functions names <;> rw [made] at missing <;> cases missing
  apart := by
    intro part isPart
    have isSound := isSound_afterAll isPart
    exact {
      isOpen := scopes_ne_nil isPart
      nodup_slots := isSound.nodup_slots
      lt_next := fun slot => isSound.mem_slots_iff.mp
      next_le_count := isSound.counted
      lookup?_iff := fun name found => isSound.lookup?_eq_some_iff }
  opened := by
    intro part isPart inner scope outer split
    by_cases around : outer = []
    · left
      obtain ⟨within, more, scopes⟩ := exists_parameterLocals isPart
      rw [split, around] at scopes
      have same := List.append_inj_right' scopes rfl
      exact ⟨around, by rw [(List.cons.inj same).1]⟩
    · exact .inr (Allocation.exists_isOpening rfl part split around)
  closed := fun part isPart => Allocation.exists_isOpening_of_closes rfl (scopes_ne_nil isPart)
  parameters := fun part isPart => exists_parameterLocals isPart
  uses := fun part placed isPart => mem_slots_of_emits isPart
  lt_localCount := by
    intro code made placed member
    have same := assembledCode_eq functions routine names
    rw [made, assembledCode] at same
    cases result : (routine.assembled functions names).result with
    | error stop =>
        rw [result] at same
        cases same
    | ok _ =>
        rw [result] at same
        cases same
        exact lt_count_of_emitted (List.mem_toArray.mp member)

end LineRobot
