import Mathlib.Data.List.Induction
import Mathlib.Data.List.Nodup
import LineRobot.Code.Instruction
import LineRobot.Code.Scope

/-! # Locals on a stack of scopes

The locals of a function that is being assembled (`Allocation`): the open scopes on a stack, each
with the number of the first local that it may use, the number of the next free local, and the
number of locals needed so far. An `Act` opens or closes a scope, declares a local or emits an
instruction, and `Allocation.afterAll` replays acts, so that each point of assembling is what a part
of the acts leads to.

* One permitted act keeps the numbers apart (`IsSound.after`), and so does each run of them
  (`IsSound.afterAll`): the locals of all open scopes are numbered one after the other.
* Acts that close each scope they open (`Orderly`) are permitted, and never lose what was open
  before (`Orderly.retains`).
* Whatever the acts, a scope begins at the number that was free when it was opened
  (`exists_isOpening`). -/

namespace LineRobot

/-- The number of the local that an instruction reads or writes, if it is one that does. -/
def Instruction.local? : Instruction → Option Nat
  | load slot => some slot
  | store slot => some slot
  | change (.localSlot slot) _ _ => some slot
  | _ => none

/-- A scope that is open. -/
structure OpenScope where
  /-- What is declared in it, the latest first. -/
  declared : List (String × Local)
  /-- The number of the first local that it may use. -/
  base : Nat
deriving DecidableEq, Repr

/-- The locals of a function that is being assembled. -/
structure Allocation where
  /-- The scopes that are open, the innermost first. -/
  scopes : List OpenScope
  /-- The number of the next free local. -/
  next : Nat
  /-- The number of locals needed so far. -/
  count : Nat
deriving DecidableEq, Repr

/-- What is done while a function is assembled. -/
inductive Act where
  /-- Open a scope. -/
  | opens
  /-- Close the innermost scope. -/
  | closes
  /-- Declare a local in the innermost scope. -/
  | declares (name : String) (writable : Bool)
  /-- Emit an instruction. -/
  | emits (placed : Placed)
deriving DecidableEq, Repr

/-- The code that acts emit. -/
def Act.emitted (acts : List Act) : List Placed :=
  acts.filterMap fun
    | emits placed => some placed
    | _ => none

namespace Allocation

/-- A function with the given number of parameters before they are declared. One scope is open, and
there will be at least as many locals as parameters. -/
def initial (arity : Nat) : Allocation :=
  ⟨[⟨[], 0⟩], 0, arity⟩

/-- The locals after an act. A scope begins at the next free local, and to close it frees its locals
again; without an open scope nothing can be closed or declared. -/
def after (allocation : Allocation) : Act → Allocation
  | .opens => { allocation with scopes := ⟨[], allocation.next⟩ :: allocation.scopes }
  | .closes =>
    match allocation.scopes with
    | [] => allocation
    | scope :: outer => { allocation with scopes := outer, next := scope.base }
  | .declares name writable =>
    match allocation.scopes with
    | [] => allocation
    | scope :: outer => {
        scopes := ⟨(name, ⟨allocation.next, writable⟩) :: scope.declared, scope.base⟩ :: outer
        next := allocation.next + 1
        count := max allocation.count (allocation.next + 1) }
  | .emits _ => allocation

/-- The locals after acts, one after the other. -/
def afterAll (allocation : Allocation) (acts : List Act) : Allocation :=
  acts.foldl after allocation

/-- What is declared in the open scopes, the innermost first and in each the latest first. -/
def declared (allocation : Allocation) : List (String × Local) :=
  allocation.scopes.flatMap OpenScope.declared

/-- The numbers of the locals of the open scopes. -/
def slots (allocation : Allocation) : List Nat :=
  allocation.declared.map fun named => named.2.slot

/-- The scope in which names are looked up: the innermost open one apart from those around it. -/
def scope (allocation : Allocation) : Scope :=
  match allocation.scopes with
  | [] => ⟨[], [], allocation.next⟩
  | scope :: outer => ⟨scope.declared, outer.flatMap OpenScope.declared, allocation.next⟩

/-- The declaration that a name means in open scopes: that of the innermost scope which declares
it. -/
def IsInnermost (scopes : List OpenScope) (name : String) (found : Local) : Prop :=
  ∃ inner scope outer, scopes = inner ++ scope :: outer ∧
    (∀ closer ∈ inner, name ∉ closer.declared.map Prod.fst) ∧ (name, found) ∈ scope.declared

/-- An act that is permitted: a name is declared once in a scope, and an instruction uses the local
of an open scope. -/
def Permits (allocation : Allocation) : Act → Prop
  | .opens => True
  | .closes => True
  | .declares name _ => ∀ scope ∈ allocation.scopes.head?, name ∉ scope.declared.map Prod.fst
  | .emits placed => ∀ slot ∈ placed.instruction.local?, slot ∈ allocation.slots

/-- Acts each of which is permitted when its turn comes. -/
def PermitsAll : Allocation → List Act → Prop
  | _, [] => True
  | allocation, act :: others => allocation.Permits act ∧ (allocation.after act).PermitsAll others

variable {allocation : Allocation} {acts : List Act}

@[simp] theorem afterAll_nil (allocation : Allocation) : allocation.afterAll [] = allocation := rfl

@[simp] theorem afterAll_cons (allocation : Allocation) (act : Act) (others : List Act) :
    allocation.afterAll (act :: others) = (allocation.after act).afterAll others := rfl

@[simp] theorem afterAll_append (allocation : Allocation) (first others : List Act) :
    allocation.afterAll (first ++ others) = (allocation.afterAll first).afterAll others :=
  List.foldl_append

/-- To emit instructions changes no locals. -/
@[simp] theorem afterAll_emits (allocation : Allocation) (code : List Placed) :
    allocation.afterAll (code.map .emits) = allocation := by
  induction code with
  | nil => rfl
  | cons placed others ih => exact ih

/-- The number of locals needed never goes down. -/
theorem count_le_after (allocation : Allocation) (act : Act) :
    allocation.count ≤ (allocation.after act).count := by
  cases act with
  | opens | emits => exact Nat.le_refl _
  | closes =>
      rw [after]
      split <;> exact Nat.le_refl _
  | declares name writable =>
      rw [after]
      split
      · exact Nat.le_refl _
      · exact Nat.le_max_left _ _

/-- The number of locals needed never goes down. -/
theorem count_le_afterAll (allocation : Allocation) (acts : List Act) :
    allocation.count ≤ (allocation.afterAll acts).count := by
  induction acts generalizing allocation with
  | nil => exact Nat.le_refl _
  | cons act others ih => exact Nat.le_trans (allocation.count_le_after act) (ih _)

/-- What names are looked up in is what the open scopes declare. -/
theorem declared_scope (allocation : Allocation) :
    allocation.scope.inner ++ allocation.scope.outer = allocation.declared := by
  rw [scope, declared]
  split
  · next none => rw [none]; rfl
  · next some => rw [some, List.flatMap_cons]

/-! ## Numbers that are apart -/

/-- Scopes on a stack number their locals one after the other. Each scope begins where the one
around it ends, and the last one ends at the next free number. -/
def Stacked : List OpenScope → Nat → Prop
  | [], next => next = 0
  | scope :: outer, next =>
    scope.declared.map (fun named => named.2.slot) =
        (List.range' scope.base scope.declared.length).reverse ∧
      next = scope.base + scope.declared.length ∧ Stacked outer scope.base

/-- The locals of open scopes are apart from one another. -/
structure IsSound (allocation : Allocation) : Prop where
  /-- They are numbered one after the other. -/
  stacked : Stacked allocation.scopes allocation.next
  /-- There are as many as needed. -/
  counted : allocation.next ≤ allocation.count
  /-- A name is declared once in a scope. -/
  once : ∀ scope ∈ allocation.scopes, (scope.declared.map Prod.fst).Nodup

/-- The parameters are still to be declared. -/
theorem isSound_initial (arity : Nat) : (initial arity).IsSound where
  stacked := ⟨rfl, rfl, rfl⟩
  counted := Nat.zero_le arity
  once := by
    intro scope member
    rw [List.mem_singleton.mp member]
    exact List.nodup_nil

/-- One permitted act keeps the locals apart. -/
theorem IsSound.after (isSound : allocation.IsSound) {act : Act}
    (permits : allocation.Permits act) :
    (allocation.after act).IsSound := by
  obtain ⟨scopes, next, count⟩ := allocation
  obtain ⟨stacked, counted, once⟩ := isSound
  cases act with
  | emits placed => exact ⟨stacked, counted, once⟩
  | opens => exact ⟨⟨rfl, rfl, stacked⟩, counted, List.forall_mem_cons.mpr ⟨List.nodup_nil, once⟩⟩
  | closes =>
      cases scopes with
      | nil => exact ⟨stacked, counted, once⟩
      | cons scope outer =>
          -- the scope around it ends where the closed one began
          obtain ⟨-, ends, stacked⟩ := stacked
          have lower : scope.base ≤ next := Nat.le.intro ends.symm
          exact ⟨stacked, Nat.le_trans lower counted, (List.forall_mem_cons.mp once).2⟩
  | declares name writable =>
      cases scopes with
      | nil => exact ⟨stacked, counted, once⟩
      | cons scope outer =>
          -- the new local comes right behind those of its scope
          obtain ⟨numbered, ends, stacked⟩ := stacked
          replace ends : next = scope.base + scope.declared.length := ends
          obtain ⟨first, others⟩ := List.forall_mem_cons.mp once
          have undeclared : name ∉ scope.declared.map Prod.fst := permits scope rfl
          refine ⟨⟨?_, ?_, stacked⟩, Nat.le_max_right _ _, ?_⟩
          · show next :: scope.declared.map _ =
              (List.range' scope.base (scope.declared.length + 1)).reverse
            rw [numbered, List.range'_concat, List.reverse_append,
              List.reverse_singleton, Nat.one_mul, List.singleton_append, ends]
          · show next + 1 = scope.base + (scope.declared.length + 1)
            omega
          · exact List.forall_mem_cons.mpr ⟨List.nodup_cons.mpr ⟨undeclared, first⟩, others⟩

/-- Permitted acts keep the locals apart. -/
theorem IsSound.afterAll (isSound : allocation.IsSound) (permits : allocation.PermitsAll acts) :
    (allocation.afterAll acts).IsSound := by
  induction acts generalizing allocation with
  | nil => exact isSound
  | cons act others ih => exact ih (isSound.after permits.1) permits.2

/-- The locals of stacked scopes have all numbers below the next free one, the latest the
highest. -/
theorem Stacked.slots_eq {scopes : List OpenScope} {next : Nat} (stacked : Stacked scopes next) :
    (scopes.flatMap OpenScope.declared).map (fun named => named.2.slot) =
      (List.range next).reverse := by
  induction scopes generalizing next with
  | nil =>
      cases stacked
      rfl
  | cons scope outer ih =>
      obtain ⟨numbered, rfl, stacked⟩ := stacked
      rw [List.flatMap_cons, List.map_append, numbered, ih stacked, ← List.reverse_append,
        List.range_eq_range', List.range_eq_range']
      exact congrArg List.reverse (by rw [← List.range'_append_1, Nat.zero_add])

/-- No two locals of open scopes have the same number. -/
theorem IsSound.nodup_slots (isSound : allocation.IsSound) : allocation.slots.Nodup := by
  rw [slots, declared, isSound.stacked.slots_eq]
  exact List.nodup_reverse.mpr List.nodup_range

/-- The locals of open scopes are those below the next free one. -/
theorem IsSound.mem_slots_iff (isSound : allocation.IsSound) {slot : Nat} :
    slot ∈ allocation.slots ↔ slot < allocation.next := by
  rw [slots, declared, isSound.stacked.slots_eq, List.mem_reverse, List.mem_range]

/-! ## What a name means -/

/-- A name is among those that a list declares just if it is found there. -/
theorem lookup_eq_none_iff {entries : List (String × Local)} {name : String} :
    entries.lookup name = none ↔ name ∉ entries.map Prod.fst := by
  rw [List.lookup_eq_none_iff, List.mem_map, not_exists]
  refine forall_congr' fun entry => ?_
  rw [not_and, bne_iff_ne, ne_comm]

/-- In a list that declares each name once, a name means its entry. -/
theorem lookup_eq_some_iff {entries : List (String × Local)} (once : (entries.map Prod.fst).Nodup)
    {name : String} {found : Local} : entries.lookup name = some found ↔
      (name, found) ∈ entries := by
  induction entries with
  | nil => simp
  | cons entry others ih =>
      obtain ⟨other, declared⟩ := entry
      rw [List.map_cons, List.nodup_cons] at once
      rw [List.lookup_cons, List.mem_cons]
      by_cases same : name = other
      · subst same
        have absent (found : Local) : (name, found) ∉ others := fun member =>
          once.1 (List.mem_map.mpr ⟨_, member, rfl⟩)
        simp [absent, eq_comm]
      · simp [same, ih once.2, beq_eq_false_iff_ne.mpr same]

/-- A name means its declaration in the innermost scope that declares it. -/
theorem IsSound.lookup?_eq_some_iff (isSound : allocation.IsSound) {name : String} {found : Local} :
    allocation.scope.lookup? name = some found ↔ IsInnermost allocation.scopes name found := by
  have once := isSound.once
  rw [Scope.lookup?, declared_scope, declared]
  generalize allocation.scopes = scopes at once
  induction scopes with
  | nil =>
      constructor
      · intro found
        cases found
      · rintro ⟨inner, scope, outer, split, -⟩
        simp at split
  | cons scope outer ih =>
      obtain ⟨first, others⟩ := List.forall_mem_cons.mp once
      rw [List.flatMap_cons, List.lookup_append]
      -- the innermost scope decides if it declares the name, and else those around it
      cases here : scope.declared.lookup name with
      | some other =>
          have member := (lookup_eq_some_iff first).mp here
          rw [Option.some_or, Option.some.injEq]
          constructor
          · rintro rfl
            exact ⟨[], scope, outer, rfl, List.forall_mem_nil _, member⟩
          · rintro ⟨inner, holder, around, split, absent, found⟩
            cases inner with
            | nil =>
                obtain ⟨rfl, -⟩ := List.cons.inj split
                exact Option.some.inj (here.symm.trans ((lookup_eq_some_iff first).mpr found))
            | cons closer inner =>
                obtain ⟨rfl, -⟩ := List.cons.inj split
                exact absurd (List.mem_map_of_mem (f := Prod.fst) member)
                  (absent scope List.mem_cons_self)
      | none =>
          have undeclared := lookup_eq_none_iff.mp here
          rw [Option.none_or]
          refine (ih others).trans ⟨?_, ?_⟩
          · rintro ⟨inner, holder, around, rfl, absent, found⟩
            exact ⟨scope :: inner, holder, around, rfl, List.forall_mem_cons.mpr ⟨undeclared,
              absent⟩, found⟩
          · rintro ⟨inner, holder, around, split, absent, found⟩
            cases inner with
            | nil =>
                obtain ⟨rfl, -⟩ := List.cons.inj split
                exact absurd (List.mem_map_of_mem (f := Prod.fst) found) undeclared
            | cons closer inner =>
                obtain ⟨rfl, rfl⟩ := List.cons.inj split
                exact ⟨inner, holder, around, rfl, (List.forall_mem_cons.mp absent).2, found⟩

/-! ## Scopes that are closed again -/

/-- Acts that close each scope they open and no other one, and that are permitted. -/
inductive Orderly : Allocation → List Act → Prop where
  /-- Nothing is done. -/
  | nothing {allocation : Allocation} : Orderly allocation []
  /-- A name is declared. -/
  | declares {allocation : Allocation} {name : String} {writable : Bool}
      (permits : allocation.Permits (.declares name writable)) :
      Orderly allocation [.declares name writable]
  /-- An instruction is emitted. -/
  | emits {allocation : Allocation} {placed : Placed}
      (permits : allocation.Permits (.emits placed)) :
      Orderly allocation [.emits placed]
  /-- A scope is opened and closed. -/
  | inScope {allocation : Allocation} {inside : List Act}
      (orderly : Orderly (allocation.after .opens) inside) :
      Orderly allocation (.opens :: inside ++ [.closes])
  /-- Acts come one after the other. -/
  | append {allocation : Allocation} {first others : List Act} (orderly : Orderly allocation first)
      (later : Orderly (allocation.afterAll first) others) : Orderly allocation (first ++ others)

/-- Acts one after the other are permitted just if the first ones are and then the others. -/
theorem permitsAll_append {first others : List Act} :
    allocation.PermitsAll (first ++ others) ↔
      allocation.PermitsAll first ∧ (allocation.afterAll first).PermitsAll others := by
  induction first generalizing allocation with
  | nil => exact (true_and _).symm ▸ Iff.rfl
  | cons act rest ih =>
      rw [List.cons_append, PermitsAll, ih, PermitsAll, and_assoc]
      rfl

/-- Orderly acts are permitted. -/
theorem Orderly.permitsAll (orderly : Orderly allocation acts) : allocation.PermitsAll acts := by
  induction orderly with
  | nothing => exact trivial
  | declares permits | emits permits => exact ⟨permits, trivial⟩
  | inScope _ ih => exact permitsAll_append.mpr ⟨⟨trivial, ih⟩, trivial, trivial⟩
  | append _ _ first others => exact permitsAll_append.mpr ⟨first, others⟩

/-- The given scopes are still open, with more declared in the first of them and more scopes inside
it. -/
def Retains (scope : OpenScope) (outer : List OpenScope) (allocation : Allocation) : Prop :=
  ∃ inner more, allocation.scopes = inner ++ ⟨more ++ scope.declared, scope.base⟩ :: outer

variable {scope : OpenScope} {outer : List OpenScope}

/-- After orderly acts the scopes are those before, with more declared in the innermost one. -/
theorem Orderly.exists_scopes (orderly : Orderly allocation acts)
    (scopes : allocation.scopes = scope :: outer) :
    ∃ more, (allocation.afterAll acts).scopes = ⟨more ++ scope.declared, scope.base⟩ :: outer := by
  induction orderly generalizing scope outer with
  | nothing | emits => exact ⟨[], scopes⟩
  | @declares allocation name writable =>
      refine ⟨[(name, ⟨allocation.next, writable⟩)], ?_⟩
      rw [afterAll_cons, afterAll_nil, after, scopes]
      rfl
  | inScope _ ih =>
      -- what has been declared inside goes with the scope that is closed
      obtain ⟨more, inside⟩ := ih (by rw [after, scopes])
      refine ⟨[], ?_⟩
      rw [List.cons_append, afterAll_cons, afterAll_append, afterAll_cons, afterAll_nil,
        after.eq_def, inside]
      rfl
  | append _ _ first others =>
      obtain ⟨more, between⟩ := first scopes
      obtain ⟨further, after⟩ := others between
      exact ⟨further ++ more, by rw [afterAll_append, after, List.append_assoc]⟩

/-- A part of acts one after the other is a part of the first ones, or these and a part of the
others. -/
theorem prefix_append_cases {part first others : List Act} (isPart : part <+: first ++ others) :
    part <+: first ∨ ∃ rest, part = first ++ rest ∧ rest <+: others := by
  rcases List.prefix_or_prefix_of_prefix isPart (List.prefix_append first others) with inFirst |
    ⟨rest, rfl⟩
  · exact .inl inFirst
  · exact .inr ⟨rest, rfl, (List.prefix_append_right_inj first).mp isPart⟩

/-- Open scopes are open. -/
theorem Retains.of_scopes (scopes : allocation.scopes = scope :: outer) :
    allocation.Retains scope outer :=
  ⟨[], [], scopes⟩

/-- Open scopes are open if more is declared in the innermost one. -/
theorem Retains.of_exists
    (scopes : ∃ more, allocation.scopes = ⟨more ++ scope.declared, scope.base⟩ :: outer) :
    allocation.Retains scope outer :=
  let ⟨more, scopes⟩ := scopes
  ⟨[], more, scopes⟩

/-- Before and after a single act, the scopes before are open. -/
theorem Orderly.retains_of_single {act : Act} (orderly : Orderly allocation [act])
    (scopes : allocation.scopes = scope :: outer) {part : List Act} (isPart : part <+: [act]) :
    (allocation.afterAll part).Retains scope outer := by
  rcases List.prefix_cons_iff.mp isPart with rfl | ⟨rest, rfl, isRest⟩
  · exact .of_scopes scopes
  · rw [List.prefix_nil.mp isRest]
    exact .of_exists (orderly.exists_scopes scopes)

/-- While orderly acts are done, the scopes before stay open. -/
theorem Orderly.retains (orderly : Orderly allocation acts)
    (scopes : allocation.scopes = scope :: outer) {part : List Act} (isPart : part <+: acts) :
    (allocation.afterAll part).Retains scope outer := by
  induction orderly generalizing scope outer part with
  | nothing =>
      rw [List.prefix_nil.mp isPart]
      exact .of_scopes scopes
  | declares permits => exact (Orderly.declares permits).retains_of_single scopes isPart
  | emits permits => exact (Orderly.emits permits).retains_of_single scopes isPart
  | @inScope allocation inside orderly ih =>
      rcases List.prefix_concat_iff.mp isPart with rfl | isPart
      · exact .of_exists ((Orderly.inScope orderly).exists_scopes scopes)
      · rcases List.prefix_cons_iff.mp isPart with rfl | ⟨rest, rfl, isRest⟩
        · exact .of_scopes scopes
        · -- the new scope stands before those around it
          have opened : (allocation.after .opens).scopes = ⟨[], allocation.next⟩ ::
              scope :: outer := by
            rw [after, scopes]
          obtain ⟨inner, more, after⟩ := ih opened isRest
          exact ⟨inner ++ [⟨more ++ [], allocation.next⟩], [], by
            rw [afterAll_cons, after, List.append_cons]; rfl⟩
  | append orderly _ first others =>
      rcases prefix_append_cases isPart with inFirst | ⟨rest, rfl, isRest⟩
      · exact first scopes inFirst
      · obtain ⟨more, between⟩ := orderly.exists_scopes scopes
        obtain ⟨inner, further, after⟩ := others between isRest
        exact ⟨inner, further ++ more, by rw [afterAll_append, after, List.append_assoc]⟩

/-! ## Where a scope was opened -/

/-- A scope with the given base and the given scopes around it was opened after the earlier acts,
and has been open since. -/
structure IsOpening (start : Allocation) (earlier since : List Act) (base : Nat)
    (outer : List OpenScope) :
    Prop where
  /-- The scopes around it were open. -/
  scopes : (start.afterAll earlier).scopes = outer
  /-- Its base was the next free number. -/
  next : (start.afterAll earlier).next = base
  /-- No act since has closed it. -/
  stays : ∀ part, part <+: since →
    outer.length < (start.afterAll (earlier ++ .opens :: part)).scopes.length

/-- A scope that is open after an act has been opened by it, or was open before with the same base
and the same scopes around it. -/
theorem scope_before {act : Act} {inner : List OpenScope}
    (split : (allocation.after act).scopes = inner ++ scope :: outer) :
    (act = .opens ∧ allocation.scopes = outer ∧ allocation.next = scope.base) ∨
      ∃ within same, allocation.scopes = within ++ same :: outer ∧ same.base = scope.base := by
  cases act with
  | emits placed => exact .inr ⟨inner, scope, split, rfl⟩
  | opens =>
      cases inner with
      | nil =>
          obtain ⟨rfl, rfl⟩ := List.cons.inj split
          exact .inl ⟨rfl, rfl, rfl⟩
      | cons closer inner => exact .inr ⟨inner, scope, (List.cons.inj split).2, rfl⟩
  | closes =>
      rw [after] at split
      split at split
      · exact .inr ⟨inner, scope, split, rfl⟩
      · next top around scopes =>
          exact .inr ⟨top :: inner, scope, scopes.trans (congrArg (top :: ·) split), rfl⟩
  | declares name writable =>
      rw [after] at split
      split at split
      · exact .inr ⟨inner, scope, split, rfl⟩
      · next top around scopes =>
          cases inner with
          | nil =>
              obtain ⟨rfl, rfl⟩ := List.cons.inj split
              exact .inr ⟨[], top, scopes, rfl⟩
          | cons closer inner =>
              exact .inr ⟨top :: inner, scope, by rw [scopes, (List.cons.inj split).2]; rfl, rfl⟩

/-- Each open scope but the first one has been opened, and begins at the number that was free
then. -/
theorem exists_isOpening {start : Allocation} {first : OpenScope} (single : start.scopes = [first])
    (acts : List Act) {inner : List OpenScope}
    (split : (start.afterAll acts).scopes = inner ++ scope :: outer) (around : outer ≠ []) :
    ∃ earlier since, acts = earlier ++ .opens :: since ∧
      IsOpening start earlier since scope.base outer := by
  -- from the last act on: what is open after it has been opened by it or was open before
  induction acts using List.reverseRecOn generalizing inner scope with
  | nil =>
      rw [afterAll_nil, single] at split
      have lengths := congrArg List.length split
      have := List.length_pos_iff.mpr around
      simp only [List.length_append, List.length_cons, List.length_nil] at lengths
      omega
  | append_singleton acts act ih =>
      have deep : outer.length < (start.afterAll (acts ++ [act])).scopes.length := by
        rw [split, List.length_append, List.length_cons]
        omega
      rw [afterAll_append] at split
      rcases scope_before split with ⟨rfl, scopes, next⟩ | ⟨within, same, scopes, base⟩
      · refine ⟨acts, [], rfl, scopes, next, ?_⟩
        intro part isPart
        rw [List.prefix_nil.mp isPart]
        exact deep
      · obtain ⟨earlier, since, rfl, opening⟩ := ih scopes
        refine ⟨earlier, since ++ [act], by simp, opening.scopes, by rw [opening.next, base], ?_⟩
        intro part isPart
        rcases List.prefix_concat_iff.mp isPart with rfl | isPart
        · simpa using deep
        · exact opening.stays part isPart

/-- To close a scope restores what was free and open when it was opened. -/
theorem exists_isOpening_of_closes {start : Allocation} {first : OpenScope}
    (single : start.scopes = [first]) {acts : List Act}
    (isOpen : (start.afterAll (acts ++ [.closes])).scopes ≠ []) :
    ∃ earlier since, acts = earlier ++ .opens :: since ∧
      IsOpening start earlier since (start.afterAll (acts ++ [.closes])).next
        (start.afterAll (acts ++ [.closes])).scopes := by
  rw [afterAll_append, afterAll_cons, afterAll_nil, after] at isOpen ⊢
  split at isOpen
  · next none => exact absurd none isOpen
  · next scope outer scopes =>
      have split : (start.afterAll acts).scopes = [] ++ scope :: outer := scopes
      exact exists_isOpening single acts split isOpen

end Allocation

end LineRobot
