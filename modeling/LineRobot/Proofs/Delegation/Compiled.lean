import LineRobot.Proofs.Delegation.Accepted
import LineRobot.Proofs.Delegation.Meaning

/-! # Programs with delegated waits compile

If a source compiles, so does any source whose parsed program has some of the waits delegated to a
new subroutine (`ParsedProgram.Delegates.exists_compile`). -/

namespace LineRobot

variable {names : List String} {helper parameter : String} {functions functions' : FunctionTable}

/-- A function that has code, called with the given parameters. -/
def ParsedFunction.Accepted (names : List String) (functions : FunctionTable)
    (parameters : List String) (function : ParsedFunction) : Prop :=
  ∃ body, Step.ofStatements names function.body = .ok body ∧ ∃ code,
    Routine.code functions ⟨function.name, function.parameters, body,
      function.position⟩ parameters =
      .ok code

/-- A function with delegated waits is accepted if the function is. -/
theorem ParsedFunction.Delegates.accepted {function other : ParsedFunction}
    {parameters : List String} {code : Code} (delegates : function.Delegates helper other)
    (known : functions.Extends names helper functions')
    (emits : function.Emits functions parameters code) :
    other.Accepted names functions' parameters := by
  obtain ⟨scope, body, after, declared, bodyEmits, -⟩ := emits.body
  obtain ⟨steps, resolved, -, made⟩ := bodyEmits.accepted known delegates.body
  obtain ⟨code, made⟩ := made none 0 rfl
  refine ⟨steps, resolved, ?_⟩
  simp only [Routine.code, bind_eq_ok, pure_eq_ok, Formula.placed_eq_ok]
  exact ⟨_, scope, declared, code, made, rfl⟩

/-- The new subroutine is accepted. -/
theorem ParsedFunction.Waits.accepted {waiter : ParsedFunction}
    (waits : waiter.Waits helper parameter) (free : Vocabulary.isReserved parameter = false) :
    waiter.Accepted names functions waiter.parameters := by
  obtain ⟨place, callPlace, namePlace, body⟩ := waits.body
  let scope := Scope.empty.bind parameter true
  -- the parameter is the first local, and the body only reads it
  have declared : Scope.empty.withParameters [parameter] = .ok scope := by
    have canBind : Scope.empty.canBind parameter = .ok () := by
      rw [Scope.canBind, if_neg (by rw [free]; exact Bool.false_ne_true), Scope.empty]
      rfl
    simp only [Scope.withParameters, bind_eq_ok]
    exact ⟨(), canBind, rfl⟩
  have meant : Formula.nameInstruction scope parameter = .ok (.load 0) := by
    rw [Formula.nameInstruction, Scope.lookup?_bind]
    rfl
  refine ⟨[.wait (.name parameter namePlace) place], ?_, ?_⟩
  · have resolved : Step.ofExpressionStatement names place
        (.call Vocabulary.wait [.name parameter namePlace] callPlace) =
          .ok (.wait (.name parameter namePlace) place) :=
      Expression.ofExpressionStatement_eq_ok.mpr (.inl ⟨_, _, _, rfl, rfl, rfl⟩)
    rw [body]
    simp only [Step.ofStatements, Step.ofStatement, resolved]
    rfl
  · rw [waits.parameters]
    simp only [Routine.code, bind_eq_ok, pure_eq_ok, Formula.placed_eq_ok, Step.codes_singleton,
      Step.code, Formula.code]
    exact ⟨_, scope, declared, _, ⟨_, ⟨_, meant, rfl⟩, rfl⟩, rfl⟩

/-- A function among those whose waits are delegated has delegated waits itself, unless it is the
new one. -/
theorem ParsedFunction.AllDelegate.waits_or_delegates {functions others : List ParsedFunction}
    {function : ParsedFunction} (delegate : AllDelegate helper parameter functions others)
    (member : function ∈ others) :
    function.Waits helper parameter ∨ ∃ origin ∈ functions, origin.Delegates helper function := by
  induction delegate with
  | added waits delegate =>
      rcases List.mem_cons.mp member with rfl | among
      · exact .inl waits
      · right
        clear waits member
        induction delegate with
        | nil => cases among
        | @cons origin other _ _ delegates _ ih =>
            rcases List.mem_cons.mp among with rfl | among
            · exact ⟨origin, List.mem_cons_self, delegates⟩
            · obtain ⟨origin, known, delegates⟩ := ih among
              exact ⟨origin, List.mem_cons_of_mem _ known, delegates⟩
  | @cons origin other _ _ delegates _ ih =>
      rcases List.mem_cons.mp member with rfl | member
      · exact .inr ⟨origin, List.mem_cons_self, delegates⟩
      · refine (ih member).imp_right ?_
        rintro ⟨origin, known, delegates⟩
        exact ⟨origin, List.mem_cons_of_mem _ known, delegates⟩

namespace ParsedProgram

/-- A function that can be called is in the table. -/
theorem exists_lookup_signatures {functions : List ParsedFunction} {name : String}
    {function : ParsedFunction} {index : Nat}
    (found : (functions.find? fun function => function.name = name) = some function) :
    ∃ signature, (signatures index functions).lookup name = some signature ∧
      signature.arity = function.parameters.length := by
  induction functions generalizing index with
  | nil => cases found
  | cons first others ih =>
      rw [List.find?_cons] at found
      rw [signatures, List.lookup_cons]
      by_cases same : first.name = name
      · rw [decide_eq_true same] at found
        rw [beq_iff_eq.mpr same.symm]
        cases found
        exact ⟨_, rfl, rfl⟩
      · rw [decide_eq_false same] at found
        rw [beq_eq_false_iff_ne.mpr (Ne.symm same)]
        exact ih found

/-- The table of a program knows the functions that can be called in it, with some waits
delegated. -/
theorem Delegates.extends {first second : ParsedProgram} {program : Program}
    (delegates : first.Delegates helper parameter second) (emits : first.Emits program) :
    first.table.Extends (second.subroutines.map ParsedFunction.name) helper second.table := by
  have named {name : String} {function : ParsedFunction}
      (found : second.subroutine? name = some function) :
      (second.subroutines.map ParsedFunction.name).contains name = true := by
    have same : function.name = name := by simpa using List.find?_some found
    rw [List.contains_iff_mem, ← same]
    exact List.mem_map_of_mem (List.mem_of_find?_eq_some found)
  obtain ⟨waiter, found, waits⟩ := delegates.subroutines.find?_helper delegates.fresh
  refine ⟨fun name signature known => ?_, named found, ?_, delegates.helperFree⟩
  · obtain ⟨function, -, found, -, arity, -⟩ := emits.exists_function known
    obtain ⟨function', found', delegated⟩ := delegates.subroutine? found
    obtain ⟨signature', known', arity'⟩ := exists_lookup_signatures found'
    refine ⟨named found', signature', known', ?_⟩
    rw [arity', delegated.parameters, arity]
  · obtain ⟨signature, known, arity⟩ := exists_lookup_signatures found
    refine ⟨signature, known, ?_⟩
    rw [arity, waits.parameters]
    rfl

end ParsedProgram

/-- The routine of a definition whose parsed function is accepted. -/
theorem Routine.exists_ofDefinition_eq_ok {definition : Definition} {function : ParsedFunction}
    {parameters : List String} (read : ParsedFunction.ofDefinition definition = .ok function)
    (accepted : function.Accepted names functions parameters) :
    ∃ routine, Routine.ofDefinition names definition = .ok routine ∧
      function.Resolves names routine ∧ ∃ code, routine.code functions parameters = .ok code := by
  obtain ⟨body, resolved, code, made⟩ := accepted
  rw [ParsedFunction.ofDefinition] at read
  rw [Routine.ofDefinition]
  cases bodyRead : Statement.ofText definition.bodyPosition definition.body with
  | error error =>
      rw [bodyRead] at read
      cases read
  | ok statements =>
      rw [bodyRead] at read
      cases read
      simp only [bind_eq_ok, pure_eq_ok]
      exact ⟨_, ⟨body, resolved, rfl⟩, ⟨rfl, rfl, resolved, rfl⟩, code, made⟩

namespace Program

/-- The routines of definitions whose parsed functions are accepted. -/
theorem exists_routines_eq_ok {definitions : List Definition} {parsed : List ParsedFunction}
    (read : definitions.mapM ParsedFunction.ofDefinition = .ok parsed)
    (accepted : ∀ function ∈ parsed, function.Accepted names functions function.parameters) :
    ∃ routines, Program.routines names definitions = .ok routines ∧
      List.Forall₂ (ParsedFunction.Resolves names) parsed routines ∧
        ∃ codes, Program.subroutineCodes functions routines = .ok codes := by
  induction definitions generalizing parsed with
  | nil =>
      cases read
      exact ⟨[], rfl, .nil, [], rfl⟩
  | cons definition others ih =>
      simp only [List.mapM_cons, bind_eq_ok, pure_eq_ok] at read
      obtain ⟨function, functionRead, later, laterRead, rfl⟩ := read
      obtain ⟨routine, made, resolves, code, coded⟩ :=
        Routine.exists_ofDefinition_eq_ok functionRead (accepted function List.mem_cons_self)
      obtain ⟨routines, laterMade, laterResolve, codes, laterCoded⟩ :=
        ih laterRead fun other member => accepted other (List.mem_cons_of_mem _ member)
      rw [← resolves.parameters] at coded
      refine ⟨routine :: routines, ?_, .cons resolves laterResolve, code :: codes, ?_⟩
      · rw [Program.routines, made, laterMade]
        rfl
      · rw [Program.subroutineCodes, coded, laterCoded]
        rfl

/-- The table of routines whose names are not reserved. -/
theorem tableFrom_eq_signatures {parsed : List ParsedFunction} {routines : List Routine}
    {index : Nat} (resolve : List.Forall₂ (ParsedFunction.Resolves names) parsed routines)
    (unreserved : ∀ function ∈ parsed, Vocabulary.isReserved function.name = false) :
    Program.tableFrom index routines = .ok (ParsedProgram.signatures index parsed) := by
  induction resolve generalizing index with
  | nil => rfl
  | @cons function routine others routines resolves _ ih =>
      have free := unreserved function List.mem_cons_self
      rw [Program.tableFrom, resolves.name, if_neg (by rw [free]; exact Bool.false_ne_true),
        ih fun other member => unreserved other (List.mem_cons_of_mem _ member),
        ParsedProgram.signatures, resolves.parameters]
      rfl

end Program

namespace ParsedProgram

/-- Every subroutine of a program with code has code. -/
theorem Emits.exists_code_of_mem {parsed : ParsedProgram} {program : Program}
    {function : ParsedFunction} (emits : parsed.Emits program)
    (member : function ∈ parsed.subroutines) :
    ∃ code, function.Emits parsed.table function.parameters code := by
  have coded := emits.subroutines
  generalize parsed.subroutines = functions, program.subroutines.toList = codes at coded member
  induction coded with
  | nil => cases member
  | cons emits _ ih =>
      rcases List.mem_cons.mp member with rfl | member
      · exact ⟨_, emits⟩
      · exact ih member

/-- **A source whose program has some waits of another one delegated is accepted if that one
is.** -/
theorem Delegates.exists_compile {first second : ParsedProgram} {program : Program}
    {source : String} (delegates : first.Delegates helper parameter second)
    (emits : first.Emits program) (read : ParsedProgram.ofSource source = .ok second) :
    ∃ program', Program.compile source = .ok program' := by
  have known := delegates.extends emits
  have accepted : ∀ function ∈ second.subroutines,
      function.Accepted (second.subroutines.map ParsedFunction.name) second.table
        function.parameters := by
    intro function member
    obtain waits | ⟨origin, member, delegates⟩ := delegates.subroutines.waits_or_delegates member
    · exact waits.accepted delegates.parameterFree
    · obtain ⟨code, emits⟩ := emits.exists_code_of_mem member
      rw [delegates.parameters]
      exact delegates.accepted known emits
  have unreserved : ∀ function ∈ second.subroutines,
      Vocabulary.isReserved function.name = false := by
    intro function member
    obtain waits | ⟨origin, member, delegated⟩ := delegates.subroutines.waits_or_delegates member
    · rw [waits.name]
      exact delegates.helperFree
    · rw [delegated.name]
      exact emits.unreserved origin member
  have entryAccepted := delegates.entry.accepted known emits.entry
  -- all stages of the compiler succeed on the definitions that have been read
  simp only [ParsedProgram.ofSource, bind_eq_ok, pure_eq_ok] at read
  obtain ⟨definitions, found, ⟨entry, subroutines⟩, split, function, entryRead,
    functions, otherRead, rfl⟩ := read
  obtain ⟨routine, made, -, code, coded⟩ :=
    Routine.exists_ofDefinition_eq_ok entryRead entryAccepted
  obtain ⟨routines, otherMade, resolve, codes, otherCoded⟩ :=
    Program.exists_routines_eq_ok otherRead accepted
  obtain ⟨others, sameRead, names, -⟩ := Program.resolves_of_routines otherMade
  obtain rfl : functions = others := Except.ok.inj (otherRead.symm.trans sameRead)
  refine ⟨⟨code, codes.toArray⟩, ?_⟩
  rw [names] at made otherMade
  simp only [Program.compile, Program.compileWith, Program.ofRoutines, List.append_nil, bind_eq_ok,
    pure_eq_ok]
  exact ⟨definitions, found, (entry, subroutines), split, routine, made, routines, otherMade, _,
    Program.tableFrom_eq_signatures resolve unreserved, code, coded, codes, otherCoded, rfl⟩

end ParsedProgram

end LineRobot
