import LineRobot.Proofs.Delegation.Compiled
import LineRobot.Proofs.Delegation.Source
import LineRobot.Proofs.Source.Order

/-! # Reading a source with delegated waits

The body of the subroutine that waits is read as one wait statement
(`Definition.Waits.exists_read`), unless the name of its parameter is made of capital letters only:
in parentheses a name like that is a cast, which cleaning removes.

So a source with delegated waits is read if the source without them compiles, and what is read is
the same program with delegated waits (`Source.Delegates.exists_read`). -/

namespace LineRobot

variable {helper parameter : String}

/-! ## Cleaning -/

namespace Source

/-- A word that is not made of capital letters only is no cast in parentheses. -/
theorem afterCast?_eq_none {word : List Char} (mixed : ¬ word.all Char.isUpper = true)
    (inside : ')' ∉ word) (rest : List Char) : afterCast? (word ++ rest) = none := by
  unfold afterCast?
  rw [List.dropWhile_append]
  cases passed : word.dropWhile Char.isUpper with
  | nil => exact absurd (List.all_eq_true.mpr (List.dropWhile_eq_nil_iff.mp passed)) mixed
  | cons character tail =>
      have member : character ∈ word := by
        have among := List.dropWhile_sublist Char.isUpper (l := word)
        rw [passed] at among
        exact among.subset List.mem_cons_self
      have noEnd : character ≠ ')' := fun same => inside (same ▸ member)
      simp [noEnd]

/-- Text without parentheses stays when casts are removed. -/
theorem withoutCasts_append {text : List Char} (closed : '(' ∉ text) (rest : List Char) :
    withoutCasts (text ++ rest) = text ++ withoutCasts rest := by
  induction text with
  | nil => rfl
  | cons character text ih =>
      rw [List.mem_cons, not_or] at closed
      rw [List.cons_append, withoutCasts_cons fun opens => absurd opens.symm closed.1, ih closed.2,
        List.cons_append]

/-- **The wait statement is clean** unless its parameter is made of capital letters only. -/
theorem clean_waitStatement (isParameter : Text.isIdentifier parameter = true)
    (mixed : ¬ parameter.toList.all Char.isUpper = true) :
    clean (waitStatement parameter) = waitStatement parameter := by
  have noSlash : '/' ∉ waitStatement parameter := by
    have outside : Text.isWordCharacter '/' = false := by decide
    simp [waitStatement, Text.notMem_of_isIdentifier isIdentifier_wait outside,
      Text.notMem_of_isIdentifier isParameter outside]
  have uncommented := withoutComments_append (uncommented_of_notMem noSlash [])
  rw [List.append_nil, withoutComments.eq_1, List.append_nil] at uncommented
  have noCast :=
    afterCast?_eq_none mixed (Text.notMem_of_isIdentifier isParameter (by decide)) [')', ';']
  have noParenthesis : '(' ∉ parameter.toList ++ [')', ';'] := by
    have outside : Text.isWordCharacter '(' = false := by decide
    simp [Text.notMem_of_isIdentifier isParameter outside]
  have behind := withoutCasts_append noParenthesis []
  rw [List.append_nil, withoutCasts.eq_1, List.append_nil] at behind
  rw [clean, uncommented, waitStatement,
    withoutCasts_append (Text.notMem_of_isIdentifier isIdentifier_wait (by decide)),
    withoutCasts_cons fun _ => noCast, behind]

end Source

/-! ## Scanning -/

/-- A name is read where no word goes on behind it. -/
theorem Piece.reads_identifier {word : String} (isWord : Text.isIdentifier word = true)
    {rest : List Char} (ends : rest.head?.any Text.isWordCharacter = false) :
    Reads (some (.name word)) word.toList rest := by
  obtain ⟨first, tail, rfl, start, inside, free⟩ := Text.exists_of_isIdentifier isWord
  rw [String.toList_ofList]
  exact reads_name start inside free ends

/-- A sign that begins no longer one is read whatever follows. -/
theorem Piece.reads_single {mark : Sign}
    (single : mark ∈ [Sign.leftParenthesis, .rightParenthesis, .semicolon]) (rest : List Char) :
    Reads (some (.sign mark)) mark.spelling.toList rest := by
  simp only [List.mem_cons, List.not_mem_nil, or_false] at single
  rcases single with rfl | rfl | rfl <;> cases rest <;> rfl

namespace Fragment

/-- Layout characters can stand before fragments and are no tokens. -/
theorem exists_follow_layout {text : List Char} (layout : text.all Text.isLayout = true)
    {later : List Fragment} (follow : Follow later) :
    ∃ fragments, join fragments = text ++ join later ∧ kinds fragments = kinds later ∧
      Follow fragments := by
  induction text with
  | nil => exact ⟨later, rfl, rfl, follow⟩
  | cons character text ih =>
      obtain ⟨here, behind⟩ := Bool.and_eq_true_iff.mp layout
      obtain ⟨fragments, joined, same, followed⟩ := ih behind
      refine ⟨⟨none, [character]⟩ :: fragments, ?_, same, Piece.reads_layout here _, followed⟩
      rw [join_cons, joined]
      rfl

/-- The wait statement can stand before fragments. -/
theorem exists_follow_wait (isParameter : Text.isIdentifier parameter = true)
    {later : List Fragment} (follow : Follow later) :
    ∃ fragments, join fragments = Source.waitStatement parameter ++ join later ∧
      kinds fragments = [.name Vocabulary.wait, .sign .leftParenthesis, .name parameter,
        .sign .rightParenthesis, .sign .semicolon] ++ kinds later ∧
      Follow fragments := by
  refine ⟨[⟨some (.name Vocabulary.wait), Vocabulary.wait.toList⟩,
    ⟨some (.sign .leftParenthesis), ['(']⟩, ⟨some (.name parameter), parameter.toList⟩,
    ⟨some (.sign .rightParenthesis), [')']⟩, ⟨some (.sign .semicolon), [';']⟩] ++ later, ?_,
      rfl, ?_⟩
  · simp [Source.waitStatement]
  · show Follow (_ :: _ :: _ :: _ :: _ :: later)
    exact ⟨Piece.reads_identifier Source.isIdentifier_wait rfl, Piece.reads_single (by simp) _,
      Piece.reads_identifier isParameter rfl, Piece.reads_single (by simp) _,
      Piece.reads_single (by simp) _, follow⟩

end Fragment

/-- The tokens of a body that only waits. -/
theorem Source.OnlyWaits.exists_scan {inside : List Char} (onlyWaits : OnlyWaits parameter inside)
    (isParameter : Text.isIdentifier parameter = true)
    (mixed : ¬ parameter.toList.all Char.isUpper = true) (position : Position) :
    ∃ scanned, scan position inside = .ok scanned ∧
      scanned.tokens.map Token.kind = [.name Vocabulary.wait, .sign .leftParenthesis,
        .name parameter, .sign .rightParenthesis, .sign .semicolon] := by
  obtain ⟨before, after, rfl, layout, layout'⟩ := onlyWaits
  rw [clean_waitStatement isParameter mixed]
  obtain ⟨trail, trailText, trailKinds, follow⟩ :=
    Fragment.exists_follow_layout layout' (show Fragment.Follow [] from trivial)
  obtain ⟨statement, statementText, statementKinds, follow⟩ :=
    Fragment.exists_follow_wait isParameter follow
  obtain ⟨fragments, text, same, follow⟩ := Fragment.exists_follow_layout layout follow
  rw [Fragment.join_nil, List.append_nil] at trailText
  rw [statementText, trailText, ← List.append_assoc] at text
  refine ⟨_, text ▸ follow.scan_eq position, ?_⟩
  rw [Fragment.map_kind_tokens, same, statementKinds, trailKinds]
  rfl

/-! ## Parsing -/

/-- **The subroutine that waits is read** as one whose body is a wait statement. -/
theorem Definition.Waits.exists_read {waiter : Definition} (waits : waiter.Waits helper parameter)
    (isParameter : Text.isIdentifier parameter = true)
    (mixed : ¬ parameter.toList.all Char.isUpper = true) :
    ∃ function, ParsedFunction.ofDefinition waiter = .ok function ∧
      function.Waits helper parameter := by
  obtain ⟨scanned, done, kinds⟩ :=
    waits.body.exists_scan isParameter mixed waiter.bodyPosition
  have reads : ∀ statement ∈ [Statement.expression
      (.call Vocabulary.wait [.name parameter .start] .start) .start], statement.Reads := by
    intro statement member
    rw [List.mem_singleton.mp member]
    refine Statement.Readable.reads (.expression (.call fun argument member => ?_))
    rw [List.mem_singleton.mp member]
    exact .name
  have spelled := spells_map_kind scanned.tokens
  rw [kinds] at spelled
  obtain ⟨parsed, read, alike⟩ := Statement.parseBody_eq reads scanned.stop spelled
  unfold ParsedFunction.ofDefinition Statement.ofText
  rw [done]
  dsimp only
  rw [read]
  refine ⟨_, rfl, waits.name, waits.parameters, ?_⟩
  -- what is read is the statement but for its places
  cases alike with
  | cons first others =>
      cases others
      cases first with
      | expression call =>
          cases call with
          | call arguments =>
              cases arguments with
              | cons argument none =>
                  cases none
                  cases argument
                  exact ⟨_, _, _, rfl⟩

namespace ParsedFunction

/-- A function has the name of the definition it is parsed from. -/
theorem name_of_ofDefinition {definition : Definition} {function : ParsedFunction}
    (read : ofDefinition definition = .ok function) : function.name = definition.name := by
  rw [ofDefinition] at read
  split at read
  · cases read
  · cases read
    rfl

/-- Functions have the names of the definitions they are parsed from. -/
theorem map_name_of_mapM {definitions : List Definition} {functions : List ParsedFunction}
    (read : definitions.mapM ofDefinition = .ok functions) :
    functions.map name = definitions.map Definition.name := by
  induction definitions generalizing functions with
  | nil =>
      cases read
      rfl
  | cons definition others ih =>
      simp only [List.mapM_cons, bind_eq_ok, pure_eq_ok] at read
      obtain ⟨function, here, later, there, rfl⟩ := read
      rw [List.map_cons, List.map_cons, name_of_ofDefinition here, ih there]

end ParsedFunction

/-- **A source with delegated waits is read** as a program with delegated waits, if the source
without them is read as a program that has code. -/
theorem Source.Delegates.exists_read {source source' : String} {first : ParsedProgram}
    {program : Program}
    (delegates : Delegates helper parameter (clean source.toList) (clean source'.toList))
    (isHelper : Text.isIdentifier helper = true) (isParameter : Text.isIdentifier parameter = true)
    (helperFree : Vocabulary.isReserved helper = false)
    (parameterFree : Vocabulary.isReserved parameter = false)
    (mixed : ¬ parameter.toList.all Char.isUpper = true)
    (fresh : ∀ definitions, Definition.all (clean source.toList) = .ok definitions →
      helper ∉ definitions.map Definition.name)
    (read : ParsedProgram.ofSource source = .ok first) (emits : first.Emits program) :
    ∃ second, ParsedProgram.ofSource source' = .ok second ∧
      first.Delegates helper parameter second := by
  simp only [ParsedProgram.ofSource, bind_eq_ok, pure_eq_ok] at read
  obtain ⟨definitions, found, ⟨entry, others⟩, split, entryFunction, entryRead,
    functions, othersRead, rfl⟩ := read
  have isNew := fresh definitions found
  obtain ⟨front, waiter, back, found', waits, renamed⟩ :=
    delegates.find isHelper isParameter found .start
  obtain ⟨entry', front', back', split', entryRenamed, othersRenamed⟩ :=
    Definition.exists_split renamed waits.name isNew split
  -- the functions are read one by one, and the new one among them
  obtain ⟨entryFunction', entryRead', entryDelegates⟩ :=
    ParsedFunction.exists_ofDefinition isHelper entryRenamed entryRead emits.entry
  obtain ⟨functions', othersRead', othersDelegate⟩ :=
    ParsedFunction.exists_mapM isHelper othersRenamed othersRead fun _ => emits.exists_code_of_mem
  obtain ⟨function, waiterRead, functionWaits⟩ := waits.exists_read isParameter mixed
  simp only [List.mapM_append, bind_eq_ok, pure_eq_ok] at othersRead'
  obtain ⟨frontFunctions, frontRead, backFunctions, backRead, rfl⟩ := othersRead'
  refine ⟨⟨entryFunction', frontFunctions ++ function :: backFunctions⟩, ?_, helperFree,
    parameterFree, ?_, entryDelegates, .of_append functionWaits othersDelegate⟩
  · simp only [ParsedProgram.ofSource, bind_eq_ok, pure_eq_ok]
    refine ⟨_, found', _, split', _, entryRead', frontFunctions ++ function :: backFunctions,
      ?_, rfl⟩
    simp only [List.mapM_append, List.mapM_cons, bind_eq_ok, pure_eq_ok]
    exact ⟨_, frontRead, _, ⟨_, waiterRead, _, backRead, rfl⟩, rfl⟩
  · intro function member same
    refine isNew ?_
    have among : helper ∈ others.map Definition.name := by
      rw [← ParsedFunction.map_name_of_mapM othersRead, ← same]
      exact List.mem_map_of_mem member
    obtain ⟨definition, isOther, rfl⟩ := List.mem_map.mp among
    exact List.mem_map_of_mem ((Definition.mem_of_split split).2 definition isOther)

end LineRobot
