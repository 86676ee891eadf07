import LineRobot.Proofs.Syntax.ReadExpression

/-! # Reading printed statements

The tokens of statements are read back as the same statements up to their places
(`Statement.parseBody_eq`). Each form of statement is read as itself, if the one behind it does not
begin with `else`; that is so, as no statement does. -/

namespace LineRobot

open Tokens

variable {rest : List Token}

/-! ## Clauses -/

namespace Expression

variable {condition value : Expression String}

/-- A condition in parentheses is read. -/
theorem Readable.parseCondition_eq (readable : condition.Readable) (stop : Position)
    (before after : String) {input : List Token}
    (spelled : Spells (TokenKind.parenthesize condition.tokens) input rest) :
    ∃ value shorter, condition.Alike value ∧
      Statement.parseCondition stop before after input = .ok ⟨value, rest, shorter⟩ := by
  have shorter := spelled.length_lt (List.cons_ne_nil _ _)
  obtain ⟨place, others, rfl, spelled⟩ := spelled
  obtain ⟨_, conditionSpelled, close, rest, rfl, rfl⟩ := spells_append.mp spelled
  obtain ⟨value, _, alike, read⟩ := readable.parse_eq stop conditionSpelled (ends_sign (by decide))
  refine ⟨value, shorter, alike, ?_⟩
  rw [Statement.parseCondition]
  refine bind_eq_ok.mpr ⟨_, expectSign_cons stop .leftParenthesis _ place others, ?_⟩
  refine bind_eq_ok.mpr ⟨_, read, ?_⟩
  exact bind_eq_ok.mpr ⟨_, expectSign_cons stop .rightParenthesis _ close rest, rfl⟩

/-- A clause that may be left out is read with the sign that closes it. -/
theorem parseUntil_eq {clause : Option (Expression String)}
    (readable : ∀ value ∈ clause, value.Readable) (stop : Position) {close : Sign}
    (weak : close.strength = 0) (other : TokenKind.beginsExpression (.sign close) = false)
    (context : String) {input : List Token}
    (spelled : Spells (clauseTokens close clause) input rest) :
    ∃ values shorter, Option.Rel Alike clause values ∧
      Statement.parseUntil stop close context input = .ok ⟨values, rest, shorter⟩ := by
  cases clause with
  | none =>
      obtain ⟨place, rest, rfl, rfl⟩ := spelled
      refine ⟨none, Nat.lt_succ_self _, .none, ?_⟩
      rw [Statement.parseUntil, sign?_cons]
      rfl
  | some value =>
      have shorter := spelled.length_lt (by simp [clauseTokens])
      obtain ⟨_, valueSpelled, place, rest, rfl, rfl⟩ := spells_append.mp spelled
      obtain ⟨result, _, alike, read⟩ := (readable value rfl).parse_eq stop valueSpelled
        (ends_sign (Nat.le_of_eq weak))
      obtain ⟨kind, position, later, rfl, begin⟩ := (begins_tokens value).exists_token valueSpelled
      refine ⟨some result, shorter, .some alike, ?_⟩
      rw [Statement.parseUntil, sign?_eq_none begin other]
      refine bind_eq_ok.mpr ⟨_, read, ?_⟩
      exact bind_eq_ok.mpr ⟨_, expectSign_cons stop close context place rest, rfl⟩

end Expression

/-! ## Declarations -/

namespace Declarator

/-- A declared name is read with its first value, if a comma or a semicolon follows. -/
theorem parseDeclarator_eq (declarator : Declarator)
    (readable : ∀ value ∈ declarator.value, value.Readable) (stop : Position) {input : List Token}
    {mark : Sign} {position : Position} {others : List Token}
    (follows : mark = .comma ∨ mark = .semicolon)
    (spelled : Spells declarator.tokens input (⟨.sign mark, position⟩ :: others)) :
    ∃ value shorter, declarator.Alike value ∧
      Statement.parseDeclarator stop input =
        .ok ⟨value, ⟨.sign mark, position⟩ :: others, shorter⟩ := by
  obtain ⟨name, value, declared⟩ := declarator
  cases value with
  | none =>
      obtain ⟨place, _, rfl, rfl⟩ := spelled
      refine ⟨⟨name, none, place⟩, Nat.lt_succ_self _, ⟨rfl, .none⟩, ?_⟩
      rcases follows with rfl | rfl <;> rfl
  | some value =>
      have shorter := spelled.length_lt (List.cons_ne_nil _ _)
      obtain ⟨place, _, rfl, equal, later, rfl, valueSpelled⟩ := spelled
      -- neither sign goes on with an expression
      have weak : mark.strength ≤ 0 := by rcases follows with rfl | rfl <;> decide
      obtain ⟨result, _, alike, read⟩ :=
        (readable value rfl).parse_eq stop valueSpelled (ends_sign weak)
      have named : Statement.parseDeclaredName stop
          (⟨.name name, place⟩ :: ⟨.sign .equal, equal⟩ :: later) =
            .ok ⟨(name, place), ⟨.sign .equal, equal⟩ :: later, Nat.lt_succ_self _⟩ := rfl
      refine ⟨⟨name, some result, place⟩, shorter, ⟨rfl, .some alike⟩, ?_⟩
      rw [Statement.parseDeclarator]
      refine bind_eq_ok.mpr ⟨_, named, ?_⟩
      dsimp only
      rw [sign?_cons]
      exact bind_eq_ok.mpr ⟨_, read, rfl⟩

/-- Declared names are read with commas between them and the semicolon. -/
theorem parseDeclarators_eq {declarators : List Declarator} (readable : Readable declarators)
    (stop : Position) {input : List Token} (spelled : Spells (listTokens declarators) input rest) :
    ∃ values shorter, List.Forall₂ Alike declarators values ∧
      Statement.parseDeclarators stop input = .ok ⟨values, rest, shorter⟩ := by
  obtain ⟨nonempty, values⟩ := readable
  induction declarators generalizing input with
  | nil => exact absurd rfl nonempty
  | cons first others ih =>
      have firstReadable := values first List.mem_cons_self
      cases others with
      | nil =>
          have shorter := spelled.length_lt (by simp [listTokens])
          obtain ⟨_, firstSpelled, close, rest, rfl, rfl⟩ := spells_append.mp spelled
          obtain ⟨value, _, alike, read⟩ :=
            first.parseDeclarator_eq firstReadable stop (.inr rfl) firstSpelled
          refine ⟨[value], shorter, .cons alike .nil, ?_⟩
          rw [Statement.parseDeclarators]
          refine bind_eq_ok.mpr ⟨_, read, ?_⟩
          exact bind_eq_ok.mpr ⟨_, expectSign_cons stop .semicolon _ close rest, rfl⟩
      | cons second others =>
          have shorter := spelled.length_lt (by simp [listTokens])
          obtain ⟨_, firstSpelled, comma, later, rfl, othersSpelled⟩ := spells_append.mp spelled
          obtain ⟨value, _, alike, read⟩ :=
            first.parseDeclarator_eq firstReadable stop (.inl rfl) firstSpelled
          obtain ⟨results, _, othersAlike, othersRead⟩ := ih othersSpelled (List.cons_ne_nil _ _)
            fun declarator member => values declarator (List.mem_cons_of_mem first member)
          refine ⟨value :: results, shorter, .cons alike othersAlike, ?_⟩
          rw [Statement.parseDeclarators]
          refine bind_eq_ok.mpr ⟨_, read, ?_⟩
          dsimp only
          rw [sign?_cons]
          exact bind_eq_ok.mpr ⟨_, othersRead, rfl⟩

/-- A declaration begins with a name behind its type. -/
theorem exists_name_of_listTokens {declarators : List Declarator} (nonempty : declarators ≠ []) :
    ∃ name others, listTokens declarators = .name name :: others := by
  cases declarators with
  | nil => exact absurd rfl nonempty
  | cons first others =>
      obtain ⟨name, value, position⟩ := first
      cases value <;> cases others <;> exact ⟨name, _, rfl⟩

/-- A type is read up to the name behind it. -/
theorem read_tokens (type : DeclaredType) {name : String} {position : Position} {input : List Token}
    {others : List Token} (spelled : Spells type.tokens input (⟨.name name, position⟩ :: others)) :
    TypeWords.read input =
      (⟨some type.base, type.unsigned, type.constant⟩, ⟨.name name, position⟩ :: others) := by
  obtain ⟨base, unsigned, constant⟩ := type
  cases constant <;> cases unsigned
  · obtain ⟨_, _, rfl, rfl⟩ := spelled
    rfl
  · obtain ⟨_, _, rfl, _, _, rfl, rfl⟩ := spelled
    rfl
  · obtain ⟨_, _, rfl, _, _, rfl, rfl⟩ := spelled
    rfl
  · obtain ⟨_, _, rfl, _, _, rfl, _, _, rfl, rfl⟩ := spelled
    rfl

/-- A declaration is read. -/
theorem parseDeclaration_eq (type : DeclaredType) {declarators : List Declarator}
    (readable : Readable declarators) (stop : Position) {input : List Token}
    (spelled : Spells (type.tokens ++ listTokens declarators) input rest) :
    ∃ values shorter, List.Forall₂ Alike declarators values ∧
      Statement.parseDeclaration stop input = .ok ⟨(type, values), rest, shorter⟩ := by
  obtain ⟨middle, typeSpelled, spelled⟩ := spells_append.mp spelled
  obtain ⟨name, later, same⟩ := exists_name_of_listTokens readable.nonempty
  obtain ⟨position, others, rfl, -⟩ : ∃ position others,
      middle = ⟨.name name, position⟩ :: others ∧ Spells later others rest := by
    rw [same] at spelled
    exact spelled
  have words := read_tokens type typeSpelled
  have namesSpelled : Spells (listTokens declarators) (TypeWords.read input).2 rest := by
    rw [words]
    exact spelled
  obtain ⟨values, less, alike, read⟩ := parseDeclarators_eq readable stop namesSpelled
  refine ⟨values, Nat.lt_of_lt_of_le less (TypeWords.length_read input), alike, ?_⟩
  have declared : (TypeWords.read input).1.declared? = some type := by
    rw [words]
    rfl
  rw [Statement.parseDeclaration, declared]
  exact bind_eq_ok.mpr ⟨_, read, rfl⟩

/-- A declaration begins with a word of its type. -/
theorem exists_typeWord (type : DeclaredType) {kinds : List TokenKind} {input : List Token}
    (spelled : Spells (type.tokens ++ kinds) input rest) :
    ∃ word position others, input = ⟨.keyword word, position⟩ :: others ∧
      isTypeWord word = true := by
  obtain ⟨base, unsigned, constant⟩ := type
  cases constant <;> cases unsigned <;> obtain ⟨position, others, rfl, -⟩ := spelled
  all_goals exact ⟨_, position, others, rfl, rfl⟩

end Declarator

/-- The first clause of a `for` loop is read with its semicolon. -/
theorem ForStart.Readable.parseForStart_eq {start : ForStart} (readable : start.Readable)
    (stop : Position) {input : List Token} (spelled : Spells start.tokens input rest) :
    ∃ value shorter, start.Alike value ∧
      Statement.parseForStart stop input = .ok ⟨value, rest, shorter⟩ := by
  cases readable with
  | nothing =>
      obtain ⟨place, rest, rfl, rfl⟩ := spelled
      refine ⟨.nothing, Nat.lt_succ_self _, .nothing, ?_⟩
      rw [Statement.parseForStart, sign?_cons]
      rfl
  | @declaration type _ _ readable =>
      obtain ⟨values, shorter, alike, read⟩ :=
        Declarator.parseDeclaration_eq type readable stop spelled
      obtain ⟨word, position, others, rfl, isType⟩ := Declarator.exists_typeWord type spelled
      refine ⟨.declaration type values position, shorter, .declaration alike, ?_⟩
      rw [Statement.parseForStart]
      show (if isTypeWord word = true then _ else _) = _
      rw [if_pos isType]
      exact bind_eq_ok.mpr ⟨_, read, rfl⟩
  | expression readable =>
      have shorter := spelled.length_lt (by simp [ForStart.tokens])
      obtain ⟨_, valueSpelled, close, rest, rfl, rfl⟩ := spells_append.mp spelled
      obtain ⟨value, _, alike, read⟩ := readable.parse_eq stop valueSpelled (ends_sign (by decide))
      obtain ⟨kind, position, later, rfl, begin⟩ :=
        (Expression.begins_tokens _).exists_token valueSpelled
      -- no type begins like an expression
      have noDeclaration : atDeclaration (⟨kind, position⟩ :: later) = false := by
        cases kind <;> first | rfl | cases begin
      refine ⟨.expression value position, shorter, .expression alike, ?_⟩
      rw [Statement.parseForStart, sign?_eq_none begin rfl]
      dsimp only
      rw [noDeclaration, if_neg Bool.false_ne_true]
      refine bind_eq_ok.mpr ⟨_, read, ?_⟩
      exact bind_eq_ok.mpr ⟨_, expectSign_cons stop .semicolon _ close rest, rfl⟩

namespace Statement

/-! ## The forms of statements -/

/-- The tokens of a statement are read as the statement, wherever they stand, if what comes next is
not `else`. -/
def Reads (statement : Statement) : Prop :=
  ∀ stop input rest, Spells statement.tokens input rest → keyword? .elseWord rest = none →
    ∃ value shorter, statement.Alike value ∧ parse stop input = .ok ⟨value, rest, shorter⟩

/-- The tokens of statements in braces are read as the statements of a block. -/
def ReadsBlock (statements : List Statement) : Prop :=
  ∀ stop input rest, Spells (listTokens statements ++ [.sign .rightBrace]) input rest →
    ∃ values shorter, List.Forall₂ Alike statements values ∧
      parseBlock stop input = .ok ⟨values, rest, shorter⟩

/-- A statement begins neither with `else` nor with a closing brace. -/
theorem exists_token (statement : Statement) {input : List Token}
    (spelled : Spells statement.tokens input rest) :
    ∃ kind position others, input = ⟨kind, position⟩ :: others ∧
      kind ≠ .keyword .elseWord ∧ kind ≠ .sign .rightBrace := by
  cases statement with
  | declaration type =>
      obtain ⟨word, position, others, rfl, isType⟩ := Declarator.exists_typeWord type spelled
      refine ⟨_, position, others, rfl, ?_, nofun⟩
      rintro ⟨⟩
      cases isType
  | expression value =>
      obtain ⟨kind, position, others, rfl, begin⟩ :=
        ((Expression.begins_tokens value).append _).exists_token spelled
      refine ⟨kind, position, others, rfl, ?_, ?_⟩ <;> rintro rfl <;> cases begin
  | _ =>
      obtain ⟨position, others, rfl, -⟩ := spelled
      exact ⟨_, position, others, rfl, nofun, nofun⟩

/-- There is no `else` behind statements, if there is none behind what comes after them. -/
theorem noElse_of_spells (statements : List Statement) {after : List TokenKind} {input : List Token}
    (spelled : Spells (listTokens statements ++ after) input rest)
    (none : ∀ middle, Spells after middle rest → keyword? .elseWord middle = none) :
    keyword? .elseWord input = Option.none := by
  cases statements with
  | nil => exact none input spelled
  | cons first others =>
      rw [listTokens, List.append_assoc] at spelled
      obtain ⟨_, firstSpelled, -⟩ := spells_append.mp spelled
      obtain ⟨kind, position, later, rfl, notElse, -⟩ := first.exists_token firstSpelled
      rw [keyword?, next?, if_neg notElse]
      rfl

/-- A branch in braces is read as its statements. -/
theorem ReadsBlock.parseBranch_eq {statements : List Statement} (reads : ReadsBlock statements)
    (stop : Position) {input : List Token}
    (spelled : Spells (TokenKind.brace (listTokens statements)) input rest) :
    ∃ values shorter, List.Forall₂ Alike statements values ∧
      parseBranch stop input = .ok ⟨values, rest, shorter⟩ := by
  have shorter := spelled.length_lt (List.cons_ne_nil _ _)
  obtain ⟨place, others, rfl, spelled⟩ := spelled
  obtain ⟨values, _, alike, read⟩ := reads stop others rest spelled
  refine ⟨values, shorter, alike, ?_⟩
  rw [parseBranch, sign?_cons]
  exact bind_eq_ok.mpr ⟨_, read, rfl⟩

/-- Statements one after the other are read in a block. -/
theorem readsBlock {statements : List Statement}
    (reads : ∀ statement ∈ statements, Reads statement) :
    ReadsBlock statements := by
  intro stop input rest spelled
  induction statements generalizing input with
  | nil =>
      obtain ⟨close, rest, rfl, rfl⟩ := spelled
      refine ⟨[], Nat.lt_succ_self _, .nil, ?_⟩
      rw [parseBlock, sign?_cons]
      rfl
  | cons first others ih =>
      have shorter := spelled.length_lt (by simp)
      rw [listTokens, List.append_assoc] at spelled
      obtain ⟨middle, firstSpelled, othersSpelled⟩ := spells_append.mp spelled
      -- what comes next is another statement or the closing brace
      have noElse : keyword? .elseWord middle = none := by
        refine noElse_of_spells others othersSpelled ?_
        rintro _ ⟨_, _, rfl, -⟩
        rfl
      obtain ⟨value, _, alike, read⟩ :=
        reads first List.mem_cons_self stop input middle firstSpelled noElse
      obtain ⟨values, _, othersAlike, othersRead⟩ :=
        ih (fun statement member => reads statement (List.mem_cons_of_mem first member)) middle
          othersSpelled
      obtain ⟨kind, position, later, rfl, -, notClosing⟩ := first.exists_token firstSpelled
      refine ⟨value :: values, shorter, .cons alike othersAlike, ?_⟩
      have unclosed : sign? .rightBrace (⟨kind, position⟩ :: later) = none := by
        rw [sign?, next?, if_neg notClosing]
        rfl
      rw [parseBlock, unclosed]
      refine bind_eq_ok.mpr ⟨_, read, ?_⟩
      exact bind_eq_ok.mpr ⟨_, othersRead, rfl⟩

/-- A statement is told from its first token, if that opens one, and then it is read from the tokens
behind it. -/
theorem reads_of_opening {statement : Statement} {kind : TokenKind} {kinds : List TokenKind}
    {opening : Opening} (opens : opening? kind = some opening)
    (tokens : statement.tokens = kind :: kinds)
    (goesOn : ∀ stop place others rest shorter, Spells kinds others rest →
      keyword? .elseWord rest = none →
      ∃ value, statement.Alike value ∧
        parseOpened stop (⟨kind, place⟩ :: others) ⟨(opening, place), others, Nat.lt_succ_self _⟩ =
          .ok ⟨value, rest, shorter⟩) :
    Reads statement := by
  intro stop input rest spelled noElse
  rw [tokens] at spelled
  have shorter := spelled.length_lt (List.cons_ne_nil _ _)
  obtain ⟨place, others, rfl, spelled⟩ := spelled
  obtain ⟨value, alike, read⟩ := goesOn stop place others rest shorter spelled noElse
  refine ⟨value, shorter, alike, ?_⟩
  rw [parse, next?, opens]
  exact read

/-- A declaration. -/
theorem reads_declaration (type : DeclaredType) {declarators : List Declarator}
    (readable : Declarator.Readable declarators) (position : Position) :
    Reads (.declaration type declarators position) := by
  intro stop input rest spelled _
  obtain ⟨values, shorter, alike, read⟩ :=
    Declarator.parseDeclaration_eq type readable stop spelled
  obtain ⟨word, place, others, rfl, isType⟩ := Declarator.exists_typeWord type spelled
  have closed : next? opening? (⟨.keyword word, place⟩ :: others) = none := by
    cases word <;> first | rfl | cases isType
  refine ⟨.declaration type values place, shorter, .declaration alike, ?_⟩
  rw [parse, closed]
  show (if isTypeWord word = true then _ else _) = _
  rw [if_pos isType]
  exact bind_eq_ok.mpr ⟨_, read, rfl⟩

/-- An expression. -/
theorem reads_expression {value : Expression String} (readable : value.Readable)
    (position : Position) : Reads (.expression value position) := by
  intro stop input rest spelled _
  have shorter := spelled.length_lt (by simp [tokens])
  obtain ⟨_, valueSpelled, close, rest, rfl, rfl⟩ := spells_append.mp spelled
  obtain ⟨result, _, alike, read⟩ := readable.parse_eq stop valueSpelled (ends_sign (by decide))
  obtain ⟨kind, place, later, rfl, begin⟩ :=
    (Expression.begins_tokens value).exists_token valueSpelled
  have closed : next? opening? (⟨kind, place⟩ :: later) = none := by
    cases kind with
    | sign mark => cases mark <;> first | rfl | cases begin
    | number | name => rfl
    | character | keyword => cases begin
  have noDeclaration : atDeclaration (⟨kind, place⟩ :: later) = false := by
    cases kind <;> first | rfl | cases begin
  refine ⟨.expression result place, shorter, .expression alike, ?_⟩
  rw [parse, closed]
  dsimp only
  rw [noDeclaration, if_neg Bool.false_ne_true]
  refine bind_eq_ok.mpr ⟨_, read, ?_⟩
  exact bind_eq_ok.mpr ⟨_, expectSign_cons stop .semicolon _ close rest, rfl⟩

/-- A condition with one or two branches. -/
theorem reads_branch {condition : Expression String} {whenTrue : List Statement}
    {whenFalse : Option (List Statement)} (readable : condition.Readable)
    (readsTrue : ReadsBlock whenTrue) (readsFalse : ∀ statements ∈ whenFalse, ReadsBlock statements)
    (position : Position) : Reads (.branch condition whenTrue whenFalse position) := by
  refine reads_of_opening rfl rfl fun stop place others rest _ spelled noElse => ?_
  obtain ⟨_, conditionSpelled, spelled⟩ := spells_append.mp spelled
  obtain ⟨middle, trueSpelled, falseSpelled⟩ := spells_append.mp spelled
  obtain ⟨value, _, alike, conditionRead⟩ :=
    readable.parseCondition_eq stop "after 'if'" "after if condition" conditionSpelled
  obtain ⟨trueValues, _, trueAlike, trueRead⟩ := readsTrue.parseBranch_eq stop trueSpelled
  cases whenFalse with
  | none =>
      -- an `else` that comes next would be taken as that of this statement
      obtain rfl : middle = rest := falseSpelled
      refine ⟨.branch value trueValues none place, .branch alike trueAlike, ?_⟩
      rw [parseOpened]
      refine bind_eq_ok.mpr ⟨_, conditionRead, ?_⟩
      refine bind_eq_ok.mpr ⟨_, trueRead, ?_⟩
      dsimp only
      rw [noElse]
      rfl
  | some statements =>
      obtain ⟨elsePlace, later, rfl, falseSpelled⟩ := falseSpelled
      obtain ⟨falseValues, _, falseAlike, falseRead⟩ :=
        (readsFalse statements rfl).parseBranch_eq stop falseSpelled
      refine ⟨.branch value trueValues (some falseValues) place,
        .branches alike trueAlike falseAlike, ?_⟩
      rw [parseOpened]
      refine bind_eq_ok.mpr ⟨_, conditionRead, ?_⟩
      refine bind_eq_ok.mpr ⟨_, trueRead, ?_⟩
      exact bind_eq_ok.mpr ⟨_, falseRead, rfl⟩

/-- A loop that checks its condition first. -/
theorem reads_whileLoop {condition : Expression String} {body : List Statement}
    (readable : condition.Readable) (reads : ReadsBlock body) (position : Position) :
    Reads (.whileLoop condition body position) := by
  refine reads_of_opening rfl rfl fun stop place others rest _ spelled _ => ?_
  obtain ⟨_, conditionSpelled, bodySpelled⟩ := spells_append.mp spelled
  obtain ⟨value, _, alike, conditionRead⟩ :=
    readable.parseCondition_eq stop "after 'while'" "after while condition" conditionSpelled
  obtain ⟨values, _, bodyAlike, bodyRead⟩ := reads.parseBranch_eq stop bodySpelled
  refine ⟨.whileLoop value values place, .whileLoop alike bodyAlike, ?_⟩
  rw [parseOpened]
  refine bind_eq_ok.mpr ⟨_, conditionRead, ?_⟩
  exact bind_eq_ok.mpr ⟨_, bodyRead, rfl⟩

/-- A loop that runs its body first. -/
theorem reads_doLoop {condition : Expression String} {body : List Statement}
    (reads : ReadsBlock body) (readable : condition.Readable) (position : Position) :
    Reads (.doLoop body condition position) := by
  refine reads_of_opening rfl rfl fun stop place others rest _ spelled _ => ?_
  obtain ⟨_, bodySpelled, wordPlace, later, rfl, spelled⟩ := spells_append.mp spelled
  obtain ⟨_, conditionSpelled, close, rest, rfl, rfl⟩ := spells_append.mp spelled
  obtain ⟨values, _, bodyAlike, bodyRead⟩ := reads.parseBranch_eq stop bodySpelled
  obtain ⟨value, _, alike, conditionRead⟩ :=
    readable.parseCondition_eq stop "after 'while'" "after do-while condition" conditionSpelled
  refine ⟨.doLoop values value place, .doLoop bodyAlike alike, ?_⟩
  rw [parseOpened]
  refine bind_eq_ok.mpr ⟨_, bodyRead, ?_⟩
  refine bind_eq_ok.mpr ⟨_, conditionRead, ?_⟩
  exact bind_eq_ok.mpr ⟨_, expectSign_cons stop .semicolon _ close rest, rfl⟩

/-- A loop with a first clause, a condition and a step. -/
theorem reads_forLoop {start : ForStart} {condition step : Option (Expression String)}
    {body : List Statement} (readableStart : start.Readable)
    (readableCondition : ∀ value ∈ condition, value.Readable)
    (readableStep : ∀ value ∈ step, value.Readable) (reads : ReadsBlock body)
    (position : Position) :
    Reads (.forLoop start condition step body position) := by
  refine reads_of_opening rfl rfl fun stop place _ rest _ spelled _ => ?_
  obtain ⟨left, others, rfl, spelled⟩ := spelled
  obtain ⟨_, startSpelled, spelled⟩ := spells_append.mp spelled
  obtain ⟨_, conditionSpelled, spelled⟩ := spells_append.mp spelled
  obtain ⟨_, stepSpelled, bodySpelled⟩ := spells_append.mp spelled
  obtain ⟨startValue, _, startAlike, startRead⟩ := readableStart.parseForStart_eq stop startSpelled
  obtain ⟨conditionValue, _, conditionAlike, conditionRead⟩ := Expression.parseUntil_eq
    readableCondition stop (by decide) rfl "after for condition" conditionSpelled
  obtain ⟨stepValue, _, stepAlike, stepRead⟩ := Expression.parseUntil_eq
    readableStep stop (by decide) rfl "after for clauses" stepSpelled
  obtain ⟨values, _, bodyAlike, bodyRead⟩ := reads.parseBranch_eq stop bodySpelled
  refine ⟨.forLoop startValue conditionValue stepValue values place,
    .forLoop startAlike conditionAlike stepAlike bodyAlike, ?_⟩
  rw [parseOpened]
  refine bind_eq_ok.mpr ⟨_, expectSign_cons stop .leftParenthesis _ left others, ?_⟩
  refine bind_eq_ok.mpr ⟨_, startRead, ?_⟩
  refine bind_eq_ok.mpr ⟨_, conditionRead, ?_⟩
  refine bind_eq_ok.mpr ⟨_, stepRead, ?_⟩
  exact bind_eq_ok.mpr ⟨_, bodyRead, rfl⟩

/-- A block. -/
theorem reads_block {body : List Statement} (reads : ReadsBlock body) (position : Position) :
    Reads (.block body position) := by
  refine reads_of_opening rfl rfl fun stop place others rest _ spelled _ => ?_
  obtain ⟨values, _, alike, read⟩ := reads stop others rest spelled
  refine ⟨.block values place, .block alike, ?_⟩
  rw [parseOpened]
  exact bind_eq_ok.mpr ⟨_, read, rfl⟩

/-- A jump out of the innermost loop. -/
theorem reads_leaveLoop (position : Position) : Reads (.leaveLoop position) := by
  refine reads_of_opening rfl rfl fun stop place _ rest _ spelled _ => ?_
  obtain ⟨close, rest, rfl, rfl⟩ := spelled
  refine ⟨.leaveLoop place, .leaveLoop, ?_⟩
  rw [parseOpened]
  exact bind_eq_ok.mpr ⟨_, expectSign_cons stop .semicolon _ close rest, rfl⟩

/-- A jump to the next round of the innermost loop. -/
theorem reads_nextRound (position : Position) : Reads (.nextRound position) := by
  refine reads_of_opening rfl rfl fun stop place _ rest _ spelled _ => ?_
  obtain ⟨close, rest, rfl, rfl⟩ := spelled
  refine ⟨.nextRound place, .nextRound, ?_⟩
  rw [parseOpened]
  exact bind_eq_ok.mpr ⟨_, expectSign_cons stop .semicolon _ close rest, rfl⟩

/-- A return. -/
theorem reads_giveBack {value : Option (Expression String)}
    (readable : ∀ given ∈ value, given.Readable) (position : Position) :
    Reads (.giveBack value position) := by
  refine reads_of_opening rfl rfl fun stop place others rest _ spelled _ => ?_
  obtain ⟨values, _, alike, read⟩ :=
    Expression.parseUntil_eq readable stop (by decide) rfl "after return" spelled
  refine ⟨.giveBack values place, .giveBack alike, ?_⟩
  rw [parseOpened]
  exact bind_eq_ok.mpr ⟨_, read, rfl⟩

/-! ## All statements -/

/-- **A readable statement is read from its tokens.** -/
theorem Readable.reads {statement : Statement} (readable : statement.Readable) :
    Reads statement := by
  induction readable with
  | declaration readable => exact reads_declaration _ readable _
  | expression readable => exact reads_expression readable _
  | branch readable _ _ whenTrue whenFalse =>
      exact reads_branch readable (readsBlock whenTrue)
        (fun statements same => readsBlock (whenFalse statements same)) _
  | whileLoop readable _ body => exact reads_whileLoop readable (readsBlock body) _
  | doLoop _ readable body => exact reads_doLoop (readsBlock body) readable _
  | forLoop start condition step _ body =>
      exact reads_forLoop start condition step (readsBlock body) _
  | block _ body => exact reads_block (readsBlock body) _
  | leaveLoop => exact reads_leaveLoop _
  | nextRound => exact reads_nextRound _
  | giveBack readable => exact reads_giveBack readable _

/-- Statements one after the other are read up to the end of the body. -/
theorem parseBody_eq {statements : List Statement}
    (reads : ∀ statement ∈ statements, Reads statement) (stop : Position) {input : List Token}
    (spelled : Spells (listTokens statements) input []) :
    ∃ parsed, parseBody stop input = .ok parsed ∧ List.Forall₂ Alike statements parsed := by
  induction statements generalizing input with
  | nil =>
      obtain rfl : input = [] := spelled
      exact ⟨[], by rw [parseBody], .nil⟩
  | cons first others ih =>
      obtain ⟨middle, firstSpelled, othersSpelled⟩ := spells_append.mp spelled
      have noElse : keyword? .elseWord middle = none := by
        have upToEnd : Spells (listTokens others ++ []) middle [] := by rwa [List.append_nil]
        refine noElse_of_spells others upToEnd ?_
        rintro _ rfl
        rfl
      obtain ⟨value, _, alike, read⟩ :=
        reads first List.mem_cons_self stop input middle firstSpelled noElse
      obtain ⟨values, othersRead, othersAlike⟩ :=
        ih (fun statement member =>
          reads statement (List.mem_cons_of_mem first member)) othersSpelled
      obtain ⟨kind, position, later, rfl, -, notClosing⟩ := first.exists_token firstSpelled
      refine ⟨value :: values, ?_, .cons alike othersAlike⟩
      rw [parseBody, if_neg notClosing]
      refine bind_eq_ok.mpr ⟨_, read, ?_⟩
      exact bind_eq_ok.mpr ⟨_, othersRead, rfl⟩

/-- **Reading undoes printing.** Let statements be of the forms that can be read, and written as
tokens at whatever places, with parentheses only where the levels of the expressions ask for them
and with all branches and bodies in braces. Then the tokens are read as a function body, and what is
read differs from the statements at most in its places. -/
theorem exists_parseBody_eq {statements : List Statement}
    (readable : ∀ statement ∈ statements, statement.Readable) {input : List Token}
    (printed : input.map Token.kind = listTokens statements) (stop : Position) :
    ∃ parsed, parseBody stop input = .ok parsed ∧ List.Forall₂ Alike statements parsed := by
  have spelled := spells_map_kind input
  rw [printed] at spelled
  exact parseBody_eq (fun statement member => (readable statement member).reads) stop spelled

/-- The loop `while (a || !(b = c)) \x7b x -= a - (b - c); \x7d`, in which an assignment and a
difference need their parentheses. -/
theorem exists_parseBody_eq_parentheses :
    let place : Position := ⟨1, 1⟩
    let name (text : String) : Expression String := .name text place
    let statements : List Statement :=
      [.whileLoop (.logical .or (name "a") (.unary .not (.assign none (name "b") (name "c") place)
          place) place)
        [.expression (.assign (some .subtract) (name "x") (.binary .subtract (name "a")
          (.binary .subtract (name "b") (name "c") place) place) place) place] place]
    let kinds : List TokenKind :=
      [.keyword .whileWord, .sign .leftParenthesis, .name "a", .sign .orOr, .sign .bang,
        .sign .leftParenthesis, .name "b", .sign .equal, .name "c", .sign .rightParenthesis,
        .sign .rightParenthesis, .sign .leftBrace, .name "x", .sign .minusEqual, .name "a",
        .sign .minus, .sign .leftParenthesis, .name "b", .sign .minus, .name "c",
        .sign .rightParenthesis, .sign .semicolon, .sign .rightBrace]
    ∃ parsed, parseBody place (kinds.map fun kind => ⟨kind, place⟩) = .ok parsed ∧
      List.Forall₂ Alike statements parsed := by
  intro place name statements kinds
  have readable : ∀ statement ∈ statements, statement.Readable := by
    intro statement member
    rw [List.mem_singleton.mp member]
    refine .whileLoop (.logical .name (.unary (.assign (by decide) .name .name)))
      fun inner member => ?_
    rw [List.mem_singleton.mp member]
    exact .expression (.assign (by decide) .name (.binary .name (.binary .name .name)))
  exact exists_parseBody_eq readable rfl place

end Statement

end LineRobot
