import LineRobot.Proofs.Syntax.Reading

/-! # Reading loses and reorders nothing

The leaves of a text are its names and the values of its literals: what it says apart from its
keywords and signs. Tokens have leaves one by one (`Tokens.leaves`), and a syntax tree has those of
its parts, in the order in which the parts are written (`Expression.leaves`, `Statement.leaves`).

What tokens write has their leaves, in their order, along the grammar (`Passes`); and so the
statements of a body have the leaves of all its tokens (`Statement.listLeaves_of_parseBody`). -/

namespace LineRobot

/-- A word of a text that is not a keyword or a sign. -/
inductive Leaf where
  /-- A name. -/
  | name (text : String)
  /-- The value of a number, or the code of a character. -/
  | number (value : Float)
deriving DecidableEq, Repr

/-- The leaf that a token is. -/
def TokenKind.leaf? : TokenKind → Option Leaf
  | .number value => some (.number value)
  | .character value => some (.number (Float.ofNat value.toNat))
  | .name text => some (.name text)
  | .keyword _ => none
  | .sign _ => none

/-- The leaves among tokens, in order. -/
def Tokens.leaves (tokens : List Token) : List Leaf :=
  tokens.filterMap fun token => token.kind.leaf?

/-- Leaves of tokens behind one another stand behind one another. -/
theorem Tokens.leaves_append (front back : List Token) :
    Tokens.leaves (front ++ back) = Tokens.leaves front ++ Tokens.leaves back :=
  List.filterMap_append

namespace Expression

mutual

/-- The leaves of an expression, in the order in which its parts are written. -/
def leaves : Expression String → List Leaf
  | .number value _ => [.number value]
  | .name text _ => [.name text]
  | .binary _ left right _ => leaves left ++ leaves right
  | .logical _ left right _ => leaves left ++ leaves right
  | .unary _ operand _ => leaves operand
  | .change _ _ operand _ => leaves operand
  | .conditional condition whenTrue whenFalse _ =>
    leaves condition ++ leaves whenTrue ++ leaves whenFalse
  | .assign _ target value _ => leaves target ++ leaves value
  | .call callee arguments _ => .name callee :: listLeaves arguments
  | .index array subscript _ => leaves array ++ leaves subscript

/-- The leaves of expressions behind one another. -/
def listLeaves : List (Expression String) → List Leaf
  | [] => []
  | first :: others => leaves first ++ listLeaves others

end

/-- The leaves of an expression that may be left out. -/
def clauseLeaves (clause : Option (Expression String)) : List Leaf :=
  clause.elim [] leaves

/-- An operator between two operands adds no leaf. -/
@[simp] theorem leaves_join (link : Link) (left right : Expression String) (position : Position) :
    (link.join left right position).leaves = left.leaves ++ right.leaves := by
  cases link <;> rw [Link.join, leaves]

/-- An operator before an operand adds no leaf. -/
@[simp] theorem leaves_apply (leading : Leading) (operand : Expression String)
    (position : Position) :
    (leading.apply operand position).leaves = operand.leaves := by
  cases leading with
  | operator mark => rw [Leading.apply, leaves]
  | change direction => rw [Leading.apply, leaves]
  | nothing => rfl

end Expression

namespace Declarator

/-- The leaves of a declared name and its first value. -/
def leaves (declarator : Declarator) : List Leaf :=
  .name declarator.name :: Expression.clauseLeaves declarator.value

/-- The leaves of declared names behind one another. -/
def listLeaves (declarators : List Declarator) : List Leaf :=
  declarators.flatMap leaves

end Declarator

/-- The leaves of the first clause of a `for` loop. -/
def ForStart.leaves : ForStart → List Leaf
  | .nothing => []
  | .declaration _ declarators _ => Declarator.listLeaves declarators
  | .expression value _ => value.leaves

namespace Statement

mutual

/-- The leaves of a statement, in the order in which its parts are written: the clauses of a `for`
loop come before its body, and the body of a `do` loop before its condition. -/
def leaves : Statement → List Leaf
  | .declaration _ declarators _ => Declarator.listLeaves declarators
  | .expression value _ => value.leaves
  | .branch condition whenTrue whenFalse _ =>
    condition.leaves ++ listLeaves whenTrue ++ otherwiseLeaves whenFalse
  | .whileLoop condition body _ => condition.leaves ++ listLeaves body
  | .doLoop body condition _ => listLeaves body ++ condition.leaves
  | .forLoop start condition step body _ =>
    start.leaves ++ Expression.clauseLeaves condition ++ Expression.clauseLeaves step ++
      listLeaves body
  | .block body _ => listLeaves body
  | .leaveLoop _ => []
  | .nextRound _ => []
  | .giveBack value _ => Expression.clauseLeaves value

/-- The leaves of statements behind one another. -/
def listLeaves : List Statement → List Leaf
  | [] => []
  | first :: others => leaves first ++ listLeaves others

/-- The leaves of a branch that may be left out. -/
def otherwiseLeaves : Option (List Statement) → List Leaf
  | none => []
  | some body => listLeaves body

end

end Statement

/-! ## Between two places -/

section

variable {input middle rest : List Token} {front back between : List Leaf} {kind : TokenKind}
  {place : Position}

/-- The tokens from one place of a list to a later one have the given leaves. -/
def Passes (input rest : List Token) (between : List Leaf) : Prop :=
  ∃ read, read ++ rest = input ∧ Tokens.leaves read = between

namespace Passes

/-- From one place to a later one, and on from there. -/
theorem trans (first : Passes input middle front) (second : Passes middle rest back) :
    Passes input rest (front ++ back) := by
  obtain ⟨read, rfl, rfl⟩ := first
  obtain ⟨next, rfl, rfl⟩ := second
  exact ⟨read ++ next, List.append_assoc read next rest, Tokens.leaves_append read next⟩

/-- A token is passed with its leaf. -/
theorem token (kind : TokenKind) (place : Position) (rest : List Token) :
    Passes (⟨kind, place⟩ :: rest) rest kind.leaf?.toList := by
  refine ⟨[⟨kind, place⟩], rfl, ?_⟩
  cases leaf : kind.leaf? <;> simp [Tokens.leaves, leaf]

/-- A token without a leaf is passed before other tokens. -/
theorem behind (silent : kind.leaf? = none) (passes : Passes input rest between) :
    Passes (⟨kind, place⟩ :: input) rest between := by
  simpa [silent] using (token kind place input).trans passes

/-- A token without a leaf is passed after other tokens. -/
theorem past (silent : kind.leaf? = none) (passes : Passes input (⟨kind, place⟩ :: rest) between) :
    Passes input rest between := by
  simpa [silent] using passes.trans (token kind place rest)

/-- Between a place and the end are all tokens. -/
theorem eq_leaves (passes : Passes input [] between) : between = Tokens.leaves input := by
  obtain ⟨read, rfl, rfl⟩ := passes
  rw [List.append_nil]

end Passes

end

/-! ## Along the grammar -/

variable {names : String → String → Prop}

namespace Expression

mutual

/-- An expression has the leaves of the tokens that write it. -/
theorem Written.passes {input rest : List Token} {value value' : Expression String} :
    Written names input rest value value' → Passes input rest value.leaves
  | .number | .character | .name _ => by
      rw [leaves]
      exact .token _ _ _
  | .parentheses inside => (inside.passes.past rfl).behind rfl
  | .leading _ operand => by
      rw [leaves_apply]
      exact operand.passes.behind rfl
  | .change _ operand => by
      rw [leaves]
      exact operand.passes.past rfl
  | .index array subscript => by
      rw [leaves]
      exact (array.passes.past rfl).trans (subscript.passes.past rfl)
  | .call callee arguments => by
      -- the name that is called has been read as an operand
      simpa [leaves] using (callee.passes.past rfl).trans arguments.passes
  | .binary _ left right => by
      rw [leaves_join]
      exact (left.passes.past rfl).trans right.passes
  | .conditional condition whenTrue whenFalse => by
      rw [leaves]
      exact ((condition.passes.past rfl).trans (whenTrue.passes.past rfl)).trans whenFalse.passes
  | .assign _ target value => by
      rw [leaves]
      exact (target.passes.past rfl).trans value.passes

/-- Arguments have the leaves of the tokens that write them. -/
theorem ArgumentsWritten.passes {input rest : List Token}
    {arguments arguments' : List (Expression String)} :
    ArgumentsWritten names input rest arguments arguments' →
      Passes input rest (listLeaves arguments)
  | .nothing => .token _ _ _
  | .last value => by
      rw [listLeaves, listLeaves, List.append_nil]
      exact value.passes.past rfl
  | .cons value others => by
      rw [listLeaves]
      exact (value.passes.past rfl).trans others.passes

end

/-- A clause has the leaves of the tokens that write it. -/
theorem ClauseWritten.passes {input rest : List Token} {close : Sign}
    {clause clause' : Option (Expression String)} :
    ClauseWritten names close input rest clause clause' → Passes input rest (clauseLeaves clause)
  | .nothing => .token _ _ _
  | .expression value => value.passes.past rfl

end Expression

namespace Declarator

/-- A declared name has the leaves of the tokens that write it. -/
theorem Written.passes {input rest : List Token} {declarator declarator' : Declarator} :
    Written names input rest declarator declarator' → Passes input rest declarator.leaves
  | .bare _ => .token _ _ _
  | .valued _ value => (Passes.token _ _ _).trans (value.passes.behind rfl)

/-- Declared names have the leaves of the tokens that write them. -/
theorem ListWritten.passes {input rest : List Token} {declarators declarators' : List Declarator}
    (written : ListWritten names input rest declarators declarators') :
    Passes input rest (listLeaves declarators) := by
  induction written with
  | last declarator =>
      rw [listLeaves, List.flatMap_singleton]
      exact declarator.passes.past rfl
  | cons declarator _ ih => exact (declarator.passes.past rfl).trans ih

/-- A declaration has the leaves of the tokens that write it. -/
theorem DeclarationWritten.passes {input rest : List Token}
    {declarators declarators' : List Declarator}
    (written : DeclarationWritten names input rest declarators declarators') :
    Passes input rest (listLeaves declarators) := by
  induction written with
  | word _ ih => exact ih.behind rfl
  | declarators written => exact written.passes

end Declarator

/-- A first clause has the leaves of the tokens that write it. -/
theorem ForStart.Written.passes {input rest : List Token} {start start' : ForStart} :
    ForStart.Written names input rest start start' → Passes input rest start.leaves
  | .nothing => .token _ _ _
  | .declaration declarators => declarators.passes
  | .expression value => value.passes.past rfl

namespace Statement

mutual

/-- A statement has the leaves of the tokens that write it. -/
theorem Written.passes {input rest : List Token} {statement statement' : Statement} :
    Written names input rest statement statement' → Passes input rest statement.leaves
  | .declaration declarators => by
      rw [leaves]
      exact declarators.passes
  | .expression value => by
      rw [leaves]
      exact value.passes.past rfl
  | .branch condition whenTrue => by
      rw [leaves, otherwiseLeaves, List.append_nil]
      exact (condition.passes.trans whenTrue.passes).behind rfl
  | .branches condition whenTrue whenFalse => by
      rw [leaves, otherwiseLeaves]
      exact ((condition.passes.trans (whenTrue.passes.past rfl)).trans whenFalse.passes).behind rfl
  | .whileLoop condition body => by
      rw [leaves]
      exact (condition.passes.trans body.passes).behind rfl
  | .doLoop body condition => by
      rw [leaves]
      exact ((body.passes.past rfl).trans (condition.passes.past rfl)).behind rfl
  | .forLoop start condition step body => by
      rw [leaves]
      exact ((((start.passes.trans condition.passes).trans step.passes).trans
        body.passes).behind rfl).behind rfl
  | .block body => by
      rw [leaves]
      exact body.passes.behind rfl
  | .nothing => by
      rw [leaves, listLeaves]
      exact .token _ _ _
  | .leaveLoop | .nextRound => by
      rw [leaves]
      exact (Passes.token _ _ _).behind rfl
  | .giveBack value => by
      rw [leaves]
      exact value.passes.behind rfl

/-- A block has the leaves of the tokens that write it. -/
theorem BlockWritten.passes {input rest : List Token} {body body' : List Statement} :
    BlockWritten names input rest body body' → Passes input rest (listLeaves body)
  | .nil => by
      rw [listLeaves]
      exact .token _ _ _
  | .cons first others => by
      rw [listLeaves]
      exact first.passes.trans others.passes

/-- A branch has the leaves of the tokens that write it. -/
theorem BranchWritten.passes {input rest : List Token} {body body' : List Statement} :
    BranchWritten names input rest body body' → Passes input rest (listLeaves body)
  | .braced body => body.passes.behind rfl
  | .single only => by
      rw [listLeaves, listLeaves, List.append_nil]
      exact only.passes

end

/-- A body has the leaves of the tokens that write it. -/
theorem BodyWritten.passes {input : List Token} {body body' : List Statement}
    (written : BodyWritten names input body body') : Passes input [] (listLeaves body) := by
  induction written with
  | nil => exact ⟨[], rfl, rfl⟩
  | cons first _ ih =>
      rw [listLeaves]
      exact first.passes.trans ih

/-- **Reading loses and reorders nothing.** The names and literal values in the statements of a
body, in the order in which the statements are written, are those among its tokens. -/
theorem listLeaves_of_parseBody {stop : Position} {input : List Token} {statements : List Statement}
    (accepted : parseBody stop input = .ok statements) :
    listLeaves statements = Tokens.leaves input :=
  (written_of_parseBody accepted).passes.eq_leaves

/-- The body
`const unsigned a = 1, b; for (b = (+a); ; b++) do \x7b f(a, 'x'); \x7d while (b ? 2 : gV[a]);`
loses its parentheses, its sign and its braces, but no name and no value. -/
theorem listLeaves_of_parseBody_parentheses :
    let place : Position := ⟨1, 1⟩
    let kinds : List TokenKind :=
      [.keyword .const, .keyword .unsigned, .name "a", .sign .equal, .number 1,
        .sign .comma, .name "b",
        .sign .semicolon, .keyword .forWord, .sign .leftParenthesis, .name "b", .sign .equal,
        .sign .leftParenthesis, .sign .plus, .name "a", .sign .rightParenthesis, .sign .semicolon,
        .sign .semicolon, .name "b", .sign .plusPlus, .sign .rightParenthesis, .keyword .doWord,
        .sign .leftBrace, .name "f", .sign .leftParenthesis, .name "a", .sign .comma,
          .character 'x',
        .sign .rightParenthesis, .sign .semicolon, .sign .rightBrace, .keyword .whileWord,
        .sign .leftParenthesis, .name "b", .sign .question, .number 2, .sign .colon, .name "gV",
        .sign .leftBracket, .name "a", .sign .rightBracket, .sign .rightParenthesis,
          .sign .semicolon]
    ∃ statements, parseBody place (kinds.map fun kind => ⟨kind, place⟩) = .ok statements ∧
      listLeaves statements =
        [.name "a", .number 1, .name "b", .name "b", .name "a", .name "b", .name "f", .name "a",
          .number (Float.ofNat 120), .name "b", .number 2, .name "gV", .name "a"] := by
  intro place kinds
  have accepted : (parseBody place (kinds.map fun kind => ⟨kind, place⟩)).isOk = true := by
    decide +kernel
  cases read : parseBody place (kinds.map fun kind => ⟨kind, place⟩) with
  | error error =>
      rw [read] at accepted
      cases accepted
  | ok statements => exact ⟨statements, rfl, listLeaves_of_parseBody read⟩

end Statement

end LineRobot
