import Mathlib.Data.List.Basic
import LineRobot.Proofs.Syntax.Reading

/-! # Accesses and their places

An access is where a program reads, assigns or changes an element of an array. Its place is that of
the token that a fault of it refers to: the bracket of an element that is read, the sign that
assigns or changes one that is written. `Expression.accesses` and `Statement.accesses` list accesses
in the order of these tokens.

What tokens write has its accesses at places of these tokens, in their order and each at a token of
its own, along the grammar (`Spans`); and so have the statements of a body at places of its tokens
(`Statement.spans_of_parseBody`). -/

namespace LineRobot

/-- An array element that is read or written. -/
structure Access where
  /-- The place that a fault of the access refers to. -/
  position : Position
  /-- The expression of the index. -/
  subscript : Expression String

namespace Expression

mutual

/-- The accesses in an expression, in the order of their places. -/
def accesses : Expression String → List Access
  | .number _ _ => []
  | .name _ _ => []
  | .binary _ left right _ => accesses left ++ accesses right
  | .logical _ left right _ => accesses left ++ accesses right
  | .unary _ operand _ => accesses operand
  | .change _ .before (.index _ subscript _) position =>
      accesses subscript ++ [⟨position, subscript⟩]
  | .change _ .after (.index _ subscript _) position => ⟨position, subscript⟩ :: accesses subscript
  | .change _ _ _ _ => []
  | .conditional condition whenTrue whenFalse _ =>
    accesses condition ++ accesses whenTrue ++ accesses whenFalse
  | .assign _ (.index _ subscript _) value position =>
    accesses subscript ++ ⟨position, subscript⟩ :: accesses value
  | .assign _ _ value _ => accesses value
  | .call _ arguments _ => listAccesses arguments
  | .index _ subscript position => ⟨position, subscript⟩ :: accesses subscript

/-- The accesses in expressions behind one another. -/
def listAccesses : List (Expression String) → List Access
  | [] => []
  | first :: others => accesses first ++ listAccesses others

end

/-- The accesses in an expression that may be left out. -/
def clauseAccesses (clause : Option (Expression String)) : List Access :=
  clause.elim [] accesses

end Expression

namespace Declarator

/-- The accesses in a first value. -/
def accesses (declarator : Declarator) : List Access :=
  Expression.clauseAccesses declarator.value

/-- The accesses in first values behind one another. -/
def listAccesses (declarators : List Declarator) : List Access :=
  declarators.flatMap accesses

end Declarator

/-- The accesses in the first clause of a `for` loop. -/
def ForStart.accesses : ForStart → List Access
  | .nothing => []
  | .declaration _ declarators _ => Declarator.listAccesses declarators
  | .expression value _ => value.accesses

namespace Statement

mutual

/-- The accesses in a statement, in the order of their places. -/
def accesses : Statement → List Access
  | .declaration _ declarators _ => Declarator.listAccesses declarators
  | .expression value _ => value.accesses
  | .branch condition whenTrue whenFalse _ =>
    condition.accesses ++ listAccesses whenTrue ++ otherwiseAccesses whenFalse
  | .whileLoop condition body _ => condition.accesses ++ listAccesses body
  | .doLoop body condition _ => listAccesses body ++ condition.accesses
  | .forLoop start condition step body _ =>
    start.accesses ++ Expression.clauseAccesses condition ++ Expression.clauseAccesses step ++
      listAccesses body
  | .block body _ => listAccesses body
  | .leaveLoop _ => []
  | .nextRound _ => []
  | .giveBack value _ => Expression.clauseAccesses value

/-- The accesses in statements behind one another. -/
def listAccesses : List Statement → List Access
  | [] => []
  | first :: others => accesses first ++ listAccesses others

/-- The accesses in a branch that may be left out. -/
def otherwiseAccesses : Option (List Statement) → List Access
  | none => []
  | some body => listAccesses body

end

end Statement

/-! ## Places of tokens -/

section

variable {input middle rest : List Token} {front back : List Access} {kind : TokenKind}
  {place : Position}

/-- The tokens from one place of a list to a later one have the places of the given accesses, in
this order and each at a token of its own. -/
def Spans (input rest : List Token) (accesses : List Access) : Prop :=
  ∃ read, read ++ rest = input ∧ (accesses.map Access.position).Sublist (read.map Token.position)

namespace Spans

/-- From one place to a later one, and on from there. -/
theorem trans (first : Spans input middle front) (second : Spans middle rest back) :
    Spans input rest (front ++ back) := by
  obtain ⟨read, rfl, here⟩ := first
  obtain ⟨next, rfl, there⟩ := second
  refine ⟨read ++ next, List.append_assoc read next rest, ?_⟩
  rw [List.map_append, List.map_append]
  exact here.append there

/-- Accesses can be left out. -/
theorem of_sublist (spans : Spans input rest back) (fewer : front.Sublist back) :
    Spans input rest front := by
  obtain ⟨read, whole, there⟩ := spans
  exact ⟨read, whole, (fewer.map Access.position).trans there⟩

/-- A token is taken for an access. -/
theorem token (kind : TokenKind) (place : Position) (subscript : Expression String)
    (rest : List Token) :
    Spans (⟨kind, place⟩ :: rest) rest [⟨place, subscript⟩] :=
  ⟨[⟨kind, place⟩], rfl, List.Sublist.refl _⟩

/-- A token is passed. -/
theorem passed (kind : TokenKind) (place : Position) (rest : List Token) :
    Spans (⟨kind, place⟩ :: rest) rest [] :=
  ⟨[⟨kind, place⟩], rfl, List.nil_sublist _⟩

/-- A token is passed before other tokens. -/
theorem behind (spans : Spans input rest front) : Spans (⟨kind, place⟩ :: input) rest front :=
  (passed kind place input).trans spans

/-- A token is passed after other tokens. -/
theorem past (spans : Spans input (⟨kind, place⟩ :: rest) front) : Spans input rest front := by
  simpa using spans.trans (passed kind place rest)

end Spans

end

/-! ## Along the grammar -/

variable {names : String → String → Prop}

namespace Expression

/-- An operator between two operands adds no access. -/
@[simp] theorem accesses_join (link : Link) (left right : Expression String) (position : Position) :
    (link.join left right position).accesses = left.accesses ++ right.accesses := by
  cases link <;> rw [Link.join, accesses]

/-- What is changed has the accesses that it has by itself, and that of the change, at the sign
before it or behind it. -/
theorem exists_accesses_change (operand : Expression String) :
    ∃ subscript, ∀ direction position,
      (accesses (.change direction .after operand position)).Sublist (⟨position, subscript⟩ ::
        operand.accesses) ∧
      (accesses (.change direction .before operand position)).Sublist
        (operand.accesses ++ [⟨position, subscript⟩]) := by
  cases operand with
  | index array subscript place =>
      refine ⟨subscript, fun direction position => ⟨?_, ?_⟩⟩
      · rw [accesses, accesses]
        exact (List.sublist_cons_self _ _).cons_cons _
      · rw [accesses, accesses]
        exact (List.sublist_cons_self _ _).append (List.Sublist.refl _)
  | _ => exact ⟨.number 0 .start, fun direction position => by simp [accesses]⟩

/-- An operator before an operand adds at most the access of a change, at its sign. -/
theorem exists_accesses_apply (operand : Expression String) :
    ∃ subscript, ∀ leading position, (accesses (Leading.apply leading operand position)).Sublist
      ([⟨position, subscript⟩] ++ operand.accesses) := by
  obtain ⟨subscript, fewer⟩ := exists_accesses_change operand
  refine ⟨subscript, fun leading position => ?_⟩
  cases leading with
  | operator mark =>
      rw [Leading.apply, accesses]
      exact List.sublist_append_right _ _
  | change direction => exact (fewer direction position).1
  | nothing => exact List.sublist_append_right _ _

/-- What is assigned to has the accesses that it has by itself, and that of the assignment, at the
sign behind it. -/
theorem exists_accesses_assign (target : Expression String) :
    ∃ subscript, ∀ compound value position,
      (accesses (.assign compound target value position)).Sublist
      (target.accesses ++ [⟨position, subscript⟩] ++ value.accesses) := by
  cases target with
  | index array subscript place =>
      refine ⟨subscript, fun compound value position => ?_⟩
      rw [accesses, accesses, List.append_assoc]
      exact (List.sublist_cons_self _ _).append (List.Sublist.refl _)
  | _ =>
      refine ⟨.number 0 .start, fun compound value position => ?_⟩
      show (accesses value).Sublist _
      exact List.sublist_append_right _ _

mutual

/-- An expression has its accesses at the tokens that write it. -/
theorem Written.spans {input rest : List Token} {value value' : Expression String} :
    Written names input rest value value' → Spans input rest value.accesses
  | .number | .character | .name _ => by
      rw [accesses]
      exact .passed _ _ _
  | .parentheses inside => inside.spans.past.behind
  | @Written.leading _ _ _ operand _ _ leading here _ _ written => by
      obtain ⟨subscript, fewer⟩ := exists_accesses_apply operand
      exact ((Spans.token _ here subscript _).trans written.spans).of_sublist (fewer leading here)
  | @Written.change _ _ _ operand _ _ direction here _ _ written => by
      obtain ⟨subscript, fewer⟩ := exists_accesses_change operand
      exact (written.spans.trans (.token _ here subscript _)).of_sublist (fewer direction here).2
  | @Written.index _ _ middle _ _ _ subscript _ here _ _ array inside => by
      have spans := (array.spans.trans (.token _ here subscript middle)).trans inside.spans.past
      rw [accesses]
      refine spans.of_sublist ?_
      simp
  | .call callee arguments => by
      -- the name that is called has no access
      simpa [accesses] using callee.spans.past.trans arguments.spans
  | .binary _ left right => by
      rw [accesses_join]
      exact left.spans.past.trans right.spans
  | .conditional condition whenTrue whenFalse => by
      rw [accesses]
      exact (condition.spans.past.trans whenTrue.spans.past).trans whenFalse.spans
  | @Written.assign _ _ _ _ target _ value _ _ compound here _ _ left right => by
      obtain ⟨subscript, fewer⟩ := exists_accesses_assign target
      exact ((left.spans.trans (.token _ here subscript _)).trans right.spans).of_sublist
        (fewer compound value here)

/-- Arguments have their accesses at the tokens that write them. -/
theorem ArgumentsWritten.spans {input rest : List Token}
    {arguments arguments' : List (Expression String)} :
    ArgumentsWritten names input rest arguments arguments' →
      Spans input rest (listAccesses arguments)
  | .nothing => .passed _ _ _
  | .last value => by
      rw [listAccesses, listAccesses, List.append_nil]
      exact value.spans.past
  | .cons value others => by
      rw [listAccesses]
      exact value.spans.past.trans others.spans

end

/-- A clause has its accesses at the tokens that write it. -/
theorem ClauseWritten.spans {input rest : List Token} {close : Sign}
    {clause clause' : Option (Expression String)} :
    ClauseWritten names close input rest clause clause' → Spans input rest (clauseAccesses clause)
  | .nothing => .passed _ _ _
  | .expression value => value.spans.past

end Expression

namespace Declarator

/-- A declared name has its accesses at the tokens that write it. -/
theorem Written.spans {input rest : List Token} {declarator declarator' : Declarator} :
    Written names input rest declarator declarator' → Spans input rest declarator.accesses
  | .bare _ => .passed _ _ _
  | .valued _ value => value.spans.behind.behind

/-- Declared names have their accesses at the tokens that write them. -/
theorem ListWritten.spans {input rest : List Token} {declarators declarators' : List Declarator}
    (written : ListWritten names input rest declarators declarators') :
    Spans input rest (listAccesses declarators) := by
  induction written with
  | last declarator =>
      rw [listAccesses, List.flatMap_singleton]
      exact declarator.spans.past
  | cons declarator _ ih => exact declarator.spans.past.trans ih

/-- A declaration has its accesses at the tokens that write it. -/
theorem DeclarationWritten.spans {input rest : List Token}
    {declarators declarators' : List Declarator}
    (written : DeclarationWritten names input rest declarators declarators') :
    Spans input rest (listAccesses declarators) := by
  induction written with
  | word _ ih => exact ih.behind
  | declarators written => exact written.spans

end Declarator

/-- A first clause has its accesses at the tokens that write it. -/
theorem ForStart.Written.spans {input rest : List Token} {start start' : ForStart} :
    ForStart.Written names input rest start start' → Spans input rest start.accesses
  | .nothing => .passed _ _ _
  | .declaration declarators => declarators.spans
  | .expression value => value.spans.past

namespace Statement

mutual

/-- A statement has its accesses at the tokens that write it. -/
theorem Written.spans {input rest : List Token} {statement statement' : Statement} :
    Written names input rest statement statement' → Spans input rest statement.accesses
  | .declaration declarators => by
      rw [accesses]
      exact declarators.spans
  | .expression value => by
      rw [accesses]
      exact value.spans.past
  | .branch condition whenTrue => by
      rw [accesses, otherwiseAccesses, List.append_nil]
      exact (condition.spans.trans whenTrue.spans).behind
  | .branches condition whenTrue whenFalse => by
      rw [accesses, otherwiseAccesses]
      exact ((condition.spans.trans whenTrue.spans.past).trans whenFalse.spans).behind
  | .whileLoop condition body => by
      rw [accesses]
      exact (condition.spans.trans body.spans).behind
  | .doLoop body condition => by
      rw [accesses]
      exact (body.spans.past.trans condition.spans.past).behind
  | .forLoop start condition step body => by
      rw [accesses]
      exact (((start.spans.trans condition.spans).trans step.spans).trans body.spans).behind.behind
  | .block body => by
      rw [accesses]
      exact body.spans.behind
  | .nothing => by
      rw [accesses, listAccesses]
      exact .passed _ _ _
  | .leaveLoop | .nextRound => by
      rw [accesses]
      exact (Spans.passed _ _ _).behind
  | .giveBack value => by
      rw [accesses]
      exact value.spans.behind

/-- A block has its accesses at the tokens that write it. -/
theorem BlockWritten.spans {input rest : List Token} {body body' : List Statement} :
    BlockWritten names input rest body body' → Spans input rest (listAccesses body)
  | .nil => by
      rw [listAccesses]
      exact .passed _ _ _
  | .cons first others => by
      rw [listAccesses]
      exact first.spans.trans others.spans

/-- A branch has its accesses at the tokens that write it. -/
theorem BranchWritten.spans {input rest : List Token} {body body' : List Statement} :
    BranchWritten names input rest body body' → Spans input rest (listAccesses body)
  | .braced body => body.spans.behind
  | .single only => by
      rw [listAccesses, listAccesses, List.append_nil]
      exact only.spans

end

/-- A body has its accesses at the tokens that write it. -/
theorem BodyWritten.spans {input : List Token} {body body' : List Statement}
    (written : BodyWritten names input body body') : Spans input [] (listAccesses body) := by
  induction written with
  | nil => exact ⟨[], rfl, List.nil_sublist _⟩
  | cons first _ ih =>
      rw [listAccesses]
      exact first.spans.trans ih

/-- The accesses of the statements of a body are at tokens of it. -/
theorem spans_of_parseBody {stop : Position} {input : List Token} {statements : List Statement}
    (accepted : parseBody stop input = .ok statements) : Spans input [] (listAccesses statements) :=
  (written_of_parseBody accepted).spans

end Statement

end LineRobot
