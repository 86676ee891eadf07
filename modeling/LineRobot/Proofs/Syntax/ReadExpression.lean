import LineRobot.Proofs.Success
import LineRobot.Proofs.Syntax.Alike
import LineRobot.Proofs.Syntax.Printing

/-! # Reading printed expressions

The tokens of an expression are read back as the same expression up to its places
(`Expression.Readable.readAt`). Tokens are *read at a level* (`Expression.ReadAt`) if the function
of the parser that reads expressions of the level reads them and leaves what stands behind them,
provided that does not go on with an expression of the level (`Ends`). What is read at a level is
read at all lower ones.

Operators of one level are read in a loop, and so is what follows an operand. For these levels it is
not said what is read but how the loop goes on: as it would if it had already read the operand. So
the left operand of an operator, and all that comes before an index, are read as part of a longer
expression. -/

namespace LineRobot

open Tokens

/-! ## Tokens of given kinds -/

/-- Tokens of the given kinds, at whatever places, at the front of a list of tokens. -/
def Spells : (kinds : List TokenKind) → (input rest : List Token) → Prop
  | [], input, rest => input = rest
  | kind :: kinds, input, rest =>
      ∃ position others, input = ⟨kind, position⟩ :: others ∧ Spells kinds others rest

/-- Kinds one after the other are spelled by tokens one after the other. -/
theorem spells_append {first others : List TokenKind} {input rest : List Token} :
    Spells (first ++ others) input rest ↔
      ∃ middle, Spells first input middle ∧ Spells others middle rest := by
  induction first generalizing input with
  | nil => simp [Spells]
  | cons kind later ih =>
      simp only [List.cons_append, Spells, ih]
      constructor
      · rintro ⟨position, tokens, same, middle, here, there⟩
        exact ⟨middle, ⟨position, tokens, same, here⟩, there⟩
      · rintro ⟨middle, ⟨position, tokens, same, here⟩, there⟩
        exact ⟨position, tokens, same, middle, here, there⟩

/-- All kinds of a list of tokens are spelled by it. -/
theorem spells_map_kind (input : List Token) : Spells (input.map Token.kind) input [] := by
  induction input with
  | nil => rfl
  | cons token later ih => exact ⟨token.position, later, rfl, ih⟩

/-- Less is left behind tokens of at least one kind. -/
theorem Spells.length_lt {kinds : List TokenKind} {input rest : List Token}
    (spelled : Spells kinds input rest) (nonempty : kinds ≠ []) : rest.length < input.length := by
  induction kinds generalizing input with
  | nil => exact absurd rfl nonempty
  | cons kind later ih =>
      obtain ⟨position, others, rfl, spelled⟩ := spelled
      cases later with
      | nil =>
          rw [show others = rest from spelled]
          exact Nat.lt_succ_self _
      | cons second later => exact Nat.lt_succ_of_lt (ih spelled (List.cons_ne_nil _ _))

/-! ## What ends an expression -/

namespace Sign

/-- How tightly a sign binds what stands before it: it goes on with an expression of this level, but
ends those of lower levels that are read before it. -/
def strength (mark : Sign) : Nat :=
  if mark.trailing?.isSome then 13
  else
    match mark.binary? with
    | some (level, _) => level + 1
    | none => if mark = .question then 2 else if mark.assignment?.isSome then 1 else 0

end Sign

/-- What comes next does not go on with an expression that is read at the given level. -/
def Ends (level : Nat) (rest : List Token) : Prop :=
  ∀ mark position others, rest = ⟨.sign mark, position⟩ :: others → mark.strength ≤ level

variable {level weaker : Nat} {rest : List Token}

/-- What ends an expression ends one that is read at a higher level. -/
theorem Ends.mono (ends : Ends weaker rest) (weak : weaker ≤ level) : Ends level rest :=
  fun mark position others same => Nat.le_trans (ends mark position others same) weak

/-- A sign ends expressions read at its strength and at higher levels. -/
theorem ends_sign {mark : Sign} {position : Position} {others : List Token}
    (weak : mark.strength ≤ level) : Ends level (⟨.sign mark, position⟩ :: others) := by
  intro other place later same
  obtain ⟨same, -⟩ := List.cons.inj same
  cases same
  exact weak

/-- Everything ends what is read at the highest level. -/
theorem ends_highest (rest : List Token) : Ends 13 rest :=
  fun mark _ _ _ => by cases mark <;> decide

/-- A sign of no interest is not read. -/
theorem signThat?_eq_none {α : Type} {interest : Sign → Option α}
    (none : ∀ mark position others, rest = ⟨.sign mark, position⟩ :: others →
      interest mark = Option.none) :
    signThat? interest rest = Option.none := by
  cases rest with
  | nil => rfl
  | cons token others =>
      obtain ⟨kind, position⟩ := token
      cases kind with
      | sign mark =>
          show (interest mark).map _ = Option.none
          rw [none mark position others rfl, Option.map_none]
      | _ => rfl

/-- A sign of interest is read. -/
theorem signThat?_cons {α : Type} {interest : Sign → Option α} {mark : Sign} {value : α}
    (position : Position) (others : List Token) (known : interest mark = some value) :
    signThat? interest (⟨.sign mark, position⟩ :: others) =
      some ⟨(value, position), others, Nat.lt_succ_self _⟩ := by
  show (interest mark).map _ = _
  rw [known, Option.map_some]

namespace Ends

/-- After an operand there is no index, call or change. -/
theorem trailing? (ends : Ends 12 rest) : signThat? Sign.trailing? rest = none := by
  refine signThat?_eq_none fun mark position others same => ?_
  have weak := ends mark position others same
  cases trails : mark.trailing? with
  | none => rfl
  | some trailing =>
      rw [Sign.strength, trails] at weak
      simp at weak

/-- After operands joined by operators there is no operator of their level or a higher one. -/
theorem operator? (ends : Ends level rest) : operator? level rest = none := by
  refine signThat?_eq_none fun mark position others same => ?_
  have weak := ends mark position others same
  have notTrailing : mark.binary? ≠ none → mark.trailing? = none := by
    cases mark <;> first | exact fun _ => rfl | exact fun known => absurd rfl known
  cases binary : mark.binary? with
  | none => rfl
  | some entry =>
      rw [Sign.strength, notTrailing (by rw [binary]; exact nofun), binary] at weak
      simp only [Option.isSome_none, Bool.false_eq_true, if_false] at weak
      rw [Option.filter_some, if_neg]
      exact fun held => Nat.not_le.mpr weak (of_decide_eq_true held)

/-- After a condition there are no expressions to choose from. -/
theorem question? (ends : Ends 1 rest) : sign? .question rest = none := by
  cases rest with
  | nil => rfl
  | cons token others =>
      obtain ⟨kind, position⟩ := token
      by_cases same : kind = .sign .question
      · subst same
        exact absurd (ends .question position others rfl) (by decide)
      · rw [sign?, next?, if_neg same]
        rfl

/-- After a target there is no value. -/
theorem assignment? (ends : Ends 0 rest) : signThat? Sign.assignment? rest = none := by
  refine signThat?_eq_none fun mark position others same => ?_
  have weak := ends mark position others same
  cases mark <;> first | rfl | exact absurd weak (by decide)

end Ends

/-- The sign that comes next is read. -/
theorem sign?_cons (mark : Sign) (position : Position) (others : List Token) :
    sign? mark (⟨.sign mark, position⟩ :: others) =
      some ⟨((), position), others, Nat.lt_succ_self _⟩ := by
  rw [sign?, next?, if_pos rfl]
  rfl

/-- Whether a token can begin an expression. -/
def TokenKind.beginsExpression : TokenKind → Bool
  | .number _ | .name _ => true
  | .sign mark => mark = .leftParenthesis || (mark.leading?.isSome && mark ≠ .plus)
  | .character _ | .keyword _ => false

/-- A token that can begin an expression is not another sign. -/
theorem sign?_eq_none {kind : TokenKind} {position : Position} {others : List Token}
    (begin : kind.beginsExpression = true) {mark : Sign}
    (other : TokenKind.beginsExpression (.sign mark) = false) :
    sign? mark (⟨kind, position⟩ :: others) = none := by
  have different : kind ≠ .sign mark := by
    rintro rfl
    rw [begin] at other
    cases other
  rw [sign?, next?, if_neg different]
  rfl

/-- The sign that must come next is read. -/
theorem expectSign_cons (stop : Position) (mark : Sign) (context : String) (position : Position)
    (others : List Token) :
    expectSign stop mark context (⟨.sign mark, position⟩ :: others) =
      .ok ⟨((), position), others, Nat.lt_succ_self _⟩ := by
  rw [expectSign, sign?_cons]

namespace Link

/-- The sign of an operator is read as that operator. -/
theorem binary?_sign (link : Link) : link.sign.binary? = some (link.level - 1, link) := by
  cases link with
  | operator joint => cases joint <;> rfl
  | connective joint => cases joint <;> rfl

/-- The sign of an operator binds as tightly as its level tells. -/
theorem strength_sign (link : Link) : link.sign.strength = link.level := by
  cases link with
  | operator joint => cases joint <;> rfl
  | connective joint => cases joint <;> rfl

/-- The levels of operators are between those of conditionals and of single operands. -/
theorem level_bounds (link : Link) : 2 ≤ link.level ∧ link.level ≤ 11 := by
  cases link with
  | operator joint => cases joint <;> decide
  | connective joint => cases joint <;> decide

/-- The operator that comes next is read, if it is strong enough. -/
theorem operator?_cons (link : Link) {weakest : Nat} (weak : weakest < link.level)
    (position : Position) (others : List Token) :
    operator? weakest (⟨.sign link.sign, position⟩ :: others) =
      some ⟨((link.level - 1, link), position), others, Nat.lt_succ_self _⟩ := by
  refine signThat?_cons position others ?_
  rw [binary?_sign, Option.filter_some, if_pos]
  exact decide_eq_true (Nat.le_sub_one_of_lt weak)

/-- Operands that are alike are alike when they are joined. -/
theorem alike_join (link : Link) {left right left' right' : Expression String}
    (leftAlike : left.Alike left') (rightAlike : right.Alike right') (here there : Position) :
    (link.join left right here).Alike (link.join left' right' there) := by
  cases link with
  | operator joint => exact .binary leftAlike rightAlike
  | connective joint => exact .logical leftAlike rightAlike

end Link

namespace Expression

/-! ## Levels of reading -/

/-- What the parser reads at a level is the given operand, and it goes on behind it as it would if
it had read a part of an expression of that level. -/
structure ReadBy (level : Nat) (stop : Position) (input : List Token)
    (operand : Parsed (Expression String) input) : Prop where
  /-- At the lowest level it reads an expression. -/
  whole : level = 0 → parse stop input = .ok operand
  /-- Above that it reads a conditional. -/
  conditional : level = 1 → parseConditional stop input = .ok operand
  /-- Then it reads operands joined by operators, and goes on with operators of the level or
  below. -/
  operations : 2 ≤ level → level ≤ 11 → ∀ weakest, weakest < level →
    parseOperations stop weakest input = parseOperationsAfter stop weakest input operand
  /-- Above that it reads an operand with the operators before it. -/
  unary : level = 12 → parseUnary stop input = .ok operand
  /-- At the highest level it goes on with what follows an operand. -/
  trailing : level = 13 → parseUnary stop input = parseTrailing stop input operand

/-- Tokens of the given kinds are read as an expression at a level and those below it, wherever they
stand, if what comes next ends an expression of the level. -/
def ReadAt (level : Nat) (kinds : List TokenKind) (expression : Expression String) : Prop :=
  ∀ stop input rest, Spells kinds input rest → Ends level rest →
    ∃ value shorter, expression.Alike value ∧ ReadBy level stop input ⟨value, rest, shorter⟩

variable {kinds : List TokenKind} {expression : Expression String}

/-- What is read at a level is read at the next lower one. -/
theorem ReadAt.lower (reads : ReadAt (level + 1) kinds expression) (below : level ≤ 12) :
    ReadAt level kinds expression := by
  intro stop input rest spelled ends
  obtain ⟨value, shorter, alike, read⟩ :=
    reads stop input rest spelled (ends.mono (Nat.le_succ level))
  refine ⟨value, shorter, alike, ?_⟩
  obtain rfl | rfl | ⟨above, small⟩ | rfl | rfl :
      level = 0 ∨ level = 1 ∨ (2 ≤ level ∧ level ≤ 10) ∨ level = 11 ∨ level = 12 := by omega
  · refine ⟨fun _ => ?_, nofun, nofun, nofun, nofun⟩
    rw [parse]
    refine bind_eq_ok.mpr ⟨_, read.conditional rfl, ?_⟩
    dsimp only
    rw [ends.assignment?]
    rfl
  · refine ⟨nofun, fun _ => ?_, nofun, nofun, nofun⟩
    have condition : parseOperations stop 1 input = .ok ⟨value, rest, shorter⟩ := by
      rw [read.operations (by omega) (by omega) 1 (by omega), parseOperationsAfter]
      dsimp only
      rw [ends.operator?]
    rw [parseConditional]
    refine bind_eq_ok.mpr ⟨_, condition, ?_⟩
    dsimp only
    rw [ends.question?]
    rfl
  · exact ⟨by omega, by omega, fun _ _ weakest weak =>
      read.operations (by omega) (by omega) weakest (by omega), by omega, by omega⟩
  · refine ⟨nofun, nofun, fun _ _ weakest _ => ?_, nofun, nofun⟩
    rw [parseOperations, read.unary rfl]
    rfl
  · refine ⟨nofun, nofun, nofun, fun _ => ?_, nofun⟩
    rw [read.trailing rfl, parseTrailing]
    dsimp only
    rw [ends.trailing?]

/-- What is read at a level is read at all lower ones. -/
theorem ReadAt.mono (reads : ReadAt level kinds expression) (weak : weaker ≤ level)
    (high : level ≤ 13) : ReadAt weaker kinds expression := by
  induction weak with
  | refl => exact reads
  | step _ ih => exact ih (reads.lower (by omega)) (by omega)

/-- Operands joined by operators begin with what is read at the level of an operand, too. -/
theorem ReadBy.parseOperations_eq {stop : Position} {input : List Token}
    {operand : Parsed (Expression String) input} (read : ReadBy level stop input operand)
    (low : 2 ≤ level) (high : level ≤ 12) {weakest : Nat} (weak : weakest < level) :
    parseOperations stop weakest input = parseOperationsAfter stop weakest input operand := by
  obtain below | rfl := Nat.lt_or_eq_of_le high
  · exact read.operations low (by omega) weakest weak
  · rw [parseOperations, read.unary rfl]
    rfl

/-- What is read at the lowest level is read as an expression. -/
theorem ReadAt.parse_eq (reads : ReadAt 0 kinds expression) (stop : Position) {input : List Token}
    (spelled : Spells kinds input rest) (ends : Ends 0 rest) :
    ∃ value shorter, expression.Alike value ∧ parse stop input = .ok ⟨value, rest, shorter⟩ := by
  obtain ⟨value, shorter, alike, read⟩ := reads stop input rest spelled ends
  exact ⟨value, shorter, alike, read.whole rfl⟩

/-! ## The forms of expressions -/

/-- A number. -/
theorem readAt_number (value : Float) (position : Position) :
    ReadAt 13 [.number value] (.number value position) := by
  rintro stop input rest ⟨place, others, rfl, rfl⟩ -
  refine ⟨.number value place, Nat.lt_succ_self _, .number, nofun, nofun, by omega, nofun,
    fun _ => ?_⟩
  rw [parseUnary, parsePrimary]
  rfl

/-- A name. -/
theorem readAt_name (text : String) (position : Position) :
    ReadAt 13 [.name text] (.name text position) := by
  rintro stop input rest ⟨place, others, rfl, rfl⟩ -
  refine ⟨.name text place, Nat.lt_succ_self _, .name, nofun, nofun, by omega, nofun, fun _ => ?_⟩
  rw [parseUnary, parsePrimary]
  rfl

/-- Two operands joined by an operator. -/
theorem readAt_link (link : Link) {left right : Expression String}
    {leftKinds rightKinds : List TokenKind} (readLeft : ReadAt link.level leftKinds left)
    (readRight : ReadAt (link.level + 1) rightKinds right) (position : Position) :
    ReadAt link.level (leftKinds ++ .sign link.sign :: rightKinds)
      (link.join left right position) := by
  intro stop input rest spelled ends
  have ⟨low, high⟩ := link.level_bounds
  have shorter := spelled.length_lt (by simp)
  obtain ⟨middle, leftSpelled, place, others, rfl, rightSpelled⟩ := spells_append.mp spelled
  obtain ⟨leftValue, _, leftAlike, leftRead⟩ :=
    readLeft stop input _ leftSpelled (ends_sign (Nat.le_of_eq link.strength_sign))
  obtain ⟨rightValue, rightShorter, rightAlike, rightRead⟩ :=
    readRight stop others rest rightSpelled (ends.mono (Nat.le_succ _))
  -- the right operand ends where an operator of the same level could follow
  have right : parseOperations stop (link.level - 1 + 1) others =
      .ok ⟨rightValue, rest, rightShorter⟩ := by
    rw [Nat.sub_add_cancel (by omega), rightRead.parseOperations_eq (by omega) (by omega)
      (Nat.lt_succ_self _), parseOperationsAfter]
    dsimp only
    rw [ends.operator?]
  refine ⟨link.join leftValue rightValue place, shorter, link.alike_join leftAlike rightAlike _ _,
    by omega, by omega, fun _ _ weakest weak => ?_, by omega, by omega⟩
  rw [leftRead.parseOperations_eq low (by omega) weak, parseOperationsAfter]
  dsimp only
  rw [link.operator?_cons weak]
  dsimp only
  rw [right]
  rfl

/-- One of two expressions, chosen by a condition. -/
theorem readAt_conditional {condition whenTrue whenFalse : Expression String}
    {conditionKinds trueKinds falseKinds : List TokenKind}
    (readCondition : ReadAt 2 conditionKinds condition) (readTrue : ReadAt 0 trueKinds whenTrue)
    (readFalse : ReadAt 1 falseKinds whenFalse) (position : Position) :
    ReadAt 1 (conditionKinds ++ .sign .question :: (trueKinds ++ .sign .colon :: falseKinds))
      (.conditional condition whenTrue whenFalse position) := by
  intro stop input rest spelled ends
  have shorter := spelled.length_lt (by simp)
  obtain ⟨_, conditionSpelled, place, others, rfl, spelled⟩ := spells_append.mp spelled
  obtain ⟨_, trueSpelled, colon, last, rfl, falseSpelled⟩ := spells_append.mp spelled
  obtain ⟨conditionValue, conditionShorter, conditionAlike, conditionRead⟩ :=
    readCondition stop input _ conditionSpelled (ends_sign (by decide))
  obtain ⟨trueValue, _, trueAlike, trueRead⟩ :=
    readTrue.parse_eq stop trueSpelled (ends_sign (by decide))
  obtain ⟨falseValue, _, falseAlike, falseRead⟩ := readFalse stop last rest falseSpelled ends
  have conditionParsed : parseOperations stop 1 input =
      .ok ⟨conditionValue, _, conditionShorter⟩ := by
    rw [conditionRead.parseOperations_eq (by omega) (by omega) (by omega), parseOperationsAfter]
    rfl
  refine ⟨.conditional conditionValue trueValue falseValue place, shorter,
    .conditional conditionAlike trueAlike falseAlike, nofun, fun _ => ?_, by omega, nofun, nofun⟩
  rw [parseConditional]
  refine bind_eq_ok.mpr ⟨_, conditionParsed, ?_⟩
  dsimp only
  rw [sign?_cons]
  refine bind_eq_ok.mpr ⟨_, trueRead, ?_⟩
  refine bind_eq_ok.mpr ⟨_, expectSign_cons stop .colon _ colon last, ?_⟩
  exact bind_eq_ok.mpr ⟨_, falseRead.conditional rfl, rfl⟩

/-- An assignment. -/
theorem readAt_assign {compound : Option Operator} {mark : Sign} {target value : Expression String}
    {targetKinds valueKinds : List TokenKind} (known : mark.assignment? = some compound)
    (readTarget : ReadAt 1 targetKinds target) (readValue : ReadAt 0 valueKinds value)
    (position : Position) :
    ReadAt 0 (targetKinds ++ .sign mark :: valueKinds)
      (.assign compound target value position) := by
  intro stop input rest spelled ends
  have shorter := spelled.length_lt (by simp)
  have weak : mark.strength ≤ 1 := by
    cases mark <;> first | decide | cases known
  obtain ⟨_, targetSpelled, place, others, rfl, valueSpelled⟩ := spells_append.mp spelled
  obtain ⟨targetValue, _, targetAlike, targetRead⟩ :=
    readTarget stop input _ targetSpelled (ends_sign weak)
  obtain ⟨valueValue, _, valueAlike, valueRead⟩ := readValue.parse_eq stop valueSpelled ends
  refine ⟨.assign compound targetValue valueValue place, shorter, .assign targetAlike valueAlike,
    fun _ => ?_, nofun, by omega, nofun, nofun⟩
  rw [parse]
  refine bind_eq_ok.mpr ⟨_, targetRead.conditional rfl, ?_⟩
  dsimp only
  rw [signThat?_cons place others known]
  exact bind_eq_ok.mpr ⟨_, valueRead, rfl⟩

/-- An operator before an operand. -/
theorem readAt_leading {leading : Leading} {mark : Sign} {operand : Expression String}
    {kinds : List TokenKind} (known : mark.leading? = some leading)
    (readOperand : ReadAt 12 kinds operand) {expression : Expression String}
    (applied : ∀ value place, operand.Alike value → expression.Alike (leading.apply value place)) :
    ReadAt 12 (.sign mark :: kinds) expression := by
  intro stop input rest spelled ends
  have shorter := spelled.length_lt (by simp)
  obtain ⟨place, others, rfl, operandSpelled⟩ := spelled
  obtain ⟨value, _, alike, read⟩ := readOperand stop others rest operandSpelled ends
  refine ⟨leading.apply value place, shorter, applied value place alike, nofun, nofun, by omega,
    fun _ => ?_, nofun⟩
  rw [parseUnary, signThat?_cons place others known]
  exact bind_eq_ok.mpr ⟨_, read.unary rfl, rfl⟩

/-- What follows an operand is read after it. -/
theorem readAt_trailing {kinds after : List TokenKind} {operand expression : Expression String}
    (readOperand : ReadAt 13 kinds operand)
    (goesOn : ∀ stop input middle rest value shorter,
      operand.Alike value → Spells after middle rest → ∃ result less, expression.Alike result ∧
        parseTrailing stop input ⟨value, middle, shorter⟩ =
          parseTrailing stop input ⟨result, rest, less⟩) :
    ReadAt 13 (kinds ++ after) expression := by
  intro stop input rest spelled _
  obtain ⟨middle, operandSpelled, afterSpelled⟩ := spells_append.mp spelled
  obtain ⟨value, shorter, alike, read⟩ :=
    readOperand stop input middle operandSpelled (ends_highest middle)
  obtain ⟨result, less, resultAlike, same⟩ :=
    goesOn stop input middle rest value shorter alike afterSpelled
  exact ⟨result, less, resultAlike, nofun, nofun, by omega, nofun, fun _ =>
    (read.trailing rfl).trans same⟩

/-- A change by one after an operand. -/
theorem readAt_changeBefore (direction : Direction) {operand : Expression String}
    {kinds : List TokenKind} (readOperand : ReadAt 13 kinds operand) (position : Position) :
    ReadAt 13 (kinds ++ [.sign direction.sign]) (.change direction .before operand position) := by
  refine readAt_trailing readOperand fun stop input middle rest value shorter alike spelled => ?_
  obtain ⟨place, others, rfl, rfl⟩ := spelled
  have known : direction.sign.trailing? = some (.change direction) := by cases direction <;> rfl
  refine ⟨.change direction .before value place, Nat.lt_of_succ_lt shorter, .change alike, ?_⟩
  rw [parseTrailing]
  dsimp only
  rw [signThat?_cons place others known]
  rfl

/-- An index after an array. -/
theorem readAt_index {array subscript : Expression String} {arrayKinds kinds : List TokenKind}
    (readArray : ReadAt 13 arrayKinds array) (readSubscript : ReadAt 0 kinds subscript)
    (position : Position) :
    ReadAt 13 (arrayKinds ++ .sign .leftBracket :: (kinds ++ [.sign .rightBracket]))
      (.index array subscript position) := by
  refine readAt_trailing readArray fun stop input middle rest value shorter alike spelled => ?_
  have less := Nat.lt_trans (spelled.length_lt (by simp)) shorter
  obtain ⟨place, others, rfl, spelled⟩ := spelled
  obtain ⟨_, subscriptSpelled, close, _, rfl, rfl⟩ := spells_append.mp spelled
  obtain ⟨subscriptValue, _, subscriptAlike, subscriptRead⟩ :=
    readSubscript.parse_eq stop subscriptSpelled (ends_sign (by decide))
  refine ⟨.index value subscriptValue place, less, .index alike subscriptAlike, ?_⟩
  rw [parseTrailing]
  dsimp only
  rw [signThat?_cons place others (rfl : Sign.leftBracket.trailing? = some .index)]
  dsimp only
  rw [subscriptRead]
  dsimp only [bind, Except.bind]
  rw [expectSign_cons]
  rfl

/-- Tokens of the given kinds and a closing parenthesis are read as arguments. -/
def ReadsArguments (kinds : List TokenKind) (arguments : List (Expression String)) : Prop :=
  ∀ stop input rest, Spells (kinds ++ [.sign .rightParenthesis]) input rest →
    ∃ values shorter, List.Forall₂ Alike arguments values ∧
      parseArguments stop input = .ok ⟨values, rest, shorter⟩

/-- A call of a name. -/
theorem readAt_call (callee : String) {arguments : List (Expression String)}
    {kinds : List TokenKind} (readArguments : ReadsArguments kinds arguments)
    (position : Position) :
    ReadAt 13 (.name callee :: TokenKind.parenthesize kinds) (.call callee arguments position) := by
  refine readAt_trailing (readAt_name callee position)
    fun stop input middle rest value shorter alike spelled => ?_
  have less := Nat.lt_trans (spelled.length_lt (by simp)) shorter
  obtain ⟨place, others, rfl, argumentsSpelled⟩ := spelled
  obtain ⟨values, _, argumentsAlike, argumentsRead⟩ :=
    readArguments stop others rest argumentsSpelled
  cases alike with
  | @name _ _ there =>
      refine ⟨.call callee values there, less, .call argumentsAlike, ?_⟩
      rw [parseTrailing]
      dsimp only
      rw [signThat?_cons place others (rfl : Sign.leftParenthesis.trailing? = some .call)]
      dsimp only
      rw [argumentsRead]
      rfl

/-! ## How expressions begin -/

/-- Kinds of tokens the first of which can begin an expression. -/
def Begins (kinds : List TokenKind) : Prop :=
  ∃ kind others, kinds = kind :: others ∧ kind.beginsExpression = true

/-- More tokens behind do not change how an expression begins. -/
theorem Begins.append (begins : Begins kinds) (after : List TokenKind) :
    Begins (kinds ++ after) := by
  obtain ⟨kind, others, rfl, begin⟩ := begins
  exact ⟨kind, others ++ after, rfl, begin⟩

/-- Parentheses begin an expression. -/
theorem Begins.enclose (begins : Begins kinds) (place level : Nat) :
    Begins (TokenKind.enclose place level kinds) := by
  unfold TokenKind.enclose
  split
  · exact begins
  · exact ⟨_, _, rfl, rfl⟩

/-- **The tokens of an expression begin one.** -/
theorem begins_tokens : (expression : Expression String) → Begins expression.tokens
  | .number _ _ | .name _ _ | .call _ _ _ => ⟨_, _, rfl, rfl⟩
  | .unary operator _ _ => ⟨_, _, rfl, by cases operator <;> rfl⟩
  | .change direction .after _ _ => ⟨_, _, rfl, by cases direction <;> rfl⟩
  | .change _ .before operand _ => ((begins_tokens operand).enclose _ _).append _
  | .binary _ left _ _ | .logical _ left _ _ => ((begins_tokens left).enclose _ _).append _
  | .conditional condition _ _ _ => ((begins_tokens condition).enclose _ _).append _
  | .assign _ target _ _ => ((begins_tokens target).enclose _ _).append _
  | .index array _ _ => ((begins_tokens array).enclose _ _).append _

/-- The first token of an expression. -/
theorem Begins.exists_token (begins : Begins kinds) {input : List Token}
    (spelled : Spells kinds input rest) :
    ∃ kind position others, input = ⟨kind, position⟩ :: others ∧ kind.beginsExpression = true := by
  obtain ⟨kind, later, rfl, begin⟩ := begins
  obtain ⟨position, others, rfl, -⟩ := spelled
  exact ⟨kind, position, others, rfl, begin⟩

/-- An expression in parentheses. -/
theorem readAt_parentheses (begins : Begins kinds) (reads : ReadAt 0 kinds expression) :
    ReadAt 13 (TokenKind.parenthesize kinds) expression := by
  intro stop input rest spelled _
  have shorter := spelled.length_lt (List.cons_ne_nil _ _)
  obtain ⟨place, others, rfl, spelled⟩ := spelled
  obtain ⟨_, innerSpelled, close, rest, rfl, rfl⟩ := spells_append.mp spelled
  obtain ⟨value, _, alike, read⟩ := reads.parse_eq stop innerSpelled (ends_sign (by decide))
  have noCast : atType others = false := by
    obtain ⟨kind, position, later, rfl, begin⟩ := begins.exists_token innerSpelled
    cases kind <;> first | rfl | cases begin
  have primary : parsePrimary stop (⟨.sign .leftParenthesis, place⟩ :: others) =
      .ok ⟨value, rest, shorter⟩ := by
    rw [parsePrimary, show atom? (⟨.sign .leftParenthesis, place⟩ :: others) = none from rfl,
      sign?_cons]
    dsimp only
    rw [noCast, if_neg Bool.false_ne_true]
    refine bind_eq_ok.mpr ⟨_, read, ?_⟩
    exact bind_eq_ok.mpr ⟨_, expectSign_cons stop .rightParenthesis _ close rest, rfl⟩
  refine ⟨value, shorter, alike, nofun, nofun, by omega, nofun, fun _ => ?_⟩
  rw [parseUnary, primary]
  rfl

/-- An expression at a place of any level. -/
theorem readAt_enclose (begins : Begins kinds) (reads : ReadAt level kinds expression)
    (high : level ≤ 13) {place : Nat} (low : place ≤ 13) :
    ReadAt place (TokenKind.enclose place level kinds) expression := by
  unfold TokenKind.enclose
  split
  next weak => exact reads.mono weak high
  next =>
    exact (readAt_parentheses begins (reads.mono (Nat.zero_le level) high)).mono low
      (Nat.le_refl 13)

/-! ## Arguments -/

/-- One or more arguments. -/
theorem parseArgumentList_eq (stop : Position) {first : Expression String}
    {others : List (Expression String)}
    (reads : ∀ argument ∈ first :: others, ReadAt 0 argument.tokens argument) {input : List Token}
    (spelled : Spells (listTokens (first :: others) ++ [.sign .rightParenthesis]) input rest) :
    ∃ values shorter, List.Forall₂ Alike (first :: others) values ∧
      parseArgumentList stop input = .ok ⟨values, rest, shorter⟩ := by
  induction others generalizing first input with
  | nil =>
      have shorter := spelled.length_lt (by simp)
      obtain ⟨_, firstSpelled, close, rest, rfl, rfl⟩ := spells_append.mp spelled
      obtain ⟨value, _, alike, read⟩ :=
        (reads first List.mem_cons_self).parse_eq stop firstSpelled (ends_sign (by decide))
      refine ⟨[value], shorter, .cons alike .nil, ?_⟩
      rw [parseArgumentList]
      refine bind_eq_ok.mpr ⟨_, read, ?_⟩
      exact bind_eq_ok.mpr ⟨_, expectSign_cons stop .rightParenthesis _ close rest, rfl⟩
  | cons second others ih =>
      have shorter := spelled.length_lt (by simp)
      rw [listTokens, List.append_assoc] at spelled
      obtain ⟨_, firstSpelled, comma, later, rfl, othersSpelled⟩ := spells_append.mp spelled
      obtain ⟨value, _, alike, read⟩ :=
        (reads first List.mem_cons_self).parse_eq stop firstSpelled (ends_sign (by decide))
      obtain ⟨values, _, othersAlike, othersRead⟩ :=
        ih (fun argument member => reads argument (List.mem_cons_of_mem first member)) othersSpelled
      refine ⟨value :: values, shorter, .cons alike othersAlike, ?_⟩
      rw [parseArgumentList]
      refine bind_eq_ok.mpr ⟨_, read, ?_⟩
      dsimp only
      rw [sign?_cons]
      exact bind_eq_ok.mpr ⟨_, othersRead, rfl⟩

/-- One or more expressions with commas between them begin one. -/
theorem begins_listTokens (first : Expression String) (others : List (Expression String)) :
    Begins (listTokens (first :: others)) := by
  cases others with
  | nil => exact begins_tokens first
  | cons second others => exact (begins_tokens first).append _

/-- The arguments of a call. -/
theorem readsArguments {arguments : List (Expression String)}
    (reads : ∀ argument ∈ arguments, ReadAt 0 argument.tokens argument) :
    ReadsArguments (listTokens arguments) arguments := by
  intro stop input rest spelled
  cases arguments with
  | nil =>
      obtain ⟨close, rest, rfl, rfl⟩ := spelled
      refine ⟨[], Nat.lt_succ_self _, .nil, ?_⟩
      rw [parseArguments, sign?_cons]
      rfl
  | cons first others =>
      obtain ⟨values, shorter, alike, read⟩ := parseArgumentList_eq stop reads spelled
      obtain ⟨kind, position, later, rfl, begin⟩ :=
        ((begins_listTokens first others).append _).exists_token spelled
      refine ⟨values, shorter, alike, ?_⟩
      rw [parseArguments, sign?_eq_none begin rfl]
      exact read

/-! ## All expressions -/

/-- The levels of expressions go up to that of atoms. -/
theorem level_le (expression : Expression String) : expression.level ≤ 13 := by
  cases expression with
  | binary operator => exact Nat.le_trans (Link.operator operator).level_bounds.2 (by decide)
  | logical connective => exact Nat.le_trans (Link.connective connective).level_bounds.2 (by decide)
  | change _ moment => cases moment <;> simp [level]
  | _ => simp [level]

/-- **A readable expression is read from its tokens**, at its own level and at all lower ones. -/
theorem Readable.readAt (readable : expression.Readable) :
    ReadAt expression.level expression.tokens expression := by
  -- an operand is read at its place
  have operand {part : Expression String} (reads : ReadAt part.level part.tokens part) {place : Nat}
      (low : place ≤ 13) : ReadAt place (TokenKind.enclose place part.level part.tokens) part :=
    readAt_enclose (begins_tokens part) reads part.level_le low
  have whole {part : Expression String} (reads : ReadAt part.level part.tokens part) :
      ReadAt 0 part.tokens part := reads.mono (Nat.zero_le _) part.level_le
  induction readable with
  | number => exact readAt_number _ _
  | name => exact readAt_name _ _
  | @binary operator _ _ _ _ _ left right =>
      have ⟨_, small⟩ := (Link.operator operator).level_bounds
      exact readAt_link (.operator operator) (operand left (by omega)) (operand right (by omega)) _
  | @logical connective _ _ _ _ _ left right =>
      have ⟨_, small⟩ := (Link.connective connective).level_bounds
      exact readAt_link (.connective connective) (operand left (by omega))
        (operand right (by omega)) _
  | @unary operator _ _ _ read =>
      have known : operator.sign.leading? = some (.operator operator) := by cases operator <;> rfl
      exact readAt_leading known (operand read (by omega)) fun value place alike => .unary alike
  | @change direction moment _ _ _ read =>
      cases moment with
      | before => exact readAt_changeBefore direction (operand read (by omega)) _
      | after =>
          have known : direction.sign.leading? = some (.change direction) := by
            cases direction <;> rfl
          exact readAt_leading known (operand read (by omega)) fun value place alike =>
            .change alike
  | conditional _ _ _ condition whenTrue whenFalse =>
      exact readAt_conditional (operand condition (by omega)) (whole whenTrue)
        (operand whenFalse (by omega)) _
  | @assign compound _ _ _ signed _ _ target value =>
      have known : ((Operator.assignmentSign? compound).getD .equal).assignment? =
          some compound := by
        simp only [List.mem_cons, List.not_mem_nil, or_false] at signed
        rcases signed with rfl | rfl | rfl | rfl | rfl | rfl <;> rfl
      exact readAt_assign known (operand target (by omega)) (whole value) _
  | call _ arguments =>
      exact readAt_call _ (readsArguments fun argument member =>
        whole (arguments argument member)) _
  | index _ _ array subscript =>
      exact readAt_index (operand array (by omega)) (whole subscript) _

/-- **A readable expression is read from its tokens**, if what comes next does not go on with it. -/
theorem Readable.parse_eq (readable : expression.Readable) (stop : Position) {input : List Token}
    (spelled : Spells expression.tokens input rest) (ends : Ends 0 rest) :
    ∃ value shorter, expression.Alike value ∧ parse stop input = .ok ⟨value, rest, shorter⟩ :=
  (readable.readAt.mono (Nat.zero_le _) expression.level_le).parse_eq stop spelled ends

end Expression

end LineRobot
