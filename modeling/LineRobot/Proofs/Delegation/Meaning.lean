import LineRobot.Proofs.Delegation.Basic
import LineRobot.Proofs.Delegation.Matches

/-! # Delegated waits mean the same

The meaning of a program with some of its waits delegated matches that of the program: wherever the
latter comes to an end, the former does with one more call allowed, and the host sees the same
(`ParsedProgram.Delegates.run`). A call of the new subroutine evaluates the duration, as the wait
does, and waits for it; its value is zero and is dropped. -/

namespace LineRobot

open Meaning

variable {invoke invoke' : String → List Float → Meaning Float}

/-- Calls match whatever is called with whatever arguments. -/
def CallsMatch (invoke invoke' : String → List Float → Meaning Float) : Prop :=
  ∀ name arguments, Matches (invoke name arguments) (invoke' name arguments)

namespace Expression

/-- Expressions that are alike name the same array. -/
theorem Alike.bank? {array array' : Expression String} (alike : Alike array array') :
    array'.bank? = array.bank? := by
  cases alike <;> rfl

/-- Expressions that are alike both name the array of the variable slots or not. -/
theorem Alike.needSlots {array array' : Expression String} (alike : Alike array array') :
    array'.needSlots = array.needSlots := by
  rw [Expression.needSlots, Expression.needSlots, alike.bank?]

mutual

/-- **Expressions that are alike have the same value**, if calls do the same. -/
theorem Alike.value (calls : CallsMatch invoke invoke') :
    (expression : Expression String) → {other : Expression String} → Alike expression other →
    Matches (expression.value invoke) (other.value invoke')
  | .number _ _, _, .number => by
      simp only [Expression.value]
      exact .refl _
  | .name _ _, _, .name => by
      simp only [Expression.value]
      exact .refl _
  | .binary operator left right _, _, .binary leftAlike rightAlike => by
      simp only [Expression.value]
      refine (value calls left leftAlike).bind fun _ => ?_
      exact (value calls right rightAlike).bind fun _ => .operate _ _ operator _ _
  | .logical connective left right _, _, .logical leftAlike rightAlike => by
      simp only [Expression.value]
      refine (value calls left leftAlike).bind fun decides => ?_
      by_cases decided : connective.isDecidedBy decides
      · rw [if_pos decided, if_pos decided]
        exact .refl _
      · rw [if_neg decided, if_neg decided]
        exact (value calls right rightAlike).bind fun _ => .refl _
  | .unary _ operand _, _, .unary alike => by
      simp only [Expression.value]
      exact (value calls operand alike).bind fun _ => .refl _
  -- what is changed or assigned to is a name or an element, and is the same one on both sides
  | .change direction moment target _, _, .change alike => by
      cases target with
      | name text place =>
          cases alike
          simp only [Expression.value]
          exact .refl _
      | index array subscript place =>
          cases alike with
          | index arrayAlike subscriptAlike =>
              simp only [Expression.value]
              rw [arrayAlike.needSlots]
              refine .andThen _ fun _ => (value calls subscript subscriptAlike).bind fun _ => ?_
              exact (Matches.element _ _ .slots _).bind fun _ => .refl _
      | _ =>
          cases alike
          simp only [Expression.value]
          exact .meaningless
  | .conditional condition whenTrue whenFalse _, _, .conditional alike trueAlike falseAlike => by
      simp only [Expression.value]
      refine (value calls condition alike).bind fun decides => ?_
      by_cases truth : Value.isTrue decides
      · rw [if_pos truth, if_pos truth]
        exact value calls whenTrue trueAlike
      · rw [if_neg truth, if_neg truth]
        exact value calls whenFalse falseAlike
  | .assign compound target assigned _, _, .assign alike assignedAlike => by
      cases target with
      | name text place =>
          cases alike
          cases compound with
          | none =>
              simp only [Expression.value]
              exact (value calls assigned assignedAlike).bind fun _ => .refl _
          | some operator =>
              simp only [Expression.value]
              refine .andThen _ fun _ => (value calls assigned assignedAlike).bind fun _ => ?_
              exact (Matches.operate _ _ operator _ _).bind fun _ => .refl _
      | index array subscript place =>
          cases alike with
          | index arrayAlike subscriptAlike =>
              cases compound with
              | none =>
                  simp only [Expression.value]
                  rw [arrayAlike.needSlots]
                  refine .andThen _ fun _ => (value calls subscript subscriptAlike).bind fun _ => ?_
                  refine (value calls assigned assignedAlike).bind fun _ => ?_
                  exact (Matches.element _ _ .slots _).bind fun _ => .refl _
              | some operator =>
                  simp only [Expression.value]
                  rw [arrayAlike.needSlots]
                  refine .andThen _ fun _ => (value calls subscript subscriptAlike).bind fun _ => ?_
                  refine (Matches.element _ _ .slots _).bind fun _ => .andThen _ fun _ => ?_
                  refine (value calls assigned assignedAlike).bind fun _ => ?_
                  exact (Matches.operate _ _ operator _ _).bind fun _ => .refl _
      | _ =>
          cases alike
          simp only [Expression.value]
          exact .meaningless
  | .call callee arguments _, _, .call alike => by
      simp only [Expression.value]
      refine (values calls arguments alike).bind fun given => ?_
      by_cases motor : callee = Vocabulary.motor
      · rw [if_pos motor, if_pos motor]
        exact .refl _
      · rw [if_neg motor, if_neg motor]
        exact calls callee given
  | .index array subscript _, _, .index arrayAlike subscriptAlike => by
      simp only [Expression.value]
      rw [arrayAlike.bank?]
      refine .andThen _ fun _ => (value calls subscript subscriptAlike).bind fun _ => ?_
      exact (Matches.element _ _ _ _).bind fun _ => .refl _

/-- Lists of expressions that are alike have the same values. -/
theorem Alike.values (calls : CallsMatch invoke invoke') :
    (expressions : List (Expression String)) → {others : List (Expression String)} →
    List.Forall₂ Alike expressions others →
    Matches (Expression.values invoke expressions) (Expression.values invoke' others)
  | [], _, .nil => by
      simp only [Expression.values]
      exact .refl _
  | first :: later, _, .cons alike laterAlike => by
      simp only [Expression.values]
      refine (value calls first alike).bind fun _ => ?_
      exact (values calls later laterAlike).bind fun _ => .refl _

end

end Expression

/-- Calls match, and a call of the given subroutine matches a wait for its argument. -/
structure Delegating (helper : String) (invoke invoke' : String → List Float → Meaning Float) :
    Prop where
  /-- Calls match. -/
  calls : CallsMatch invoke invoke'
  /-- The subroutine waits for as long as its argument says. -/
  waits : ∀ duration place,
    Matches (waitFor duration place) (Functor.discard (invoke' helper [duration]))
  /-- The subroutine is none of the built-in functions. -/
  free : Vocabulary.isReserved helper = false

namespace Delegating

variable {helper : String} (delegating : Delegating helper invoke invoke')

include delegating

/-- The subroutine is another function than the one that sets the motors. -/
theorem ne_motor : helper ≠ Vocabulary.motor := by
  have free := delegating.free
  rintro rfl
  cases free

/-- The subroutine is another function than the one that waits. -/
theorem ne_wait : helper ≠ Vocabulary.wait := by
  have free := delegating.free
  rintro rfl
  cases free

variable {here there : Position}

/-- A wait that is delegated does the same. -/
theorem effect_delegate {duration duration' : Expression String} {callPlace callPlace' : Position}
    (alike : duration.Alike duration') :
    Matches ((Expression.call Vocabulary.wait [duration] callPlace).effect invoke here)
      ((Expression.call helper [duration'] callPlace').effect invoke' there) := by
  have waits : (Expression.call Vocabulary.wait [duration] callPlace).effect invoke here =
      duration.value invoke >>= fun value => waitFor value here := by
    rw [Expression.effect, if_pos rfl]
  have evaluates : (Expression.call helper [duration'] callPlace').effect invoke' there =
      Functor.discard ((Expression.call helper [duration'] callPlace').value invoke') :=
    if_neg delegating.ne_wait
  have called : (Expression.call helper [duration'] callPlace').value invoke' =
      duration'.value invoke' >>= fun value => invoke' helper [value] := by
    simp only [Expression.value, Expression.values, bind_assoc, pure_bind, delegating.ne_motor,
      if_false]
  rw [waits, evaluates, called, discard_eq, bind_assoc]
  refine (Expression.Alike.value delegating.calls duration alike).bind fun value => ?_
  rw [← discard_eq]
  exact delegating.waits value here

/-- Expressions that are alike have the same effect. -/
theorem effect_keep {value value' : Expression String} (alike : value.Alike value') :
    Matches (value.effect invoke here) (value'.effect invoke' there) := by
  have evaluated := (Expression.Alike.value delegating.calls value alike).discard
  unfold Expression.effect
  cases alike with
  | call arguments =>
      cases arguments with
      | nil => exact evaluated
      | cons alike later =>
          cases later with
          | nil =>
              dsimp only
              split
              · exact (Expression.Alike.value delegating.calls _ alike).bind fun _ =>
                  .waitFor here there _
              · exact evaluated
          | cons => exact evaluated
  | _ => exact evaluated

/-- Expressions evaluated for their effect do the same if a wait is delegated. -/
theorem effect {value value' : Expression String} (delegates : value.Delegates helper value') :
    Matches (value.effect invoke here) (value'.effect invoke' there) := by
  cases delegates with
  | keep alike => exact delegating.effect_keep alike
  | delegate alike => exact delegating.effect_delegate alike

/-- Optional expressions that are alike have the same value. -/
theorem valueOr {value value' : Option (Expression String)} (missing : Float)
    (alike : Option.Rel Expression.Alike value value') :
    Matches (Expression.valueOr invoke missing value)
      (Expression.valueOr invoke' missing value') := by
  cases alike with
  | none => exact .refl _
  | some alike => exact Expression.Alike.value delegating.calls _ alike

/-- Declarations that are alike do the same. -/
theorem declarators {declarators declarators' : List Declarator}
    (alike : List.Forall₂ Declarator.Alike declarators declarators') :
    Matches (Declarator.meanings invoke declarators)
      (Declarator.meanings invoke' declarators') := by
  induction alike with
  | nil => exact .refl _
  | cons alike _ ih =>
      unfold Declarator.meanings
      rw [alike.name]
      exact (delegating.valueOr 0 alike.value).bind fun _ => .andThen _ fun _ => ih

/-- The first clause of a `for` loop does the same if a wait is delegated. -/
theorem forStart {start start' : ForStart} (delegates : start.Delegates helper start') :
    Matches (start.meaning invoke) (start'.meaning invoke') := by
  cases delegates with
  | nothing => exact .refl _
  | declaration alike => exact delegating.declarators alike
  | expression delegates => exact delegating.effect delegates

end Delegating

section Statements

variable {helper : String} {few many : Nat}

mutual

/-- **A statement does the same if some of its waits are delegated.** -/
theorem Delegating.statement (delegating : Delegating helper invoke invoke') (enough : few ≤ many) :
    (first : Statement) → {second : Statement} → first.Delegates helper second →
    Matches (first.meaning few invoke) (second.meaning many invoke')
  | .declaration _ _ _, _, .declaration alike => by
      simp only [Statement.meaning]
      exact (delegating.declarators alike).bind fun _ => .refl _
  | .expression _ _, _, .expression delegates => by
      simp only [Statement.meaning]
      exact (delegating.effect delegates).bind fun _ => .refl _
  | .branch condition whenTrue _ _, _, .branch alike trueDelegates => by
      simp only [Statement.meaning]
      refine (Expression.Alike.value delegating.calls condition alike).bind fun decides => ?_
      by_cases truth : Value.isTrue decides
      · rw [if_pos truth, if_pos truth]
        exact (delegating.statements enough whenTrue trueDelegates).inBlock
      · rw [if_neg truth, if_neg truth]
        exact .refl _
  | .branch condition whenTrue (some whenFalse) _, _,
      .branches alike trueDelegates falseDelegates => by
      simp only [Statement.meaning]
      refine (Expression.Alike.value delegating.calls condition alike).bind fun decides => ?_
      by_cases truth : Value.isTrue decides
      · rw [if_pos truth, if_pos truth]
        exact (delegating.statements enough whenTrue trueDelegates).inBlock
      · rw [if_neg truth, if_neg truth]
        exact (delegating.statements enough whenFalse falseDelegates).inBlock
  | .whileLoop condition body _, _, .whileLoop alike bodyDelegates => by
      simp only [Statement.meaning]
      -- both loops go round without a condition, or both have one
      rw [alike.isTruth]
      have bodyMatches := (delegating.statements enough body bodyDelegates).inBlock
      by_cases forever : Step.isTruth condition
      · rw [if_pos forever, if_pos forever]
        exact .rounds (.andThen _ fun _ => bodyMatches) enough
      · rw [if_neg forever, if_neg forever]
        have conditionMatches := Expression.Alike.value delegating.calls condition alike
        exact .rounds (conditionMatches.whileTrue bodyMatches) enough
  | .doLoop body condition _, _, .doLoop bodyDelegates alike => by
      simp only [Statement.meaning]
      have bodyMatches := (delegating.statements enough body bodyDelegates).inBlock
      have conditionMatches := Expression.Alike.value delegating.calls condition alike
      exact .rounds (bodyMatches.afterBody (conditionMatches.whileTrue (.refl _))) enough
  | .forLoop _ _ _ body _, _, .forLoop startDelegates conditionAlike stepAlike bodyDelegates => by
      simp only [Statement.meaning]
      have bodyMatches := (delegating.statements enough body bodyDelegates).inBlock
      have stepMatches := (delegating.valueOr 0 stepAlike).discard
      refine Matches.inBlock ((delegating.forStart startDelegates).bind fun _ => .rounds ?_ enough)
      refine (delegating.valueOr 1 conditionAlike).whileTrue (bodyMatches.afterBody ?_)
      exact stepMatches.bind fun _ => .refl _
  | .block body _, _, .block bodyDelegates => by
      simp only [Statement.meaning]
      exact (delegating.statements enough body bodyDelegates).inBlock
  | .leaveLoop _, _, .leaveLoop => by
      simp only [Statement.meaning]
      exact .refl _
  | .nextRound _, _, .nextRound => by
      simp only [Statement.meaning]
      exact .refl _
  | .giveBack _ _, _, .giveBack alike => by
      simp only [Statement.meaning]
      exact (delegating.valueOr 0 alike).bind fun _ => .refl _

/-- Statements do the same if some of their waits are delegated. -/
theorem Delegating.statements (delegating : Delegating helper invoke invoke')
    (enough : few ≤ many) :
    (first : List Statement) → {second : List Statement} →
    List.Forall₂ (Statement.Delegates helper) first second →
    Matches (Statement.meanings few invoke first) (Statement.meanings many invoke' second)
  | [], _, .nil => by
      simp only [Statement.meanings]
      exact .refl _
  | first :: later, _, .cons delegates laterDelegate => by
      simp only [Statement.meanings]
      refine (delegating.statement enough first delegates).bind fun signal => ?_
      cases signal with
      | next => exact delegating.statements enough later laterDelegate
      | leaveLoop | nextRound | giveBack => exact .refl _

end

end Statements

/-! ## Functions and programs -/

/-- The first function of a name among functions whose waits are delegated. -/
theorem ParsedFunction.find?_of_delegates {helper : String}
    {functions functions' : List ParsedFunction}
    (delegate : List.Forall₂ (ParsedFunction.Delegates helper) functions functions')
    (name : String) :
    Option.Rel (ParsedFunction.Delegates helper)
      (functions.find? fun function => function.name = name)
      (functions'.find? fun function => function.name = name) := by
  induction delegate with
  | nil => exact .none
  | @cons function function' _ _ delegates _ ih =>
      rw [List.find?_cons, List.find?_cons, delegates.name]
      by_cases same : function.name = name
      · rw [decide_eq_true same]
        exact .some delegates
      · rw [decide_eq_false same]
        exact ih

/-- The function of another name than the new one among functions whose waits are delegated. -/
theorem ParsedFunction.AllDelegate.find? {helper parameter name : String}
    {functions functions' : List ParsedFunction}
    (delegate : ParsedFunction.AllDelegate helper parameter functions functions')
    (known : name ≠ helper) :
    Option.Rel (ParsedFunction.Delegates helper)
      (functions.find? fun function => function.name = name)
      (functions'.find? fun function => function.name = name) := by
  induction delegate with
  | added waits delegate =>
      rw [List.find?_cons_of_neg (by simpa [waits.name] using known.symm)]
      exact ParsedFunction.find?_of_delegates delegate name
  | @cons function function' _ _ delegates _ ih =>
      rw [List.find?_cons, List.find?_cons, delegates.name]
      by_cases same : function.name = name
      · rw [decide_eq_true same]
        exact .some delegates
      · rw [decide_eq_false same]
        exact ih

/-- The new subroutine is found among functions whose waits are delegated. -/
theorem ParsedFunction.AllDelegate.find?_helper {helper parameter : String}
    {functions functions' : List ParsedFunction}
    (delegate : ParsedFunction.AllDelegate helper parameter functions functions')
    (fresh : ∀ function ∈ functions, function.name ≠ helper) :
    ∃ waiter, (functions'.find? fun function => function.name = helper) = some waiter ∧
      waiter.Waits helper parameter := by
  induction delegate with
  | @added waiter _ _ waits =>
      exact ⟨waiter, List.find?_cons_of_pos (decide_eq_true waits.name), waits⟩
  | @cons function function' _ _ delegates _ ih =>
      have different : function'.name ≠ helper := by
        rw [delegates.name]
        exact fresh function List.mem_cons_self
      rw [List.find?_cons_of_neg (by simpa using different)]
      exact ih fun other member => fresh other (List.mem_cons_of_mem _ member)

/-- A wait in a call of its own waits in the same way. -/
theorem Meaning.inCall_waitFor (parameters : Block) (duration : Float) (place : Position) :
    (inCall parameters (waitFor duration place >>= fun _ => pure (0 : Float))) =
      (waitFor duration place >>= fun _ => pure 0) := by
  funext situation
  unfold waitFor
  by_cases finite : duration.isFinite
  · rw [if_pos finite]
    obtain ⟨blocks, memory, script, seen⟩ := situation
    -- the program goes on if the host resumes it
    cases script <;> rfl
  · rw [if_neg finite]
    rfl

/-- A call of the new subroutine is a wait. -/
theorem ParsedFunction.Waits.exists_meaning_eq {waiter : ParsedFunction} {helper parameter : String}
    (waits : waiter.Waits helper parameter) (allowed : Nat)
    (invoke : String → List Float → Meaning Float) (duration : Float) :
    ∃ place, waiter.meaning allowed invoke [duration] =
      waitFor duration place >>= fun _ => pure 0 := by
  obtain ⟨place, callPlace, namePlace, body⟩ := waits.body
  refine ⟨place, ?_⟩
  have waited :
      (Expression.call Vocabulary.wait [.name parameter namePlace] callPlace).effect invoke
      place = readName parameter >>= fun value => waitFor value place := by
    rw [Expression.effect, if_pos rfl]
    simp only [Expression.value]
  have given : givenBack (Statement.meanings allowed invoke waiter.body) =
      readName parameter >>= fun value => waitFor value place >>= fun _ => pure 0 := by
    rw [body, givenBack]
    simp only [Statement.meanings, Statement.meaning, waited, bind_assoc, pure_bind]
  -- nothing but the parameter is in scope, and it holds the duration
  have read : inCall [(parameter, duration)]
      (readName parameter >>= fun value => waitFor value place >>= fun _ => pure (0 : Float)) =
        inCall [(parameter, duration)] (waitFor duration place >>= fun _ => pure 0) := by
    funext situation
    have known : readName parameter ⟨[[(parameter, duration)]], situation.world⟩ =
        .ok (duration, ⟨[[(parameter, duration)]], situation.world⟩) := by
      simp [readName, Block.lookup?]
    have step : (readName parameter >>= fun value => waitFor value place >>= fun _ =>
        pure (0 : Float))
        ⟨[[(parameter, duration)]], situation.world⟩ =
          (waitFor duration place >>= fun _ => pure 0) ⟨[[(parameter, duration)]],
            situation.world⟩ := by
      show (readName parameter ⟨[[(parameter, duration)]], situation.world⟩).bind _ = _
      rw [known]
      rfl
    unfold inCall
    rw [step]
  rw [ParsedFunction.meaning, waits.parameters, given]
  exact read.trans (inCall_waitFor _ duration place)

namespace ParsedProgram.Delegates

variable {helper parameter : String} {first second : ParsedProgram}
  (delegates : first.Delegates helper parameter second)

include delegates

/-- A subroutine is still there, with waits delegated. -/
theorem subroutine? {name : String} {function : ParsedFunction}
    (found : first.subroutine? name = some function) :
    ∃ function', second.subroutine? name = some function' ∧
      function.Delegates helper function' := by
  have known : name ≠ helper := by
    have same : function.name = name := by simpa using List.find?_some found
    rw [← same]
    exact delegates.fresh function (List.mem_of_find?_eq_some found)
  have related : Option.Rel (ParsedFunction.Delegates helper) (first.subroutine? name)
      (second.subroutine? name) := delegates.subroutines.find? known
  rw [found] at related
  generalize second.subroutine? name = found' at related
  cases related with
  | some delegated => exact ⟨_, rfl, delegated⟩

/-- With one more call allowed, calls match and the new subroutine waits. -/
theorem delegating (allowed : Nat) :
    Delegating helper (first.invoke allowed) (second.invoke (allowed + 1)) := by
  obtain ⟨waiter, found, isWaiter⟩ := delegates.subroutines.find?_helper delegates.fresh
  have waits (allowed : Nat) (duration : Float) (place : Position) :
      Matches (waitFor duration place)
        (Functor.discard (second.invoke (allowed + 1) helper [duration])) := by
    obtain ⟨there, same⟩ := isWaiter.exists_meaning_eq allowed (second.invoke allowed) duration
    have length : waiter.parameters.length = [duration].length := by
      rw [isWaiter.parameters]
      rfl
    rw [invoke, ParsedProgram.subroutine?, found]
    dsimp only
    rw [if_pos length, same, discard_eq, bind_assoc]
    have waited := (Matches.waitFor place there duration).bind fun _ => .refl (pure ())
    rwa [bind_pure_unit] at waited
  -- by induction on the calls allowed: a called body may only call what is matched already
  induction allowed with
  | zero => exact ⟨fun _ _ => .unfinished, waits 0, delegates.helperFree⟩
  | succ allowed ih =>
      refine ⟨fun name arguments => ?_, waits (allowed + 1), delegates.helperFree⟩
      rw [invoke, invoke]
      cases known : first.subroutine? name with
      | none => exact .meaningless
      | some function =>
          obtain ⟨function', known', delegated⟩ := delegates.subroutine? known
          rw [known']
          dsimp only
          rw [delegated.parameters]
          by_cases length : function.parameters.length = arguments.length
          · rw [if_pos length, if_pos length, ParsedFunction.meaning, ParsedFunction.meaning,
              delegated.parameters]
            have body := ih.statements (Nat.le_succ allowed) function.body delegated.body
            exact body.givenBack.inCall _
          · rw [if_neg length]
            exact .meaningless

/-- **Delegating waits keeps the meaning of a program.** If it ends with what is allowed for, the
program with delegated waits ends in the same way with one more round and call allowed. -/
theorem run {allowed : Nat} {memory : Memory} {script : List Cells} {seen : List Observation}
    (finished : first.run allowed memory script = .halted seen) :
    ∃ others, second.run (allowed + 1) memory script = .halted others ∧
      SameButPlaces seen others := by
  cases script with
  | nil =>
      cases finished
      exact ⟨[], rfl, rfl⟩
  | cons channels later =>
      have body := (delegates.delegating allowed).statements (Nat.le_succ allowed) first.entry.body
        delegates.entry.body
      have follows :=
        body.givenBack.inCall [] ⟨[], ⟨{ memory with sensors := channels }, later, []⟩⟩
      unfold ParsedProgram.run at finished ⊢
      dsimp only at finished ⊢
      -- only how the meaning of the entry function ends matters from here on
      generalize inCall [] (givenBack (Statement.meanings allowed _ _)) _ = result
        at finished follows
      generalize inCall [] (givenBack (Statement.meanings (allowed + 1) _ _)) _ = result'
        at follows ⊢
      cases follows with
      | ok =>
          cases finished
          exact ⟨_, rfl, rfl⟩
      | halted same =>
          cases finished
          exact ⟨_, rfl, same⟩
      | unfinished => cases finished
      | meaningless => cases finished

end ParsedProgram.Delegates

end LineRobot
