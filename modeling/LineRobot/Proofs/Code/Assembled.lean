import LineRobot.Proofs.Code.Assembler

/-! # Assembling makes the same code

What an assembler emits while it keeps its scopes on a stack is the code that is made with scopes as
values, and it stops for the same reasons (`Routine.assembledCode_eq`). `Assembler.Makes` says this
of an assembler from given locals on, together with the locals that it leaves; steps leave those in
which names mean what `Scope.afterSteps` says, as many as `Step.slots` counts (`Step.Grown`). -/

namespace LineRobot

namespace Assembler

variable {allocation : Allocation} {before : List Placed}

/-- From the given locals on, an assembler emits what is left of the code after the part before, and
leaves locals of the given kind; or it stops since there is no code. -/
def Makes (assembler : Assembler Unit) (allocation : Allocation) (before : List Placed)
    (code : Except Rejection (List Placed)) (leaves : Allocation → Prop) : Prop :=
  let done := assembler allocation
  match code with
  | .error rejection => done.result = .error (.rejected rejection)
  | .ok code => done.result = .ok () ∧ before ++ Act.emitted done.acts = code ∧
      leaves (allocation.afterAll done.acts)

/-- What acts one after the other emit. -/
theorem emitted_append (first others : List Act) :
    Act.emitted (first ++ others) = Act.emitted first ++ Act.emitted others :=
  List.filterMap_append

/-- To emit code emits it. -/
theorem emitted_emits (code : List Placed) : Act.emitted (code.map .emits) = code := by
  induction code with
  | nil => rfl
  | cons placed others ih => exact congrArg (placed :: ·) ih

/-- One assembler after the other makes one piece of code after the other. -/
theorem Makes.bind {first : Assembler Unit} {next : Unit → Assembler Unit}
    {code : Except Rejection (List Placed)} {rest : List Placed → Except Rejection (List Placed)}
    {between after : Allocation → Prop} (makes : Makes first allocation [] code between)
    (others : ∀ made middle, between middle → Makes (next ()) middle (before ++ made)
      (rest made) after) :
    Makes (first >>= next) allocation before (code >>= rest) after := by
  cases code with
  | error rejection =>
      have stops : first allocation = ⟨(first allocation).acts, .error (.rejected rejection)⟩ :=
        congrArg (Done.mk _) makes
      show ((first >>= next) allocation).result = .error (.rejected rejection)
      rw [bind_of_error stops]
  | ok made =>
      obtain ⟨done, emits, leaves⟩ := makes
      have goesOn : first allocation = ⟨(first allocation).acts, .ok ()⟩ :=
        congrArg (Done.mk _) done
      have others := others made _ leaves
      rw [← emits, List.nil_append] at others
      show Makes _ _ _ (rest made) _
      rw [← emits, List.nil_append]
      unfold Makes at others ⊢
      rw [bind_of_ok goesOn]
      simp only [emitted_append, Allocation.afterAll_append, ← List.append_assoc]
      exact others

/-- To emit code makes it. -/
theorem makes_emit (code : Scope → Except Rejection (List Placed)) :
    Makes (emit code) allocation [] (code allocation.scope) (· = allocation) := by
  unfold Makes emit
  cases code allocation.scope with
  | error rejection => rfl
  | ok code => exact ⟨rfl, emitted_emits code, allocation.afterAll_emits code⟩

/-- What is emitted last ends the code. -/
theorem Makes.last {assembler : Assembler Unit} {code : Except Rejection (List Placed)}
    {leaves : Allocation → Prop} (makes : Makes assembler allocation [] code leaves) :
    Makes assembler allocation before (code >>= fun made => pure (before ++ made)) leaves := by
  cases code with
  | error rejection => exact makes
  | ok made =>
      obtain ⟨done, emits, leaves⟩ := makes
      exact ⟨done, congrArg (before ++ ·) emits, leaves⟩

/-- To do nothing makes no code. -/
theorem makes_pure {leaves : Allocation → Prop} (holds : leaves allocation) :
    Makes (pure ()) allocation before (.ok before) leaves :=
  ⟨rfl, List.append_nil before, holds⟩

/-- What is built of the code and of the locals left is built of the code made. -/
theorem Makes.map_result {β : Type} {assembler : Assembler Unit}
    {code : Except Rejection (List Placed)} {leaves : Allocation → Prop}
    (makes : Makes assembler allocation [] code leaves) (build : List Placed → Allocation → β)
    {built : List Placed → β} (same : ∀ made after, leaves after → build made after = built made) :
    (assembler allocation).result.map (fun _ => build (Act.emitted (assembler allocation).acts)
        (allocation.afterAll (assembler allocation).acts)) =
          (code.map built).mapError Stop.rejected := by
  cases code with
  | error rejection =>
      replace makes : (assembler allocation).result = _ := makes
      rw [makes]
      rfl
  | ok made =>
      obtain ⟨done, emits, leaves⟩ := makes
      rw [List.nil_append] at emits
      rw [done, emits]
      exact congrArg Except.ok (same made _ leaves)

/-- Locals of another kind are left if they are of that kind, too. -/
theorem Makes.imp {assembler : Assembler Unit} {code : Except Rejection (List Placed)}
    {leaves others : Allocation → Prop} (makes : Makes assembler allocation before code leaves)
    (implies : ∀ after, leaves after → others after) :
    Makes assembler allocation before code others := by
  cases code with
  | error rejection => exact makes
  | ok made => exact ⟨makes.1, makes.2.1, implies _ makes.2.2⟩

/-- To do something in a scope of its own makes the same code, and leaves the locals as they are but
for the number of those needed. -/
theorem Makes.inScope {inside : Assembler Unit} {code : Except Rejection (List Placed)}
    {leaves : Allocation → Prop} (orderly : OrderlyAt inside (allocation.after .opens))
    (makes : Makes inside (allocation.after .opens) [] code leaves) :
    Makes (inScope inside) allocation [] code fun after =>
      ∃ inner, leaves inner ∧ after = { allocation with count := inner.count } := by
  cases code with
  | error rejection => exact makes
  | ok made =>
      obtain ⟨done, emits, leaves⟩ := makes
      refine ⟨done, ?_, _, leaves, ?_⟩
      · show Act.emitted ((.opens :: (inside (allocation.after .opens)).acts) ++ [.closes]) = made
        rw [emitted_append]
        exact (List.append_nil _).trans emits
      · have opened : (allocation.after .opens).scopes = ⟨[], allocation.next⟩ ::
            allocation.scopes := rfl
        obtain ⟨more, scopes⟩ := orderly.exists_scopes opened
        show allocation.afterAll ((.opens :: (inside (allocation.after .opens)).acts) ++
          [.closes]) = _
        rw [Allocation.afterAll_append, Allocation.afterAll_cons, Allocation.afterAll_cons,
          Allocation.afterAll_nil, Allocation.after.eq_def, scopes]

/-- To declare a local binds its name. -/
theorem makes_declare (isOpen : allocation.scopes ≠ []) {name : String} {writable : Bool}
    {position : Position} {next : Nat → Assembler Unit} {code : Except Rejection (List Placed)}
    {leaves : Allocation → Prop}
    (makes : allocation.scope.canBind name = .ok () →
      Makes (next allocation.next) (allocation.after (.declares name writable))
        before code leaves) :
    Makes (declare name writable position >>= next) allocation before
      (Formula.placed position (allocation.scope.canBind name) >>= fun _ => code) leaves := by
  have same := declare_of_isOpen isOpen name writable position
  cases free : allocation.scope.canBind name with
  | error reason =>
      rw [free] at same
      show ((declare name writable position >>= next) allocation).result = _
      rw [bind_of_error same]
  | ok done =>
      rw [free] at same
      have makes := makes free
      show Makes _ _ _ code _
      unfold Makes at makes ⊢
      rw [bind_of_ok same]
      exact makes

end Assembler

namespace Step

open Assembler

/-- The locals that steps need with more after them are those that they need by themselves, or those
still in use after them and the others. -/
theorem next_add_slots (scope : Scope) (steps : List Step) (later : Nat) :
    scope.next + slots later steps =
      max (scope.next + slots 0 steps) ((scope.afterSteps steps).next + later) := by
  induction steps generalizing scope with
  | nil =>
      show scope.next + later = max (scope.next + 0) (scope.next + later)
      omega
  | cons step others ih =>
      have rest := ih (scope.afterStep step)
      rw [Scope.afterSteps, List.foldl_cons]
      rw [Scope.afterSteps] at rest
      -- a step moves what is free, or needs room that it frees again
      cases step <;> simp only [Scope.afterStep, Scope.bind, slots] at rest ⊢ <;> omega

/-- Locals in an open scope, as many as needed. -/
structure Ready (allocation : Allocation) : Prop where
  /-- A scope is open. -/
  isOpen : allocation.scopes ≠ []
  /-- There are as many as needed. -/
  room : allocation.next ≤ allocation.count

/-- The locals after steps: names mean what they do after the steps, and there are as many locals as
the steps need. -/
structure Grown (allocation : Allocation) (steps : List Step) (after : Allocation) : Prop where
  /-- A scope is open. -/
  isOpen : after.scopes ≠ []
  /-- Names mean what they do after the steps. -/
  scope_eq : after.scope = allocation.scope.afterSteps steps
  /-- There are as many locals as the steps need. -/
  count_eq : after.count = max allocation.count (allocation.next + slots 0 steps)

variable {functions : FunctionTable} {allocation middle after : Allocation}
  {first others : List Step}

/-- To open a scope leaves the locals ready. -/
theorem Ready.opened (ready : Ready allocation) : Ready (allocation.after .opens) :=
  ⟨nofun, ready.room⟩

/-- Locals after steps are ready for more. -/
theorem Grown.ready (grown : Grown allocation first after) : Ready after := by
  refine ⟨grown.isOpen, ?_⟩
  have covered := afterSteps_next_le allocation.scope first 0
  rw [grown.count_eq, ← after.next_scope, grown.scope_eq, ← allocation.next_scope]
  omega

/-- The locals after no steps. -/
theorem Ready.grown (ready : Ready allocation) : Grown allocation [] allocation :=
  ⟨ready.isOpen, rfl, (Nat.max_eq_left ready.room).symm⟩

/-- The locals after steps and more steps. -/
theorem Grown.append (grown : Grown allocation first middle) (more : Grown middle others after) :
    Grown allocation (first ++ others) after := by
  refine ⟨more.isOpen, ?_, ?_⟩
  · rw [more.scope_eq, grown.scope_eq, Scope.afterSteps, Scope.afterSteps, Scope.afterSteps,
      List.foldl_append]
  · have needs := next_add_slots allocation.scope first (slots 0 others)
    rw [more.count_eq, grown.count_eq, slots_append, ← middle.next_scope, grown.scope_eq,
      ← allocation.next_scope, needs, Nat.max_assoc]

/-- What a binding makes. -/
theorem bindingCode_eq (functions : FunctionTable) (scope : Scope) (start : Nat) (name : String)
    (writable : Bool) (value : Option Formula) (position : Position) :
    bindingCode functions scope start name writable value position =
      firstValueCode functions start name writable value position scope >>= fun valueCode =>
        Formula.placed position (scope.canBind name) >>= fun _ =>
          pure (valueCode ++ [⟨.store scope.next, position⟩, ⟨.pop, position⟩]) := by
  unfold bindingCode firstValueCode
  split <;> rfl

/-- The locals around steps in a scope of their own, as many as these need. -/
def withRoom (allocation : Allocation) (slots : Nat) : Allocation :=
  { allocation with count := max allocation.count (allocation.next + slots) }

/-- Room for a step leaves the locals ready. -/
theorem Ready.withRoom (ready : Ready allocation) (slots : Nat) :
    Ready (withRoom allocation slots) :=
  ⟨ready.isOpen, Nat.le_trans ready.room (Nat.le_max_left _ _)⟩

/-- Locals that are ready have room for steps that need no local. -/
theorem Ready.withRoom_zero (ready : Ready allocation) :
    Step.withRoom allocation 0 = allocation := by
  rw [Step.withRoom, Nat.add_zero, Nat.max_eq_left ready.room]

/-- Room for steps and then for others is room for those that need more. -/
theorem withRoom_withRoom (allocation : Allocation) (slots others : Nat) :
    withRoom (withRoom allocation slots) others = withRoom allocation (max slots others) := by
  simp only [withRoom, Nat.max_assoc, Nat.add_max_add_left]

/-- Room inside a scope in which steps are done is room for these and for what comes after them. -/
theorem Grown.withRoom_inner (grown : Grown (allocation.after .opens) first after) (later : Nat) :
    { allocation with count := (withRoom after later).count } = withRoom allocation
    (slots later first) := by
  have needs := next_add_slots (allocation.after .opens).scope first later
  rw [Allocation.next_scope] at needs
  have count : (withRoom after later).count =
      max (max allocation.count (allocation.next + slots 0 first)) (after.next + later) := by
    rw [withRoom, grown.count_eq]
    rfl
  rw [count, Nat.max_assoc, ← after.next_scope, grown.scope_eq, withRoom]
  exact congrArg (fun needed => { allocation with count := max allocation.count needed }) needs.symm

/-- The locals after a step that needs room inside and declares nothing around it. -/
theorem Ready.grown_withRoom (ready : Ready allocation) {step : Step} {slots : Nat}
    (same : allocation.scope.afterStep step = allocation.scope)
    (needs : Step.slots 0 [step] = slots) :
    Grown allocation [step] (Step.withRoom allocation slots) :=
  ⟨ready.isOpen, same.symm, by rw [needs]; rfl⟩

/-- Steps in a scope of their own are assembled to their code, if they are in an open one. -/
theorem makes_inScope {targets : Option LoopTargets} {start : Nat} {body : List Step}
    (makes : Makes (assemblers functions targets start body) (allocation.after .opens) []
      (codes functions targets (allocation.after .opens).scope start body)
      (Grown (allocation.after .opens) body)) :
    Makes (inScope (assemblers functions targets start body)) allocation []
      (codes functions targets allocation.scope.opened start body) (· =
        withRoom allocation (slots 0 body)) := by
  rw [Allocation.scope_after_opens] at makes
  refine (makes.inScope (orderlyAt_assemblers body _ _ _)).imp ?_
  rintro _ ⟨inner, grown, rfl⟩
  rw [grown.count_eq]
  rfl

/-- The locals after a name has been bound. -/
theorem Ready.grown_declares (ready : Ready allocation) (name : String) (writable : Bool)
    (value : Option Formula) (position : Position) :
    Grown allocation [.bind name writable value position]
      (allocation.after (.declares name writable)) := by
  have scope_eq := Allocation.scope_after_declares ready.isOpen name writable
  obtain ⟨scopes, next, count⟩ := allocation
  cases scopes with
  | nil => exact absurd rfl ready.isOpen
  | cons scope outer => exact ⟨nofun, scope_eq, rfl⟩

/-- A step that declares nothing and has no scope of its own is emitted. -/
theorem Ready.makes_emit (ready : Ready allocation) {step : Step} {targets : Option LoopTargets}
    {start : Nat} (same : allocation.scope.afterStep step = allocation.scope)
    (needs : slots 0 [step] = 0) :
    Makes (emit fun scope => code functions targets scope start step) allocation []
      (code functions targets allocation.scope start step) (Grown allocation [step]) := by
  refine (Assembler.makes_emit _).imp ?_
  rintro _ rfl
  refine ⟨ready.isOpen, same.symm, ?_⟩
  rw [needs]
  exact (Nat.max_eq_left ready.room).symm

/-- The condition of a branch ends with the jump to the other branch. -/
theorem code_branch (functions : FunctionTable) (targets : Option LoopTargets) (scope : Scope)
    (start : Nat) (condition : Formula) (whenTrue : List Step) (whenFalse : Option (List Step))
    (position : Position) :
    code functions targets scope start (.branch condition whenTrue whenFalse position) =
      guardCode functions scope start
          (if whenFalse.isSome then start + condition.size + 1 + sizes whenTrue + 1
            else start + condition.size + 1 + sizes whenTrue) position (some condition) >>=
              fun guard =>
        codes functions targets scope.opened (start + condition.size + 1) whenTrue >>=
          fun trueCode =>
          otherwiseCode functions targets scope (start + condition.size + 1 + sizes whenTrue)
            position whenFalse >>=
            fun falseCode => pure (guard ++ trueCode ++ falseCode) := by
  rw [code, guardCode]
  simp only [bind_assoc, pure_bind, List.append_assoc, List.cons_append, List.nil_append]

/-- The condition of a loop ends with the jump out of it. -/
theorem code_whileLoop (functions : FunctionTable) (targets : Option LoopTargets) (scope : Scope)
    (start : Nat) (condition : Formula) (body : List Step) (position : Position) :
    code functions targets scope start (.whileLoop condition body position) =
      guardCode functions scope start (start + condition.size + 1 + sizes body + 1) position
        (some condition) >>=
        fun guard =>
          codes functions (some ⟨start + condition.size + 1 + sizes body + 1, start⟩) scope.opened
              (start + condition.size + 1) body >>= fun bodyCode =>
            pure (guard ++ bodyCode ++ [⟨.jump start, position⟩]) := by
  rw [code, guardCode]
  simp only [bind_assoc, pure_bind, List.append_assoc, List.cons_append, List.nil_append]

/-- The condition of a loop that is checked after a round ends with the jump to the next one. -/
theorem code_doLoop (functions : FunctionTable) (targets : Option LoopTargets) (scope : Scope)
    (start : Nat) (condition : Formula) (body : List Step) (position : Position) :
    code functions targets scope start (.doLoop body condition position) =
      codes functions (some ⟨start + sizes body + condition.size + 1, start + sizes body⟩)
        scope.opened start body >>=
        fun bodyCode => checkCode functions (start + sizes body) start condition position scope >>=
          fun check =>
          pure (bodyCode ++ check) := by
  rw [code, checkCode]
  simp only [bind_assoc, pure_bind, List.append_assoc]

mutual

/-- A step is assembled to its code. -/
theorem makes_assembler : (step : Step) → (targets : Option LoopTargets) → (start : Nat) →
    (allocation : Allocation) → Ready allocation →
    Makes (assembler functions targets start step) allocation []
      (code functions targets allocation.scope start step) (Grown allocation [step])
  | .bind name writable value position, targets, start, allocation, ready => by
      rw [assembler, code, bindingCode_eq]
      refine .bind (makes_emit _) ?_
      rintro made _ rfl
      refine makes_declare ready.isOpen fun _ => ?_
      rw [Allocation.next_scope]
      refine .last (.imp (makes_emit _) ?_)
      rintro _ rfl
      exact ready.grown_declares name writable value position
  | .branch condition whenTrue whenFalse position, targets, start, allocation, ready => by
      rw [assembler, code_branch]
      refine .bind (makes_emit _) ?_
      rintro guard _ rfl
      refine .bind (makes_inScope (makes_assemblers whenTrue _ _ _ ready.opened)) ?_
      rintro trueCode _ rfl
      refine .last (.imp (makes_otherwiseAssembler whenFalse _ _ _ _ (ready.withRoom _)) ?_)
      rintro _ rfl
      rw [withRoom_withRoom]
      exact ready.grown_withRoom rfl (by simp only [slots, innerSlots, Nat.max_zero])
  | .forever body position, targets, start, allocation, ready => by
      rw [assembler, code]
      refine .bind (makes_inScope (makes_assemblers body _ _ _ ready.opened)) ?_
      rintro made _ rfl
      refine .last (.imp (makes_emit _) ?_)
      rintro _ rfl
      exact ready.grown_withRoom rfl (by simp only [slots, innerSlots, Nat.max_zero])
  | .whileLoop condition body position, targets, start, allocation, ready => by
      rw [assembler, code_whileLoop]
      refine .bind (makes_emit _) ?_
      rintro guard _ rfl
      refine .bind (makes_inScope (makes_assemblers body _ _ _ ready.opened)) ?_
      rintro bodyCode _ rfl
      refine .last (.imp (makes_emit _) ?_)
      rintro _ rfl
      exact ready.grown_withRoom rfl (by simp only [slots, innerSlots, Nat.max_zero])
  | .doLoop body condition position, targets, start, allocation, ready => by
      rw [assembler, code_doLoop]
      refine .bind (makes_inScope (makes_assemblers body _ _ _ ready.opened)) ?_
      rintro bodyCode _ rfl
      refine .last (.imp (makes_emit _) ?_)
      rintro _ rfl
      exact ready.grown_withRoom rfl (by simp only [slots, innerSlots, Nat.max_zero])
  | .forLoop first condition step body position, targets, start, allocation, ready => by
      rw [assembler, code, ← Allocation.scope_after_opens]
      -- the locals of the first steps are in scope until the loop is left
      let leaves (after : Allocation) : Prop :=
        ∃ middle, Grown (allocation.after .opens) first middle ∧
          after = withRoom middle (slots 0 body)
      refine Makes.imp (Makes.inScope ?_ (show Makes _ _ _ _ leaves from ?_)) ?_
      · exact orderlyAt_forLoop (orderlyAt_assemblers first _ _) (orderlyAt_assemblers body _ _)
      · refine .bind (makes_assemblers first _ _ _ ready.opened) fun firstCode middle grown => ?_
        rw [← grown.scope_eq]
        refine .bind (makes_emit _) ?_
        rintro guard middle rfl
        refine .bind (makes_inScope (makes_assemblers body _ _ _ grown.ready.opened)) ?_
        rintro bodyCode _ rfl
        refine .bind (makes_emit _) ?_
        rintro stepCode _ rfl
        exact .last ((makes_emit _).imp fun _ same => ⟨middle, grown, same⟩)
      · rintro _ ⟨_, ⟨middle, grown, rfl⟩, rfl⟩
        rw [grown.withRoom_inner]
        exact ready.grown_withRoom rfl (by simp only [slots, innerSlots, Nat.max_zero])
  | .block body position, targets, start, allocation, ready => by
      rw [assembler, code]
      refine .imp (makes_inScope (makes_assemblers body _ _ _ ready.opened)) ?_
      rintro _ rfl
      exact ready.grown_withRoom rfl (by simp only [slots, innerSlots, Nat.max_zero])
  | .evaluate value position, targets, start, allocation, ready => by
      simp only [assembler]
      exact ready.makes_emit rfl rfl
  | .tick position, targets, start, allocation, ready => by
      simp only [assembler]
      exact ready.makes_emit rfl rfl
  | .wait duration position, targets, start, allocation, ready => by
      simp only [assembler]
      exact ready.makes_emit rfl rfl
  | .leaveLoop position, targets, start, allocation, ready => by
      simp only [assembler]
      exact ready.makes_emit rfl rfl
  | .nextRound position, targets, start, allocation, ready => by
      simp only [assembler]
      exact ready.makes_emit rfl rfl
  | .giveBack value position, targets, start, allocation, ready => by
      simp only [assembler]
      exact ready.makes_emit rfl rfl

/-- Steps are assembled to their code. -/
theorem makes_assemblers : (steps : List Step) → (targets : Option LoopTargets) → (start : Nat) →
    (allocation : Allocation) → Ready allocation →
    Makes (assemblers functions targets start steps) allocation []
      (codes functions targets allocation.scope start steps) (Grown allocation steps)
  | [], targets, start, allocation, ready => by
      rw [assemblers, codes]
      exact makes_pure ready.grown
  | first :: others, targets, start, allocation, ready => by
      rw [assemblers, codes]
      refine .bind (makes_assembler first _ _ _ ready) fun made middle grown => ?_
      have rest := makes_assemblers others targets (start + first.size) middle grown.ready
      rw [grown.scope_eq] at rest
      exact .last (rest.imp fun _ more => grown.append more)

/-- An optional second branch is assembled to its code. -/
theorem makes_otherwiseAssembler : (steps : Option (List Step)) → (targets : Option LoopTargets) →
    (start : Nat) → (position : Position) → (allocation : Allocation) → Ready allocation →
    Makes (otherwiseAssembler functions targets start position steps) allocation []
      (otherwiseCode functions targets allocation.scope start position steps)
      (· = withRoom allocation (otherwiseSlots steps))
  | none, targets, start, position, allocation, ready => by
      rw [otherwiseAssembler, otherwiseCode, otherwiseSlots, ready.withRoom_zero]
      exact makes_pure rfl
  | some steps, targets, start, position, allocation, ready => by
      rw [otherwiseAssembler, otherwiseCode, otherwiseSlots]
      show Makes _ _ _ (.ok [⟨.jump (start + 1 + sizes steps), position⟩] >>= fun jump =>
        codes functions targets allocation.scope.opened (start + 1) steps >>= fun stepCode =>
          pure (jump ++ stepCode)) _
      refine .bind (makes_emit _) ?_
      rintro jump _ rfl
      exact .last (makes_inScope (makes_assemblers steps _ _ _ ready.opened))

end

end Step

namespace Assembler

variable {allocation : Allocation} {before : List Placed}

/-- It does not matter how assemblers one after the other are grouped. -/
theorem bind_bind {α β γ : Type} (first : Assembler α) (second : α → Assembler β)
    (third : β → Assembler γ) :
    (first >>= second) >>= third = first >>= fun value => second value >>= third := by
  funext allocation
  generalize same : first allocation = done
  obtain ⟨acts, result⟩ := done
  cases result with
  | error stop => rw [bind_of_error same, bind_of_error (bind_of_error same)]
  | ok value =>
      rw [bind_of_ok same]
      have both : (first >>= second) allocation = _ := bind_of_ok same
      generalize more : second value (allocation.afterAll acts) = later at both
      obtain ⟨others, result⟩ := later
      cases result with
      | error stop => rw [bind_of_error both, bind_of_error more]
      | ok value =>
          rw [bind_of_ok both, bind_of_ok more, Allocation.afterAll_append, List.append_assoc]

/-- A sequence whose failures are placed. -/
theorem placed_bind {α β : Type} (position : Position) (first : Except Reason α)
    (next : α → Except Reason β) :
    Formula.placed position (first >>= next) =
      Formula.placed position first >>= fun value => Formula.placed position (next value) := by
  cases first <;> rfl

/-- To declare parameters binds their names. -/
theorem makes_declareAll {position : Position} {names : List String} {next : Unit → Assembler Unit}
    {rest : Scope → Except Rejection (List Placed)} {leaves : Allocation → Prop}
    (ready : Step.Ready allocation) (room : allocation.next + names.length ≤ allocation.count)
    (makes : ∀ inside after, allocation.scope.withParameters names = .ok inside → Step.Ready after →
      after.scope = inside → after.count = allocation.count →
        Makes (next ()) after before (rest inside) leaves) :
    Makes (declareAll position names >>= next) allocation before
      (Formula.placed position (allocation.scope.withParameters names) >>= rest) leaves := by
  induction names generalizing allocation with
  | nil => exact makes _ _ rfl ready rfl rfl
  | cons name others ih =>
      rw [List.length_cons] at room
      have grown := ready.grown_declares name true none position
      have next_eq : (allocation.after (.declares name true)).next = allocation.next + 1 := by
        rw [← Allocation.next_scope, grown.scope_eq, ← Allocation.next_scope]
        rfl
      have count_eq : (allocation.after (.declares name true)).count = allocation.count := by
        rw [grown.count_eq]
        exact Nat.max_eq_left (by simp only [Step.slots]; omega)
      rw [declareAll, bind_bind, Scope.withParameters, placed_bind, bind_assoc]
      refine makes_declare ready.isOpen fun free => ?_
      rw [← Allocation.scope_after_declares ready.isOpen]
      refine ih grown.ready (by omega) fun inside after bound readyAfter same count => ?_
      rw [Allocation.scope_after_declares ready.isOpen] at bound
      refine makes inside after ?_ readyAfter same (count.trans count_eq)
      rw [Scope.withParameters, free]
      exact bound

end Assembler

namespace Routine

open Assembler

variable (functions : FunctionTable) (routine : Routine) (parameters : List String)

/-- A routine is assembled to its code, or rejected for the same reason. -/
theorem assembledCode_eq :
    routine.assembledCode functions parameters =
      (routine.code functions parameters).mapError Stop.rejected := by
  have makes : Makes (routine.assembler functions parameters) (.initial parameters.length) []
      (Formula.placed routine.position (Scope.empty.withParameters parameters) >>= fun scope =>
        Step.codes functions none scope 0 routine.body >>= fun body =>
          pure (body ++ [⟨.push 0, routine.position⟩, ⟨.giveBack, routine.position⟩]))
      (fun after => after.count = parameters.length + Step.slots 0 routine.body) := by
    refine makes_declareAll ⟨nofun, Nat.zero_le _⟩ (Nat.le_of_eq (Nat.zero_add _)) ?_
    rintro _ after bound ready rfl count
    refine .bind (Step.makes_assemblers _ _ _ _ ready) fun made middle grown => ?_
    refine .last ((makes_emit _).imp ?_)
    rintro _ rfl
    have next : after.next = parameters.length := by
      rw [← after.next_scope, Scope.next_of_withParameters bound]
      exact Nat.zero_add _
    rw [grown.count_eq, count, next]
    exact Nat.max_eq_right (Nat.le_add_right _ _)
  let build (localCount : Nat) (made : List Placed) : Code :=
    ⟨routine.name, parameters.length, localCount, made.toArray, routine.position⟩
  have same (made : List Placed) (after : Allocation)
      (count : after.count = parameters.length + Step.slots 0 routine.body) :
      build after.count made = build _ made := congrArg (build · made) count
  refine (makes.map_result (fun made after => build after.count made) same).trans
    (congrArg (Except.mapError _) ?_)
  rw [code]
  cases Formula.placed routine.position (Scope.empty.withParameters parameters) with
  | error rejection => rfl
  | ok scope =>
      show Except.map _ (Step.codes functions none scope 0 routine.body >>= _) =
        Step.codes functions none scope 0 routine.body >>= _
      cases Step.codes functions none scope 0 routine.body <;> rfl

end Routine

end LineRobot
