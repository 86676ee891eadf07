import LineRobot.Rejection
import LineRobot.Routine.Basic

/-! # Names in scope

A `Scope` holds the locals that are visible at one point of a routine, those of the innermost open
scope apart from those around it, and the number of the next free local. A name means its innermost
declaration (`Scope.lookup?`). Opening a scope hides nothing; a declaration in it hides a local of
the same name outside. Going back to an earlier scope value closes what has been opened since, so
that its locals are free again. -/

namespace LineRobot

/-- A local variable. -/
structure Local where
  /-- Its number. -/
  slot : Nat
  /-- Whether it may be assigned to. -/
  writable : Bool
deriving DecidableEq, Repr

/-- The locals visible at one point of a routine. -/
structure Scope where
  /-- The locals of the innermost scope, the latest first. -/
  inner : List (String × Local)
  /-- The locals of the scopes around it, the innermost first. -/
  outer : List (String × Local)
  /-- The number of the next free local. -/
  next : Nat
deriving DecidableEq, Repr

namespace Scope

/-- The scope of a routine before anything is declared. -/
def empty : Scope :=
  ⟨[], [], 0⟩

/-- The local that a name means. -/
def lookup? (scope : Scope) (name : String) : Option Local :=
  (scope.inner ++ scope.outer).lookup name

/-- A new innermost scope. -/
def opened (scope : Scope) : Scope :=
  ⟨[], scope.inner ++ scope.outer, scope.next⟩

/-- The scope with one more local, which gets the next number. -/
def bind (scope : Scope) (name : String) (writable : Bool) : Scope :=
  ⟨(name, ⟨scope.next, writable⟩) :: scope.inner, scope.outer, scope.next + 1⟩

/-- Whether a name may be declared in the innermost scope, and if not why. -/
def canBind (scope : Scope) (name : String) : Except Reason Unit :=
  if Vocabulary.isReserved name then .error (.reserved name)
  else if (scope.inner.lookup name).isSome then .error (.redeclared name)
  else .ok ()

/-- The scope after a step: a binding adds a local. -/
def afterStep (scope : Scope) : Step → Scope
  | .bind name writable _ _ => scope.bind name writable
  | _ => scope

/-- The scope after steps. -/
def afterSteps (scope : Scope) (steps : List Step) : Scope :=
  steps.foldl afterStep scope

/-- The scope of a routine with the given parameters, which can be assigned to. -/
def withParameters (scope : Scope) : List String → Except Reason Scope
  | [] => .ok scope
  | name :: others => do
    scope.canBind name
    withParameters (scope.bind name true) others

/-- A name just declared means the new local. -/
theorem lookup?_bind (scope : Scope) (name : String) (writable : Bool) :
    (scope.bind name writable).lookup? name = some ⟨scope.next, writable⟩ := by
  simp [lookup?, bind]

/-- A declaration changes no other name. -/
theorem lookup?_bind_of_ne (scope : Scope) {name other : String} (writable : Bool)
    (different : other ≠ name) :
    (scope.bind name writable).lookup? other = scope.lookup? other := by
  have apart : (other == name) = false := beq_eq_false_iff_ne.mpr different
  simp [lookup?, bind, List.lookup_cons, apart]

/-- Opening a scope changes the meaning of no name. -/
theorem lookup?_opened (scope : Scope) (name : String) :
    scope.opened.lookup? name = scope.lookup? name := rfl

end Scope

end LineRobot
