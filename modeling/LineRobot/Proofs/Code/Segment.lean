import LineRobot.Code.Instruction

/-! # Segments of code

The code of a function contains the code of each piece of its syntax as a segment. The segments of
the parts lie one after the other in that of the whole (`Code.contains_append`), and what holds
throughout each of them holds throughout the whole (`throughout_append`). Both are cases of a
property of each element of a list and its index (`EachFrom`). -/

namespace LineRobot

/-! ## Elements and their indices -/

section EachFrom

variable {α : Type} {property : Nat → α → Prop} {start : Nat} {elements : List α}

/-- A property of each element of a list, and of its index, counted from a start. -/
def EachFrom (property : Nat → α → Prop) : (start : Nat) → List α → Prop
  | _, [] => True
  | start, element :: others => property start element ∧ EachFrom property (start + 1) others

/-- Lists one after the other. -/
theorem eachFrom_append (start : Nat) (first others : List α) :
    EachFrom property start (first ++ others) ↔
      EachFrom property start first ∧ EachFrom property (start + first.length) others := by
  induction first generalizing start with
  | nil => simp [EachFrom]
  | cons element later ih =>
      rw [List.cons_append, EachFrom, EachFrom, ih, and_assoc, List.length_cons,
        Nat.add_right_comm, Nat.add_assoc start later.length 1]

/-- The property of one element. -/
theorem EachFrom.getElem? (each : EachFrom property start elements) {offset : Nat} {element : α}
    (found : elements[offset]? = some element) : property (start + offset) element := by
  induction elements generalizing start offset with
  | nil => cases found
  | cons first others ih =>
      cases offset with
      | zero =>
          rw [List.getElem?_cons_zero] at found
          cases found
          exact each.1
      | succ offset =>
          rw [Nat.add_comm offset, ← Nat.add_assoc]
          exact ih each.2 found

/-- Each element has the property if it has it at its index. -/
theorem eachFrom_of_getElem? (each : ∀ offset element, elements[offset]? = some element →
    property (start + offset) element) : EachFrom property start elements := by
  induction elements generalizing start with
  | nil => trivial
  | cons first others ih =>
      refine ⟨each 0 first rfl, ih fun offset element found => ?_⟩
      rw [Nat.add_right_comm]
      exact each (offset + 1) element found

/-- A list has its own elements behind any part of it. -/
theorem eachFrom_length (first others : List α) :
    EachFrom (fun index element =>
      (first ++ others)[index]? = some element) first.length others := by
  refine eachFrom_of_getElem? fun offset element found => ?_
  rwa [List.getElem?_append_right (Nat.le_add_right _ _), Nat.add_sub_cancel_left]

end EachFrom

/-! ## Code -/

namespace Code

variable {code : Code}

/-- A segment of the code that begins at an index. -/
def Contains (code : Code) (start : Nat) (segment : List Placed) : Prop :=
  EachFrom (fun index placed => code.body[index]? = some placed) start segment

@[simp] theorem contains_nil (start : Nat) : code.Contains start [] :=
  trivial

@[simp] theorem contains_cons (start : Nat) (placed : Placed) (others : List Placed) :
    code.Contains start (placed :: others) ↔
      code.body[start]? = some placed ∧ code.Contains (start + 1) others :=
  Iff.rfl

/-- Segments one after the other. -/
@[simp] theorem contains_append (start : Nat) (first others : List Placed) :
    code.Contains start (first ++ others) ↔
      code.Contains start first ∧ code.Contains (start + first.length) others :=
  eachFrom_append start first others

/-- The instructions of a segment. -/
theorem Contains.getElem? {start : Nat} {segment : List Placed}
    (contains : code.Contains start segment) {offset : Nat} {placed : Placed}
    (found : segment[offset]? = some placed) : code.body[start + offset]? = some placed :=
  EachFrom.getElem? contains found

/-- What lies after a part of the whole code. -/
theorem contains_of_eq_append {first others : List Placed}
    (all : code.body.toList = first ++ others) :
    code.Contains first.length others := by
  have own := eachFrom_length first others
  rw [← all] at own
  simpa only [Contains, Array.getElem?_toList] using own

/-- The whole code is a segment. -/
theorem contains_body : code.Contains 0 code.body.toList :=
  contains_of_eq_append (List.nil_append _).symm

end Code

/-- A property of each instruction of a segment that begins at an index, and of its own index. -/
def Throughout (property : Nat → Instruction → Prop) (start : Nat) (segment : List Placed) : Prop :=
  EachFrom (fun index placed => property index placed.instruction) start segment

section Throughout

variable {property other : Nat → Instruction → Prop} {start : Nat}

@[simp] theorem throughout_nil (start : Nat) : Throughout property start [] :=
  trivial

@[simp] theorem throughout_cons (start : Nat) (placed : Placed) (others : List Placed) :
    Throughout property start (placed :: others) ↔
      property start placed.instruction ∧ Throughout property (start + 1) others :=
  Iff.rfl

/-- Segments one after the other. -/
@[simp] theorem throughout_append (start : Nat) (first others : List Placed) :
    Throughout property start (first ++ others) ↔
      Throughout property start first ∧ Throughout property (start + first.length) others :=
  eachFrom_append start first others

/-- The property of one instruction. -/
theorem Throughout.getElem? {segment : List Placed} (holds : Throughout property start segment)
    {offset : Nat} {placed : Placed} (found : segment[offset]? = some placed) :
    property (start + offset) placed.instruction :=
  EachFrom.getElem? holds found

/-- A property that follows from another one at the indices of the segment. -/
theorem Throughout.imp {segment : List Placed} (holds : Throughout property start segment)
    (follows : ∀ index instruction, start ≤ index → index < start + segment.length →
      property index instruction → other index instruction) :
    Throughout other start segment := by
  refine eachFrom_of_getElem? fun offset placed found => ?_
  obtain ⟨inside, -⟩ := List.getElem?_eq_some_iff.mp found
  exact follows _ _ (Nat.le_add_right start offset) (by omega) (holds.getElem? found)

/-- A segment that begins at an index, in whatever way the index is written. -/
theorem Throughout.at {segment : List Placed} (holds : Throughout property start segment)
    {index : Nat} (same : start = index) : Throughout property index segment :=
  same ▸ holds

end Throughout

end LineRobot
