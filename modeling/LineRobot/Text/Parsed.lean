/-! # Reading from the front of a list

`Parsed α input` is a value read from the front of the list `input`, together with what is left of
the list. At least one element has been read, so what is left is shorter; this is what makes reading
in a recursion terminate. `Parsed.within` puts two steps of reading together. -/

namespace LineRobot

/-- A value read from the front of a list. -/
structure Parsed {Element : Type} (α : Type) (input : List Element) where
  /-- The value. -/
  value : α
  /-- What is left. -/
  rest : List Element
  /-- At least one element was read. -/
  shorter : rest.length < input.length

namespace Parsed

variable {Element α β : Type} {input : List Element}

/-- What was read after an earlier value, as read from where that value began. -/
def within (outer : Parsed α input) (inner : Parsed β outer.rest) : Parsed β input :=
  ⟨inner.value, inner.rest, Nat.lt_trans inner.shorter outer.shorter⟩

/-- The same elements read as another value. -/
def as (parsed : Parsed α input) (value : β) : Parsed β input :=
  ⟨value, parsed.rest, parsed.shorter⟩

/-- The same value as read from a list with one more element in front, which is passed over. -/
def behind (element : Element) (parsed : Parsed α input) : Parsed α (element :: input) :=
  ⟨parsed.value, parsed.rest, Nat.lt_succ_of_lt parsed.shorter⟩

/-- Less is left than there was. -/
theorem rest_length_lt (parsed : Parsed α input) : parsed.rest.length < input.length :=
  parsed.shorter

grind_pattern rest_length_lt => parsed.rest

/-- Reading on leaves what the last step leaves. -/
@[simp, grind =] theorem within_rest (outer : Parsed α input) (inner : Parsed β outer.rest) :
    (outer.within inner).rest = inner.rest := rfl

/-- Reading on gives the value read last. -/
@[simp] theorem within_value (outer : Parsed α input) (inner : Parsed β outer.rest) :
    (outer.within inner).value = inner.value := rfl

/-- An element in front does not matter for what is left. -/
@[simp, grind =] theorem behind_rest (element : Element) (parsed : Parsed α input) :
    (parsed.behind element).rest = parsed.rest := rfl

/-- An element in front does not matter for the value. -/
@[simp] theorem behind_value (element : Element) (parsed : Parsed α input) :
    (parsed.behind element).value = parsed.value := rfl

/-- Another value leaves the same elements. -/
@[simp, grind =] theorem as_rest (parsed : Parsed α input) (value : β) :
    (parsed.as value).rest = parsed.rest := rfl

/-- The value is the one given. -/
@[simp] theorem as_value (parsed : Parsed α input) (value : β) :
    (parsed.as value).value = value := rfl

end Parsed

end LineRobot
