import Mathlib.Data.List.Forall2
import Mathlib.Data.List.Nodup
import LineRobot.Code.Scope
import LineRobot.Proofs.Meaning.Basic

/-! # Locals that hold variables

The variables of a call stand in blocks, by name; its code has them in numbered locals, and a
`Scope` says which. Here a scope is seen in layers, one for each open block. `Agrees` says that the
locals hold the variables; reading, assigning and declaring a variable keep to it. -/

namespace LineRobot

/-- The locals declared in one block, the latest first. -/
abbrev Layer : Type := List (String × Local)

/-- The locals of a scope have the numbers below the next free one, the latest the highest. -/
def Scope.Numbered (scope : Scope) : Prop :=
  (scope.inner ++ scope.outer).map (fun named => named.2.slot) = (List.range scope.next).reverse

/-- A local holds a value under a name. -/
def Holds (locals : Array Float) (named : String × Local) (held : String × Float) : Prop :=
  named.1 = held.1 ∧ locals[named.2.slot]? = some held.2

/-- Locals hold the variables of blocks. -/
def Agrees (locals : Array Float) (layers : List Layer) (blocks : List Block) : Prop :=
  List.Forall₂ (List.Forall₂ (Holds locals)) layers blocks

namespace Scope

/-- Nothing is declared in the scope of a routine at first. -/
theorem numbered_empty : Numbered empty := rfl

/-- A declaration keeps the numbers. -/
theorem Numbered.bind {scope : Scope} (numbered : scope.Numbered) (name : String)
    (writable : Bool) : (scope.bind name writable).Numbered := by
  show scope.next :: (scope.inner ++ scope.outer).map _ = (List.range (scope.next + 1)).reverse
  rw [numbered, List.range_succ, List.reverse_append, List.reverse_singleton, List.singleton_append]

/-- Opening a scope keeps the numbers. -/
theorem Numbered.opened {scope : Scope} (numbered : scope.Numbered) : scope.opened.Numbered :=
  numbered

end Scope

/-- The numbers of the locals in a list of layers. -/
def slotsOf (layers : List Layer) : List Nat :=
  layers.flatten.map fun named => named.2.slot

/-- No two locals of a numbered scope have the same number, layer by layer. -/
theorem Scope.Numbered.nodup_slotsOf {scope : Scope} (numbered : scope.Numbered)
    {layers : List Layer} (layered : layers.flatten = scope.inner ++ scope.outer) :
    (slotsOf layers).Nodup := by
  rw [slotsOf, layered, numbered]
  exact List.nodup_reverse.mpr List.nodup_range

/-- The next free number is not taken in any layer. -/
theorem Scope.Numbered.next_notMem_slotsOf {scope : Scope} (numbered : scope.Numbered)
    {layers : List Layer} (layered : layers.flatten = scope.inner ++ scope.outer) :
    scope.next ∉ slotsOf layers := by
  rw [slotsOf, layered, numbered, List.mem_reverse, List.mem_range]
  exact Nat.lt_irrefl scope.next

section Reading

variable {locals : Array Float} {layers : List Layer} {blocks : List Block} {name : String}

/-- A name stands for the value in its local. -/
theorem Agrees.lookup? {found : Local} (agrees : Agrees locals layers blocks)
    (declared : layers.flatten.lookup name = some found) :
    ∃ value, Block.lookup? blocks name = some value ∧ locals[found.slot]? = some value := by
  have flat : List.Forall₂ (Holds locals) layers.flatten blocks.flatten := List.rel_flatten agrees
  unfold Block.lookup?
  generalize layers.flatten = entries at flat declared
  generalize blocks.flatten = values at flat
  induction flat with
  | nil => cases declared
  | @cons named held entries values holds _ ih =>
      obtain ⟨slotName, here⟩ := named
      obtain ⟨heldName, value⟩ := held
      obtain ⟨rfl, stored⟩ := holds
      rw [List.lookup_cons] at declared ⊢
      split at declared
      case h_1 same =>
        rw [Option.some.inj declared] at stored
        rw [same]
        exact ⟨value, rfl, stored⟩
      case h_2 different =>
        rw [different]
        exact ih declared

/-- A name without a local is no variable. -/
theorem Agrees.lookup?_eq_none (agrees : Agrees locals layers blocks)
    (undeclared : layers.flatten.lookup name = none) : Block.lookup? blocks name = none := by
  have flat : List.Forall₂ (Holds locals) layers.flatten blocks.flatten := List.rel_flatten agrees
  unfold Block.lookup?
  generalize layers.flatten = entries at flat undeclared
  generalize blocks.flatten = values at flat
  induction flat with
  | nil => rfl
  | @cons named held entries values holds _ ih =>
      obtain ⟨slotName, here⟩ := named
      obtain ⟨heldName, value⟩ := held
      obtain ⟨rfl, -⟩ := holds
      rw [List.lookup_cons] at undeclared ⊢
      split at undeclared
      case h_1 => cases undeclared
      case h_2 different =>
        rw [different]
        exact ih undeclared

end Reading

/-! ## Writing -/

section Writing

variable {locals : Array Float} {slot : Nat} (value : Float)

/-- Writing a local changes no other one. -/
theorem Holds.setIfInBounds_ne {named : String × Local} {held : String × Float}
    (holds : Holds locals named held) (other : slot ≠ named.2.slot) :
    Holds (locals.setIfInBounds slot value) named held :=
  ⟨holds.1, by rw [Array.getElem?_setIfInBounds_ne other, holds.2]⟩

/-- Writing a local that a layer does not have changes nothing in it. -/
theorem holds_setIfInBounds_of_notMem {layer : Layer} {block : Block}
    (holds : List.Forall₂ (Holds locals) layer block)
    (absent : slot ∉ layer.map fun named => named.2.slot) :
    List.Forall₂ (Holds (locals.setIfInBounds slot value)) layer block := by
  induction holds with
  | nil => exact .nil
  | cons holds _ ih =>
      rw [List.map_cons, List.mem_cons, not_or] at absent
      exact .cons (holds.setIfInBounds_ne value absent.1) (ih absent.2)

/-- Writing a local that no layer has changes no variable. -/
theorem Agrees.setIfInBounds_of_notMem {layers : List Layer} {blocks : List Block}
    (agrees : Agrees locals layers blocks) (absent : slot ∉ slotsOf layers) :
    Agrees (locals.setIfInBounds slot value) layers blocks := by
  induction agrees with
  | nil => exact .nil
  | cons holds _ ih =>
      rw [slotsOf, List.flatten_cons, List.map_append, List.mem_append, not_or] at absent
      exact .cons (holds_setIfInBounds_of_notMem value holds absent.1) (ih absent.2)

/-- A variable of a block is assigned to in its local. -/
theorem exists_replace? {layer : Layer} {block : Block} {name : String} {writable : Bool}
    (holds : List.Forall₂ (Holds locals) layer block)
    (declared : layer.lookup name = some ⟨slot, writable⟩)
    (apart : (layer.map fun named => named.2.slot).Nodup) :
    ∃ changed, Block.replace? name value block = some changed ∧
      List.Forall₂ (Holds (locals.setIfInBounds slot value)) layer changed := by
  induction holds with
  | nil => cases declared
  | @cons named held layer block holds rest ih =>
      obtain ⟨slotName, here⟩ := named
      obtain ⟨heldName, old⟩ := held
      obtain ⟨rfl, stored⟩ := holds
      rw [List.map_cons, List.nodup_cons] at apart
      rw [List.lookup_cons] at declared
      rw [Block.replace?]
      split at declared
      case h_1 same =>
        cases declared
        rw [if_pos (beq_iff_eq.mp same)]
        refine ⟨_, rfl, .cons ⟨rfl, ?_⟩ (holds_setIfInBounds_of_notMem value rest apart.1)⟩
        exact Array.getElem?_setIfInBounds_self_of_lt (Array.getElem?_eq_some_iff.mp stored).1
      case h_2 different =>
        rw [if_neg (ne_of_beq_false different)]
        obtain ⟨changed, replaced, holds⟩ := ih declared apart.2
        rw [replaced]
        refine ⟨_, rfl, .cons ⟨rfl, ?_⟩ holds⟩
        -- the local belongs to another name of the block, so this one keeps its value
        have member : slot ∈ layer.map fun named => named.2.slot := by
          obtain ⟨first, others, rfl, -⟩ := List.lookup_eq_some_iff.mp declared
          rw [List.map_append, List.map_cons]
          exact List.mem_append_right _ List.mem_cons_self
        have other : slot ≠ here.slot := fun same => apart.1 (by rw [← same]; exact member)
        rw [Array.getElem?_setIfInBounds_ne other, stored]

/-- A block that does not declare a variable is left alone. -/
theorem replace?_eq_none {layer : Layer} {block : Block} {name : String}
    (holds : List.Forall₂ (Holds locals) layer block) (undeclared : layer.lookup name = none) :
    Block.replace? name value block = none := by
  induction holds with
  | nil => rfl
  | @cons named held layer block holds _ ih =>
      obtain ⟨slotName, here⟩ := named
      obtain ⟨heldName, old⟩ := held
      obtain ⟨rfl, -⟩ := holds
      rw [List.lookup_cons] at undeclared
      rw [Block.replace?]
      split at undeclared
      case h_1 => cases undeclared
      case h_2 different =>
        rw [if_neg (ne_of_beq_false different), ih undeclared]
        rfl

/-- A variable is assigned to in its local. -/
theorem Agrees.assign? {layers : List Layer} {blocks : List Block} {name : String}
    {writable : Bool} (agrees : Agrees locals layers blocks)
    (declared : layers.flatten.lookup name = some ⟨slot, writable⟩)
    (apart : (slotsOf layers).Nodup) :
    ∃ changed, Block.assign? name value blocks = some changed ∧
      Agrees (locals.setIfInBounds slot value) layers changed := by
  induction agrees with
  | nil => cases declared
  | @cons layer block outer blocks holds rest ih =>
      rw [slotsOf, List.flatten_cons, List.map_append, List.nodup_append] at apart
      obtain ⟨innerApart, outerApart, disjoint⟩ := apart
      rw [List.flatten_cons, List.lookup_append] at declared
      rw [Block.assign?]
      cases here : layer.lookup name with
      | some found =>
          rw [here, Option.some_or] at declared
          cases declared
          -- the innermost block that declares the name is the one that is changed
          obtain ⟨changed, replaced, holds⟩ := exists_replace? value holds here innerApart
          rw [replaced]
          refine ⟨_, rfl, .cons holds (Agrees.setIfInBounds_of_notMem value rest fun member => ?_)⟩
          obtain ⟨first, others, rfl, -⟩ := List.lookup_eq_some_iff.mp here
          exact disjoint slot (by simp) slot member rfl
      | none =>
          rw [here, Option.none_or] at declared
          rw [replace?_eq_none value holds here]
          obtain ⟨changed, assigned, agrees⟩ := ih declared outerApart
          rw [assigned]
          refine ⟨_, rfl, .cons (holds_setIfInBounds_of_notMem value holds fun member => ?_) agrees⟩
          obtain ⟨first, others, same, -⟩ := List.lookup_eq_some_iff.mp declared
          exact disjoint slot member slot (by rw [same]; simp) rfl

/-- A new variable is held by the next local. -/
theorem Agrees.declare {layers : List Layer} {layer : Layer} {blocks : List Block} {block : Block}
    (agrees : Agrees locals (layer :: layers) (block :: blocks)) (name : String) (writable : Bool)
    (free : slot ∉ slotsOf (layer :: layers)) (room : slot < locals.size) :
    Agrees (locals.setIfInBounds slot value) (((name, ⟨slot, writable⟩) :: layer) :: layers)
      (((name, value) :: block) :: blocks) := by
  have kept := agrees.setIfInBounds_of_notMem value free
  cases kept with
  | cons holds rest =>
      exact .cons (.cons ⟨rfl, Array.getElem?_setIfInBounds_self_of_lt room⟩ holds) rest

end Writing

end LineRobot
