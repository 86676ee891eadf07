import LineRobot.Routine.Basic

/-! # The size of code

How many instructions a formula or a step needs is known before its code is made: `Formula.size` and
`Step.size` count them. A jump can therefore be given its target at once, also one that leaves a
loop whose code is still to be made. `Step.slots` counts the locals that steps need beyond those in
use before them; the locals of a scope are used again after it. -/

namespace LineRobot

namespace Formula

/-- The number of instructions that read a variable before it is assigned its combination with a
value. -/
def oldValueSize : Formula → Nat
  | .index _ _ _ => 2
  | _ => 1

mutual

/-- The number of instructions of a formula. -/
def size : Formula → Nat
  | .number _ _ => 1
  | .name _ _ => 1
  | .binary _ left right _ => size left + size right + 1
  | .logical _ left right _ => size left + size right + 5
  | .unary _ operand _ => size operand + 1
  | .change _ _ operand _ => placeSize operand + 1
  | .conditional condition whenTrue whenFalse _ =>
    size condition + size whenTrue + size whenFalse + 2
  | .assign none target value _ => placeSize target + size value + 1
  | .assign (some _) target value _ =>
    placeSize target + oldValueSize target + size value + 2
  | .call _ arguments _ => sizes arguments + 1
  | .index _ index _ => size index + 1

/-- The number of instructions that work out which variable is meant. -/
def placeSize : Formula → Nat
  | .index _ index _ => size index
  | _ => 0

/-- The number of instructions of formulas, one after the other. -/
def sizes : List Formula → Nat
  | [] => 0
  | first :: others => size first + sizes others

end

/-- The number of instructions of a formula, or the given number if there is none. -/
def sizeOr (missing : Nat) : Option Formula → Nat
  | some formula => size formula
  | none => missing

end Formula

namespace Step

mutual

/-- The number of instructions of a step. -/
def size : Step → Nat
  | .bind _ _ value _ => Formula.sizeOr 1 value + 2
  | .evaluate value _ => value.size + 1
  | .tick _ => 1
  | .wait duration _ => duration.size + 1
  | .branch condition whenTrue whenFalse _ =>
    condition.size + 1 + sizes whenTrue + otherwiseSize whenFalse
  | .forever body _ => sizes body + 1
  | .whileLoop condition body _ => condition.size + 1 + sizes body + 1
  | .doLoop body condition _ => sizes body + condition.size + 1
  | .forLoop start condition step body _ =>
    sizes start + clauseSize condition + sizes body + clauseSize step + 1
  | .block body _ => sizes body
  | .leaveLoop _ => 1
  | .nextRound _ => 1
  | .giveBack value _ => Formula.sizeOr 1 value + 1

/-- The number of instructions of steps, one after the other. -/
def sizes : List Step → Nat
  | [] => 0
  | first :: others => size first + sizes others

/-- The number of instructions of an optional second branch and of the jump over it. -/
def otherwiseSize : Option (List Step) → Nat
  | none => 0
  | some steps => 1 + sizes steps

/-- The number of instructions of an optional clause of a loop, which is evaluated and popped. -/
def clauseSize : Option Formula → Nat
  | none => 0
  | some formula => formula.size + 1

end

mutual

/-- The number of locals that a step needs inside its own scopes. -/
def innerSlots : Step → Nat
  | .branch _ whenTrue whenFalse _ => max (slots 0 whenTrue) (otherwiseSlots whenFalse)
  | .forever body _ => slots 0 body
  | .whileLoop _ body _ => slots 0 body
  | .doLoop body _ _ => slots 0 body
  | .forLoop start _ _ body _ => slots (slots 0 body) start
  | .block body _ => slots 0 body
  | _ => 0

/-- The number of locals that steps need if what follows them in their scope needs `later` ones. -/
def slots (later : Nat) : List Step → Nat
  | [] => later
  | .bind _ _ _ _ :: others => slots later others + 1
  | first :: others => max (innerSlots first) (slots later others)

/-- The number of locals that an optional second branch needs. -/
def otherwiseSlots : Option (List Step) → Nat
  | none => 0
  | some steps => slots 0 steps

end

end Step

end LineRobot
