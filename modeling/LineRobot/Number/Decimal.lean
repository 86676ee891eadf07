import LineRobot.Number.Binary64
import LineRobot.Number.Digits

/-! # Decimal text of doubles

A double is written with the fewest digits that read back to it. `Decimal.shortest` finds them: the
numbers that read back to `significand · 2 ^ exponent` form an interval, and the coarsest grid
`10 ^ place` with a point in that interval gives the digits. Only the two neighbours of the value on
a grid have to be tried; if both lie in the interval the nearer one is taken, and of two equally
near ones the larger.

`Decimal.text` writes the digits in place, never with an exponent, and `Number.text` adds the sign
and the words for the doubles that are not finite. `Decimal.toFloat` reads a decimal back, rounding
to the nearest double. -/

namespace LineRobot

/-- The number `digits · 10 ^ place`. -/
structure Decimal where
  /-- The digits, read as one natural number. -/
  digits : Nat
  /-- The power of ten of the last digit. -/
  place : Int
deriving DecidableEq, Repr

namespace Decimal

/-- The double nearest to a decimal. -/
def toFloat (decimal : Decimal) : Float :=
  Float.ofScientific decimal.digits (decide (decimal.place < 0)) decimal.place.natAbs

/-- The neighbour of `significand · 2 ^ exponent` on the grid `10 ^ place` that reads back to it, if
there is one. In quarters of a unit of the last binary place, the numbers that read back lie within
two quarters of the value, or within one quarter below it if it is the least of its binade; the ends
belong to them if the significand is even. -/
def onGrid? (significand : Nat) (exponent place : Int) : Option Nat :=
  let quarters := 4 * significand
  let below := if significand = Nat.pow 2 52 ∧ -1074 < exponent then quarters - 1 else quarters - 2
  let above := quarters + 2
  let scale := Nat.pow 2 (exponent - 2).toNat * Nat.pow 10 (-place).toNat
  let unit := Nat.pow 2 (2 - exponent).toNat * Nat.pow 10 place.toNat
  let inside (point : Nat) : Bool :=
    if significand % 2 = 0 then
      decide (below * scale ≤ point ∧ point ≤ above * scale)
    else
      decide (below * scale < point ∧ point < above * scale)
  let value := quarters * scale
  let lower := value / unit
  let lowerHit := inside (lower * unit)
  let upperHit := inside ((lower + 1) * unit)
  if lowerHit && upperHit then
    some (if value - lower * unit < (lower + 1) * unit - value then lower else lower + 1)
  else if lowerHit then some lower
  else if upperHit then some (lower + 1)
  else none

/-- The first grid with a hit among the given place and the finer ones after it; `tries` bounds the
number of grids looked at. -/
def search (significand : Nat) (exponent : Int) : (tries : Nat) → (place : Int) → Decimal
  | 0, place => ⟨significand, place⟩
  | tries + 1, place =>
    match onGrid? significand exponent place with
    | some digits => ⟨digits, place⟩
    | none => search significand exponent tries (place - 1)

/-- The decimal with the fewest digits that reads back to `significand · 2 ^ exponent`. The search
begins above the first digit of the value and needs at most seventeen digits. -/
def shortest (significand : Nat) (exponent : Int) : Decimal :=
  if significand = 0 then ⟨0, 0⟩
  else
    search significand exponent 24
      ((((significand.log2 : Int) + exponent) * 30103).fdiv 100000 + 2)

/-- A decimal written in place: zeros up to the unit, or a point before the fraction. -/
def text (decimal : Decimal) : List Char :=
  let digits := Digits.decimal decimal.digits
  match decimal.place with
  | .ofNat zeros => digits ++ List.replicate zeros '0'
  | .negSucc places =>
    let padded := List.replicate (places + 2 - digits.length) '0' ++ digits
    let whole := padded.length - (places + 1)
    padded.take whole ++ '.' :: padded.drop whole

end Decimal

namespace Number

/-- A double as text: the fewest digits that read back, written in place. -/
def text (number : Float) : String :=
  match Binary64.of number with
  | .nan => "NaN"
  | .infinite negative => if negative then "-inf" else "inf"
  | .finite negative significand exponent =>
    let magnitude := String.ofList (Decimal.shortest significand exponent).text
    if negative then "-" ++ magnitude else magnitude

end Number

end LineRobot
