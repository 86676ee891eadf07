/-! # Doubles as exact numbers

A finite double is a sign and a value `significand · 2 ^ exponent`; `Binary64.of` reads these off
and `Binary64.nearest` goes back, rounding to the nearest double with ties to the even significand.
On exact numbers the rest is integer arithmetic:

* `integer` and `rounded` cut a double to an integer in one of the four directions of `Rounding`,
* `remainder` is the exact remainder of a division that truncates,
* `saturated` and `wrapped` make signed words of 64 and of 32 bits of a double,
* `larger`, `smaller` and `clamped` compare doubles and say what happens to one that is no
  number. -/

namespace LineRobot

open Float.Model (UnpackedFloat Format)

/-- What a double stands for. -/
inductive Binary64 where
  /-- Not a number. -/
  | nan
  /-- Negative or positive infinity. -/
  | infinite (negative : Bool)
  /-- The value `significand · 2 ^ exponent` under a sign; a zero significand is a signed zero. -/
  | finite (negative : Bool) (significand : Nat) (exponent : Int)
deriving DecidableEq, Repr

namespace Binary64

/-- Whether a sign is the negative one. -/
def isNegative : UnpackedFloat.Sign → Bool
  | .negative => true
  | .positive => false

/-- What the given double stands for. -/
def of (number : Float) : Binary64 :=
  match number.toModel.unpack with
  | .notANumber => nan
  | .infinity sign => infinite (isNegative sign)
  | .zero sign => finite (isNegative sign) 0 0
  | .finite sign significand exponent _ => finite (isNegative sign) significand exponent

/-- The double nearest to `significand · 2 ^ exponent` under the given sign. -/
def nearest (negative : Bool) (significand : Nat) (exponent : Int) : Float :=
  .ofModel (.pack (UnpackedFloat.round Format.binary64
    (if negative then .negative else .positive) significand exponent))

end Binary64

/-- The ways to make an integer of a number between two integers. -/
inductive Rounding where
  /-- The integer below. -/
  | down
  /-- The integer above. -/
  | up
  /-- The integer nearer to zero. -/
  | towardZero
  /-- The nearer integer, and of two equally near ones the one further from zero. -/
  | nearest
deriving DecidableEq, Repr

/-- The magnitude of `significand / 2 ^ places` under the given sign, made an integer. -/
def Rounding.magnitude (direction : Rounding) (negative : Bool) (significand places : Nat) : Nat :=
  let whole := significand / Nat.pow 2 places
  let part := significand % Nat.pow 2 places
  let away :=
    match direction with
    | .down => negative && part != 0
    | .up => !negative && part != 0
    | .towardZero => false
    | .nearest => decide (Nat.pow 2 places ≤ 2 * part)
  if away then whole + 1 else whole

namespace Number

/-- The integer that a double is cut to; zero for one that is not finite. -/
def integer (direction : Rounding) (number : Float) : Int :=
  match Binary64.of number with
  | .finite negative significand exponent =>
    let magnitude :=
      match exponent with
      | .ofNat places => significand * Nat.pow 2 places
      | .negSucc places => direction.magnitude negative significand (places + 1)
    if negative then -(magnitude : Int) else magnitude
  | _ => 0

/-- A double cut to an integral double. The sign is kept, also that of a zero result; a double that
is not finite stays as it is. -/
def rounded (direction : Rounding) (number : Float) : Float :=
  match Binary64.of number with
  | .finite negative significand (.negSucc places) =>
    Binary64.nearest negative (direction.magnitude negative significand (places + 1)) 0
  | _ => number

/-- The natural number below a finite double that is not negative. -/
def natural? (number : Float) : Option Nat :=
  match Binary64.of number with
  | .finite _ _ _ => if 0 ≤ number then some (integer .down number).toNat else none
  | _ => none

/-- Whether a double is an integer. -/
def isIntegral (number : Float) : Bool :=
  match Binary64.of number with
  | .finite _ _ (.ofNat _) => true
  | .finite _ significand (.negSucc places) => significand % Nat.pow 2 (places + 1) == 0
  | _ => false

/-- The remainder of the division of two doubles whose quotient is truncated, computed exactly; it
has the sign of the dividend. There is none for an infinite dividend or a zero divisor. -/
def remainder (dividend divisor : Float) : Float :=
  match Binary64.of dividend, Binary64.of divisor with
  | .finite negative left leftExponent, .finite _ right rightExponent =>
    if right = 0 then
      0.0 / 0.0
    else
      let exponent := min leftExponent rightExponent
      let scaledLeft := left * Nat.pow 2 (leftExponent - exponent).toNat
      let scaledRight := right * Nat.pow 2 (rightExponent - exponent).toNat
      Binary64.nearest negative (scaledLeft % scaledRight) exponent
  | .finite _ _ _, .infinite _ => dividend
  | _, _ => 0.0 / 0.0

/-- The 64-bit word nearest to the integral part of a double; zero for one that is no number. -/
def saturated (number : Float) : Int64 :=
  match Binary64.of number with
  | .nan => 0
  | .infinite negative => if negative then Int64.minValue else Int64.maxValue
  | .finite _ _ _ => Int64.ofIntClamp (integer .towardZero number)

/-- The 32-bit word of a double: the lower half of the 64-bit word of its integral part, of which
all multiples of `2 ^ 32` have been taken away before; zero for a double that is not finite. -/
def wrapped (number : Float) : Int32 :=
  if number.isFinite then
    (saturated (remainder (rounded .towardZero number) 4294967296)).toUInt64.toUInt32.toInt32
  else 0

/-- The larger of two doubles; if one of them is no number, the other. -/
def larger (first second : Float) : Float :=
  if first.isNaN then second
  else if second.isNaN then first
  else if first < second then second else first

/-- The smaller of two doubles; if one of them is no number, the other. -/
def smaller (first second : Float) : Float :=
  if first.isNaN then second
  else if second.isNaN then first
  else if second < first then second else first

/-- The double between the two bounds that is nearest to the given one; one that is no number stays
as it is. -/
def clamped (low high number : Float) : Float :=
  if number < low then low else if high < number then high else number

end Number

end LineRobot
