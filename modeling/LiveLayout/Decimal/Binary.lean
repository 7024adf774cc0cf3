/-!
Doubles as a sign, a natural mantissa and a power of two, and the exact remainder of one double by
another.
-/
namespace LiveLayout.Decimal

def pow2 (n : Nat) : Nat := Nat.pow 2 n

def pow10 (n : Nat) : Nat := Nat.pow 10 n

/-- The value `± mantissa * 2 ^ exponent`. -/
structure Binary where
  negative : Bool
  mantissa : Nat
  exponent : Int
  deriving DecidableEq

namespace Binary

/-- Meaningful for finite doubles. -/
def ofFloat (x : Float) : Binary :=
  let bits := x.toBits.toNat
  let field : Nat := bits / pow2 52 % pow2 11
  let fraction : Nat := bits % pow2 52
  { negative := pow2 63 ≤ bits
    mantissa := if field = 0 then fraction else fraction + pow2 52
    exponent := if field = 0 then -1074 else (field : Int) - 1075 }

/-- The double with this value, if there is one: bits that do not fit are cut off. -/
def toFloat (b : Binary) : Float :=
  if b.mantissa = 0 then (if b.negative then -0.0 else 0.0)
  else
    let top : Int := b.exponent + Nat.log2 b.mantissa
    let exponent : Int := max (top - 52) (-1074)
    let mantissa :=
      if exponent ≤ b.exponent then b.mantissa * pow2 (b.exponent - exponent).toNat
      else b.mantissa / pow2 (exponent - b.exponent).toNat
    let field : Nat := if mantissa < pow2 52 then 0 else (exponent + 1075).toNat
    let bits := field * pow2 52 + mantissa % pow2 52 + (if b.negative then pow2 63 else 0)
    Float.ofBits (UInt64.ofNat bits)

/-- The value as an integer, if it is one. -/
def whole? (b : Binary) : Option Int :=
  let sign (n : Nat) : Int := if b.negative then -n else n
  if 0 ≤ b.exponent then some (sign (b.mantissa * pow2 b.exponent.toNat))
  else
    let unit := pow2 b.exponent.natAbs
    if b.mantissa % unit = 0 then some (sign (b.mantissa / unit)) else none

/-- The remainder after dividing toward zero; it has the sign of the first value. -/
def rem (a b : Binary) : Binary :=
  let exponent := min a.exponent b.exponent
  let scaled (c : Binary) : Nat := c.mantissa * pow2 (c.exponent - exponent).toNat
  { negative := a.negative, mantissa := scaled a % scaled b, exponent := exponent }

end Binary

/-- The integer that a double stands for, if it is finite and has no fraction. -/
def whole? (x : Float) : Option Int :=
  if x.isNaN || x.isInf then none else (Binary.ofFloat x).whole?

/-- The remainder of two doubles: exact, and not a number when the divisor is zero or the first value
is not finite. -/
def remainder (x y : Float) : Float :=
  if x.isNaN || y.isNaN || x.isInf || y == 0.0 then 0.0 / 0.0
  else if y.isInf then x
  else ((Binary.ofFloat x).rem (Binary.ofFloat y)).toFloat

end LiveLayout.Decimal
