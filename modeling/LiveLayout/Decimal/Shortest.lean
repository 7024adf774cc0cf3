import LiveLayout.Decimal.Binary
/-!
The fewest decimal digits that read back to the same double, and of those the nearest to it.
-/
namespace LiveLayout.Decimal

/-- What to do when two shortest numerals are equally near. -/
inductive Tie where
  | toEven
  | up
  deriving DecidableEq

/-- The value `0.d₁d₂… * 10 ^ point`; the first digit is not zero. -/
structure Numeral where
  digits : List Char
  point : Int

def length (n : Nat) : Nat := if n = 0 then 0 else (Nat.toDigits 10 n).length

/-- The exponent `k` with `10 ^ (k - 1) ≤ num / den < 10 ^ k`. -/
def pointOf (num den : Nat) : Int :=
  if den ≤ num then length (num / den) else 1 - length ((den - 1) / num)

/-- A double and the ends of the interval of reals that round to it, over one denominator. -/
structure Interval where
  low : Nat
  value : Nat
  high : Nat
  den : Nat
  closed : Bool

def Interval.ofBinary (b : Binary) : Interval :=
  let below := if b.mantissa = pow2 52 ∧ -1074 < b.exponent then 1 else 2
  let scale := b.exponent - 2
  let up := pow2 scale.toNat
  { low := (4 * b.mantissa - below) * up
    value := 4 * b.mantissa * up
    high := (4 * b.mantissa + 2) * up
    den := pow2 (-scale).toNat
    closed := b.mantissa % 2 = 0 }

/-- The point of the grid of `digits` digits that stands for the double, if the grid has one. -/
def Interval.onGrid? (i : Interval) (tie : Tie) (point : Int) (digits : Nat) : Option Nat :=
  let shift : Int := point - digits
  let up := pow10 (-shift).toNat
  let unit := i.den * pow10 shift.toNat
  let value := i.value * up
  let inside (c : Nat) : Bool :=
    if i.closed then i.low * up ≤ c * unit ∧ c * unit ≤ i.high * up
    else i.low * up < c * unit ∧ c * unit < i.high * up
  let floor := value / unit
  let below := value - floor * unit
  let above := (floor + 1) * unit - value
  match inside floor, inside (floor + 1) with
  | false, false => none
  | true, false => some floor
  | false, true => some (floor + 1)
  | true, true =>
    if below < above then some floor
    else if above < below then some (floor + 1)
    else match tie with
      | .up => some (floor + 1)
      | .toEven => some (if floor % 2 = 0 then floor else floor + 1)

/-- Tries one digit more until a grid has a point, or `more` grids have been tried. -/
def Interval.search (i : Interval) (tie : Tie) (point : Int) : Nat → Nat → Nat × Nat
  | 0, digits => (i.value / i.den, digits)
  | more + 1, digits =>
    match i.onGrid? tie point digits with
    | some c => (c, digits)
    | none => i.search tie point more (digits + 1)

/-- The shortest numeral of a finite double that is not zero, without its sign. -/
def shortest (tie : Tie) (x : Float) : Numeral :=
  let i := Interval.ofBinary (Binary.ofFloat x)
  let point := pointOf i.value i.den
  let (c, digits) := i.search tie point 17 1
  let text := Nat.toDigits 10 c
  { digits := (text.reverse.dropWhile (· == '0')).reverse
    point := point + text.length - digits }

end LiveLayout.Decimal
