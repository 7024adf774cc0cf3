import LiveLayout.Decimal.Shortest
/-!
Reading a double from decimal text: the nearest double to the value written, with the words for
infinity and not-a-number.
-/
namespace LiveLayout.Decimal

def isDigit (c : Char) : Bool := '0' ≤ c && c ≤ '9'

def digitValue (c : Char) : Nat := c.toNat - '0'.toNat

def natOfDigits (cs : List Char) : Nat := cs.foldl (fun n c => 10 * n + digitValue c) 0

/-- The double nearest to `m * 10 ^ e`. -/
def nearest (m : Nat) (e : Int) : Float :=
  let top : Int := length m + e
  if m = 0 ∨ top < -330 then 0.0
  else if 330 < top then 1.0 / 0.0
  else Float.ofScientific m (e < 0) e.natAbs

/-- Digits, a point and an exponent, of which only some digit before the exponent must be there. -/
def unsigned? (cs : List Char) : Option Float := do
  let whole := cs.takeWhile isDigit
  let rest := cs.dropWhile isDigit
  let (fraction, rest) := match rest with
    | '.' :: r => (r.takeWhile isDigit, r.dropWhile isDigit)
    | r => ([], r)
  if whole.isEmpty && fraction.isEmpty then none
  let e : Int ← match rest with
    | [] => some 0
    | c :: r =>
      if c != 'e' && c != 'E' then none
      else
        let (sign, ds) : Int × List Char := match r with
          | '+' :: ds => (1, ds)
          | '-' :: ds => (-1, ds)
          | ds => (1, ds)
        if ds.isEmpty || !ds.all isDigit then none else some (sign * natOfDigits ds)
  some (nearest (natOfDigits (whole ++ fraction)) (e - fraction.length))

/-- The whole text as a double; letters of any case for the words. -/
def double? (s : String) : Option Float :=
  let (negative, cs) := match s.toList with
    | '+' :: r => (false, r)
    | '-' :: r => (true, r)
    | r => (false, r)
  let word := String.ofList (cs.map Char.toLower)
  let magnitude : Option Float :=
    if word = "inf" ∨ word = "infinity" then some (1.0 / 0.0)
    else if word = "nan" then some (0.0 / 0.0)
    else unsigned? cs
  magnitude.map fun x => if negative then -x else x

/-- A machine-size natural number: digits, perhaps after a plus sign. -/
def index? (s : String) : Option Nat :=
  let ds := match s.toList with
    | '+' :: r => r
    | r => r
  if ds.isEmpty || !ds.all isDigit then none
  else
    let n := natOfDigits ds
    if n < pow2 64 then some n else none

end LiveLayout.Decimal
