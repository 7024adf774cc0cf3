import LiveLayout.Decimal.Shortest
/-!
Writing a double: positional or with an exponent, as a layout decides.
-/
namespace LiveLayout.Decimal

/-- How the shortest numeral of a double is written. -/
structure Layout where
  /-- Points above `least` and up to `most` are written positionally. -/
  least : Int
  most : Int
  /-- Whether an exponent that is not negative has a sign. -/
  plus : Bool
  tie : Tie

def positional (n : Numeral) : List Char :=
  let count : Int := n.digits.length
  if n.point ≤ 0 then '0' :: '.' :: List.replicate (-n.point).toNat '0' ++ n.digits
  else if count ≤ n.point then n.digits ++ List.replicate (n.point - count).toNat '0' ++ ['.', '0']
  else n.digits.take n.point.toNat ++ '.' :: n.digits.drop n.point.toNat

def scientific (plus : Bool) (n : Numeral) : List Char :=
  let mantissa := match n.digits with
    | [] => []
    | [d] => [d]
    | d :: rest => d :: '.' :: rest
  let e := n.point - 1
  let sign := if e < 0 then ['-'] else if plus then ['+'] else []
  mantissa ++ 'e' :: sign ++ Nat.toDigits 10 e.natAbs

def Layout.write (l : Layout) (x : Float) : String :=
  if x.isNaN then "NaN"
  else
    let sign := if pow2 63 ≤ x.toBits.toNat then "-" else ""
    if x.isInf then sign ++ "inf"
    else if x == 0.0 then sign ++ "0.0"
    else
      let n := shortest l.tie x
      let body :=
        if l.least < n.point ∧ n.point ≤ l.most then positional n else scientific l.plus n
      sign ++ String.ofList body

end LiveLayout.Decimal
