import LiveLayout.Decimal.Reading
import LiveLayout.Expr.Parse
import LiveLayout.Json.Printer
import LiveLayout.Text.Blank
import LiveLayout.Text.Quoted
/-!
Evaluating expressions. A variable without a value is null; reading a member of null is an error, and
so is arithmetic whose result is not a finite number.
-/
namespace LiveLayout

inductive EvalError where
  | memberOfNull (field : String)
  | badPosition (position : Json)
  | notNumeral (s : String)
  | notNumber (v : Json)
  | notFinite

def EvalError.message (e : EvalError) : String :=
  "expression evaluation error: " ++ match e with
    | .memberOfNull field => "cannot read property '" ++ field ++ "' of null"
    | .badPosition position => "cannot index with " ++ position.typeName
    | .notNumeral s => Text.quoted s ++ " is not a number"
    | .notNumber v => v.typeName ++ " is not a number"
    | .notFinite => "arithmetic produced a non-finite number"

namespace Expr

/-- The entry of an object, or the element or length of an array, or the length of a string; null for
whatever is not there. -/
def readMember (v : Json) (field : String) : Except EvalError Json :=
  match v with
  | .null => .error (.memberOfNull field)
  | .object fields => .ok ((Fields.get? fields field).getD .null)
  | .array items =>
    if field = "length" then .ok (.nat items.length)
    else .ok (((Decimal.index? field).bind (items[·]?)).getD .null)
  | .string s => .ok (if field = "length" then .nat s.length else .null)
  | _ => .ok .null

def readPosition (v position : Json) : Except EvalError Json :=
  match position with
  | .string s => readMember v s
  | .number n => readMember v n.text
  | _ => .error (.badPosition position)

/-- Null is zero, and a string counts as the numeral it holds. -/
def numberOf : Json → Except EvalError Float
  | .null => .ok 0.0
  | .bool b => .ok (if b then 1.0 else 0.0)
  | .number n => .ok n.toFloat
  | .string s =>
    match Decimal.double? (Text.trim s) with
    | some x => .ok x
    | none => .error (.notNumeral s)
  | v => .error (.notNumber v)

def finite (x : Float) : Except EvalError Json :=
  if x.isNaN || x.isInf then .error .notFinite else .ok (Parse.literalOf x)

/-- Numbers are compared by size, whole or not; all else as values. -/
def looselySame (a b : Json) : Bool :=
  match a, b with
  | .number m, .number n => m.toFloat == n.toFloat
  | _, _ => a.same b

/-- Strings are compared by their characters, all else by the numbers it counts as. -/
def compareBy (strings : String → String → Bool) (numbers : Float → Float → Bool) (a b : Json) :
    Except EvalError Json :=
  match a, b with
  | .string s, .string t => .ok (.bool (strings s t))
  | _, _ => do
    let x ← numberOf a
    let y ← numberOf b
    .ok (.bool (numbers x y))

def arithmetic (f : Float → Float → Float) (a b : Json) : Except EvalError Json := do
  let x ← numberOf a
  let y ← numberOf b
  finite (f x y)

/-- A sum, or the two texts joined if either value is a string. -/
def add (a b : Json) : Except EvalError Json :=
  match a, b with
  | .string _, _ | _, .string _ => .ok (.string (a.display ++ b.display))
  | _, _ => arithmetic (· + ·) a b

/-- An operator applied to the values of both operands. -/
def applyBinary : BinaryOp → Json → Json → Except EvalError Json
  | .mul, a, b => arithmetic (· * ·) a b
  | .div, a, b => arithmetic (· / ·) a b
  | .rem, a, b => arithmetic Decimal.remainder a b
  | .add, a, b => add a b
  | .sub, a, b => arithmetic (· - ·) a b
  | .lt, a, b => compareBy (fun s t => s < t) (fun x y => x < y) a b
  | .ltEq, a, b => compareBy (fun s t => !(t < s)) (fun x y => x ≤ y) a b
  | .gt, a, b => compareBy (fun s t => t < s) (fun x y => y < x) a b
  | .gtEq, a, b => compareBy (fun s t => !(s < t)) (fun x y => y ≤ x) a b
  | .eq, a, b => .ok (.bool (looselySame a b))
  | .notEq, a, b => .ok (.bool (!looselySame a b))
  | .and, a, b => .ok (if a.truthy then b else a)
  | .or, a, b => .ok (if a.truthy then a else b)

def applyUnary : UnaryOp → Json → Except EvalError Json
  | .not, v => .ok (.bool (!v.truthy))
  | .neg, v => do finite (-(← numberOf v))

mutual

/-- The value of an expression where `lookup` gives the values of its variables. The right operand of
`&&` and `||` and the branches of a conditional are evaluated only when they are chosen. -/
def evaluate (lookup : String → Option Json) : Expr → Except EvalError Json
  | .literal v => .ok v
  | .ident name => .ok ((lookup name).getD .null)
  | .member object field => do readMember (← object.evaluate lookup) field
  | .index object position => do
    let v ← object.evaluate lookup
    let p ← position.evaluate lookup
    readPosition v p
  | .array items => do return .array (← evaluateItems lookup items)
  | .unary op operand => do applyUnary op (← operand.evaluate lookup)
  | .binary .and left right => do
    let v ← left.evaluate lookup
    if v.truthy then right.evaluate lookup else .ok v
  | .binary .or left right => do
    let v ← left.evaluate lookup
    if v.truthy then .ok v else right.evaluate lookup
  | .binary op left right => do
    let v ← left.evaluate lookup
    let w ← right.evaluate lookup
    applyBinary op v w
  | .conditional condition yes no => do
    if (← condition.evaluate lookup).truthy then yes.evaluate lookup else no.evaluate lookup

def evaluateItems (lookup : String → Option Json) : List Expr → Except EvalError (List Json)
  | [] => .ok []
  | e :: rest => do
    let v ← e.evaluate lookup
    let vs ← evaluateItems lookup rest
    .ok (v :: vs)

end

end Expr
end LiveLayout
