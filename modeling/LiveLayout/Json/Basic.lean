import LiveLayout.Json.Fields
/-!
JSON values. Objects keep the order of their entries, and a whole number is not the same value as a
floating-point number of the same size.
-/
namespace LiveLayout

inductive Number where
  | int (n : Int)
  | float (x : Float)
  deriving DecidableEq, Inhabited

inductive Json where
  | null
  | bool (b : Bool)
  | number (n : Number)
  | string (s : String)
  | array (items : List Json)
  | object (fields : List (String × Json))
  deriving Inhabited

namespace Number

def toFloat : Number → Float
  | .int n => Float.ofInt n
  | .float x => x

/-- Whole numbers and floating-point numbers never agree; the two zeros of floating point do. -/
def same : Number → Number → Bool
  | .int a, .int b => a == b
  | .float a, .float b => a == b
  | _, _ => false

end Number

namespace Json

def nat (n : Nat) : Json := .number (.int n)

def str? : Json → Option String
  | .string s => some s
  | _ => none

def items? : Json → Option (List Json)
  | .array items => some items
  | _ => none

def fields? : Json → Option (List (String × Json))
  | .object fields => some fields
  | _ => none

def isNull : Json → Bool
  | .null => true
  | _ => false

/-- The entry of an object; nothing for any other value. -/
def get? (v : Json) (key : String) : Option Json := v.fields?.bind (Fields.get? · key)

/-- What an expression calls the kind of a value. -/
def typeName : Json → String
  | .null => "null"
  | .bool _ => "boolean"
  | .number _ => "number"
  | .string _ => "string"
  | .array _ => "array"
  | .object _ => "object"

/-- Whether a value counts as yes: neither null, false, zero, not-a-number nor the empty string. -/
def truthy : Json → Bool
  | .null => false
  | .bool b => b
  | .number n => n.toFloat != 0.0 && !n.toFloat.isNaN
  | .string s => !s.isEmpty
  | .array _ | .object _ => true

mutual

/-- Equality of values, where the order of the entries of an object does not count. -/
def same : Json → Json → Bool
  | .null, .null => true
  | .bool a, .bool b => a == b
  | .number a, .number b => a.same b
  | .string a, .string b => a == b
  | .array a, .array b => sameItems a b
  | .object a, .object b => a.length == b.length && sameFields a b
  | _, _ => false

def sameItems : List Json → List Json → Bool
  | [], [] => true
  | v :: r, w :: s => v.same w && sameItems r s
  | _, _ => false

/-- Every entry of the first object is in the second. -/
def sameFields : List (String × Json) → List (String × Json) → Bool
  | [], _ => true
  | (k, v) :: r, other =>
    (match Fields.get? other k with
      | some w => v.same w
      | none => false) && sameFields r other

end

end Json
end LiveLayout
