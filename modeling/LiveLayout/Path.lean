import LiveLayout.Decimal.Reading
import LiveLayout.Json.Basic
import LiveLayout.Text.Blank
/-!
Dotted paths into values. A segment names an entry of an object or a position of an array. Writing makes
objects of whatever is in the way.
-/
namespace LiveLayout.Path

def splitDots : List Char → List (List Char)
  | [] => [[]]
  | c :: rest =>
    if c = '.' then [] :: splitDots rest
    else match splitDots rest with
      | [] => [[c]]
      | segment :: more => (c :: segment) :: more

/-- The segments without the blanks around them; empty ones do not count. -/
def segments (path : String) : List String :=
  (((splitDots path.toList).map Text.trimChars).filter (· ≠ [])).map String.ofList

/-- The position that a segment names in a list of the given length. -/
def position? (segment : String) (length : Nat) : Option Nat :=
  (Decimal.index? segment).filter (· < length)

def child? (v : Json) (segment : String) : Option Json :=
  match v with
  | .object fields => Fields.get? fields segment
  | .array items => (Decimal.index? segment).bind (items[·]?)
  | _ => none

def read? (v : Json) : List String → Option Json
  | [] => some v
  | segment :: rest => (child? v segment).bind (read? · rest)

/-- The value at a dotted path. -/
def readAt? (v : Json) (path : String) : Option Json := read? v (segments path)

/-- The old value with `value` put at the segments. -/
def write (value : Json) : List String → Json → Json
  | [], _ => value
  | segment :: rest, .array items =>
    match position? segment items.length with
    | some i => .array (items.modify i (write value rest))
    | none => .object [(segment, write value rest .null)]
  | segment :: rest, .object fields =>
    .object (Fields.set fields segment (write value rest ((Fields.get? fields segment).getD .null)))
  | segment :: rest, _ => .object [(segment, write value rest .null)]

/-- The entries with `value` put under the entry of the given name, which is made if there is none. -/
def writeEntry (value : Json) (segment : String) (rest : List String) (fields : List (String × Json)) :
    List (String × Json) :=
  Fields.set fields segment (write value rest ((Fields.get? fields segment).getD .null))

end LiveLayout.Path
