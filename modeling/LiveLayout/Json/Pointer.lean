import LiveLayout.Decimal.Reading
import LiveLayout.Json.Basic
/-!
Changing an object inside a value. A pointer is a list of names and positions, each after a slash, in
which `~1` stands for a slash and `~0` for a tilde.
-/
namespace LiveLayout.Json

def splitSlashes : List Char → List (List Char)
  | [] => [[]]
  | c :: rest =>
    if c = '/' then [] :: splitSlashes rest
    else match splitSlashes rest with
      | [] => [[c]]
      | token :: more => (c :: token) :: more

def unescapeToken : List Char → List Char
  | '~' :: '1' :: rest => '/' :: unescapeToken rest
  | '~' :: '0' :: rest => '~' :: unescapeToken rest
  | c :: rest => c :: unescapeToken rest
  | [] => []

/-- The tokens of a pointer, which is empty or starts with a slash. -/
def pointerTokens? (pointer : String) : Option (List String) :=
  match pointer.toList with
  | [] => some []
  | '/' :: rest => some ((splitSlashes rest).map fun t => String.ofList (unescapeToken t))
  | _ => none

/-- A position is written without a sign or leading zeros. -/
def pointerIndex? (token : String) : Option Nat :=
  match token.toList with
  | '+' :: _ => none
  | '0' :: _ :: _ => none
  | _ => Decimal.index? token

def editAt (f : List (String × Json) → List (String × Json)) : List String → Json → Json
  | [], .object fields => .object (f fields)
  | token :: rest, .object fields =>
    match Fields.get? fields token with
    | some v => .object (Fields.set fields token (editAt f rest v))
    | none => .object fields
  | token :: rest, .array items =>
    match pointerIndex? token with
    | some i => .array (items.modify i (editAt f rest))
    | none => .array items
  | _, v => v

/-- The value with the object at a pointer changed; unchanged if there is none. -/
def edit (v : Json) (pointer : String) (f : List (String × Json) → List (String × Json)) : Json :=
  match pointerTokens? pointer with
  | some tokens => editAt f tokens v
  | none => v

end LiveLayout.Json
