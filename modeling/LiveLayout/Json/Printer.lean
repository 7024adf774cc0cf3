import LiveLayout.Decimal.Text
import LiveLayout.Json.Basic
/-!
The text of a value: on one line, or indented by two blanks a level.
-/
namespace LiveLayout

/-- Points from -4 to 16 are positional, exponents have a sign, and a tie goes to the even digit. -/
def Number.layout : Decimal.Layout := ⟨-5, 16, true, .toEven⟩

/-- A floating-point value that is not finite has no text of its own. -/
def Number.text : Number → String
  | .int n => toString n
  | .float x => if x.isNaN || x.isInf then "null" else Number.layout.write x

namespace Json

def hexDigit (n : Nat) : Char := (Nat.toDigits 16 (n % 16)).headD '0'

def escaped (c : Char) : List Char :=
  if c = '"' ∨ c = '\\' then ['\\', c]
  else if c = '\x08' then ['\\', 'b']
  else if c = '\x0c' then ['\\', 'f']
  else if c = '\n' then ['\\', 'n']
  else if c = '\r' then ['\\', 'r']
  else if c = '\t' then ['\\', 't']
  else if c.toNat < 0x20 then ['\\', 'u', '0', '0', hexDigit (c.toNat / 16), hexDigit c.toNat]
  else [c]

def stringText (s : String) : String :=
  String.ofList ('"' :: s.toList.flatMap escaped ++ ['"'])

mutual

/-- The compact text. -/
def text : Json → String
  | .null => "null"
  | .bool b => if b then "true" else "false"
  | .number n => n.text
  | .string s => stringText s
  | .array items => "[" ++ ",".intercalate (itemTexts items) ++ "]"
  | .object fields => "\x7b" ++ ",".intercalate (fieldTexts fields) ++ "\x7d"

def itemTexts : List Json → List String
  | [] => []
  | v :: rest => v.text :: itemTexts rest

def fieldTexts : List (String × Json) → List String
  | [] => []
  | (k, v) :: rest => (stringText k ++ ":" ++ v.text) :: fieldTexts rest

end

def indentation (level : Nat) : String := String.ofList (List.replicate (2 * level) ' ')

/-- One line per part between brackets; nothing between the brackets of an empty value. -/
def block (opening closing : String) (level : Nat) : List String → String
  | [] => opening ++ closing
  | parts =>
    let line := ",\n" ++ indentation (level + 1)
    opening ++ "\n" ++ indentation (level + 1) ++ line.intercalate parts ++ "\n" ++ indentation level
      ++ closing

mutual

/-- The indented text, where the value starts at the given level. -/
def pretty (level : Nat) : Json → String
  | .array items => block "[" "]" level (prettyItems (level + 1) items)
  | .object fields => block "\x7b" "\x7d" level (prettyFields (level + 1) fields)
  | .null => "null"
  | .bool b => if b then "true" else "false"
  | .number n => n.text
  | .string s => stringText s

def prettyItems (level : Nat) : List Json → List String
  | [] => []
  | v :: rest => v.pretty level :: prettyItems level rest

def prettyFields (level : Nat) : List (String × Json) → List String
  | [] => []
  | (k, v) :: rest => (stringText k ++ ": " ++ v.pretty level) :: prettyFields level rest

end

/-- A string as it is, any other value as its compact text. -/
def display : Json → String
  | .string s => s
  | v => v.text

end Json
end LiveLayout
