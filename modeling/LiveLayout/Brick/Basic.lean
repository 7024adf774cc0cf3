import LiveLayout.Json.Basic
import LiveLayout.Text.Blank
/-!
A brick is a JSON object that names a renderable type. A few of its names have a meaning of their own;
all others are its properties.
-/
namespace LiveLayout

/-- The expression between the braces of a string such as `{user.name}`, blanks around them aside. -/
def bindingText? (raw : String) : Option String :=
  match Text.trimChars raw.toList with
  | '\x7b' :: rest =>
    match rest.reverse with
    | '\x7d' :: body => some (String.ofList body.reverse)
    | _ => none
  | _ => none

def isBinding (raw : String) : Bool := (bindingText? raw).isSome

/-- Names such as `onClick`, `on-click` and `on_click`. -/
def isHandlerName (name : String) : Bool :=
  match name.toList with
  | 'o' :: 'n' :: c :: _ => c.isUpper || c == '-' || c == '_'
  | _ => false

/-- Names that never become properties of what is rendered. -/
def isMetaField (name : String) : Bool :=
  name == "type" || name == "brick" || name == "children" || name == "_expressions"

/-- Names whose value the annotation reads as an expression: properties and `children`, but neither
handlers nor bookkeeping. -/
def isDynamicCandidate (name : String) : Bool :=
  name == "children" ||
    (!isMetaField name && !isHandlerName name && name != "id" && name != "form")

structure Brick where
  fields : List (String × Json)

namespace Brick

def get? (b : Brick) (name : String) : Option Json := Fields.get? b.fields name

/-- The type, under either of its two names; blanks around it do not count, and an empty one is none. -/
def typeName? (b : Brick) : Option String :=
  match ((b.get? "type").or (b.get? "brick")).bind Json.str? with
  | some s => if Text.trim s = "" then none else some (Text.trim s)
  | none => none

def id? (b : Brick) : Option String := (b.get? "id").bind Json.str?

def form? (b : Brick) : Option String := (b.get? "form").bind Json.str?

def children? (b : Brick) : Option Json := b.get? "children"

/-- The name, if it is a literal one. -/
def name? (b : Brick) : Option String :=
  match (b.get? "name").bind Json.str? with
  | some s => if s = "" ∨ isBinding s then none else some s
  | none => none

/-- The properties that the annotation marked as expressions. -/
def expressions (b : Brick) : List String :=
  match b.get? "_expressions" with
  | some (.array items) => items.filterMap Json.str?
  | _ => []

def props (b : Brick) : List (String × Json) := b.fields.filter fun e => !isMetaField e.1

end Brick
end LiveLayout
