import LiveLayout.Json.Fields
import LiveLayout.Text.Blank
/-!
The brick types that an app knows: how each is built, and what part it has in forms. Blanks around a
type's name never count.
-/
namespace LiveLayout

/-- How a registered type makes a node from its properties and children. -/
inductive Recipe where
  /-- The children as a fragment with a key. -/
  | group (key : String)
  | text (s : String)
  /-- An element whose children start with the layouts in the given attributes. -/
  | container (tag : String) (attributes : List String)
  /-- An element with a body between an optional header and footer. -/
  | card
  deriving DecidableEq

/-- Two recipes count as the same constructor only if they come from one registration. -/
inductive Constructor where
  | element (tag : String)
  | recipe (registration : Nat) (recipe : Recipe)
  deriving DecidableEq

/-- What a registration asks for. -/
inductive Blueprint where
  | element (tag : String)
  | recipe (recipe : Recipe)

structure BrickType where
  constructor : Constructor
  /-- Attributes besides `children` that hold layouts. -/
  childAttributes : List String

/-- Where a handler of a form field finds the field's new value: in which argument, and where in it. -/
structure HookArgument where
  index : Nat
  field : Option String
  deriving DecidableEq

/-- A blank place counts as none. -/
def HookArgument.make (index : Nat) (field : Option String) : HookArgument :=
  ⟨index, field.filter fun s => Text.trim s ≠ ""⟩

inductive RegistrationError where
  | unnamed
  | emptyTag (name : String)
  | noHooks (name : String)
  deriving DecidableEq

def RegistrationError.message : RegistrationError → String
  | .unnamed => "cannot register a brick without a name"
  | .emptyTag name =>
    "brick '" ++ name ++ "' has an empty element tag; use unregister() to remove a brick"
  | .noHooks name => "form field '" ++ name ++ "' needs at least one named handler config"

structure Registry where
  bricks : List (String × BrickType) := []
  containers : List (String × List String) := []
  /-- The hooks of each field type, sorted by property. -/
  fields : List (String × List (String × HookArgument)) := []
  registrations : Nat := 0

namespace Registry

def validName (name : String) : Except RegistrationError String :=
  if Text.trim name = "" then .error .unnamed else .ok (Text.trim name)

def register (r : Registry) (name : String) (blueprint : Blueprint)
    (childAttributes : List String) : Except RegistrationError Registry := do
  let name ← validName name
  let constructor ← match blueprint with
    | .element tag => if Text.trim tag = "" then .error (.emptyTag name) else .ok (.element tag)
    | .recipe recipe => .ok (.recipe r.registrations recipe)
  return { r with
    bricks := Fields.set r.bricks name ⟨constructor, childAttributes⟩
    registrations := r.registrations + 1 }

def unregister (r : Registry) (name : String) : Registry :=
  { r with bricks := Fields.erase r.bricks (Text.trim name) }

def unregisterAll (r : Registry) : Registry :=
  { r with bricks := [], containers := [], fields := [] }

def resolve? (r : Registry) (name : String) : Option BrickType :=
  Fields.get? r.bricks (Text.trim name)

def registerContainer (r : Registry) (name : String) (hooks : List String) :
    Except RegistrationError Registry := do
  return { r with containers := Fields.set r.containers (← validName name) hooks }

def registerField (r : Registry) (name : String) (hooks : List (String × HookArgument)) :
    Except RegistrationError Registry := do
  let name ← validName name
  if hooks.isEmpty || hooks.any fun h => Text.trim h.1 = "" then .error (.noHooks name)
  else
    let sorted := hooks.foldl (fun m h => Fields.insertSorted m h.1 h.2) []
    return { r with fields := Fields.set r.fields name sorted }

def container? (r : Registry) (name : String) : Option (List String) :=
  Fields.get? r.containers (Text.trim name)

def field? (r : Registry) (name : String) : Option (List (String × HookArgument)) :=
  Fields.get? r.fields (Text.trim name)

end Registry
end LiveLayout
