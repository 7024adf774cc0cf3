import LiveLayout.Action
import LiveLayout.Brick.Special
import LiveLayout.Expr.Basic
import LiveLayout.Registry
import LiveLayout.Store.Basic
/-!
What rendering a layout makes: elements with properties, fragments, and components, which live on in the
tree and render themselves again.
-/
namespace LiveLayout

/-- A function bound to a property. -/
inductive Handler where
  /-- A function from the handler source. -/
  | user (id : String) (actions : List Action)
  /-- Keeps the value of a form field, then calls the user's function. -/
  | field (hook : HookArgument) (path : String) (scope : Scope) (user : Option Handler)
  /-- Calls the user's function with the value of the form as one more argument. -/
  | container (form : String) (scope : Scope) (user : Handler)

/-- How a component renders the layouts in its properties. -/
inductive Rendering where
  /-- By an interpreter, in a scope. -/
  | interpreted (interpreter : Nat) (scope : Scope)
  /-- As they are, one primitive for each. -/
  | echoed

inductive Property where
  | value (v : Json)
  | handler (h : Handler)
  | rendering (r : Rendering)

namespace Property

def value? : Property → Option Json
  | .value v => some v
  | _ => none

def handler? : Property → Option Handler
  | .handler h => some h
  | _ => none

def rendering? : Property → Option Rendering
  | .rendering r => some r
  | _ => none

/-- The value, or what stands for a property that is none. -/
def toJson : Property → Json
  | .value v => v
  | .handler _ => .string "<handler>"
  | .rendering _ => .string "<render-kids>"

end Property

/-- Properties, sorted by name. -/
abbrev Props := List (String × Property)

namespace Props

/-- The property under which a component finds its rendering. -/
def renderingName : String := "renderKids"

def insert (p : Props) (name : String) (v : Property) : Props := Fields.insertSorted p name v

def rendering? (p : Props) : Option Rendering :=
  (Fields.get? p renderingName).bind Property.rendering?

/-- A value that is not null. -/
def value? (p : Props) (name : String) : Option Json :=
  ((Fields.get? p name).bind Property.value?).filter (!·.isNull)

/-- A string that is not empty. -/
def text? (p : Props) (name : String) : Option String :=
  ((p.value? name).bind Json.str?).filter (· ≠ "")

end Props

/-- What a brick's type stands for. -/
inductive Target where
  | special (kind : Special)
  | constructor (c : Constructor)
  | tag (name : String)
  deriving DecidableEq

/-- A property that is an expression, with its syntax tree if it has one. -/
structure Dynamic where
  name : String
  text : String
  expr : Option Expr

/-- A brick with expressions, which follows the variables that they read. -/
structure Proxy where
  target : Target
  key : Option String
  /-- The properties that are not expressions. -/
  fixed : Props
  dynamic : List Dynamic
  scope : Scope
  children : Option Json
  interpreter : Nat
  /-- The variables that the expressions read. -/
  depends : List String
  /-- Its subscriber, while it is mounted. -/
  subscriber : Option Subscriber := none

structure Fetch where
  props : Props
  scope : Scope
  transport : Bool

/-- What a probe does besides reporting its hooks. -/
structure Probe where
  name : String
  refuse : Bool
  /-- How many of its first renders invalidate it. -/
  spin : Nat
  /-- The probes that it invalidates when it is unmounted. -/
  pokes : List String

mutual

inductive Node where
  | primitive (v : Json)
  | element (tag : String) (key : Option String) (props : Props) (children : List Node)
  | component (key : Option String) (c : Component)
  | fragment (key : Option String) (children : List Node)

inductive Component where
  | proxy (p : Proxy)
  | conditional (props : Props)
  | forEach (props : Props)
  | slot (props : Props)
  | fetch (f : Fetch)
  /-- Reports its hooks, and renders the given nodes. -/
  | probe (p : Probe) (kids : List Node)
  /-- Has no hooks, and reports its renders. -/
  | plain (kids : List Node)

end

instance : Inhabited Node := ⟨.primitive .null⟩

namespace Node

def key? : Node → Option String
  | .primitive _ => none
  | .element _ key _ _ => key
  | .component key _ => key
  | .fragment key _ => key

/-- The node with a key of its own; primitives have none. -/
def withKey (key : String) : Node → Node
  | .primitive v => .primitive v
  | .element tag _ props children => .element tag (some key) props children
  | .component _ c => .component (some key) c
  | .fragment _ children => .fragment (some key) children

def withKey? (key : Option String) (n : Node) : Node :=
  match key with
  | some k => n.withKey k
  | none => n

end Node

def Component.name : Component → String
  | .proxy _ => "Proxy"
  | .conditional _ => "If"
  | .forEach _ => "ForEach"
  | .slot _ => "Slot"
  | .fetch _ => "Fetch"
  | .probe _ _ => "Probe"
  | .plain _ => "Plain"

/-- A node in the tree. A component keeps its number, and how often it has rendered. -/
inductive Mounted where
  | primitive (v : Json)
  | element (tag : String) (key : Option String) (props : Props) (children : List Mounted)
  | component (id : Nat) (key : Option String) (c : Component) (renders : Nat)
      (children : List Mounted)
  | fragment (key : Option String) (children : List Mounted)

instance : Inhabited Mounted := ⟨.primitive .null⟩

namespace Mounted

def key? : Mounted → Option String
  | .primitive _ => none
  | .element _ key _ _ => key
  | .component _ key _ _ _ => key
  | .fragment key _ => key

/-- Whether a mounted node may become the given one. -/
def sameKind : Mounted → Node → Bool
  | .primitive _, .primitive _ => true
  | .element tag _ _ _, .element tag' _ _ _ => tag == tag'
  | .component .., .component .. => true
  | .fragment .., .fragment .. => true
  | _, _ => false

end Mounted
end LiveLayout
