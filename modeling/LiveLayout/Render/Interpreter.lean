import LiveLayout.Engine.Cascade
import LiveLayout.Text.Lowercase
/-!
From a layout and a scope to nodes. A brick without marked expressions becomes its node at once; one
with expressions becomes a proxy. What cannot be rendered is reported and left out, and the rest goes on.
-/
namespace LiveLayout

/-- Renders one value of a layout by an interpreter in a scope; nothing if it is left out. -/
abbrev Renderer := Nat → Json → Scope → Engine (Option Node)

namespace Renderer

open Engine

def interpreter? (i : Nat) : Engine Interpreter := fun s =>
  (s.interpreters[i]?).map fun r => (r, s)

/-- The handler that the source has for an id; the source is asked once. -/
def handler? (i : Nat) (id : String) : Engine (Option Handler) := do
  let interpreter ← interpreter? i
  match Fields.get? interpreter.bound id with
  | some known => return known
  | none =>
    let found ← match interpreter.source with
      | none => pure none
      | some source => do
        emit (.lookup id)
        pure ((source.find? id).map (Handler.user id))
    let bind (r : Interpreter) : Interpreter := { r with bound := Fields.set r.bound id found }
    modify fun s => { s with interpreters := s.interpreters.modify i bind }
    return found

/-- The value of a string in a layout: itself, or that of the expression in it, if that has one. -/
def evaluate? (raw : String) (scope : Scope) : Engine (Option Json) := do
  match bindingText? raw with
  | none => return some (.string raw)
  | some text =>
    match (← get).store.evaluateText scope text with
    | .ok v => return some v
    | .error e =>
      log (.notEvaluated text e)
      return none

/-! ### Bricks -/

/-- Specials come first, then registered types, then elements named by a small first letter. -/
def resolve? (i : Nat) (typeName : String) : Engine (Option Target) := do
  match Special.ofName? typeName with
  | some kind => return some (.special kind)
  | none =>
    match (← get).registry.resolve? typeName with
    | some brickType => return some (.constructor brickType.constructor)
    | none =>
      if (typeName.toList.head?.any Text.isLowercase) then return some (.tag typeName)
      else
        let passed := (← interpreter? i).config.passUnknown
        log (.unknownType typeName passed)
        return if passed then some (.tag typeName) else none

def rename (config : Config) (name : String) : String :=
  if name = "class" then config.classAttribute else name

/-- The property that an entry of a brick becomes, if it becomes one. -/
def property? (i : Nat) (b : Brick) (scope : Scope) (name : String) (raw : Json) :
    Engine (Option Property) := do
  match raw with
  | .string s =>
    if isHandlerName name then
      match ← handler? i s with
      | some h => return some (.handler h)
      | none =>
        log (.noHandler (b.id?.getD "") name s)
        return none
    else return (← evaluate? s scope).map .value
  | v => return some (.value v)

/-- The function that a brick names under a hook. -/
def userHandler? (i : Nat) (b : Brick) (hook : String) : Engine (Option Handler) := do
  match (b.get? hook).bind Json.str? with
  | some id => handler? i id
  | none => return none

/-- Gives every hook of a form field a handler that keeps the field's value. -/
def wireField (i : Nat) (b : Brick) (hooks : List (String × HookArgument)) (scope : Scope)
    (props : Props) : Engine Props := do
  match b.name?.or b.id? with
  | none =>
    log (.namelessField b.typeName?)
    return props
  | some name =>
    let path := Form.fieldPath b.form? name
    hooks.foldlM (fun props (hook, argument) => do
      let user ← userHandler? i b hook
      trace (.fieldWired hook path)
      return props.insert hook (.handler (.field argument path scope user))) props

/-- Gives the hooks of a form the value of the form, if it has a name. -/
def wireContainer (i : Nat) (b : Brick) (hooks : List String) (scope : Scope) (props : Props) :
    Engine Props :=
  hooks.foldlM (fun props hook => do
    match ← userHandler? i b hook with
    | none => return props
    | some user =>
      let handler := match b.name? with
        | some name => .container name scope user
        | none => user
      return props.insert hook (.handler handler)) props

/-- The properties of a brick, apart from its expressions. -/
def fixedProps (i : Nat) (b : Brick) (typeName : String) (dynamic : List String) (scope : Scope) :
    Engine Props := do
  let registry := (← get).registry
  let config := (← interpreter? i).config
  let field := registry.field? typeName
  let container := registry.container? typeName
  let skipped (name : String) : Bool :=
    name == "id" || name == "form" || dynamic.contains name ||
      field.any (Fields.has · name) || container.any (·.contains name)
  let props ← (b.props.filter fun e => !skipped e.1).foldlM (fun (props : Props) (name, raw) => do
    match ← property? i b scope name raw with
    | some p => return props.insert (rename config name) p
    | none => return props) []
  let props ← match field with
    | some hooks => wireField i b hooks scope props
    | none => pure props
  match container with
  | some hooks => wireContainer i b hooks scope props
  | none => pure props

/-- The marked properties of a brick with their expressions, in the order of the brick. -/
def marked (config : Config) (b : Brick) (dynamic : List String) : List (String × String) :=
  (b.fields.filter fun e => dynamic.contains e.1).filterMap fun e =>
    (e.2.str?.bind bindingText?).map fun text => (rename config e.1, text)

/-- The marked properties with their syntax trees, and the variables that these read. -/
def parseMarked (entries : List (String × String)) : Engine (List Dynamic × List String) :=
  entries.foldlM (fun (parsed, depends) (name, text) => do
    match Expr.parse text with
    | .ok e => return (parsed ++ [⟨name, text, some e⟩], e.collect depends)
    | .error cause =>
      log (.notParsed text name cause)
      return (parsed ++ [⟨name, text, none⟩], depends)) ([], [])

/-! ### Layouts -/

variable (render : Renderer)

def tree (i : Nat) (layout : Json) (scope : Scope) : Engine (List Node) :=
  match layout with
  | .array items => items.filterMapM fun item => render i item scope
  | v => return (← render i v scope).toList

/-- What a component's rendering makes of a layout, in a fork of its scope if there are bindings. -/
def kids (r : Rendering) (layout : Json) (fork : Option (String × List (String × Json))) :
    Engine (List Node) := do
  match r, fork with
  | .interpreted i scope, none => tree render i layout scope
  | .interpreted i scope, some (label, bindings) =>
    tree render i layout (← forkScope scope label bindings)
  | .echoed, _ =>
    emit (.kids layout fork)
    return [.primitive layout]

/-- The children that a value stands for once it has been evaluated. -/
def content (i : Nat) (v : Json) (scope : Scope) : Engine (List Node) :=
  match v with
  | .null => pure []
  | .array _ | .object _ => tree render i v scope
  | _ => pure [.primitive v]

/-- The children that a brick gives. -/
def children (i : Nat) (given : Option Json) (scope : Scope) : Engine (List Node) := do
  match given with
  | none | some .null => return []
  | some (.string s) =>
    match ← evaluate? s scope with
    | some v => content render i v scope
    | none => return []
  | some v => tree render i v scope

/-- The layout under an attribute, rendered; what is no value or has no rendering is left out. -/
def layoutAt (rendering : Option Rendering) (p : Option Property) : Engine (Option (List Node)) := do
  match p.bind Property.value?, rendering with
  | some layout, some r => return some (← kids render r layout none)
  | _, _ => return none

/-- An optional part of a card, as an element of its own. -/
def section? (rendering : Option Rendering) (props : Props) (name : String) : Engine (List Node) := do
  match ← layoutAt render rendering (Fields.get? props name) with
  | some nodes => return [.element name none [] nodes]
  | none => return []

/-- What a recipe makes of properties and children. -/
def follow (recipe : Recipe) (props : Props) (children : List Node) : Engine Node := do
  match recipe with
  | .group key => return .fragment (some key) children
  | .text s => return .primitive (.string s)
  | .container tag attributes =>
    let rendering := props.rendering?
    let rest := Fields.erase props Props.renderingName
    let (props, parts) ← attributes.foldlM (fun (props, parts) name => do
      match ← layoutAt render rendering (Fields.get? props name) with
      | some nodes => return (Fields.erase props name, parts ++ nodes)
      | none => return (Fields.erase props name, parts)) (rest, ([] : List Node))
    return .element tag none props (parts ++ children)
  | .card =>
    let rendering := props.rendering?
    let props := Fields.erase props Props.renderingName
    let header ← section? render rendering props "header"
    let props := Fields.erase props "header"
    let footer ← section? render rendering props "footer"
    let props := Fields.erase props "footer"
    return .element "card" none props (header ++ [.element "body" none [] children] ++ footer)

/-- The node of a target with its properties and children. -/
def build (target : Target) (props : Props) (children : List Node) (scope : Scope)
    (transport : Bool) : Engine Node := do
  match target with
  | .special .conditional => return .component none (.conditional props)
  | .special .forEach => return .component none (.forEach props)
  | .special .slot => return .component none (.slot props)
  | .special .fetch => return .component none (.fetch ⟨props, scope, transport⟩)
  | .constructor (.element tag) => return .element tag none props children
  | .constructor (.recipe _ recipe) => follow render recipe props children
  | .tag name => return .element name none props children

/-- A typed brick whose type is known. -/
def brick (i : Nat) (b : Brick) (typeName : String) (target : Target) (scope : Scope) :
    Engine Node := do
  trace (.rendered typeName target b.id?)
  let dynamic := b.expressions
  let props ← fixedProps i b typeName dynamic scope
  let declares := ((← get).registry.resolve? typeName).any fun t => !t.childAttributes.isEmpty
  let special := match target with
    | .special _ => true
    | _ => false
  let props := if special || declares then
      props.insert Props.renderingName (.rendering (.interpreted i scope))
    else props
  if dynamic.isEmpty then
    let nodes ← children render i b.children? scope
    let node ← build render target props nodes scope (← interpreter? i).transport
    return node.withKey? b.id?
  else
    let (dynamic, depends) ← parseMarked (marked (← interpreter? i).config b dynamic)
    return .component b.id? (.proxy
      { target, key := b.id?, fixed := props, dynamic, scope, children := b.children?,
        interpreter := i, depends })

/-- One value of a layout, given the renderer of what is in it. -/
def node (i : Nat) (v : Json) (scope : Scope) : Engine (Option Node) := do
  match v with
  | .null => return none
  | .array _ => return some (.fragment none (← tree render i v scope))
  | .object fields =>
    match (Brick.mk fields).typeName? with
    | none =>
      log (.typeless v)
      return none
    | some typeName =>
      match ← resolve? i typeName with
      | none => return none
      | some target => return some (← brick render i ⟨fields⟩ typeName target scope)
  | _ => return some (.primitive v)

/-- Renders layouts in which values lie at most so deep in one another. -/
def upTo : Nat → Renderer
  | 0 => fun _ _ _ => endless
  | depth + 1 => fun i v scope => node (upTo depth) i v scope

end Renderer
end LiveLayout
