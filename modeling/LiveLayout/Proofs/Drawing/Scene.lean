import LiveLayout.Proofs.Store.Layers
import LiveLayout.Render.Component
/-!
What a layout shows, as a function of the values of the variables. A scene holds all that rendering draws
on. Scopes are replaced by the bindings that they bring, so that a drawing can be compared with another
over other stores.
-/
namespace LiveLayout

/-- A node without the numbers of scopes, interpreters and hooks: a component stands with the layers
that it is rendered in. -/
inductive Sketch where
  | primitive (v : Json)
  | element (tag : String) (key : Option String) (props : Props) (children : List Sketch)
  | component (key : Option String) (layers : Layers) (c : Component)
  | fragment (key : Option String) (children : List Sketch)

def Sketch.withKey (key : String) : Sketch → Sketch
  | .primitive v => .primitive v
  | .element tag _ props children => .element tag (some key) props children
  | .component _ layers c => .component (some key) layers c
  | .fragment _ children => .fragment (some key) children

def Sketch.withKey? (key : Option String) (k : Sketch) : Sketch :=
  match key with
  | some key => k.withKey key
  | none => k

/-- What is shown once every component has rendered, with the requests that were sent on the way. -/
inductive Picture where
  | primitive (v : Json)
  | element (tag : String) (key : Option String) (props : Props) (children : List Picture)
  | component (sent : Option Request) (children : List Picture)
  | fragment (key : Option String) (children : List Picture)

/-- All that rendering draws on. What is not allowed has no drawing. -/
structure Scene where
  registry : Registry
  config : Config
  source : Option HandlerSource
  transport : Bool
  /-- The answer that every request gets at once, if any. -/
  answer : Option Outcome
  /-- The values at the root. -/
  root : String → Option Json
  /-- The bricks that are allowed, by their entries. -/
  allowed : List (String × Json) → Bool := fun _ => true
  /-- Whether components that fetch are allowed. -/
  fetches : Bool := true

/-- Draws one value of a layout; nothing if it is left out. -/
abbrev Artist := Layers → Json → Option (Option Sketch)

namespace Scene

/-- Stands for every handler. -/
def someHandler : Property := .handler (.user "" [])

variable (sc : Scene)

def evaluate? (layers : Layers) (e : Expr) : Option Json :=
  (e.evaluate (layers.lookup? sc.root)).toOption

def evaluateText? (layers : Layers) (text : String) : Option Json :=
  (Expr.parse text).toOption.bind (sc.evaluate? layers)

/-- The value of a string in a layout. -/
def inline? (layers : Layers) (raw : String) : Option Json :=
  match bindingText? raw with
  | none => some (.string raw)
  | some text => sc.evaluateText? layers text

def handler? (id : String) : Option Property :=
  (sc.source.bind (·.find? id)).map fun _ => someHandler

def target? (typeName : String) : Option Target :=
  match Special.ofName? typeName with
  | some kind => some (.special kind)
  | none =>
    match sc.registry.resolve? typeName with
    | some brickType => some (.constructor brickType.constructor)
    | none =>
      if typeName.toList.head?.any Text.isLowercase || sc.config.passUnknown then some (.tag typeName)
      else none

/-! ### Properties -/

def property? (layers : Layers) (name : String) (raw : Json) : Option Property :=
  match raw with
  | .string s => if isHandlerName name then sc.handler? s else (sc.inline? layers s).map .value
  | v => some (.value v)

/-- Entries that do not become properties by themselves: bookkeeping, expressions and the hooks of forms. -/
def skips (typeName : String) (dynamic : List String) (name : String) : Bool :=
  name == "id" || name == "form" || dynamic.contains name ||
    (sc.registry.field? typeName).any (Fields.has · name) ||
    (sc.registry.container? typeName).any (·.contains name)

/-- The properties of a brick that come from its entries. -/
def ownProps (layers : Layers) (b : Brick) (typeName : String) (dynamic : List String) : Props :=
  (b.props.filter fun e => !sc.skips typeName dynamic e.1).foldl (fun props e =>
    match sc.property? layers e.1 e.2 with
    | some p => props.insert (Renderer.rename sc.config e.1) p
    | none => props) []

def wireField (b : Brick) (hooks : List (String × HookArgument)) (props : Props) : Props :=
  match b.name?.or b.id? with
  | none => props
  | some _ => hooks.foldl (fun props h => props.insert h.1 someHandler) props

def wireContainer (b : Brick) (hooks : List String) (props : Props) : Props :=
  hooks.foldl (fun props hook =>
    match ((b.get? hook).bind Json.str?).bind sc.handler? with
    | some h => props.insert hook h
    | none => props) props

/-- Adds the handlers of forms. -/
def wire (b : Brick) (typeName : String) (props : Props) : Props :=
  let props := match sc.registry.field? typeName with
    | some hooks => wireField b hooks props
    | none => props
  match sc.registry.container? typeName with
  | some hooks => sc.wireContainer b hooks props
  | none => props

def fixedProps (layers : Layers) (b : Brick) (typeName : String) (dynamic : List String) : Props :=
  sc.wire b typeName (sc.ownProps layers b typeName dynamic)

/-- Whether a brick of this type and target renders layouts in its properties. -/
def renders (typeName : String) (target : Target) : Bool :=
  (match target with
    | .special _ => true
    | _ => false) || (sc.registry.resolve? typeName).any fun t => !t.childAttributes.isEmpty

/-- Marked properties with their syntax trees, and the variables that these read. -/
def parsed (entries : List (String × String)) : List Dynamic × List String :=
  entries.foldl (fun (parsed, depends) (name, text) =>
    match Expr.parse text with
    | .ok e => (parsed ++ [⟨name, text, some e⟩], e.collect depends)
    | .error _ => (parsed ++ [⟨name, text, none⟩], depends)) ([], [])

/-! ### Layouts -/

variable (render : Artist)

def tree (layers : Layers) (layout : Json) : Option (List Sketch) :=
  match layout with
  | .array items => items.filterMapM fun item => render layers item
  | v => (render layers v).map Option.toList

def content (layers : Layers) (v : Json) : Option (List Sketch) :=
  match v with
  | .null => some []
  | .array _ | .object _ => tree render layers v
  | _ => some [.primitive v]

def children (layers : Layers) (given : Option Json) : Option (List Sketch) :=
  match given with
  | none | some .null => some []
  | some (.string s) =>
    match sc.inline? layers s with
    | some v => content render layers v
    | none => some []
  | some v => tree render layers v

/-- The layout under a property; nothing where there is no value or no rendering. -/
def layoutAt (rendering : Option Layers) (p : Option Property) : Option (Option (List Sketch)) :=
  match p.bind Property.value?, rendering with
  | some layout, some layers => (tree render layers layout).map some
  | _, _ => some none

def section? (rendering : Option Layers) (props : Props) (name : String) : Option (List Sketch) := do
  match ← layoutAt render rendering (Fields.get? props name) with
  | some nodes => return [.element name none [] nodes]
  | none => return []

/-- The layers that a component renders in, if it renders layouts at all. -/
def rendering? (layers : Layers) (props : Props) : Option Layers := props.rendering?.map fun _ => layers

def follow (recipe : Recipe) (layers : Layers) (props : Props) (children : List Sketch) :
    Option Sketch := do
  match recipe with
  | .group key => return .fragment (some key) children
  | .text s => return .primitive (.string s)
  | .container tag attributes =>
    let rendering := rendering? layers props
    let rest := Fields.erase props Props.renderingName
    let (props, parts) ← attributes.foldlM (fun (props, parts) name => do
      match ← layoutAt render rendering (Fields.get? props name) with
      | some nodes => return (Fields.erase props name, parts ++ nodes)
      | none => return (Fields.erase props name, parts)) (rest, ([] : List Sketch))
    return .element tag none props (parts ++ children)
  | .card =>
    let rendering := rendering? layers props
    let props := Fields.erase props Props.renderingName
    let header ← section? render rendering props "header"
    let props := Fields.erase props "header"
    let footer ← section? render rendering props "footer"
    let props := Fields.erase props "footer"
    return .element "card" none props (header ++ [.element "body" none [] children] ++ footer)

/-- A component of a special type; one without a rendering does not depend on where it stands. -/
def special (layers : Layers) (c : Component) (props : Props) : Sketch :=
  .component none ((rendering? layers props).getD []) c

def build (target : Target) (layers : Layers) (props : Props) (children : List Sketch) :
    Option Sketch :=
  match target with
  | .special .conditional => some (special layers (.conditional props) props)
  | .special .forEach => some (special layers (.forEach props) props)
  | .special .slot => some (special layers (.slot props) props)
  | .special .fetch => some (.component none layers (.fetch ⟨props, 0, sc.transport⟩))
  | .constructor (.element tag) => some (.element tag none props children)
  | .constructor (.recipe _ recipe) => follow render recipe layers props children
  | .tag name => some (.element name none props children)

/-- The properties of a brick, with its rendering if it has one. -/
def outfit (layers : Layers) (b : Brick) (typeName : String) (target : Target)
    (dynamic : List String) : Props :=
  let props := sc.fixedProps layers b typeName dynamic
  if sc.renders typeName target then props.insert Props.renderingName (.rendering .echoed) else props

/-- A proxy for the marked properties. -/
def proxy (layers : Layers) (b : Brick) (typeName : String) (target : Target) : Proxy :=
  let (dynamic, depends) := parsed (Renderer.marked sc.config b b.expressions)
  { target, key := b.id?, fixed := sc.outfit layers b typeName target b.expressions, dynamic,
    scope := 0, children := b.children?, interpreter := 0, depends }

def brick (layers : Layers) (b : Brick) (typeName : String) (target : Target) : Option Sketch :=
  if b.expressions.isEmpty then do
    let nodes ← sc.children render layers b.children?
    let node ← sc.build render target layers (sc.outfit layers b typeName target []) nodes
    return node.withKey? b.id?
  else some (.component b.id? layers (.proxy (sc.proxy layers b typeName target)))

def node (layers : Layers) (v : Json) : Option (Option Sketch) :=
  match v with
  | .null => some none
  | .array _ => (tree render layers v).map fun children => some (.fragment none children)
  | .object fields =>
    match (Brick.mk fields).typeName? with
    | none => some none
    | some typeName =>
      match sc.target? typeName with
      | none => some none
      | some target =>
        if sc.allowed fields then (sc.brick render layers ⟨fields⟩ typeName target).map some else none
  | _ => some (some (.primitive v))

/-- Draws layouts in which values lie at most so deep in one another. -/
def upTo : Nat → Artist
  | 0 => fun _ _ => none
  | depth + 1 => fun layers v => sc.node (upTo depth) layers v

/-! ### Components -/

/-- The value of a marked property now, if it has one. -/
def current? (layers : Layers) (d : Dynamic) : Option Json := d.expr.bind (sc.evaluate? layers)

def proxyKids (layers : Layers) (p : Proxy) : Option (List Sketch) :=
  match p.dynamic.find? (·.name = "children") with
  | some d =>
    match sc.current? layers d with
    | some v => content render layers v
    | none => some []
  | none =>
    match p.children with
    | some layout => tree render layers layout
    | none => some []

/-- The properties with the values that the expressions have now. -/
def proxyProps (layers : Layers) (p : Proxy) : Props :=
  (p.dynamic.filter (·.name ≠ "children")).foldl (fun (props : Props) d =>
    match sc.current? layers d with
    | some v => props.insert d.name (.value v)
    | none => Fields.erase props d.name) p.fixed

def proxyNode (layers : Layers) (p : Proxy) : Option Sketch := do
  let children ← sc.proxyKids render layers p
  let node ← sc.build render p.target layers (sc.proxyProps layers p) children
  return node.withKey? p.key

/-- The layout under an attribute that is not null. -/
def under (layers : Layers) (p : Props) (name : String) : Option (List Sketch) :=
  match p.rendering?, p.value? name with
  | some _, some layout => tree render layers layout
  | _, _ => some []

def forEach (layers : Layers) (p : Props) : Option (List Sketch) :=
  match p.rendering?, p.value? "items", p.text? "as", p.value? "template" with
  | some _, some (.array items), some binding, some template =>
    (items.zip (ForEach.keys [] items 0)).mapM fun (item, key) =>
      (tree render ([(binding, item)] :: layers) template).map (.fragment (some key))
  | _, _, _, _ => some []

def slot (layers : Layers) (p : Props) : Option (List Sketch) :=
  match p.rendering?, Slot.layout? p with
  | some _, some layout => tree render layers layout
  | _, _ => some []

def bodyValue (layers : Layers) (raw : Json) : Json :=
  match raw.str?.bind bindingText? with
  | none => raw
  | some text => (sc.evaluateText? layers text).getD .null

/-- The fields of a body with one entry more, if that has a key or a name. -/
def bodyField (layers : Layers) (fields : List (String × Json)) (entry : Json) : List (String × Json) :=
  match ((entry.get? "key").or (entry.get? "name")).bind Json.str? with
  | some key => Fields.set fields key (sc.bodyValue layers ((entry.get? "value").getD .null))
  | none => fields

def body? (layers : Layers) (p : Props) : Option Json :=
  ((p.value? "body").bind Json.items?).map fun entries =>
    .object (entries.foldl (sc.bodyField layers) [])

def request? (layers : Layers) (p : Props) : Option Request :=
  (p.text? "url").map fun url =>
    let method := asciiUpper ((p.text? "method").getD "GET")
    { method, url, headers := p.filterMap fun (name, p) => Fetch.header? name p,
      body := if isMutating method then sc.body? layers p else none }

/-- The state of a request as soon as its brick is mounted. -/
def firstState (layers : Layers) (f : Fetch) : FetchState :=
  match sc.request? layers f.props with
  | none => .failed (.object [("message", .string Notice.noUrlText)])
  | some request =>
    if !f.transport then .failed Failure.unavailable.toJson
    else match sc.answer with
      | none => .pending
      | some outcome => .ofOutcome request.toJson outcome

def fetch (layers : Layers) (p : Props) (state : FetchState) : Option (List Sketch) :=
  match p.rendering? with
  | none => some []
  | some _ =>
    match state with
    | .pending => under render layers p (if (p.value? "loading").isSome then "loading" else "load")
    | state =>
      match Fetch.fork? p state with
      | some (layout, bindings) => tree render (bindings :: layers) layout
      | none => some []

/-- What a component renders when it has just been mounted. -/
def component (layers : Layers) : Component → Option (List Sketch)
  | .proxy p => (sc.proxyNode render layers p).map ([·])
  | .conditional props => under render layers props (Conditional.branch props)
  | .forEach props => forEach render layers props
  | .slot props => slot render layers props
  | .fetch f => if sc.fetches then fetch render layers f.props (sc.firstState layers f) else none
  | .probe _ _ | .plain _ => some []

/-- The request that a component sends when it is mounted. -/
def sent? (layers : Layers) : Component → Option Request
  | .fetch f => if f.transport then sc.request? layers f.props else none
  | _ => none

/-- What a sketch shows, in a tree at most so deep. -/
def picture : Nat → Sketch → Option Picture
  | 0, _ => none
  | depth + 1, k =>
    match k with
    | .primitive v => some (.primitive v)
    | .element tag key props children => (children.mapM (picture depth)).map (.element tag key props)
    | .fragment key children => (children.mapM (picture depth)).map (.fragment key)
    | .component _ layers c => do
      let nodes ← sc.component (sc.upTo depth) layers c
      let children ← nodes.mapM (picture depth)
      return .component (sc.sent? layers c) children

/-- What a layout shows, where layouts and trees are at most so deep. -/
def pictures (depth : Nat) (layers : Layers) (layout : Json) : Option (List Picture) := do
  (← tree (sc.upTo depth) layers layout).mapM (sc.picture depth)

end Scene
end LiveLayout
