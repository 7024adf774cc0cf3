import LiveLayout.Engine.Delivery
import LiveLayout.Render.Interpreter
/-!
The hooks of components: what happens when one is mounted, receives a new description of itself, renders
and is unmounted.
-/
namespace LiveLayout

open Engine

namespace Proxy

def changeSubscriptions (p : Proxy) (f : Store → Scope → String → Subscriber → Store) :
    Engine Unit :=
  match p.subscriber with
  | some who => p.depends.forM fun name => modifyStore (f · p.scope name who)
  | none => pure ()

def mount (p : Proxy) (self : Instance) : Engine Proxy := do
  let p := { p with subscriber := some (.proxy self p.key) }
  p.changeSubscriptions Store.subscribe
  trace (.subscribed p.key p.depends)
  return p

def unmount (p : Proxy) : Engine Unit :=
  match p.subscriber with
  | some _ => do
    p.changeSubscriptions Store.unsubscribe
    trace (.unsubscribed p.key)
  | none => pure ()

/-- Whether two proxies stand for the same brick: the same target and the same expressions. -/
def sameBrick (p q : Proxy) : Bool :=
  p.target == q.target &&
    p.dynamic.map (fun d => (d.name, d.text)) == q.dynamic.map (fun d => (d.name, d.text))

/-- Takes all but the syntax trees and the subscriber from another proxy for the same brick. In another
scope it subscribes anew. -/
def receive? (p q : Proxy) : Engine (Option Proxy) := do
  if !p.sameBrick q then return none
  let next := { q with dynamic := p.dynamic, depends := p.depends, subscriber := p.subscriber }
  if p.scope ≠ q.scope then
    p.changeSubscriptions Store.unsubscribe
    next.changeSubscriptions Store.subscribe
  return some next

/-- The value of an expression now, if it has one. -/
def evaluate? (p : Proxy) (d : Dynamic) : Engine (Option Json) := do
  match d.expr with
  | none => return none
  | some e =>
    match (← get).store.evaluate p.scope e with
    | .ok v => return some v
    | .error cause =>
      log (.leftUnset d.name p.key cause)
      return none

/-- The children from the expression for them, if there is one, or else as the brick gives them. -/
def kids (render : Renderer) (p : Proxy) : Engine (List Node) := do
  match p.dynamic.find? (·.name = "children") with
  | some d =>
    match ← p.evaluate? d with
    | some v => Renderer.content render p.interpreter v p.scope
    | none => return []
  | none =>
    match p.children with
    | some layout => Renderer.tree render p.interpreter layout p.scope
    | none => return []

/-- The brick's node with its expressions evaluated; a property whose expression fails is left out. -/
def node (render : Renderer) (p : Proxy) : Engine Node := do
  let props ← (p.dynamic.filter (·.name ≠ "children")).foldlM (fun (props : Props) d => do
    match ← p.evaluate? d with
    | some v => return props.insert d.name (.value v)
    | none => return Fields.erase props d.name) p.fixed
  let children ← p.kids render
  let transport := (← Renderer.interpreter? p.interpreter).transport
  let node ← Renderer.build render p.target props children p.scope transport
  return node.withKey? p.key

end Proxy

/-- The layout under an attribute that is not null, rendered. -/
def Props.render (render : Renderer) (p : Props) (name : String) : Engine (List Node) := do
  match p.rendering?, p.value? name with
  | some r, some layout => Renderer.kids render r layout none
  | _, _ => return []

namespace Conditional

/-- The attribute that is rendered. -/
def branch (p : Props) : String :=
  if (p.value? "condition").any Json.truthy then "then"
  else if (p.value? "else").isSome then "else"
  else "elseif"

end Conditional

namespace ForEach

/-- The key of an element's fragment: from the element's own id or key, or from its position. -/
def itemKey (item : Json) (index : Nat) : String :=
  match (item.get? "id").or (item.get? "key") with
  | some (.string s) => if s = "" then "#" ++ toString index else "#" ++ s
  | some (.number n) => "#" ++ n.text
  | _ => "#" ++ toString index

/-- The keys of the fragments. A key that an element before has falls back on the position. -/
def keys (seen : List String) : List Json → Nat → List String
  | [], _ => []
  | item :: rest, index =>
    let key := itemKey item index
    (if key ∈ seen then "#" ++ toString index ++ "@dup" else key) :: keys (key :: seen) rest (index + 1)

/-- One fragment for each element, in a scope of its own that binds the element. -/
def render (render : Renderer) (p : Props) : Engine (List Node) := do
  match p.rendering?, p.value? "items", p.text? "as", p.value? "template" with
  | some r, some (.array items), some binding, some template =>
    (items.zip (keys [] items 0)).mapM fun (item, key) => do
      return .fragment (some key)
        (← Renderer.kids render r template (some ("ForEach", [(binding, item)])))
  | _, _, _, _ => return []

end ForEach

namespace Slot

/-- The layout that is rendered: under the attribute that `slotKey` names, or else the entry of `slots`
that `slot` names. -/
def layout? (p : Props) : Option Json :=
  match p.text? "slotKey" with
  | some name => p.value? name
  | none => do
    let name ← p.text? "slot"
    let slots ← p.value? "slots"
    (slots.get? name).filter (!·.isNull)

def render (render : Renderer) (p : Props) : Engine (List Node) := do
  match p.rendering?, layout? p with
  | some r, some layout => Renderer.kids render r layout none
  | _, _ => return []

end Slot

namespace Fetch

/-- The header that a property stands for, if it stands for one. -/
def header? (name : String) (p : Property) : Option (String × String) :=
  match name.toList with
  | 'h' :: 'e' :: 'a' :: 'd' :: 'e' :: 'r' :: '-' :: rest =>
    match rest, p.value? with
    | [], _ | _, none | _, some .null => none
    | rest, some v => some (String.ofList rest, v.display)
  | _ => none

/-- The value of an entry of a body; an expression that fails counts as null. -/
def bodyValue (scope : Scope) (raw : Json) : Engine Json := do
  match raw.str?.bind bindingText? with
  | none => return raw
  | some text =>
    match (← get).store.evaluateText scope text with
    | .ok v => return v
    | .error e =>
      log (.bodyValueFailed text e)
      return .null

/-- The body made of entries with a key or name and a value. -/
def body? (f : Fetch) : Engine (Option Json) := do
  match (f.props.value? "body").bind Json.items? with
  | none => return none
  | some entries =>
    let fields ← entries.foldlM (fun fields entry => do
      match ((entry.get? "key").or (entry.get? "name")).bind Json.str? with
      | some key =>
        return Fields.set fields key (← bodyValue f.scope ((entry.get? "value").getD .null))
      | none =>
        log (.bodyEntryWithoutKey entry)
        return fields) []
    return some (.object fields)

/-- The request, if there is a url to send it to. -/
def request? (f : Fetch) : Engine (Option Request) := do
  match f.props.text? "url" with
  | none => return none
  | some url =>
    let method := asciiUpper ((f.props.text? "method").getD "GET")
    let headers := f.props.filterMap fun (name, p) => header? name p
    let body ← if isMutating method then f.body? else pure none
    return some { method, url, headers, body }

/-- Sends the one request of this mount, or fails without one. -/
def mount (f : Fetch) (self : Instance) : Engine Unit := do
  putFetch ⟨self, .pending, true⟩
  let fail (error : Json) : Engine Unit := putFetch ⟨self, .failed error, true⟩
  match ← f.request? with
  | none =>
    log .fetchWithoutUrl
    fail (.object [("message", .string Notice.noUrlText)])
  | some request =>
    if !f.transport then
      log (.fetchSkipped request.url)
      fail Failure.unavailable.toJson
    else
      log (.fetching request.method request.url)
      send request ⟨self, request.toJson⟩

/-- The bindings that a state brings, and the layout to be rendered with them. -/
def fork? (p : Props) : FetchState → Option (Json × List (String × Json))
  | .pending => none
  | .succeeded response data =>
    (p.value? "success").map fun layout =>
      let bindings := [((p.text? "as").getD "response", response)]
      (layout, match p.text? "data-as" with
        | some name => Fields.set bindings name data
        | none => bindings)
  | .failed error =>
    (p.value? "error").map fun layout => (layout, [((p.text? "error-as").getD "error", error)])

def render (render : Renderer) (f : Fetch) (self : Instance) : Engine (List Node) := do
  let state := ((← fetchRecord? self).map FetchRecord.state).getD .pending
  match f.props.rendering? with
  | none => return []
  | some r =>
    match state with
    | .pending => f.props.render render (if (f.props.value? "loading").isSome then "loading" else "load")
    | state =>
      match fork? f.props state with
      | some (layout, bindings) => Renderer.kids render r layout (some ("Fetch", bindings))
      | none => return []

/-- An answer that comes later is not wanted any more. -/
def unmount (self : Instance) : Engine Unit := do
  match ← fetchRecord? self with
  | some r => putFetch { r with alive := false }
  | none => pure ()

end Fetch

namespace Probe

def render (p : Probe) (self : Instance) : Engine Unit := do
  emit (.render p.name)
  let renders := (Fields.get? (← get).probeRenders p.name).getD 0
  if renders < p.spin then invalidate self
  modify fun s => { s with probeRenders := Fields.set s.probeRenders p.name (renders + 1) }

/-- Invalidates the probes of the given names that have been mounted. -/
def poke (names : List String) : Engine Unit :=
  names.forM fun name => do
    match Fields.get? (← get).probes name with
    | some i => invalidate i
    | none => pure ()

end Probe

namespace Component

def mount (self : Instance) : Component → Engine Component
  | .proxy p => return .proxy (← p.mount self)
  | .fetch f => do
    f.mount self
    return .fetch f
  | .probe p kids => do
    emit (.mount p.name)
    modify fun s => { s with probes := Fields.set s.probes p.name self }
    return .probe p kids
  | c => return c

/-- The component as the next one describes it, or nothing if it refuses to become that. -/
def receive? : Component → Component → Engine (Option Component)
  | .proxy p, .proxy q => return (← p.receive? q).map .proxy
  | .conditional _, .conditional props => return some (.conditional props)
  | .forEach _, .forEach props => return some (.forEach props)
  | .slot _, .slot props => return some (.slot props)
  | .fetch f, .fetch g => return some (.fetch { g with transport := f.transport })
  | .probe p _, next => do
    if p.refuse then
      emit (.refuse p.name)
      return none
    match next with
    | .probe q kids =>
      emit (.receive p.name)
      return some (.probe { q with name := p.name } kids)
    | _ =>
      emit (.mismatch p.name)
      return none
  | _, _ => return none

def render (render : Renderer) (self : Instance) : Component → Engine (List Node)
  | .proxy p => return [← p.node render]
  | .conditional props => props.render render (Conditional.branch props)
  | .forEach props => ForEach.render render props
  | .slot props => Slot.render render props
  | .fetch f => f.render render self
  | .probe p kids => do
    p.render self
    return kids
  | .plain kids => do
    emit .renderPlain
    return kids

def unmount (self : Instance) : Component → Engine Unit
  | .proxy p => p.unmount
  | .fetch _ => Fetch.unmount self
  | .probe p _ => do
    emit (.unmount p.name)
    Probe.poke p.pokes
  | _ => pure ()

end Component
end LiveLayout
