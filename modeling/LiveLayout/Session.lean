import LiveLayout.Standard
/-!
An app and a bare host beside it, over shared variables and one transport, driven step by step.
-/
namespace LiveLayout

open Engine

structure Session where
  app : App
  host : Host
  /-- The interpreter of the bare host, once it was needed. -/
  interpreter : Option Nat := none

namespace Session

/-- Whether requests can be sent, and the answer they get at once, if any. -/
structure Line where
  connected : Bool := true
  immediate : Option Outcome := none

def connect (s : Session) (line : Line) : Engine Session := do
  modify fun st => { st with network := { st.network with immediate := line.immediate } }
  return { s with app := { s.app with transport := line.connected } }

/-- A session over root variables by name, and listeners with their actions. -/
def start (config : Config) (roots : List (String × Json)) (listeners : List (String × List Action))
    (line : Line) : Engine Session := do
  modify fun s => { s with listeners }
  roots.forM fun (name, v) => modify fun s =>
    let (scope, store) := s.store.addRootOf v
    { s with store, scopes := Fields.set s.scopes name scope }
  let app ← App.make config
  let host ← Host.make
  connect { app, host } line

def scope? (name : String) : Engine (Option Scope) := return Fields.get? (← get).scopes name

/-- Names a fork of a scope. -/
def fork (parent : Scope) (name label : String) (bindings : List (String × Json)) : Engine Unit := do
  let scope ← forkScope parent label bindings
  modify fun s => { s with scopes := Fields.set s.scopes name scope }

/-! ### The bare host -/

/-- The interpreter of the bare host, which is made when it is first needed. -/
def need (s : Session) (source : Option HandlerSource) : Engine (Session × Nat) := do
  match s.interpreter with
  | some i => return (s, i)
  | none =>
    let i ← addInterpreter s.app.config s.app.transport source
    return ({ s with interpreter := some i }, i)

def renderNodes (s : Session) (nodes : List Node) : Engine Session :=
  return { s with host := ← s.host.render nodes }

/-- Renders a layout into the bare host. -/
def render (s : Session) (layout : Json) (scope : Scope) (prepare : Bool)
    (source : Option HandlerSource) : Engine Session := do
  let registry := (← get).registry
  let layout := if prepare then annotate registry {} layout else layout
  let (s, i) ← s.need source
  s.renderNodes (← renderTree i layout scope)

def flush (s : Session) : Engine (Session × Nat) := do
  let (host, n) ← s.host.flush
  return ({ s with host }, n)

def clear (s : Session) : Engine Session := return { s with host := ← s.host.clear }

/-- Drops the bare host and its interpreter, and starts with a new one. -/
def reset (s : Session) : Engine Session := do
  s.host.drop
  return { s with host := ← Host.make, interpreter := none }

/-- Invalidates the probes of the given names. -/
def poke (names : List String) : Engine Unit := Probe.poke names

/-- Calls a handler of the bare host, and says whether there is one. -/
def callHandler (s : Session) (key property : String) (args : List Json) : Engine Bool := do
  match App.handler? (Mounted.snapshot s.host.roots) key property with
  | some h =>
    call h args
    return true
  | none => return false

/-- Forgets what happened so far, and tells it in order. -/
def takeRecords : Engine (List Event × List Notice) := modifyGet fun s =>
  ((s.events.reverse, s.notices.reverse), { s with events := [], notices := [] })

end Session
end LiveLayout
