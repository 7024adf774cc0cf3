import LiveLayout.Annotate
import LiveLayout.Config
import LiveLayout.Engine.Notice
import LiveLayout.Output
/-!
All that layouts share while they are mounted: variables, brick types, what waits to be rendered again,
requests under way, and a record of what happened.
-/
namespace LiveLayout

/-- What users of layouts, listeners and probes get to see, in order. -/
inductive Event where
  | lookup (handler : String)
  | call (handler : String) (args : List Json)
  | notify (listener name : String) (value : Json)
  | kids (tree : Json) (fork : Option (String × List (String × Json)))
  | mount (probe : String)
  | refuse (probe : String)
  | mismatch (probe : String)
  | receive (probe : String)
  | render (probe : String)
  | renderPlain
  | unmount (probe : String)

/-- The components of a host that wait to be rendered again, and the last number it gave out. -/
structure HostRecord where
  id : Nat
  queue : List Nat := []
  lastId : Nat := 0

/-- A request is made once and answered at most once. -/
inductive FetchState where
  | pending
  | succeeded (response data : Json)
  | failed (error : Json)

/-- The state that an answer leaves behind; a layout sees the request beside it. -/
def FetchState.ofOutcome (request : Json) : Outcome → FetchState
  | .ok r => .succeeded (.object [("status", .nat r.status), ("statusText", .string r.statusText),
      ("config", request), ("data", r.data)]) r.data
  | .error f => .failed f.toJson

structure FetchRecord where
  owner : Instance
  state : FetchState
  alive : Bool

/-- Where the answer to a request goes. -/
structure Completion where
  owner : Instance
  /-- The request, as the layout will see it. -/
  request : Json

structure Network where
  /-- The answer that every request gets at once, if any. -/
  immediate : Option Outcome := none
  /-- All requests so far. -/
  requests : List Request := []
  /-- The completions that wait for an answer, by the number of their request. -/
  waiting : List (Nat × Completion) := []

/-- Renders layouts with one configuration and one source of handlers. -/
structure Interpreter where
  config : Config
  transport : Bool
  source : Option HandlerSource
  /-- What the source answered so far. -/
  bound : List (String × Option Handler) := []

structure State where
  store : Store := {}
  registry : Registry := {}
  hosts : List HostRecord := []
  hostCount : Nat := 0
  fetches : List FetchRecord := []
  interpreters : List Interpreter := []
  network : Network := {}
  /-- Whether every step of rendering is logged. -/
  tracing : Bool := false
  scopes : List (String × Scope) := []
  listeners : List (String × List Action) := []
  probes : List (String × Instance) := []
  probeRenders : List (String × Nat) := []
  /-- Latest first. -/
  notices : List Notice := []
  /-- Latest first. -/
  events : List Event := []

/-- A step of the engine. It has no result when something goes on without end: a layout that contains
itself, or a listener that writes what it listens to. -/
abbrev Engine := StateT State Option

namespace Engine

/-- The step that goes on without end. -/
def endless {α : Type} : Engine α := fun _ => none

def log (n : Notice) : Engine Unit := modify fun s => { s with notices := n :: s.notices }

/-- Logs a step of rendering, if that is wanted. -/
def trace (n : Notice) : Engine Unit := do if (← get).tracing then log n

def emit (e : Event) : Engine Unit := modify fun s => { s with events := e :: s.events }

def modifyStore (f : Store → Store) : Engine Unit := modify fun s => { s with store := f s.store }

def modifyHost (host : Nat) (f : HostRecord → HostRecord) : Engine Unit := modify fun s =>
  { s with hosts := s.hosts.map fun h => if h.id = host then f h else h }

def host? (host : Nat) : Engine (Option HostRecord) := return (← get).hosts.find? (·.id = host)

/-- Queues a component to be rendered again; nothing happens when its host is gone. -/
def invalidate (i : Instance) : Engine Unit :=
  modifyHost i.host fun h => { h with queue := h.queue ++ [i.id] }

/-- The number of a component that is about to be mounted; no number is given out twice. -/
def nextInstance (host : Nat) : Engine Instance := do
  modifyHost host fun h => { h with lastId := h.lastId + 1 }
  return ⟨host, ((← host? host).map HostRecord.lastId).getD 0⟩

def forkScope (scope : Scope) (label : String) (bindings : List (String × Json)) : Engine Scope :=
  modifyGet fun s =>
    let (scope, store) := s.store.fork scope label bindings
    (scope, { s with store })

end Engine
end LiveLayout
