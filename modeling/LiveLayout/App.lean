import LiveLayout.Host
/-!
Layouts mounted on named targets. Each target has one layout in one scope, rendered by an interpreter of
its own.
-/
namespace LiveLayout

open Engine

inductive AppError where
  | registration (cause : RegistrationError)
  | noTarget
  | noLayout
  | unknownTarget (target : String)
  | noHandler (key property : String)

def AppError.message : AppError → String
  | .registration cause => "invalid registration: " ++ cause.message
  | .noTarget => "a mount target is required to lay out a brick tree"
  | .noLayout => "a layout is required to mount"
  | .unknownTarget target => "nothing is mounted on target '" ++ target ++ "'"
  | .noHandler key property => Notice.noHandlerText key property

structure Mount where
  /-- The layout as annotated. -/
  layout : Json
  scope : Scope
  interpreter : Nat
  host : Host

structure App where
  config : Config := {}
  transport : Bool := false
  /-- Sorted by target. -/
  mounts : List (String × Mount) := []

def addInterpreter (config : Config) (transport : Bool) (source : Option HandlerSource) : Engine Nat :=
  modifyGet fun s =>
    (s.interpreters.length,
      { s with interpreters := s.interpreters ++ [{ config, transport, source }] })

/-- Changes the source of handlers; what it answered so far is forgotten. -/
def setHandlers (interpreter : Nat) (source : Option HandlerSource) : Engine Unit := modify fun s =>
  { s with interpreters := s.interpreters.modify interpreter fun r => { r with source, bound := [] } }

def renderTree (interpreter : Nat) (layout : Json) (scope : Scope) : Engine (List Node) :=
  Renderer.tree (Renderer.upTo Host.depthLimit) interpreter layout scope

namespace App

/-- An app with the given settings; one that asks for it turns the logging of every step on. -/
def make (config : Config) : Engine App := do
  if config.debug then modify fun s => { s with tracing := true }
  return { config }

def setDebug (a : App) (on : Bool) : Engine App := do
  modify fun s => { s with tracing := on }
  return { a with config := { a.config with debug := on } }

/-! ### Brick types -/

def changeRegistry (f : Registry → Except RegistrationError Registry) :
    Engine (Except AppError Unit) := do
  match f (← get).registry with
  | .ok registry =>
    modify fun s => { s with registry }
    return .ok ()
  | .error cause => return .error (.registration cause)

def register (name : String) (blueprint : Blueprint) (childAttributes : List String) :
    Engine (Except AppError Unit) := do
  match ← changeRegistry (·.register name blueprint childAttributes) with
  | .ok _ =>
    log (.registered (Text.trim name))
    return .ok ()
  | .error e => return .error e

/-- Registers elements in order, up to the first that is not valid. -/
def registerElements : List (String × String) → Engine (Except AppError Unit)
  | [] => return .ok ()
  | (name, tag) :: rest => do
    match ← register name (.element tag) [] with
    | .ok _ => registerElements rest
    | .error e => return .error e

/-- Forgets a type, and says whether it was known. -/
def unregister (name : String) : Engine Bool := do
  let known := ((← get).registry.resolve? name).isSome
  modify fun s => { s with registry := s.registry.unregister name }
  return known

/-! ### Targets -/

def find? (a : App) (target : String) : Except AppError Mount :=
  match Fields.get? a.mounts (Text.trim target) with
  | some m => .ok m
  | none => .error (.unknownTarget target)

def put (a : App) (target : String) (m : Mount) : App :=
  { a with mounts := Fields.insertSorted a.mounts (Text.trim target) m }

/-- Renders the layout of a target again, from the top. -/
def renderMount (m : Mount) : Engine Mount :=
  return { m with host := ← m.host.render (← renderTree m.interpreter m.layout m.scope) }

/-- Mounts a layout on a target, after unmounting what was there. -/
def mount (a : App) (layout : Json) (target : String) (scope : Scope) (source : HandlerSource) :
    Engine (App × Except AppError Unit) := do
  let target := Text.trim target
  if target = "" then return (a, .error .noTarget)
  if layout.isNull then return (a, .error .noLayout)
  match Fields.get? a.mounts target with
  | some previous =>
    log (.replacing target)
    previous.host.drop
  | none => pure ()
  let layout := annotate (← get).registry { keyPrefix := a.config.keyPrefix } layout
  let interpreter ← addInterpreter a.config a.transport (some source)
  let m ← renderMount { layout, scope, interpreter, host := ← Host.make }
  log (.layoutMounted target (Mounted.countAll m.host.roots))
  return (a.put target m, .ok ())

def unmount (a : App) (target : String) : Engine (App × Except AppError Unit) := do
  match a.find? target with
  | .error e => return (a, .error e)
  | .ok m =>
    m.host.drop
    log (.layoutUnmounted target)
    return ({ a with mounts := Fields.erase a.mounts (Text.trim target) }, .ok ())

def rerender (a : App) (target : String) : Engine (App × Except AppError Unit) := do
  match a.find? target with
  | .error e => return (a, .error e)
  | .ok m => return (a.put target (← renderMount m), .ok ())

/-- Changes the source of handlers of a target, and renders it again. -/
def setHandlers (a : App) (target : String) (source : HandlerSource) :
    Engine (App × Except AppError Unit) := do
  match a.find? target with
  | .error e => return (a, .error e)
  | .ok m =>
    LiveLayout.setHandlers m.interpreter (some source)
    return (a.put target (← renderMount m), .ok ())

/-- Renders what was invalidated on any target, and says how often that was done. -/
def flush (a : App) : Engine (App × Nat) := do
  let (mounts, count) ← a.mounts.foldlM (fun (mounts, count) (target, (m : Mount)) => do
    let (host, n) ← m.host.flush
    return (mounts ++ [(target, { m with host })], count + n)) (([] : List (String × Mount)), 0)
  return ({ a with mounts }, count)

def hasPending (a : App) : Engine Bool := a.mounts.anyM fun (_, m) => m.host.hasPending

/-- What a target shows. -/
def tree (a : App) (target : String) : Except AppError (List Output) :=
  (a.find? target).map fun m => Mounted.snapshot m.host.roots

/-- The handler of a property of the first element with the key. -/
def handler? (shown : List Output) (key property : String) : Option Handler :=
  ((Output.findAll? key shown).bind (·.prop? property)).bind Property.handler?

/-- Calls the handler of a property of the first element with the key. -/
def dispatch (a : App) (target key property : String) (args : List Json) :
    Engine (Except AppError Unit) := do
  match a.tree target with
  | .error e => return .error e
  | .ok shown =>
    match handler? shown key property with
    | none => return .error (.noHandler key property)
    | some h =>
      log (.dispatched key property target)
      call h args
      return .ok ()

end App
end LiveLayout
