import LiveLayout.Command.Arguments
import LiveLayout.Command.Help
import LiveLayout.Json.Reader
import LiveLayout.Standard
/-!
Rendering a layout from files: mount it, set variables, call handlers, and print the tree.
-/
namespace LiveLayout.Command

open Engine

inductive RunError where
  | unreadable (file : String)
  | notJson (file : String)
  | badConfig (file : String)
  | noAssignment (raw : String)
  | noVariable (raw : String)
  | noDispatch (raw : String)
  | badArguments (raw : String)
  | app (cause : AppError)
  | endless

def RunError.message : RunError → String
  | .unreadable file => "cannot read " ++ file
  | .notJson file => file ++ " is not valid JSON"
  | .badConfig file => "invalid config in " ++ file
  | .noAssignment raw => "expected NAME=VALUE, got '" ++ raw ++ "'"
  | .noVariable raw => "missing variable name in '" ++ raw ++ "'"
  | .noDispatch raw => "expected KEY:PROP[=ARGS], got '" ++ raw ++ "'"
  | .badArguments raw => "bad arguments in '" ++ raw ++ "'"
  | .app cause => cause.message
  | .endless => "the layout goes on without end"

/-- The contents of files by name; nothing for one that cannot be read. -/
abbrev Files := String → Option String

def readJson (files : Files) (file : String) : Except RunError Json :=
  match files file with
  | none => .error (.unreadable file)
  | some text =>
    match Json.read? text with
    | some v => .ok v
    | none => .error (.notJson file)

/-- A variable and its value, which is a string if it is not JSON. -/
def assignment (raw : String) : Except RunError (String × Json) :=
  match Arguments.cut '=' raw with
  | (_, none) => .error (.noAssignment raw)
  | (name, some value) =>
    if Text.trim name = "" then .error (.noVariable raw)
    else .ok (Text.trim name, (Json.read? value).getD (.string value))

/-- A key, a property and the arguments of a call; a value that is no array is the only argument. -/
def event (raw : String) : Except RunError (String × String × List Json) :=
  let (target, args) := Arguments.cut '=' raw
  match Arguments.cut ':' target with
  | (_, none) => .error (.noDispatch raw)
  | (key, some property) => do
    let args ← match args with
      | none => .ok []
      | some text =>
        match Json.read? text with
        | some (.array items) => .ok items
        | some v => .ok [v]
        | none => .error (.badArguments raw)
    return (Text.trim key, Text.trim property, args)

def target : String := "main"

/-- A step that may go wrong in one of the ways of this command. -/
abbrev Step := ExceptT RunError Engine

def checked (run : Engine (Except AppError Unit)) : Step Unit := do
  match ← run with
  | .ok _ => pure ()
  | .error cause => throw (.app cause)

/-- Mounts a layout, sets variables and calls handlers, and renders what changed. -/
def play (config : Config) (layout values : Json) (a : Arguments) : Step (List Output) := do
  let app ← App.make config
  let app := { app with transport := true }
  checked App.registerStandard
  let scope ← (modifyGet fun s =>
    let (scope, store) := s.store.addRootOf values
    (scope, { s with store }) : Engine Scope)
  let (app, mounted) ← app.mount layout target scope .anything
  checked (pure mounted)
  for raw in a.assignments do
    let (name, v) ← (liftM (assignment raw) : ExceptT RunError Engine (String × Json))
    Engine.set scope name v
  let (app, _) ← app.flush
  let app ← a.dispatches.foldlM (fun (app : App) raw => do
    let (key, property, args) ← (liftM (event raw) : ExceptT RunError Engine _)
    checked (app.dispatch target key property args)
    let (app, _) ← app.flush
    return app) app
  match app.tree target with
  | .ok shown => return shown
  | .error cause => throw (.app cause)

/-- What the command prints. -/
def execute (files : Files) (a : Arguments) : Except RunError String := do
  let config ← match a.config with
    | none => .ok {}
    | some file =>
      match Config.ofJson? (← readJson files file) with
      | some c => .ok c
      | none => .error (.badConfig file)
  let config := { config with debug := config.debug || a.debug }
  let layout ← readJson files (a.layout.getD "")
  let values ← match a.scope with
    | some file => readJson files file
    | none => .ok (.object [])
  match (play config layout values a).run {} with
  | none => .error .endless
  | some (result, _) =>
    let shown ← result
    return if a.json then Json.pretty 0 (.array (Output.toJsonAll shown)) ++ "\n"
      else Output.outlineAll 0 shown

/-- What a run of the command leaves: an exit code, its output, and why it failed. -/
structure Result where
  code : Nat
  output : String
  error : Option String := none

/-- A run of the program of the given name. -/
def run (program : String) (files : Files) (args : List String) : Result :=
  match Arguments.read {} args with
  | .error .rejected => ⟨2, "", none⟩
  | .error .help => ⟨0, Help.text program, none⟩
  | .error .version => ⟨0, Help.version program, none⟩
  | .ok a =>
    if a.layout.isNone then ⟨2, "", none⟩
    else match execute files a with
      | .ok output => ⟨0, output, none⟩
      | .error e => ⟨1, "", some e.message⟩

/-- The files that a command line names. -/
def filesOf (args : List String) : List String :=
  match Arguments.read {} args with
  | .ok a => [a.config, a.layout, a.scope].filterMap id
  | .error _ => []

end LiveLayout.Command
