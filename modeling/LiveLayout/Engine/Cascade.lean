import LiveLayout.Engine.State
import LiveLayout.Form
/-!
Writing variables. Whoever is subscribed to the variable hears of the new value at once, in the order
of subscription, and may write in turn.
-/
namespace LiveLayout.Engine

abbrev Writer := Scope → String → Json → Engine Unit

/-- One action of a call with the given arguments; scopes that are not known do not count. -/
def perform (write : Writer) (args : List Json) (a : Action) : Engine Unit := do
  if a.applies args then
    match Fields.get? (← get).scopes a.scope with
    | none => pure ()
    | some scope =>
      match a.effect with
      | .write path value => write scope path value
      | .writeArgument path index => write scope path (args[index]?.getD .null)
      | .subscribe listener name => modifyStore (·.subscribe scope name (.listener listener))
      | .unsubscribe listener name => modifyStore (·.unsubscribe scope name (.listener listener))

/-- Tells one subscriber of a variable's new value. -/
def notify (write : Writer) (name : String) (value : Json) : Subscriber → Engine Unit
  | .proxy target key => do
    trace (.invalidated key name)
    invalidate target
  | .listener who => do
    emit (.notify who name value)
    ((Fields.get? (← get).listeners who).getD []).forM (perform write [value])

/-- Writes a value at a dotted path. Whoever is subscribed when the value has been written hears of it,
even if it is unsubscribed meanwhile. The number bounds how deep writes may set off writes. -/
def setValue : Nat → Writer
  | 0 => fun _ _ _ => endless
  | depth + 1 => fun scope path value => do
    match Path.segments path with
    | [] => log .emptyPath
    | root :: rest =>
      let store := (← get).store
      let owner := store.owner scope root
      log (.written path value (((store.level? owner).map Level.label).getD ""))
      modifyStore (·.write scope root rest value)
      let store := (← get).store
      let current := (store.valueAt? owner root).getD .null
      (store.subscribersAt owner root).forM (notify (setValue depth) root current)

/-- Writes may set off writes this deep. -/
def cascadeLimit : Nat := 1000000

def set : Writer := setValue cascadeLimit

def call : Handler → List Json → Engine Unit
  | .user id actions, args => do
    emit (.call id args)
    actions.forM (perform set args)
  | .field hook path scope user, args => do
    match Form.extract? hook args with
    | some value => set scope path value
    | none => log (.noFieldValue hook path)
    match user with
    | some h => call h args
    | none => pure ()
  | .container form scope user, args => do
    call user (args ++ [(← get).store.readPath scope form])

end LiveLayout.Engine
