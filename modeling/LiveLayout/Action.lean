import LiveLayout.Json.Basic
/-!
What handlers and listeners do when they are called.
-/
namespace LiveLayout

inductive Effect where
  /-- Writes a fixed value at a path. -/
  | write (path : String) (value : Json)
  /-- Writes an argument of the call at a path, or null if there are fewer. -/
  | writeArgument (path : String) (index : Nat)
  | subscribe (listener : String) (name : String)
  | unsubscribe (listener : String) (name : String)

/-- An effect on the scope of a name, perhaps only for calls whose first argument is a given value. -/
structure Action where
  condition : Option Json
  scope : String
  effect : Effect

def Action.applies (a : Action) (args : List Json) : Bool :=
  match a.condition with
  | none => true
  | some v => args.head?.any (v.same ·)

/-- Where the functions of a layout's handlers are found. -/
inductive HandlerSource where
  /-- Handlers by id, with their actions. -/
  | table (handlers : List (String × List Action))
  /-- A handler for every id, which does nothing. -/
  | anything

def HandlerSource.find? (s : HandlerSource) (id : String) : Option (List Action) :=
  match s with
  | .table handlers => Fields.get? handlers id
  | .anything => some []

end LiveLayout
