import LiveLayout.Path
import LiveLayout.Registry
/-!
Where a form field keeps its value, and where its handlers find a new one.
-/
namespace LiveLayout.Form

/-- The path of a field: below its form, if that has a name that is not blank. -/
def fieldPath (form : Option String) (field : String) : String :=
  match form with
  | some f => if Text.trim f = "" then field else Text.trim f ++ "." ++ field
  | none => field

/-- The new value among the arguments of a handler's call. -/
def extract? (hook : HookArgument) (args : List Json) : Option Json :=
  match args[hook.index]?, hook.field with
  | some arg, some path => Path.readAt? arg path
  | some arg, none => some arg
  | none, _ => none

end LiveLayout.Form
