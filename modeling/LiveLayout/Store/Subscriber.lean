/-!
Who wants to hear of changes to a variable.
-/
namespace LiveLayout

/-- One mounted component of one host. -/
structure Instance where
  host : Nat
  id : Nat
  deriving DecidableEq

inductive Subscriber where
  /-- A mounted proxy, which is invalidated; its key serves to name it. -/
  | proxy (target : Instance) (key : Option String)
  /-- A listener with a name, which runs its actions. -/
  | listener (name : String)
  deriving DecidableEq

end LiveLayout
