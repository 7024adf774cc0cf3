import LiveLayout.Path
import LiveLayout.Store.Subscriber
/-!
Variables. A store is a row of levels: roots, and forks that bind some names over a parent. A fork owns
the names that it binds, and a root owns every name that no fork on the way to it binds. Reading,
writing and subscribing all happen at the owner.
-/
namespace LiveLayout

structure Level where
  label : String
  values : List (String × Json)
  subscribers : List (String × List Subscriber) := []
  parent : Option Nat

/-- A scope is the number of a level. -/
abbrev Scope := Nat

structure Store where
  levels : Array Level := #[]

namespace Store

def level? (s : Store) (scope : Scope) : Option Level := s.levels[scope]?

/-- The nearest level that binds the name, else the root. A parent always comes before its forks. -/
def owner (s : Store) (scope : Scope) (name : String) : Scope :=
  match s.level? scope with
  | none => scope
  | some level =>
    match level.parent with
    | none => scope
    | some parent =>
      if Fields.has level.values name then scope
      else if parent < scope then s.owner parent name
      else scope
termination_by scope

def modify (s : Store) (scope : Scope) (f : Level → Level) : Store := ⟨s.levels.modify scope f⟩

def valueAt? (s : Store) (scope : Scope) (name : String) : Option Json :=
  (s.level? scope).bind fun level => Fields.get? level.values name

def lookup? (s : Store) (scope : Scope) (name : String) : Option Json :=
  s.valueAt? (s.owner scope name) name

def subscribersAt (s : Store) (scope : Scope) (name : String) : List Subscriber :=
  ((s.level? scope).bind fun level => Fields.get? level.subscribers name).getD []

/-- Each subscriber is listed once, in the order of subscription. -/
def subscribe (s : Store) (scope : Scope) (name : String) (who : Subscriber) : Store :=
  s.modify (s.owner scope name) fun level =>
    let list := (Fields.get? level.subscribers name).getD []
    { level with
      subscribers := Fields.set level.subscribers name (if who ∈ list then list else list ++ [who]) }

def unsubscribe (s : Store) (scope : Scope) (name : String) (who : Subscriber) : Store :=
  s.modify (s.owner scope name) fun level =>
    match Fields.get? level.subscribers name with
    | none => level
    | some list =>
      match list.filter (· ≠ who) with
      | [] => { level with subscribers := Fields.erase level.subscribers name }
      | rest => { level with subscribers := Fields.set level.subscribers name rest }

def addRoot (s : Store) (values : List (String × Json)) : Scope × Store :=
  (s.levels.size, ⟨s.levels.push { label := "root", values, parent := none }⟩)

/-- A root for a value: its entries if it is an object, and nothing otherwise. -/
def addRootOf (s : Store) (v : Json) : Scope × Store := s.addRoot (v.fields?.getD [])

def fork (s : Store) (parent : Scope) (label : String) (bindings : List (String × Json)) :
    Scope × Store :=
  (s.levels.size, ⟨s.levels.push { label, values := bindings, parent := some parent }⟩)

/-- Puts a value at a path below a variable, and tells nobody. -/
def write (s : Store) (scope : Scope) (root : String) (rest : List String) (value : Json) : Store :=
  s.modify (s.owner scope root) fun level =>
    { level with values := Path.writeEntry value root rest level.values }

/-- How many subscribers a name has where it lives. -/
def subscriberCount (s : Store) (scope : Scope) (name : String) : Nat :=
  (s.subscribersAt (s.owner scope name) name).length

/-- How many subscriptions a level holds. -/
def totalSubscriptions (s : Store) (scope : Scope) : Nat :=
  (((s.level? scope).map Level.subscribers).getD []).foldr (fun e n => e.2.length + n) 0

/-- The value at a dotted path, null where there is none. -/
def readPath (s : Store) (scope : Scope) (path : String) : Json :=
  match Path.segments path with
  | [] => .null
  | root :: rest => ((s.lookup? scope root).bind (Path.read? · rest)).getD .null

end Store
end LiveLayout
