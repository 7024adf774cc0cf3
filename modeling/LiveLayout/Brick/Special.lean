import LiveLayout.Brick.Basic
/-!
The bricks that control the flow of a layout instead of standing for an element.
-/
namespace LiveLayout

inductive Special where
  | conditional
  | forEach
  | fetch
  | slot
  deriving DecidableEq

namespace Special

def name : Special → String
  | .conditional => "If"
  | .forEach => "ForEach"
  | .fetch => "Fetch"
  | .slot => "Slot"

/-- Case and surrounding blanks do not count, and each kind has an older name. -/
def ofName? (typeName : String) : Option Special :=
  match String.ofList ((Text.trimChars typeName.toList).map Char.toLower) with
  | "if" | "ifclause" => some .conditional
  | "foreach" | "forloop" => some .forEach
  | "fetch" | "http" => some .fetch
  | "slot" | "fit" => some .slot
  | _ => none

theorem ofName?_name (kind : Special) : ofName? kind.name = some kind := by cases kind <;> rfl

/-- The attributes that hold layouts of their own. -/
def childAttributes : Special → List String
  | .conditional => ["then", "else"]
  | .forEach => ["template"]
  | .fetch => ["loading", "load", "success", "error"]
  | .slot => ["slots"]

/-- With the attribute that a slot names by `slotKey`. -/
def nestedAttributes (kind : Special) (fields : List (String × Json)) : List String :=
  match kind, (Fields.get? fields "slotKey").bind Json.str? with
  | .slot, some named =>
    if named = "" ∨ named ∈ kind.childAttributes then kind.childAttributes
    else kind.childAttributes ++ [named]
  | _, _ => kind.childAttributes

end Special
end LiveLayout
