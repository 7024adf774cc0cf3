import LiveLayout.Brick.Special
import LiveLayout.Json.Printer
import LiveLayout.Registry
/-!
Preparing a layout for rendering. Every brick that can be reached gets an id, the list of its
properties that are expressions, and, if it is a form field, the name of the form around it.
-/
namespace LiveLayout.Annotate

structure Options where
  keyPrefix : String := "brick"
  formName : Option String := none

/-- The number of the last generated id, and every id that is taken. -/
structure Ids where
  count : Nat
  taken : List String

/-- A pass over a part of a layout, which may hand out ids. -/
abbrev Pass := StateM Ids

/-- The text of an id that may stay. -/
def usableId? : Option Json → Option String
  | some (.string s) => if s = "" then none else some s
  | some (.number n) => some n.text
  | _ => none

mutual

/-- Every text or number that stands under `id`, wherever it is. -/
def collectIds : Json → List String
  | .array items => collectItemIds items
  | .object fields => (match Fields.get? fields "id" with
      | some (.string s) => [s]
      | some (.number n) => [n.text]
      | _ => []) ++ collectFieldIds fields
  | _ => []

def collectItemIds : List Json → List String
  | [] => []
  | v :: rest => collectIds v ++ collectItemIds rest

def collectFieldIds : List (String × Json) → List String
  | [] => []
  | (_, v) :: rest => collectIds v ++ collectFieldIds rest

end

def candidate (keyPrefix : String) (n : Nat) : String := keyPrefix ++ "-" ++ toString n

/-- The next generated id that is free. Among one more candidates than ids are taken, one is. -/
def freshId (keyPrefix : String) : Pass String := fun ids =>
  let free (i : Nat) : Bool := candidate keyPrefix (ids.count + 1 + i) ∉ ids.taken
  let n := ids.count + 1 + ((List.range (ids.taken.length + 1)).find? free).getD 0
  let id := candidate keyPrefix n
  (id, ⟨n, id :: ids.taken⟩)

def identify (keyPrefix : String) (fields : List (String × Json)) : Pass (List (String × Json)) := do
  match usableId? (Fields.get? fields "id") with
  | some id => return Fields.set fields "id" (.string id)
  | none => return Fields.set fields "id" (.string (← freshId keyPrefix))

/-- The names of the properties that hold expressions now. -/
def expressionNames (fields : List (String × Json)) : List String :=
  (fields.filter fun e => isDynamicCandidate e.1 && (e.2.str?.any isBinding)).map (·.1)

def markExpressions (fields : List (String × Json)) : List (String × Json) :=
  match expressionNames fields with
  | [] => Fields.swapErase fields "_expressions"
  | names => Fields.set fields "_expressions" (.array (names.map .string))

/-- Whether a form field takes over the name of the form around it. -/
def takesForm (registry : Registry) (typeName : String) (fields : List (String × Json)) : Bool :=
  (registry.field? typeName).isSome && !((Brick.mk fields).form?.any (· ≠ ""))

/-- The form that the layouts inside a brick belong to. -/
def innerForm (registry : Registry) (typeName : String) (fields : List (String × Json))
    (form : Option String) : Option String :=
  match (Brick.mk fields).name? with
  | some name => if (registry.container? typeName).isSome then some name else form
  | none => form

/-- The attributes of a brick that hold layouts, in the order in which they are visited. -/
def nestedAttributes (registry : Registry) (typeName : String) (fields : List (String × Json)) :
    List String :=
  let own := match Special.ofName? typeName with
    | some kind => kind.nestedAttributes fields
    | none => ((registry.resolve? typeName).map BrickType.childAttributes).getD []
  ("children" :: own).eraseDups

/-- What is to be done with a value once the form around it is known. -/
abbrev Visit := Option String → Pass Json

/-- Replaces the entries named by what their visits yield, in the order of the names. -/
def visitNamed (visits : List (String × Visit)) (form : Option String) :
    List String → List (String × Json) → Pass (List (String × Json))
  | [], fields => pure fields
  | name :: rest, fields =>
    match Fields.get? visits name with
    | some visit => do visitNamed visits form rest (Fields.set fields name (← visit form))
    | none => visitNamed visits form rest fields

/-- A brick, given the visits of its entries. The annotation's own entries are not visited. -/
def brick (registry : Registry) (options : Options) (typeName : String)
    (fields : List (String × Json)) (visits : List (String × Visit)) (form : Option String) :
    Pass (List (String × Json)) := do
  let fields ← identify options.keyPrefix fields
  let fields := markExpressions fields
  let inner := innerForm registry typeName fields form
  let stamp := if takesForm registry typeName fields then form else none
  let stamped := match stamp with
    | some name => Fields.set fields "form" (.string name)
    | none => fields
  let own := if stamp.isSome then ["id", "_expressions", "form"] else ["id", "_expressions"]
  let nested := (nestedAttributes registry typeName stamped).filter (· ∉ own)
  visitNamed visits inner nested stamped

/-- The entries of an object without a type, each visited in turn. -/
def group : List (String × Visit) → Option String → Pass (List (String × Json))
  | [], _ => pure []
  | (name, visit) :: rest, form => do
    let v ← visit form
    let vs ← group rest form
    pure ((name, v) :: vs)

mutual

def value (registry : Registry) (options : Options) : Json → Visit
  | .array items => fun form => return .array (← values registry options items form)
  | .object fields => fun form =>
    match (Brick.mk fields).typeName? with
    | some typeName =>
      return .object (← brick registry options typeName fields (entries registry options fields) form)
    | none => return .object (← group (entries registry options fields) form)
  | v => fun _ => pure v

def values (registry : Registry) (options : Options) : List Json → Option String → Pass (List Json)
  | [], _ => pure []
  | v :: rest, form => do
    let w ← value registry options v form
    let ws ← values registry options rest form
    pure (w :: ws)

def entries (registry : Registry) (options : Options) : List (String × Json) → List (String × Visit)
  | [] => []
  | (name, v) :: rest => (name, value registry options v) :: entries registry options rest

end

end Annotate

/-- The layout with every brick in it annotated. -/
def annotate (registry : Registry) (options : Annotate.Options) (layout : Json) : Json :=
  (Annotate.value registry options layout options.formName
    ⟨0, Annotate.collectIds layout⟩).1

end LiveLayout
