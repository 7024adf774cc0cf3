import LiveLayout.Json.Printer
import LiveLayout.Node
/-!
What a mounted tree shows: elements and primitives only. The key of an element starts with the keys of
the fragments around it.
-/
namespace LiveLayout

inductive Output where
  | primitive (v : Json)
  | element (tag : String) (key : Option String) (props : Props) (children : List Output)

instance : Inhabited Output := ⟨.primitive .null⟩

namespace Mounted

def scopedKey (around key : String) : String := if around = "" then key else around ++ "/" ++ key

mutual

def flatten (around : String) : Mounted → List Output
  | .primitive v => [.primitive v]
  | .element tag key props children =>
    [.element tag (key.map (scopedKey around)) props (flattenAll around children)]
  | .component _ _ _ _ children => flattenAll around children
  | .fragment (some key) children => flattenAll (scopedKey around key) children
  | .fragment none children => flattenAll around children

def flattenAll (around : String) : List Mounted → List Output
  | [] => []
  | m :: rest => flatten around m ++ flattenAll around rest

end

/-- What a list of mounted nodes shows. -/
def snapshot (roots : List Mounted) : List Output := flattenAll "" roots

mutual

def count : Mounted → Nat
  | .primitive _ => 0
  | .element _ _ _ children => countAll children
  | .component _ _ _ _ children => 1 + countAll children
  | .fragment _ children => countAll children

/-- How many components are mounted. -/
def countAll : List Mounted → Nat
  | [] => 0
  | m :: rest => m.count + countAll rest

end

mutual

def renders? (key : String) : Mounted → Option Nat
  | .primitive _ => none
  | .element _ _ _ children => rendersIn? key children
  | .component _ k _ n children => if k = some key then some n else rendersIn? key children
  | .fragment _ children => rendersIn? key children

/-- How often the first component with the key has rendered. -/
def rendersIn? (key : String) : List Mounted → Option Nat
  | [] => none
  | m :: rest => (m.renders? key).or (rendersIn? key rest)

end

end Mounted

namespace Output

mutual

def text : Output → String
  | .primitive v => v.display
  | .element _ _ _ children => textAll children

/-- The texts of the primitives, joined. -/
def textAll : List Output → String
  | [] => ""
  | o :: rest => o.text ++ textAll rest

end

mutual

def toJson : Output → Json
  | .primitive v => v
  | .element tag key props children =>
    .object ([("tag", .string tag)] ++
      (match key with
        | some k => [("key", .string k)]
        | none => []) ++
      (if props.isEmpty then [] else [("props", .object (props.map fun (k, p) => (k, p.toJson)))]) ++
      (if children.isEmpty then [] else [("children", .array (toJsonAll children))]))

def toJsonAll : List Output → List Json
  | [] => []
  | o :: rest => o.toJson :: toJsonAll rest

end

mutual

def find? (key : String) : Output → Option Output
  | .primitive _ => none
  | .element tag k props children =>
    if k = some key then some (.element tag k props children) else findAll? key children

/-- The first element with the key, each element before what is in it. -/
def findAll? (key : String) : List Output → Option Output
  | [] => none
  | o :: rest => (o.find? key).or (findAll? key rest)

end

def prop? (o : Output) (name : String) : Option Property :=
  match o with
  | .primitive _ => none
  | .element _ _ props _ => Fields.get? props name

def openTag (tag : String) (key : Option String) (props : Props) : String :=
  let shown := match key with
    | some k => tag ++ " key=\"" ++ k ++ "\""
    | none => tag
  props.foldl (fun s (name, p) => match p.toJson with
    | .string v => s ++ " " ++ name ++ "=\"" ++ v ++ "\""
    | v => s ++ " " ++ name ++ "=" ++ v.text) shown

mutual

def outline (level : Nat) : Output → String
  | .primitive v => Json.indentation level ++ v.text ++ "\n"
  | .element tag key props [] => Json.indentation level ++ "<" ++ openTag tag key props ++ "/>\n"
  | .element tag key props (child :: rest) =>
    Json.indentation level ++ "<" ++ openTag tag key props ++ ">\n" ++
      child.outline (level + 1) ++ outlineAll (level + 1) rest ++
      Json.indentation level ++ "</" ++ tag ++ ">\n"

/-- One line per primitive and per tag, indented by two blanks a level. -/
def outlineAll (level : Nat) : List Output → String
  | [] => ""
  | o :: rest => o.outline level ++ outlineAll level rest

end

end Output
end LiveLayout
