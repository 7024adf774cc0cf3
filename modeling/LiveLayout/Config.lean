import LiveLayout.Json.Basic
/-!
Settings of an app.
-/
namespace LiveLayout

structure Config where
  /-- Generated ids are this text, a hyphen and a number. -/
  keyPrefix : String := "brick"
  /-- What the property `class` is called on elements. -/
  classAttribute : String := "className"
  /-- Whether bricks of unknown types with a capital letter become elements. -/
  passUnknown : Bool := false
  /-- Whether every step of rendering is logged. -/
  debug : Bool := false
  deriving DecidableEq

namespace Config

def settingNames : List String := ["key_prefix", "class_attribute", "passthrough_unknown", "debug"]

/-- One setting, read from its value. -/
def setting? (c : Config) : String → Json → Option Config
  | "key_prefix", .string s => some { c with keyPrefix := s }
  | "class_attribute", .string s => some { c with classAttribute := s }
  | "passthrough_unknown", .bool b => some { c with passUnknown := b }
  | "debug", .bool b => some { c with debug := b }
  | name, _ => if name ∈ settingNames then none else some c

/-- Settings by name, where unknown names do not count, or in order. What is missing has its default. -/
def ofJson? : Json → Option Config
  | .object fields => fields.foldlM (fun c (name, v) => c.setting? name v) {}
  | .array items =>
    if items.length ≤ settingNames.length then
      (settingNames.zip items).foldlM (fun c (name, v) => c.setting? name v) {}
    else none
  | _ => none

end Config
end LiveLayout
