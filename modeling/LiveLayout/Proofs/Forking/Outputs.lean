import LiveLayout.Proofs.Forking.Bricks
import LiveLayout.Proofs.Unmarked.Hosts
/-!
What the bricks that fork show in a host: their body once for each binding, in a fork of the scope.
-/
namespace LiveLayout

open Engine

namespace Brick

variable {b : Brick} {σ : Store} {scope : Scope} {name : String}

/-- Nothing but its own entries gives a brick the properties of the names, its rendering or its children. -/
structure Plain (r : Registry) (config : Config) (b : Brick) (typeName : String) (names : List String) : Prop where
  own : ∀ name ∈ names, b.Own r config typeName name
  rendering : ∀ mark ∈ b.expressions, Renderer.rename config mark ≠ Props.renderingName
  classAttribute : config.classAttribute ≠ "children"

instance (r : Registry) (config : Config) (b : Brick) (typeName : String) (names : List String) :
    Decidable (b.Plain r config typeName names) :=
  decidable_of_iff ((∀ name ∈ names, b.Own r config typeName name) ∧
      (∀ mark ∈ b.expressions, Renderer.rename config mark ≠ Props.renderingName) ∧
      config.classAttribute ≠ "children")
    ⟨fun ⟨hown, hrendering, hclass⟩ => ⟨hown, hrendering, hclass⟩, fun h => ⟨h.own, h.rendering, h.classAttribute⟩⟩

end Brick

namespace Host

open Mounted

variable {s : State} {i : Nat} {r : Interpreter} {scope : Scope} {layout : Json} {around : String}
  {out : List Json × List Request} {b : Brick} {typeName : String}

end Host

namespace Props

variable {p q : Props} {name : String}

end Props

namespace Host

variable {s : State} {i : Nat} {r : Interpreter} {scope : Scope} {around : String} {out : List Json × List Request}
  {b : Brick} {typeName : String} {kind : Special} {p q : Props}

def answered : Brick where
  fields := [("type", .string "Fetch"), ("url", .string "/items"), ("as", .string "x"),
    ("success", .object [("type", .string "p"), ("id", .string "t"), ("children", .string "\x7bx.data\x7d"),
      ("_expressions", .array [.string "children"])]), ("id", .string "brick-1")]

end Host
end LiveLayout
