import LiveLayout.Proofs.Fetching.Records
import LiveLayout.Proofs.Forking.Depths
import LiveLayout.Proofs.Forking.Entries
import LiveLayout.Proofs.Unmarked.Pictures
/-!
What the bricks that fork show: for each binding, what their body shows in a fork of the scope, and nothing
that is drawn in the scope itself.
-/
namespace LiveLayout

/-- The component of a special brick, as a scene has it. -/
def Special.component (transport : Bool) (props : Props) : Special → Component
  | .conditional => .conditional props
  | .forEach => .forEach props
  | .slot => .slot props
  | .fetch => .fetch ⟨props, 0, transport⟩

namespace Scene

variable {sc : Scene} {layers : Layers} {b : Brick} {typeName around : String} {kind : Special} {props : Props}
  {out : List Json × List Request}

/-! ### Reports -/

/-- Reports one after the other. -/
def joined (outs : List (List Json × List Request)) : List Json × List Request :=
  (outs.flatMap (·.1), outs.flatMap (·.2))

end Scene

/-! ### Fetching -/

namespace Scene

variable {sc : Scene} {layers : Layers} {around : String} {props : Props} {out : List Json × List Request}

end Scene
end LiveLayout
