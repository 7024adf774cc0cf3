import LiveLayout.Proofs.Unmarked.Props
import LiveLayout.Store.Evaluate
/-!
The properties that a component finds, as the entries of its brick with the expressions among them evaluated,
be these marked or in place.
-/
namespace LiveLayout

/-- The value of an entry in a scope. An expression stands for its value, and has none when it fails. -/
def Store.settle? (σ : Store) (scope : Scope) : Json → Option Json
  | .string raw =>
    match bindingText? raw with
    | none => some (.string raw)
    | some text => (σ.evaluateText scope text).toOption
  | v => some v

/-- The entries of a brick as properties, with the values that they have in a scope. -/
def Brick.evaluated (b : Brick) (σ : Store) (scope : Scope) : Props :=
  b.fields.filterMap fun e => (σ.settle? scope e.2).map fun v => (e.1, .value v)

/-- Nothing but the entry of the name becomes a property of that name: no hook of forms and no class. -/
structure Brick.Own (r : Registry) (config : Config) (b : Brick) (typeName name : String) : Prop where
  hooks : r.hooks typeName name = false
  entries : ∀ e ∈ b.fields, Renderer.rename config e.1 = name → e.1 = name

instance (r : Registry) (config : Config) (b : Brick) (typeName name : String) :
    Decidable (b.Own r config typeName name) :=
  decidable_of_iff (r.hooks typeName name = false ∧
      ∀ e ∈ b.fields, Renderer.rename config e.1 = name → e.1 = name)
    ⟨fun ⟨hhooks, hentries⟩ => ⟨hhooks, hentries⟩, fun h => ⟨h.hooks, h.entries⟩⟩

namespace Scene

variable {sc : Scene} {layers : Layers} {b : Brick} {typeName name : String} {target : Target}

def settle? (sc : Scene) (layers : Layers) : Json → Option Json
  | .string raw => sc.inline? layers raw
  | v => some v

/-- The properties of a brick's node, with its expressions evaluated. -/
def settled (sc : Scene) (layers : Layers) (b : Brick) (typeName : String) (target : Target) : Props :=
  b.fields.foldl (sc.setMarked layers b.expressions) (sc.outfit layers b typeName target b.expressions)

theorem settled_of_unmarked (h : b.expressions = []) :
    sc.settled layers b typeName target = sc.outfit layers b typeName target [] := by
  have hkeep : ∀ props, b.fields.foldl (sc.setMarked layers []) props = props := by
    intro props
    induction b.fields with
    | nil => rfl
    | cons e rest ih => exact ih
  rw [settled, h, hkeep]

theorem settled_eq_proxyProps :
    sc.settled layers b typeName target = sc.proxyProps layers (sc.proxy layers b typeName target) :=
  (proxyProps_eq sc layers b typeName target).symm

end Scene
end LiveLayout
