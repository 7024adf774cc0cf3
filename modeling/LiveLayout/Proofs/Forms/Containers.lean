import LiveLayout.Proofs.Forms.Handlers
import Mathlib.Data.List.Nodup
/-!
What the hook of a form container sees. Fields with different names below one form write beside each other,
so the value of the form holds what was found last for each of them.
-/
namespace LiveLayout

namespace Store

variable {σ : Store} {base scope : Scope} {root : String} {rest : List String} {form : String}

/-- The scope is the given one, or a fork over it that does not bind the name. -/
inductive Overlays (σ : Store) (name : String) (base : Scope) : Scope → Prop where
  | base : Overlays σ name base base
  | fork {scope parent : Scope} {level : Level} (found : σ.level? scope = some level)
      (link : level.parent = some parent) (before : parent < scope) (free : Fields.has level.values name = false)
      (rest : Overlays σ name base parent) : Overlays σ name base scope

theorem Overlays.owner_eq (h : σ.Overlays root base scope) : σ.owner scope root = σ.owner base root := by
  induction h with
  | base => rfl
  | fork found link before free _ ih => rw [owner_fork found link before, if_neg (by simp [free]), ih]

theorem Overlays.lt_size (h : σ.Overlays root base scope) (hbase : base < σ.levels.size) :
    scope < σ.levels.size := by
  cases h with
  | base => exact hbase
  | fork found => exact lt_size_of_level? found

/-- What a scope reads at the segments of a path. -/
def readSegments? (σ : Store) (scope : Scope) : List String → Option Json
  | [] => none
  | root :: rest => (σ.lookup? scope root).bind (Path.read? · rest)

theorem lookup?_write (hbase : base < σ.levels.size)
    (howner : σ.owner scope root = σ.owner base root) (rest : List String) (v : Json) :
    (σ.write scope root rest v).lookup? base root =
      some (Path.write v rest ((σ.lookup? base root).getD .null)) := by
  have hsize : σ.owner scope root < σ.levels.size := by
    rw [howner]
    exact owner_lt_size hbase root
  unfold lookup?
  rw [(keepsScopes_write σ scope root rest v).owner_eq hbase, ← howner]
  exact valueAt?_write hsize rest v

end Store

namespace Form

variable {form name root : String} {rest : List String}

/-- A form field, and the scope that it is rendered in. -/
structure Field where
  brick : Brick
  scope : Scope

namespace Field

def name? (f : Field) : Option String := f.brick.name?.or f.brick.id?

end Field

namespace FieldCall

variable {fields : List Field}

end FieldCall

namespace Tracks

variable {fields : List Field} {base : Scope} {s s' : State}

end Tracks

variable {fields : List Field} {base : Scope} {s : State}

end Form
end LiveLayout
