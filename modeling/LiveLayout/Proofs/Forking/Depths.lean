import LiveLayout.Proofs.Mounting.Shown
/-!
What is drawn once enough depth is allowed. Drawings only become defined with more depth, so what is made of
several of them is drawn at some depth just when each of them is.
-/
namespace LiveLayout

/-- The value at all depths from some depth on. -/
def Eventually {α : Type} (f : Nat → Option α) (a : α) : Prop := ∃ depth, f depth = some a

/-- More depth does not change what is defined. -/
def Deepens {α : Type} (f : Nat → Option α) : Prop := ∀ d d', d ≤ d' → Defines (f d) (f d')

namespace Deepens

variable {α β : Type} {f : Nat → Option α}

theorem map (hf : Deepens f) (g : α → β) : Deepens fun d => (f d).map g := fun d d' hd => (hf d d' hd).map g

theorem mapM {f : Nat → α → Option β} (hf : ∀ a, Deepens (f · a)) (xs : List α) : Deepens fun d => xs.mapM (f d) :=
  fun d d' hd => .mapM xs fun a _ => hf a d d' hd

theorem succ (hf : Deepens f) : Deepens fun d => f (d + 1) := fun _ _ hd => hf _ _ (Nat.succ_le_succ hd)

end Deepens

namespace Eventually

variable {α β : Type} {f g : Nat → Option α} {a : α} {b : β}

/-- Two calculations that bound each other come to the same. -/
theorem congr {f g : Nat → Option α} (hfg : ∀ d, Defines (f d) (g d)) (hgf : ∀ d, Defines (g d) (f (d + 1))) :
    Eventually f a ↔ Eventually g a :=
  ⟨fun ⟨d, hd⟩ => ⟨d, hfg d a hd⟩, fun ⟨d, hd⟩ => ⟨d + 1, hgf d a hd⟩⟩

end Eventually

namespace Scene

variable (sc : Scene)

/-- The pictures of a layout, at whatever depth suffices for them. -/
def Draws (layers : Layers) (layout : Json) (ps : List Picture) : Prop := Eventually (sc.pictures · layers layout) ps

variable {sc}

end Scene
end LiveLayout
