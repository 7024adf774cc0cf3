import LiveLayout.Proofs.Store.Scopes
/-!
What a scope sees, whatever its number: the bindings of its forks over the values of a root.
-/
namespace LiveLayout

/-- The bindings of forks, the nearest first. -/
abbrev Layers := List (List (String × Json))

namespace Layers

/-- The value of a name over the values of a root. -/
def lookup? (layers : Layers) (root : String → Option Json) (name : String) : Option Json :=
  (layers.findSome? (Fields.get? · name)).or (root name)

end Layers

namespace Store

variable {σ τ υ : Store} {scope k : Nat} {name : String}

def layers (s : Store) (scope : Scope) : Layers :=
  match s.level? scope with
  | none => []
  | some level =>
    match level.parent with
    | none => []
    | some parent => level.values :: if parent < scope then s.layers parent else []
termination_by scope

/-- The level at the end of the parents. -/
def root (s : Store) (scope : Scope) : Scope :=
  match s.level? scope with
  | none => scope
  | some level =>
    match level.parent with
    | none => scope
    | some parent => if parent < scope then s.root parent else scope
termination_by scope

theorem layers_root {level : Level} (h : σ.level? scope = some level) (hp : level.parent = none) :
    σ.layers scope = [] := by
  rw [layers]
  simp [h, hp]

theorem root_root {level : Level} (h : σ.level? scope = some level) (hp : level.parent = none) :
    σ.root scope = scope := by
  rw [root]
  simp [h, hp]

theorem layers_fork {level : Level} {parent : Nat} (h : σ.level? scope = some level)
    (hp : level.parent = some parent) (hlt : parent < scope) :
    σ.layers scope = level.values :: σ.layers parent := by
  rw [layers]
  simp [h, hp, hlt]

theorem root_fork {level : Level} {parent : Nat} (h : σ.level? scope = some level)
    (hp : level.parent = some parent) (hlt : parent < scope) : σ.root scope = σ.root parent := by
  rw [root]
  simp [h, hp, hlt]

/-- A scope sees what its forks bind, and beneath them the values of its root. -/
theorem lookup?_eq_layers (σ : Store) (scope : Nat) (name : String) :
    σ.lookup? scope name = (σ.layers scope).lookup? (σ.valueAt? (σ.root scope)) name := by
  induction scope using Nat.strongRecOn with
  | ind scope ih =>
    cases h : σ.level? scope with
    | none =>
      rw [lookup?, owner, layers, root]
      simp [h, Layers.lookup?]
    | some level =>
      cases hp : level.parent with
      | none => simp [lookup?, owner_root h hp, layers_root h hp, root_root h hp, Layers.lookup?]
      | some parent =>
        by_cases hlt : parent < scope
        · rw [lookup?_of_fork h hp hlt, ih parent hlt, layers_fork h hp hlt, root_fork h hp hlt]
          cases hv : Fields.get? level.values name <;> simp [Layers.lookup?, hv]
        · rw [lookup?, owner, layers, root]
          cases hv : Fields.get? level.values name <;>
            simp [h, hp, hlt, Layers.lookup?, valueAt?, hv]

theorem KeepsScopes.root_eq (h : σ.KeepsScopes τ) (hscope : scope < σ.levels.size) :
    τ.root scope = σ.root scope := by
  induction scope using Nat.strongRecOn with
  | ind scope ih =>
    obtain ⟨a, ha⟩ := exists_level? hscope
    obtain ⟨b, hb, hab⟩ := h scope a ha
    rw [root.eq_def τ, root.eq_def σ, ha, hb]
    simp only [hab.parent]
    cases a.parent with
    | none => rfl
    | some parent =>
      dsimp only
      split
      · exact ih parent ‹_› (Nat.lt_trans ‹_› hscope)
      · rfl

/-- The forks of a store are still there as they were, and its roots are still roots. -/
def KeepsForks (σ τ : Store) : Prop :=
  ∀ k level, σ.level? k = some level → ∃ level', τ.level? k = some level' ∧
    level'.parent = level.parent ∧ (level.parent ≠ none → level'.values = level.values)

theorem KeepsValues.keepsForks (h : σ.KeepsValues τ) : σ.KeepsForks τ := by
  intro k a ha
  obtain ⟨b, hb, hp, hv⟩ := h k a ha
  exact ⟨b, hb, hp, fun _ => hv⟩

namespace KeepsForks

theorem refl (σ : Store) : σ.KeepsForks σ := fun _ level h => ⟨level, h, rfl, fun _ => rfl⟩

theorem trans (h : σ.KeepsForks τ) (h' : τ.KeepsForks υ) : σ.KeepsForks υ := by
  intro k a ha
  obtain ⟨b, hb, hp, hv⟩ := h k a ha
  obtain ⟨c, hc, hp', hv'⟩ := h' k b hb
  exact ⟨c, hc, hp'.trans hp, fun hne => (hv' (by rw [hp]; exact hne)).trans (hv hne)⟩

theorem keepsScopes (h : σ.KeepsForks τ) : σ.KeepsScopes τ := by
  intro k a ha
  obtain ⟨b, hb, hp, hv⟩ := h k a ha
  exact ⟨b, hb, hp, fun _ hpa _ _ => by rw [hv (by simp [hpa])]⟩

theorem layers_eq (h : σ.KeepsForks τ) (hscope : scope < σ.levels.size) :
    τ.layers scope = σ.layers scope := by
  induction scope using Nat.strongRecOn with
  | ind scope ih =>
    obtain ⟨a, ha⟩ := exists_level? hscope
    obtain ⟨b, hb, hp, hv⟩ := h scope a ha
    rw [layers.eq_def τ, layers.eq_def σ, ha, hb]
    simp only [hp]
    cases hpa : a.parent with
    | none => rfl
    | some parent =>
      simp only [hv (by simp [hpa])]
      split
      · rw [ih parent ‹_› (Nat.lt_trans ‹_› hscope)]
      · rfl

end KeepsForks

theorem root_le (σ : Store) (scope : Nat) : σ.root scope ≤ scope := by
  fun_induction root σ scope with
  | case3 _ _ _ _ _ hlt ih => exact Nat.le_trans ih (Nat.le_of_lt hlt)
  | _ => exact Nat.le_refl _

/-- A new fork binds its names over what its parent sees. -/
theorem layers_push (σ : Store) (label : String) (bindings : List (String × Json)) {parent : Nat}
    (h : parent < σ.levels.size) :
    (Store.mk (σ.levels.push { label, values := bindings, parent := some parent })).layers
      σ.levels.size = bindings :: σ.layers parent := by
  rw [layers_fork (by rw [level?_push, if_pos rfl]) rfl h,
    (KeepsValues.push σ _).keepsForks.layers_eq h]

theorem root_push (σ : Store) (label : String) (bindings : List (String × Json)) {parent : Nat}
    (h : parent < σ.levels.size) :
    (Store.mk (σ.levels.push { label, values := bindings, parent := some parent })).root
      σ.levels.size = σ.root parent := by
  rw [root_fork (by rw [level?_push, if_pos rfl]) rfl h,
    (KeepsValues.push σ _).keepsScopes.root_eq h]

end Store
end LiveLayout
