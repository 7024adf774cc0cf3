import LiveLayout.Store.Basic
import Mathlib.Tactic.Common
/-!
Which level a name belongs to. A store that goes on from another keeps its levels, their parents and the
names that forks bind, so that every scope resolves every name as before.
-/
namespace LiveLayout

/-- Two states of a level that resolve names in the same way: with the same parent and, for a fork, the
same bound names. -/
structure Level.SameNames (k : Nat) (a b : Level) : Prop where
  parent : b.parent = a.parent
  names : ∀ parent, a.parent = some parent → parent < k →
    ∀ x, Fields.has b.values x = Fields.has a.values x

theorem Level.SameNames.refl (k : Nat) (a : Level) : a.SameNames k a := ⟨rfl, fun _ _ _ _ => rfl⟩

namespace Store

variable {σ τ υ : Store} {scope k : Nat} {name : String}

theorem level?_modify (σ : Store) (k : Nat) (f : Level → Level) (j : Nat) :
    (σ.modify k f).level? j = if k = j then (σ.level? j).map f else σ.level? j := by
  simp [level?, modify, Array.getElem?_modify]

@[simp] theorem size_modify (σ : Store) (k : Nat) (f : Level → Level) :
    (σ.modify k f).levels.size = σ.levels.size := by
  simp [modify]

theorem level?_eq_none_iff : σ.level? k = none ↔ σ.levels.size ≤ k := by
  simp [level?]

theorem lt_size_of_level? {level : Level} (h : σ.level? k = some level) : k < σ.levels.size := by
  by_contra hk
  rw [level?_eq_none_iff.2 (by omega)] at h
  cases h

theorem exists_level? (h : k < σ.levels.size) : ∃ level, σ.level? k = some level :=
  ⟨_, Array.getElem?_eq_getElem h⟩

theorem owner_root {level : Level} (h : σ.level? scope = some level) (hp : level.parent = none)
    (name : String) : σ.owner scope name = scope := by
  rw [owner]
  simp [h, hp]

theorem owner_fork {level : Level} {parent : Scope} (h : σ.level? scope = some level)
    (hp : level.parent = some parent) (hlt : parent < scope) (name : String) :
    σ.owner scope name = if Fields.has level.values name then scope else σ.owner parent name := by
  rw [owner]
  simp [h, hp, hlt]

theorem owner_le (σ : Store) (scope : Nat) (name : String) : σ.owner scope name ≤ scope := by
  fun_induction owner σ scope name with
  | case4 _ _ _ _ _ _ hlt ih => exact Nat.le_trans ih (Nat.le_of_lt hlt)
  | _ => exact Nat.le_refl _

theorem owner_lt_size (h : scope < σ.levels.size) (name : String) :
    σ.owner scope name < σ.levels.size :=
  Nat.lt_of_le_of_lt (σ.owner_le scope name) h

/-- The levels of a store are still there, and stand for the same names. -/
def KeepsScopes (σ τ : Store) : Prop :=
  ∀ k level, σ.level? k = some level → ∃ level', τ.level? k = some level' ∧ level.SameNames k level'

namespace KeepsScopes

theorem refl (σ : Store) : σ.KeepsScopes σ := fun k level h => ⟨level, h, .refl k level⟩

theorem trans (h : σ.KeepsScopes τ) (h' : τ.KeepsScopes υ) : σ.KeepsScopes υ := by
  intro k a ha
  obtain ⟨b, hb, hab⟩ := h k a ha
  obtain ⟨c, hc, hbc⟩ := h' k b hb
  refine ⟨c, hc, hbc.parent.trans hab.parent, fun p hp hlt x => ?_⟩
  rw [hbc.names p (hab.parent.trans hp) hlt, hab.names p hp hlt]

theorem size_le (h : σ.KeepsScopes τ) : σ.levels.size ≤ τ.levels.size := by
  by_contra hlt
  obtain ⟨a, ha⟩ := exists_level? (σ := σ) (k := τ.levels.size) (by omega)
  obtain ⟨b, hb, -⟩ := h _ a ha
  exact absurd (lt_size_of_level? hb) (Nat.lt_irrefl _)

theorem lt_size (h : σ.KeepsScopes τ) (hk : k < σ.levels.size) : k < τ.levels.size :=
  Nat.lt_of_lt_of_le hk h.size_le

theorem modify (σ : Store) (k : Nat) {f : Level → Level}
    (h : ∀ a, σ.level? k = some a → Level.SameNames k a (f a)) : σ.KeepsScopes (σ.modify k f) := by
  intro j a ha
  rw [level?_modify, ha]
  by_cases hk : k = j
  · subst hk
    exact ⟨f a, by simp, h a ha⟩
  · exact ⟨a, by simp [hk], .refl j a⟩

theorem owner_eq (h : σ.KeepsScopes τ) (hscope : scope < σ.levels.size) :
    τ.owner scope name = σ.owner scope name := by
  induction scope using Nat.strongRecOn with
  | ind scope ih =>
    obtain ⟨a, ha⟩ := exists_level? hscope
    obtain ⟨b, hb, hab⟩ := h scope a ha
    rw [owner.eq_def τ, owner.eq_def σ, ha, hb]
    simp only [hab.parent]
    cases hp : a.parent with
    | none => rfl
    | some parent =>
      by_cases hlt : parent < scope
      · simp only [hab.names parent hp hlt, hlt, if_true, ih parent hlt (Nat.lt_trans hlt hscope)]
      · simp [hlt]

end KeepsScopes

/-- The levels of a store are still there, with the same values. -/
def KeepsValues (σ τ : Store) : Prop :=
  ∀ k level, σ.level? k = some level →
    ∃ level', τ.level? k = some level' ∧ level'.parent = level.parent ∧ level'.values = level.values

namespace KeepsValues

theorem refl (σ : Store) : σ.KeepsValues σ := fun _ level h => ⟨level, h, rfl, rfl⟩

theorem trans (h : σ.KeepsValues τ) (h' : τ.KeepsValues υ) : σ.KeepsValues υ := by
  intro k a ha
  obtain ⟨b, hb, hp, hv⟩ := h k a ha
  obtain ⟨c, hc, hp', hv'⟩ := h' k b hb
  exact ⟨c, hc, hp'.trans hp, hv'.trans hv⟩

theorem keepsScopes (h : σ.KeepsValues τ) : σ.KeepsScopes τ := by
  intro k a ha
  obtain ⟨b, hb, hp, hv⟩ := h k a ha
  exact ⟨b, hb, hp, fun _ _ _ _ => by rw [hv]⟩

theorem valueAt?_eq (h : σ.KeepsValues τ) (hscope : scope < σ.levels.size) :
    τ.valueAt? scope = σ.valueAt? scope := by
  funext name
  obtain ⟨a, ha⟩ := exists_level? hscope
  obtain ⟨b, hb, -, hv⟩ := h _ a ha
  simp [valueAt?, ha, hb, hv]

theorem modify (σ : Store) (k : Nat) {f : Level → Level}
    (h : ∀ a, (f a).parent = a.parent ∧ (f a).values = a.values) : σ.KeepsValues (σ.modify k f) := by
  intro j a ha
  rw [level?_modify, ha]
  by_cases hk : k = j
  · exact ⟨f a, by simp [hk], h a⟩
  · exact ⟨a, by simp [hk], rfl, rfl⟩

end KeepsValues

/-! ### Forks -/

theorem level?_push (σ : Store) (level : Level) (k : Nat) :
    (Store.mk (σ.levels.push level)).level? k =
      if k = σ.levels.size then some level else σ.level? k := by
  simp [level?, Array.getElem?_push]

theorem level?_push_of_lt (level : Level) (h : k < σ.levels.size) :
    (Store.mk (σ.levels.push level)).level? k = σ.level? k := by
  rw [level?_push, if_neg (by omega)]

theorem KeepsValues.push (σ : Store) (level : Level) :
    σ.KeepsValues ⟨σ.levels.push level⟩ := by
  intro k a ha
  exact ⟨a, by rw [level?_push_of_lt level (lt_size_of_level? ha), ha], rfl, rfl⟩

/-- A fork sees its bindings, and beneath them what its parent sees. -/
theorem lookup?_of_fork {level : Level} {parent : Scope} (h : σ.level? k = some level)
    (hp : level.parent = some parent) (hlt : parent < k) (name : String) :
    σ.lookup? k name = (Fields.get? level.values name).or (σ.lookup? parent name) := by
  unfold lookup?
  rw [owner_fork h hp hlt]
  cases hv : Fields.get? level.values name with
  | none => simp [Fields.has, hv]
  | some v => simp [Fields.has, hv, valueAt?, h]

end Store
end LiveLayout
