import LiveLayout.Proofs.Fields
import LiveLayout.Proofs.Store.Scopes
/-!
The subscribers of every name at every level, after subscribing and unsubscribing.
-/
namespace LiveLayout.Store

variable {σ τ : Store} {scope k : Nat} {name : String} {who : Subscriber}

/-- No level has two lists of subscribers for one name. -/
def Tidy (σ : Store) : Prop := ∀ k level, σ.level? k = some level → (level.subscribers.map (·.1)).Nodup

theorem subscribersAt_of_level? {level : Level} (h : σ.level? k = some level) (name : String) :
    σ.subscribersAt k name = (Fields.get? level.subscribers name).getD [] := by
  simp [subscribersAt, h]

theorem keepsValues_subscribe (σ : Store) (scope : Nat) (name : String) (who : Subscriber) :
    σ.KeepsValues (σ.subscribe scope name who) := .modify σ _ fun _ => ⟨rfl, rfl⟩

theorem keepsValues_unsubscribe (σ : Store) (scope : Nat) (name : String) (who : Subscriber) :
    σ.KeepsValues (σ.unsubscribe scope name who) := by
  refine .modify σ _ fun level => ?_
  split
  · exact ⟨rfl, rfl⟩
  · split <;> exact ⟨rfl, rfl⟩

@[simp] theorem size_subscribe (σ : Store) (scope : Nat) (name : String) (who : Subscriber) :
    (σ.subscribe scope name who).levels.size = σ.levels.size := size_modify ..

@[simp] theorem size_unsubscribe (σ : Store) (scope : Nat) (name : String) (who : Subscriber) :
    (σ.unsubscribe scope name who).levels.size = σ.levels.size := size_modify ..

theorem subscribersAt_subscribe (hscope : scope < σ.levels.size) (name : String) (who : Subscriber)
    (k : Nat) (x : String) :
    (σ.subscribe scope name who).subscribersAt k x =
      if σ.owner scope name = k ∧ x = name then
        if who ∈ σ.subscribersAt k x then σ.subscribersAt k x else σ.subscribersAt k x ++ [who]
      else σ.subscribersAt k x := by
  unfold subscribersAt subscribe
  rw [level?_modify]
  by_cases hk : σ.owner scope name = k
  · subst hk
    obtain ⟨level, h⟩ := exists_level? (owner_lt_size hscope name)
    by_cases hx : x = name
    · simp [h, hx]
    · simp [h, hx, Fields.get?_set_of_ne]
  · simp [hk]

theorem subscribersAt_unsubscribe (hσ : σ.Tidy) (scope : Nat) (name : String) (who : Subscriber)
    (k : Nat) (x : String) :
    (σ.unsubscribe scope name who).subscribersAt k x =
      if σ.owner scope name = k ∧ x = name then (σ.subscribersAt k x).filter (· ≠ who)
      else σ.subscribersAt k x := by
  unfold subscribersAt unsubscribe
  rw [level?_modify]
  by_cases hk : σ.owner scope name = k
  · subst hk
    cases h : σ.level? (σ.owner scope name) with
    | none => simp
    | some level =>
      cases hl : Fields.get? level.subscribers name with
      | none => by_cases hx : x = name <;> simp [hl, hx]
      | some list =>
        have hd := hσ _ level h
        simp only [if_true, Option.map_some, Option.bind_some, hl, true_and]
        by_cases hx : x = name
        · subst hx
          split
          · rename_i hf
            rw [Fields.get?_erase_self hd, hl, if_pos rfl]
            exact hf.symm
          · simp [hl]
        · split
          · simp [hx, Fields.get?_erase_of_ne]
          · simp [hx, Fields.get?_set_of_ne]
  · simp [hk]

theorem Tidy.modify (hσ : σ.Tidy) (k : Nat) {f : Level → Level}
    (h : ∀ a, (a.subscribers.map (·.1)).Nodup → ((f a).subscribers.map (·.1)).Nodup) :
    (σ.modify k f).Tidy := by
  intro j level hj
  rw [level?_modify] at hj
  split at hj
  · obtain ⟨a, ha, rfl⟩ := Option.map_eq_some_iff.1 hj
    exact h a (hσ j a ha)
  · exact hσ j level hj

theorem Tidy.subscribe (hσ : σ.Tidy) (scope : Nat) (name : String) (who : Subscriber) :
    (σ.subscribe scope name who).Tidy :=
  hσ.modify _ fun _ h => Fields.nodup_set h _ _

theorem Tidy.unsubscribe (hσ : σ.Tidy) (scope : Nat) (name : String) (who : Subscriber) :
    (σ.unsubscribe scope name who).Tidy := by
  refine hσ.modify _ fun level h => ?_
  split
  · exact h
  · split
    · exact Fields.nodup_erase h _
    · exact Fields.nodup_set h _ _

theorem Tidy.push (hσ : σ.Tidy) {level : Level} (h : level.subscribers = []) :
    (Store.mk (σ.levels.push level)).Tidy := by
  intro k a ha
  rw [level?_push] at ha
  split at ha
  · cases ha
    simp [h]
  · exact hσ k a ha

theorem subscribersAt_push (σ : Store) {level : Level} (h : level.subscribers = []) (k : Nat)
    (x : String) : (Store.mk (σ.levels.push level)).subscribersAt k x = σ.subscribersAt k x := by
  unfold subscribersAt
  rw [level?_push]
  by_cases hk : k = σ.levels.size
  · simp [hk, h, Fields.get?, level?_eq_none_iff.2 (Nat.le_refl _)]
  · simp [hk]

/-- The levels of a store are still there, with the same values and subscribers, and the new ones have no
subscribers. -/
structure Extends (σ τ : Store) : Prop where
  values : σ.KeepsValues τ
  subscribers : ∀ k x, τ.subscribersAt k x = σ.subscribersAt k x
  tidy : σ.Tidy → τ.Tidy

theorem Extends.refl (σ : Store) : σ.Extends σ := ⟨.refl σ, fun _ _ => rfl, fun h => h⟩

theorem Extends.trans {υ : Store} (h : σ.Extends τ) (h' : τ.Extends υ) : σ.Extends υ :=
  ⟨h.values.trans h'.values, fun k x => (h'.subscribers k x).trans (h.subscribers k x),
    fun hσ => h'.tidy (h.tidy hσ)⟩

theorem extends_push (σ : Store) {level : Level} (h : level.subscribers = []) :
    σ.Extends ⟨σ.levels.push level⟩ :=
  ⟨.push σ level, subscribersAt_push σ h, fun hσ => hσ.push h⟩

/-- Writing changes no list of subscribers. -/
theorem subscribersAt_write (σ : Store) (scope : Nat) (root : String) (rest : List String) (v : Json)
    (k : Nat) (x : String) : (σ.write scope root rest v).subscribersAt k x = σ.subscribersAt k x := by
  unfold subscribersAt write
  rw [level?_modify]
  by_cases hk : σ.owner scope root = k
  · cases h : σ.level? k <;> simp [hk]
  · simp [hk]

/-! ### All names of a list -/

/-- Subscribes at every name, in order. -/
def subscribeAll (σ : Store) (scope : Scope) (names : List String) (who : Subscriber) : Store :=
  names.foldl (fun σ name => σ.subscribe scope name who) σ

def unsubscribeAll (σ : Store) (scope : Scope) (names : List String) (who : Subscriber) : Store :=
  names.foldl (fun σ name => σ.unsubscribe scope name who) σ

theorem keepsValues_subscribeAll (σ : Store) (scope : Nat) (names : List String) (who : Subscriber) :
    σ.KeepsValues (σ.subscribeAll scope names who) := by
  induction names generalizing σ with
  | nil => exact .refl σ
  | cons name rest ih => exact (σ.keepsValues_subscribe scope name who).trans (ih _)

theorem keepsValues_unsubscribeAll (σ : Store) (scope : Nat) (names : List String) (who : Subscriber) :
    σ.KeepsValues (σ.unsubscribeAll scope names who) := by
  induction names generalizing σ with
  | nil => exact .refl σ
  | cons name rest ih => exact (σ.keepsValues_unsubscribe scope name who).trans (ih _)

theorem Tidy.subscribeAll (hσ : σ.Tidy) (scope : Nat) (names : List String) (who : Subscriber) :
    (σ.subscribeAll scope names who).Tidy := by
  induction names generalizing σ with
  | nil => exact hσ
  | cons name rest ih => exact ih (hσ.subscribe scope name who)

theorem Tidy.unsubscribeAll (hσ : σ.Tidy) (scope : Nat) (names : List String) (who : Subscriber) :
    (σ.unsubscribeAll scope names who).Tidy := by
  induction names generalizing σ with
  | nil => exact hσ
  | cons name rest ih => exact ih (hσ.unsubscribe scope name who)

/-- A new subscriber goes last where one of the names lives. -/
theorem subscribersAt_subscribeAll (hscope : scope < σ.levels.size) (names : List String)
    (who : Subscriber) (k : Nat) (x : String) :
    (σ.subscribeAll scope names who).subscribersAt k x =
      if σ.owner scope x = k ∧ x ∈ names ∧ who ∉ σ.subscribersAt k x then σ.subscribersAt k x ++ [who]
      else σ.subscribersAt k x := by
  induction names generalizing σ with
  | nil => simp [subscribeAll]
  | cons name rest ih =>
    have hkeep := (σ.keepsValues_subscribe scope name who).keepsScopes
    change ((σ.subscribe scope name who).subscribeAll scope rest who).subscribersAt k x = _
    rw [ih (hkeep.lt_size hscope), hkeep.owner_eq hscope, subscribersAt_subscribe hscope]
    by_cases hk : σ.owner scope x = k
    · by_cases hx : x = name
      · subst hx
        by_cases hw : who ∈ σ.subscribersAt k x <;> simp [hk, hw]
      · simp [hk, hx]
    · have hne : ¬(σ.owner scope name = k ∧ x = name) := by
        rintro ⟨h, rfl⟩
        exact hk h
      simp [hk, hne]

theorem subscribersAt_unsubscribeAll (hσ : σ.Tidy) (hscope : scope < σ.levels.size)
    (names : List String) (who : Subscriber) (k : Nat) (x : String) :
    (σ.unsubscribeAll scope names who).subscribersAt k x =
      if σ.owner scope x = k ∧ x ∈ names then (σ.subscribersAt k x).filter (· ≠ who)
      else σ.subscribersAt k x := by
  induction names generalizing σ with
  | nil => simp [unsubscribeAll]
  | cons name rest ih =>
    have hkeep := (σ.keepsValues_unsubscribe scope name who).keepsScopes
    change ((σ.unsubscribe scope name who).unsubscribeAll scope rest who).subscribersAt k x = _
    rw [ih (hσ.unsubscribe scope name who) (hkeep.lt_size hscope), hkeep.owner_eq hscope,
      subscribersAt_unsubscribe hσ]
    by_cases hk : σ.owner scope x = k
    · by_cases hx : x = name
      · subst hx
        simp [hk, List.filter_filter]
      · simp [hk, hx]
    · have hne : ¬(σ.owner scope name = k ∧ x = name) := by
        rintro ⟨h, rfl⟩
        exact hk h
      simp [hk, hne]

end LiveLayout.Store
