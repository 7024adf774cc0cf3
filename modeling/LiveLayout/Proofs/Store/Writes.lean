import LiveLayout.Proofs.Fields
import LiveLayout.Proofs.Store.Layers
import LiveLayout.Proofs.Store.Subscriptions
/-!
Writing a variable changes its value alone. No name goes to another level, and nobody is subscribed or
unsubscribed.
-/
namespace LiveLayout.Store

variable {σ : Store} {scope k : Nat} {root x : String} {rest : List String} {v : Json}

theorem valueAt?_modify (σ : Store) (j : Nat) {f : Level → Level} (h : ∀ a, (f a).values = a.values)
    (k : Nat) (x : String) : (σ.modify j f).valueAt? k x = σ.valueAt? k x := by
  unfold valueAt?
  rw [level?_modify]
  split
  · cases σ.level? k with
    | none => rfl
    | some a => simp [h a]
  · rfl

/-- Where there is no level, nobody is subscribed. -/
theorem subscribersAt_subscribe_of_size_le (h : σ.levels.size ≤ scope) (name : String)
    (who : Subscriber) (k : Nat) (x : String) :
    (σ.subscribe scope name who).subscribersAt k x = σ.subscribersAt k x := by
  have hnone : σ.level? scope = none := level?_eq_none_iff.2 h
  have howner : σ.owner scope name = scope := by
    rw [owner]
    simp [hnone]
  unfold subscribersAt subscribe
  rw [howner, level?_modify]
  split
  · subst k
    simp [hnone]
  · rfl

/-- A fork that owns a name binds it. -/
theorem has_of_owner {level : Level} {parent : Nat} (h : σ.level? (σ.owner scope root) = some level)
    (hp : level.parent = some parent) (hlt : parent < σ.owner scope root) :
    Fields.has level.values root = true := by
  fun_induction owner σ scope root with
  | case1 _ hnone => simp [hnone] at h
  | case2 _ a ha hroot =>
    cases ha.symm.trans h
    rw [hroot] at hp
    cases hp
  | case3 _ a ha _ _ hhas =>
    cases ha.symm.trans h
    exact hhas
  | case4 _ _ _ _ _ _ _ ih => exact ih h hlt
  | case5 _ a ha p hp' _ hge =>
    cases ha.symm.trans h
    cases hp'.symm.trans hp
    exact absurd hlt hge

theorem keepsScopes_write (σ : Store) (scope : Nat) (root : String) (rest : List String) (v : Json) :
    σ.KeepsScopes (σ.write scope root rest v) := by
  refine .modify σ _ fun level h => ⟨rfl, fun parent hp hlt x => ?_⟩
  have hhas := has_of_owner h hp hlt
  rw [Path.writeEntry, Fields.has_set]
  by_cases hx : x = root
  · simp [hx, hhas]
  · simp [hx]

/-- A variable of a root is written without a change to any fork. -/
theorem keepsForks_write (h : ∀ level, σ.level? (σ.owner scope root) = some level → level.parent = none) :
    σ.KeepsForks (σ.write scope root rest v) := by
  intro k level hk
  rw [write, level?_modify, hk]
  by_cases howner : σ.owner scope root = k
  · subst howner
    exact ⟨_, if_pos rfl, rfl, fun hp => absurd (h level hk) hp⟩
  · exact ⟨level, by rw [if_neg howner], rfl, fun _ => rfl⟩

theorem tidy_write (hσ : σ.Tidy) : (σ.write scope root rest v).Tidy := hσ.modify _ fun _ h => h

/-- What has been written is there, if the owner is. -/
theorem valueAt?_write (howner : σ.owner scope root < σ.levels.size) (rest : List String) (v : Json) :
    (σ.write scope root rest v).valueAt? (σ.owner scope root) root =
      some (Path.write v rest ((σ.valueAt? (σ.owner scope root) root).getD .null)) := by
  obtain ⟨level, hlevel⟩ := exists_level? howner
  unfold valueAt? write
  rw [level?_modify, if_pos rfl, hlevel]
  simp [Path.writeEntry]

theorem valueAt?_write_of_ne (h : ¬(k = σ.owner scope root ∧ x = root)) :
    (σ.write scope root rest v).valueAt? k x = σ.valueAt? k x := by
  unfold valueAt? write
  rw [level?_modify]
  by_cases hk : σ.owner scope root = k
  · have hx : x ≠ root := fun hx => h ⟨hk.symm, hx⟩
    rw [if_pos hk]
    cases σ.level? k with
    | none => rfl
    | some level => simp [Path.writeEntry, Fields.get?_set_of_ne _ _ hx]
  · rw [if_neg hk]

end LiveLayout.Store
