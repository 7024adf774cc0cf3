import LiveLayout.Proofs.Dotted.Lenses
/-!
Histories of a store. Whatever is forked, written, subscribed and unsubscribed, a scope resolves a name to the same level
from its beginning on, so that a level's subscribers to a name are told from the history.
-/
namespace LiveLayout.Store

variable {σ τ υ : Store} {scope k : Scope} {name path x : String} {who : Subscriber}

/-! ### Scopes that are not there -/

theorem owner_of_size_le (h : σ.levels.size ≤ scope) (name : String) : σ.owner scope name = scope := by
  rw [owner]
  simp [level?_eq_none_iff.2 h]

theorem modify_of_size_le (h : σ.levels.size ≤ k) (f : Level → Level) : σ.modify k f = σ := by
  apply ext_level?
  intro j
  rw [level?_modify]
  by_cases hj : k = j
  · simp [← hj, level?_eq_none_iff.2 h]
  · simp [hj]

/-! ### Writing at a path -/

theorem keepsScopes_put (σ : Store) (scope : Scope) (path : String) (v : Json) : σ.KeepsScopes (σ.put scope path v) := by
  unfold put
  cases Path.segments path with
  | nil => exact .refl σ
  | cons root rest => exact keepsScopes_write σ scope root rest v

theorem tidy_put (hσ : σ.Tidy) (scope : Scope) (path : String) (v : Json) : (σ.put scope path v).Tidy := by
  unfold put
  cases Path.segments path with
  | nil => exact hσ
  | cons root rest => exact tidy_write hσ

theorem subscribersAt_put (σ : Store) (scope : Scope) (path : String) (v : Json) (k : Scope) (x : String) :
    (σ.put scope path v).subscribersAt k x = σ.subscribersAt k x := by
  unfold put
  cases Path.segments path with
  | nil => rfl
  | cons root rest => exact subscribersAt_write σ scope root rest v k x

/-! ### New levels -/

theorem subscribersAt_addRoot (σ : Store) (values : List (String × Json)) (k : Scope) (x : String) :
    (σ.addRoot values).2.subscribersAt k x = σ.subscribersAt k x := subscribersAt_push σ rfl k x

theorem subscribersAt_fork (σ : Store) (parent : Scope) (label : String) (bindings : List (String × Json)) (k : Scope)
    (x : String) : (σ.fork parent label bindings).2.subscribersAt k x = σ.subscribersAt k x :=
  subscribersAt_push σ rfl k x

/-! ### Changes -/

/-- What is done to a store from outside. -/
inductive Change where
  | root (values : List (String × Json))
  | fork (parent : Scope) (label : String) (bindings : List (String × Json))
  | set (scope : Scope) (path : String) (value : Json)
  | subscribe (scope : Scope) (name : String) (who : Subscriber)
  | unsubscribe (scope : Scope) (name : String) (who : Subscriber)

namespace Change

variable {c : Change}

def apply (σ : Store) : Change → Store
  | root values => (σ.addRoot values).2
  | fork parent label bindings => (σ.fork parent label bindings).2
  | set scope path value => σ.put scope path value
  | subscribe scope name who => σ.subscribe scope name who
  | unsubscribe scope name who => σ.unsubscribe scope name who

/-- The scope that is used is one of the store. -/
def On (σ : Store) : Change → Prop
  | root _ => True
  | fork scope .. | set scope .. | subscribe scope .. | unsubscribe scope .. => scope < σ.levels.size

theorem keepsScopes (c : Change) (σ : Store) : σ.KeepsScopes (c.apply σ) := by
  cases c with
  | root values => exact (KeepsValues.push σ _).keepsScopes
  | fork parent label bindings => exact (KeepsValues.push σ _).keepsScopes
  | set scope path value => exact keepsScopes_put σ scope path value
  | subscribe scope name who => exact (keepsValues_subscribe σ scope name who).keepsScopes
  | unsubscribe scope name who => exact (keepsValues_unsubscribe σ scope name who).keepsScopes

theorem tidy (c : Change) (h : σ.Tidy) : (c.apply σ).Tidy := by
  cases c with
  | root values => exact h.push rfl
  | fork parent label bindings => exact h.push rfl
  | set scope path value => exact tidy_put h scope path value
  | subscribe scope name who => exact h.subscribe scope name who
  | unsubscribe scope name who => exact h.unsubscribe scope name who

/-- What one change does to the subscribers of a name. -/
theorem mem_subscribersAt (hc : c.On σ) (hσ : σ.Tidy) : who ∈ (c.apply σ).subscribersAt k x ↔
    (∃ t, c = .subscribe t x who ∧ σ.owner t x = k) ∨
      who ∈ σ.subscribersAt k x ∧ ∀ t, c = .unsubscribe t x who → σ.owner t x ≠ k := by
  cases c with
  | root values => simp [apply, subscribersAt_addRoot]
  | fork parent label bindings => simp [apply, subscribersAt_fork]
  | set scope path value => simp [apply, subscribersAt_put]
  | subscribe scope name w =>
    rw [apply, subscribersAt_subscribe hc]
    by_cases hhere : σ.owner scope name = k ∧ x = name
    · obtain ⟨rfl, rfl⟩ := hhere
      rw [if_pos ⟨rfl, rfl⟩]
      by_cases heq : w = who
      · subst heq
        have hmem : w ∈ if w ∈ σ.subscribersAt (σ.owner scope x) x then σ.subscribersAt (σ.owner scope x) x
            else σ.subscribersAt (σ.owner scope x) x ++ [w] := by
          split
          · assumption
          · simp
        simp [hmem]
      · have hother : ∀ t, subscribe scope x w ≠ .subscribe t x who := by
          rintro t ⟨⟩
          exact heq rfl
        split <;> simp [hother, Ne.symm heq]
    · rw [if_neg hhere]
      constructor
      · intro hmem
        exact .inr ⟨hmem, nofun⟩
      · rintro (⟨t, heq, howner⟩ | ⟨hmem, -⟩)
        · cases heq
          exact absurd ⟨howner, rfl⟩ hhere
        · exact hmem
  | unsubscribe scope name w =>
    have hnone : ¬∃ t, unsubscribe scope name w = .subscribe t x who ∧ σ.owner t x = k := by
      rintro ⟨t, ⟨⟩, -⟩
    rw [apply, subscribersAt_unsubscribe hσ, or_iff_right hnone]
    by_cases hhere : σ.owner scope name = k ∧ x = name
    · obtain ⟨rfl, rfl⟩ := hhere
      rw [if_pos ⟨rfl, rfl⟩, List.mem_filter, decide_eq_true_eq]
      constructor
      · rintro ⟨hmem, hne⟩
        refine ⟨hmem, fun t heq _ => ?_⟩
        cases heq
        exact hne rfl
      · rintro ⟨hmem, hc⟩
        refine ⟨hmem, fun heq => ?_⟩
        subst heq
        exact hc scope rfl rfl
    · rw [if_neg hhere]
      constructor
      · intro hmem
        refine ⟨hmem, fun t heq howner => ?_⟩
        cases heq
        exact hhere ⟨howner, rfl⟩
      · exact fun h => h.1

theorem nodup_subscribersAt (hc : c.On σ) (hσ : σ.Tidy) (h : (σ.subscribersAt k x).Nodup) :
    ((c.apply σ).subscribersAt k x).Nodup := by
  cases c with
  | root values => rwa [apply, subscribersAt_addRoot]
  | fork parent label bindings => rwa [apply, subscribersAt_fork]
  | set scope path value => rwa [apply, subscribersAt_put]
  | subscribe scope name w =>
    rw [apply, subscribersAt_subscribe hc]
    split
    · split
      · exact h
      · rename_i hw
        rw [← List.concat_eq_append, List.nodup_concat]
        exact ⟨hw, h⟩
    · exact h
  | unsubscribe scope name w =>
    rw [apply, subscribersAt_unsubscribe hσ]
    split
    · exact h.filter _
    · exact h

end Change

/-! ### Histories -/

/-- The changes, in this order, make the second store of the first. -/
inductive Grows (σ : Store) : List Change → Store → Prop where
  | start : Grows σ [] σ
  | step {cs : List Change} {τ : Store} {c : Change} (before : Grows σ cs τ) (on : c.On τ) :
    Grows σ (cs ++ [c]) (c.apply τ)

namespace Grows

variable {cs cs' : List Change}

theorem trans (h : σ.Grows cs τ) (h' : τ.Grows cs' υ) : σ.Grows (cs ++ cs') υ := by
  induction h' with
  | start => rwa [List.append_nil]
  | step _ on ih =>
    rw [← List.append_assoc]
    exact ih.step on

theorem keepsScopes (h : σ.Grows cs τ) : σ.KeepsScopes τ := by
  induction h with
  | start => exact .refl σ
  | step _ _ ih => exact ih.trans (Change.keepsScopes _ _)

theorem tidy (h : σ.Grows cs τ) (hσ : σ.Tidy) : τ.Tidy := by
  induction h with
  | start => exact hσ
  | step _ _ ih => exact Change.tidy _ ih

theorem nodup_subscribersAt (h : σ.Grows cs τ) (hσ : σ.Tidy) (hnodup : (σ.subscribersAt k x).Nodup) :
    (τ.subscribersAt k x).Nodup := by
  induction h with
  | start => exact hnodup
  | step before on ih => exact Change.nodup_subscribersAt on (before.tidy hσ) ih

end Grows

/-- One subscribed to the name through the scope, and has not been unsubscribed since through a scope with the same
level for the name. -/
def Subscribed (level : Scope → Scope) (cs : List Change) (who : Subscriber) (scope : Scope) (x : String) : Prop :=
  ∃ before after, cs = before ++ .subscribe scope x who :: after ∧
    ∀ t, .unsubscribe t x who ∈ after → level t ≠ level scope

theorem subscribed_concat {level : Scope → Scope} {cs : List Change} {c : Change} :
    Subscribed level (cs ++ [c]) who scope x ↔
      c = .subscribe scope x who ∨
        Subscribed level cs who scope x ∧ ∀ t, c = .unsubscribe t x who → level t ≠ level scope := by
  constructor
  · rintro ⟨before, after, heq, hsince⟩
    rcases List.eq_nil_or_concat after with rfl | ⟨most, last, rfl⟩
    · have hlast := (List.append_inj' heq rfl).2
      cases hlast
      exact .inl rfl
    · rw [List.concat_eq_append, ← List.cons_append, ← List.append_assoc] at heq
      obtain ⟨hcs, hlast⟩ := List.append_inj' heq rfl
      cases hlast
      rw [List.concat_eq_append] at hsince
      refine .inr ⟨⟨before, most, hcs, fun t ht => hsince t (List.mem_append_left _ ht)⟩, fun t ht => ?_⟩
      exact hsince t (by simp [ht])
  · rintro (rfl | ⟨⟨before, after, rfl, hsince⟩, hlast⟩)
    · exact ⟨cs, [], rfl, fun t ht => absurd ht List.not_mem_nil⟩
    · refine ⟨before, after ++ [c], by simp, fun t ht => ?_⟩
      rcases List.mem_append.1 ht with ht | ht
      · exact hsince t ht
      · exact hlast t (List.mem_singleton.1 ht).symm

/-- The subscribers of a level are those who are subscribed through some scope that finds the name there. -/
theorem Grows.mem_subscribersAt_iff {cs : List Change} (h : Grows {} cs τ) {level : Scope → Scope}
    (hlevel : ∀ t, t < τ.levels.size → τ.owner t x = level t) :
    who ∈ τ.subscribersAt k x ↔ ∃ t, Subscribed level cs who t x ∧ level t = k := by
  induction h with
  | start =>
    have hnone : (({} : Store).subscribersAt k x) = [] := by simp [subscribersAt, level?]
    simp [hnone, Subscribed]
  | @step cs τ c before on ih =>
    have hkeeps : τ.KeepsScopes (c.apply τ) := c.keepsScopes τ
    have hbefore (t : Scope) (ht : t < τ.levels.size) : τ.owner t x = level t := by
      rw [← hlevel t (hkeeps.lt_size ht), hkeeps.owner_eq ht]
    have htidy : τ.Tidy := before.tidy fun k level hk => by simp [level?] at hk
    rw [Change.mem_subscribersAt on htidy, ih hbefore]
    constructor
    · rintro (⟨t, rfl, howner⟩ | ⟨⟨t, ht, rfl⟩, hc⟩)
      · exact ⟨t, subscribed_concat.2 (.inl rfl), by rw [← hbefore t on, howner]⟩
      · refine ⟨t, subscribed_concat.2 (.inr ⟨ht, ?_⟩), rfl⟩
        rintro t' rfl
        rw [← hbefore t' on]
        exact hc t' rfl
    · rintro ⟨t, ht, rfl⟩
      rcases subscribed_concat.1 ht with rfl | ⟨ht, hc⟩
      · exact .inl ⟨t, rfl, hbefore t on⟩
      · refine .inr ⟨⟨t, ht, rfl⟩, ?_⟩
        rintro t' rfl
        rw [hbefore t' on]
        exact hc t' rfl

end LiveLayout.Store
