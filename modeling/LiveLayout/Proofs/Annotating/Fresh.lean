import LiveLayout.Proofs.Annotating.Places
import Mathlib
/-!
Ids that are made up. The search for one ends, since the candidates are distinct and only finitely many ids are taken.
In a run of passes, each takes what it hands out, so that no two bricks get the same one.
-/
namespace LiveLayout.Annotate

open Json (Place)

variable {keyPrefix : String} {fields : List (String × Json)} {ids : Ids} {id : String}

/-! ### The search -/

theorem candidate_injective (keyPrefix : String) : Function.Injective (candidate keyPrefix) := by
  intro m n h
  have hlist := congrArg String.toList h
  simp only [candidate, String.toList_append] at hlist
  exact Nat.repr_inj.1 (String.toList_inj.1 (List.append_cancel_left hlist))

/-- Among one more numbers than ids are taken, one is that of a free candidate. -/
theorem exists_free_candidate (keyPrefix : String) (start : Nat) (taken : List String) :
    ∃ i < taken.length + 1, candidate keyPrefix (start + i) ∉ taken := by
  by_contra h
  push Not at h
  let tried := (List.range (taken.length + 1)).map fun i => candidate keyPrefix (start + i)
  have hinjective : Function.Injective fun i => candidate keyPrefix (start + i) :=
    (candidate_injective keyPrefix).comp (add_right_injective start)
  have htried : tried.Nodup := List.nodup_range.map hinjective
  have hsubset : tried ⊆ taken := by
    intro id hid
    obtain ⟨i, hi, rfl⟩ := List.mem_map.1 hid
    exact h i (List.mem_range.1 hi)
  have hlength := (List.subperm_of_subset htried hsubset).length_le
  rw [List.length_map, List.length_range] at hlength
  omega

/-- The search goes on while candidates are taken and ends at the first free one. -/
theorem freshId_eq (keyPrefix : String) (ids : Ids) : ∃ n, ids.count < n ∧
    (∀ m, ids.count < m → m < n → candidate keyPrefix m ∈ ids.taken) ∧ candidate keyPrefix n ∉ ids.taken ∧
    freshId keyPrefix ids = (candidate keyPrefix n, ⟨n, candidate keyPrefix n :: ids.taken⟩) := by
  obtain ⟨j, hj, hfree⟩ := exists_free_candidate keyPrefix (ids.count + 1) ids.taken
  let free (i : Nat) : Bool := candidate keyPrefix (ids.count + 1 + i) ∉ ids.taken
  obtain ⟨i, hi⟩ : ∃ i, (List.range (ids.taken.length + 1)).find? free = some i := by
    refine Option.isSome_iff_exists.1 (List.find?_isSome.2 ⟨j, List.mem_range.2 hj, ?_⟩)
    exact decide_eq_true hfree
  obtain ⟨hifree, -, hbefore⟩ := List.find?_range_eq_some.1 hi
  refine ⟨ids.count + 1 + i, by omega, ?_, of_decide_eq_true hifree, ?_⟩
  · intro m hlow hhigh
    obtain ⟨k, rfl⟩ := Nat.exists_eq_add_of_le (show ids.count + 1 ≤ m from hlow)
    have hk := hbefore k (by omega)
    simpa [free] using hk
  · change (let n := ids.count + 1 + ((List.range (ids.taken.length + 1)).find? free).getD 0
      (candidate keyPrefix n, (⟨n, candidate keyPrefix n :: ids.taken⟩ : Ids))) = _
    rw [hi]
    rfl

/-! ### Ids handed out one after another -/

/-- Ids handed out at places while those that are taken grow: none was taken before, all are taken afterwards, and no
two places get the same one. -/
structure Issues (taken taken' : List String) (given : Place → String → Prop) : Prop where
  grows : taken ⊆ taken'
  free : ∀ p id, given p id → id ∉ taken
  takes : ∀ p id, given p id → id ∈ taken'
  apart : ∀ p q id, given p id → given q id → p = q

variable {taken taken₁ taken₂ : List String} {given given₁ given₂ : Place → String → Prop}

theorem Issues.nothing (h : ∀ p id, ¬given p id) (taken : List String) : Issues taken taken given where
  grows := List.Subset.refl taken
  free p id hp := absurd hp (h p id)
  takes p id hp := absurd hp (h p id)
  apart p _ id hp _ := absurd hp (h p id)

/-- What one pass hands out is taken when the next one begins. -/
theorem Issues.append (h₁ : Issues taken taken₁ given₁) (h₂ : Issues taken₁ taken₂ given₂)
    (hgiven : ∀ p id, given p id → given₁ p id ∨ given₂ p id) : Issues taken taken₂ given := by
  refine ⟨List.Subset.trans h₁.grows h₂.grows, ?_, ?_, ?_⟩
  · intro p id hp
    rcases hgiven p id hp with hp | hp
    · exact h₁.free p id hp
    · exact fun hmem => h₂.free p id hp (h₁.grows hmem)
  · intro p id hp
    rcases hgiven p id hp with hp | hp
    · exact h₂.grows (h₁.takes p id hp)
    · exact h₂.takes p id hp
  · intro p q id hp hq
    rcases hgiven p id hp with hp | hp <;> rcases hgiven q id hq with hq | hq
    · exact h₁.apart p q id hp hq
    · exact absurd (h₁.takes p id hp) (h₂.free q id hq)
    · exact absurd (h₁.takes q id hq) (h₂.free p id hp)
    · exact h₂.apart p q id hp hq

theorem Issues.mono (h : Issues taken taken₁ given₁) (hgiven : ∀ p id, given p id → given₁ p id) :
    Issues taken taken₁ given where
  grows := h.grows
  free p id hp := h.free p id (hgiven p id hp)
  takes p id hp := h.takes p id (hgiven p id hp)
  apart p q id hp hq := h.apart p q id (hgiven p id hp) (hgiven q id hq)

/-- What is handed out inside is handed out at places that lead there. -/
theorem Issues.within (h : Issues taken taken₁ given) (outer : Place → Place) :
    Issues taken taken₁ fun p id => ∃ r, p = outer r ∧ given r id := by
  refine ⟨h.grows, ?_, ?_, ?_⟩
  · rintro p id ⟨r, -, hr⟩
    exact h.free r id hr
  · rintro p id ⟨r, -, hr⟩
    exact h.takes r id hr
  · rintro p q id ⟨r, rfl, hr⟩ ⟨s, rfl, hs⟩
    rw [h.apart r s id hr hs]

/-- A brick without a usable id gets one at its own place. -/
theorem issues_identify (keyPrefix : String) (fields : List (String × Json)) (ids : Ids) :
    Issues ids.taken (identify keyPrefix fields ids).2.taken fun p id =>
      p = [] ∧ usableId? (Fields.get? fields "id") = none ∧
        Fields.get? (identify keyPrefix fields ids).1 "id" = some (.string id) := by
  cases hid : usableId? (Fields.get? fields "id") with
  | some old =>
    rw [identify_of_usable keyPrefix hid]
    refine .nothing (fun p id hp => ?_) _
    cases hp.2.1
  | none =>
    obtain ⟨n, -, -, hfree, hfresh⟩ := freshId_eq keyPrefix ids
    rw [identify_of_unusable keyPrefix hid, hfresh]
    dsimp only
    have hgiven {p : Place} {id : String} (hp : p = [] ∧ (none : Option String) = none ∧
        Fields.get? (Fields.set fields "id" (.string (candidate keyPrefix n))) "id" = some (.string id)) :
        p = [] ∧ id = candidate keyPrefix n := by
      obtain ⟨hp, -, hget⟩ := hp
      rw [Fields.get?_set_self] at hget
      cases hget
      exact ⟨hp, rfl⟩
    refine ⟨List.subset_cons_self .., ?_, ?_, ?_⟩
    · intro p id hp
      obtain ⟨-, rfl⟩ := hgiven hp
      exact hfree
    · intro p id hp
      obtain ⟨-, rfl⟩ := hgiven hp
      exact List.mem_cons_self ..
    · intro p q id hp hq
      rw [(hgiven hp).1, (hgiven hq).1]

end LiveLayout.Annotate
