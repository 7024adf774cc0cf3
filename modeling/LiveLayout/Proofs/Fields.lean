import LiveLayout.Json.Fields
import Mathlib.Tactic.Common
/-!
Lookup in entries after they have been set, erased or inserted.
-/
namespace LiveLayout.Fields

variable {α β : Type} {m : List (String × α)} {key other : String} {value : α}

theorem get?_eq_none_iff : get? m key = none ↔ key ∉ m.map (·.1) := by
  induction m with
  | nil => simp [get?]
  | cons e rest ih =>
    by_cases h : e.1 = key
    · simp [get?, h]
    · simp [get?, h, ih, Ne.symm h]

theorem mem_of_get? (h : get? m key = some value) : (key, value) ∈ m := by
  induction m with
  | nil => simp [get?] at h
  | cons e rest ih =>
    by_cases he : e.1 = key
    · simp only [get?, he, if_true, Option.some.injEq] at h
      simp [← he, ← h]
    · simp only [get?, he, if_false] at h
      exact List.mem_cons_of_mem _ (ih h)

/-- With distinct names, every entry is found under its name. -/
theorem get?_of_mem (hm : (m.map (·.1)).Nodup) (h : (key, value) ∈ m) : get? m key = some value := by
  induction m with
  | nil => simp at h
  | cons e rest ih =>
    rw [List.map_cons, List.nodup_cons] at hm
    rcases List.mem_cons.1 h with rfl | hr
    · simp [get?]
    · have hne : e.1 ≠ key := fun he => hm.1 (List.mem_map.2 ⟨_, hr, he.symm⟩)
      simp [get?, hne, ih hm.2 hr]

theorem has_eq_true_iff : has m key = true ↔ key ∈ m.map (·.1) := by
  rw [← not_iff_not, ← get?_eq_none_iff]
  simp [has]

/-- The names after one has been set: it goes last if it is new. -/
theorem names_set (m : List (String × α)) (key : String) (value : α) :
    (set m key value).map (·.1) = if key ∈ m.map (·.1) then m.map (·.1) else m.map (·.1) ++ [key] := by
  induction m with
  | nil => simp [set]
  | cons e rest ih =>
    by_cases he : e.1 = key
    · simp [set, he]
    · simp only [set, he, if_false, List.map_cons, ih, List.mem_cons, Ne.symm he, false_or]
      split <;> rfl

theorem nodup_set (h : (m.map (·.1)).Nodup) (key : String) (value : α) :
    ((set m key value).map (·.1)).Nodup := by
  rw [names_set]
  split
  · exact h
  · rw [List.nodup_append]
    refine ⟨h, by simp, ?_⟩
    simp only [List.mem_singleton]
    rintro a ha _ rfl rfl
    contradiction

theorem mem_set {e : String × α} (h : e ∈ set m key value) : e = (key, value) ∨ e ∈ m := by
  induction m with
  | nil => exact .inl (List.mem_singleton.1 h)
  | cons a rest ih =>
    unfold set at h
    split at h
    · rename_i hkey
      rw [hkey] at h
      exact (List.mem_cons.1 h).imp_right (List.mem_cons_of_mem _)
    · rcases List.mem_cons.1 h with rfl | h
      · exact .inr (List.mem_cons_self ..)
      · exact (ih h).imp_right (List.mem_cons_of_mem _)

/-- Setting a name to what it has changes nothing. -/
theorem set_of_get? (h : get? m key = some value) : set m key value = m := by
  induction m with
  | nil => simp [get?] at h
  | cons e rest ih =>
    by_cases he : e.1 = key
    · simp only [get?, he, if_true, Option.some.injEq] at h
      simp [set, ← he, ← h]
    · simp only [get?, he, if_false] at h
      simp [set, he, ih h]

/-- A new name goes last. -/
theorem set_of_get?_eq_none (h : get? m key = none) (value : α) : set m key value = m ++ [(key, value)] := by
  induction m with
  | nil => rfl
  | cons e rest ih =>
    obtain ⟨k, v⟩ := e
    unfold get? at h
    split at h
    · cases h
    · rename_i hk
      rw [set, if_neg hk, ih h, List.cons_append]

theorem has_set (m : List (String × α)) (key : String) (value : α) (other : String) :
    has (set m key value) other = (has m other || decide (other = key)) := by
  rw [Bool.eq_iff_iff, has_eq_true_iff, names_set]
  simp only [Bool.or_eq_true, has_eq_true_iff, decide_eq_true_eq]
  split
  · constructor
    · exact .inl
    · rintro (h | rfl) <;> assumption
  · simp

theorem get?_erase_of_ne (m : List (String × α)) (h : other ≠ key) :
    get? (erase m key) other = get? m other := by
  induction m with
  | nil => rfl
  | cons e rest ih =>
    by_cases he : e.1 = key
    · simp [erase, get?, he, Ne.symm h]
    · simp only [erase, he, if_false, get?, ih]

theorem erase_of_get?_eq_none (h : get? m key = none) : erase m key = m := by
  induction m with
  | nil => rfl
  | cons e rest ih =>
    by_cases he : e.1 = key
    · simp [get?, he] at h
    · rw [erase, if_neg he, ih (by simpa [get?, he] using h)]

theorem erase_sublist (m : List (String × α)) (key : String) : (erase m key).Sublist m := by
  induction m with
  | nil => exact .slnil
  | cons e rest ih =>
    by_cases he : e.1 = key
    · simp [erase, he]
    · simpa [erase, he] using ih

theorem nodup_erase (h : (m.map (·.1)).Nodup) (key : String) : ((erase m key).map (·.1)).Nodup :=
  h.sublist ((erase_sublist m key).map _)

theorem get?_erase_self (h : (m.map (·.1)).Nodup) (key : String) : get? (erase m key) key = none := by
  induction m with
  | nil => rfl
  | cons e rest ih =>
    rw [List.map_cons, List.nodup_cons] at h
    by_cases he : e.1 = key
    · rw [erase, if_pos he, get?_eq_none_iff, ← he]
      exact h.1
    · simp [erase, get?, he, ih h.2]

theorem nodup_eraseDups [BEq α] [LawfulBEq α] : (names : List α) → names.eraseDups.Nodup
  | [] => .nil
  | name :: rest => by
    rw [List.eraseDups_cons]
    refine List.nodup_cons.2 ⟨?_, nodup_eraseDups _⟩
    rw [List.mem_eraseDups, List.mem_filter]
    simp
termination_by names => names.length
decreasing_by exact Nat.lt_succ_of_le (List.length_filter_le ..)

/-! ### Entries with other values -/

section map

variable (f : α → β) (m)

theorem get?_map (key : String) :
    get? (m.map fun e => (e.1, f e.2)) key = (get? m key).map f := by
  induction m with
  | nil => rfl
  | cons e rest ih =>
    by_cases he : e.1 = key
    · simp [get?, he]
    · simpa [get?, he] using ih

theorem insertSorted_map (key : String) (value : α) :
    insertSorted (m.map fun e => (e.1, f e.2)) key (f value) =
      (insertSorted m key value).map fun e => (e.1, f e.2) := by
  induction m with
  | nil => rfl
  | cons e rest ih =>
    simp only [List.map_cons, insertSorted]
    split
    · rfl
    · split
      · rfl
      · rw [ih, List.map_cons]

theorem erase_map (key : String) :
    erase (m.map fun e => (e.1, f e.2)) key = (erase m key).map fun e => (e.1, f e.2) := by
  induction m with
  | nil => rfl
  | cons e rest ih =>
    simp only [List.map_cons, erase]
    split
    · rfl
    · rw [ih, List.map_cons]

end map

theorem mem_insertSorted {e : String × α} (h : e ∈ insertSorted m key value) :
    e = (key, value) ∨ e ∈ m := by
  induction m with
  | nil => exact .inl (by simpa [insertSorted] using h)
  | cons a rest ih =>
    simp only [insertSorted] at h
    split at h
    · rcases List.mem_cons.1 h with rfl | h
      · exact .inl (by simp [*])
      · exact .inr (List.mem_cons_of_mem _ h)
    · split at h
      · rcases List.mem_cons.1 h with rfl | h
        · exact .inl rfl
        · exact .inr h
      · rcases List.mem_cons.1 h with rfl | h
        · exact .inr (List.mem_cons_self ..)
        · exact (ih h).imp_right (List.mem_cons_of_mem _)

/-! ### Sorted entries -/

/-- Entries in the order of their names, with no name twice. -/
def Sorted (m : List (String × α)) : Prop := m.Pairwise fun a b => a.1 < b.1

theorem Sorted.of_names {n : List (String × β)} (h : Sorted m) (hn : n.map (·.1) = m.map (·.1)) :
    Sorted n := by
  have hm : (m.map (·.1)).Pairwise (· < ·) := List.pairwise_map.2 h
  rw [← hn] at hm
  exact List.pairwise_map.1 hm

theorem lt_of_not_lt {a b : String} (hne : a ≠ b) (h : ¬b < a) : a < b := by
  by_contra hab
  exact hne (String.le_antisymm (String.not_lt.1 h) (String.not_lt.1 hab))

theorem Sorted.nodup (h : Sorted m) : (m.map (·.1)).Nodup := by
  refine List.pairwise_map.2 (h.imp ?_)
  intro a b hlt heq
  rw [heq] at hlt
  exact String.lt_irrefl _ hlt

theorem Sorted.insertSorted (h : Sorted m) (key : String) (value : α) :
    Sorted (insertSorted m key value) := by
  induction m with
  | nil => exact List.pairwise_singleton ..
  | cons e rest ih =>
    obtain ⟨hlt, hrest⟩ := List.pairwise_cons.1 h
    unfold Fields.insertSorted
    split
    · exact List.pairwise_cons.2 ⟨fun a ha => hlt a ha, hrest⟩
    · rename_i hne
      split
      · rename_i hkey
        refine List.pairwise_cons.2 ⟨fun a ha => ?_, h⟩
        rcases List.mem_cons.1 ha with rfl | ha
        · exact hkey
        · exact String.lt_trans hkey (hlt a ha)
      · rename_i hkey
        refine List.pairwise_cons.2 ⟨fun a ha => ?_, ih hrest⟩
        rcases mem_insertSorted ha with rfl | ha
        · exact lt_of_not_lt hne hkey
        · exact hlt a ha

theorem Sorted.erase (h : Sorted m) (key : String) : Sorted (erase m key) :=
  h.sublist (erase_sublist m key)

theorem get?_insertSorted (m : List (String × α)) (key : String) (value : α) (other : String) :
    get? (insertSorted m key value) other = if other = key then some value else get? m other := by
  by_cases ho : other = key
  · subst ho
    induction m with
    | nil => simp [insertSorted, get?]
    | cons e rest ih =>
      unfold insertSorted
      split
      · simp [get?, *]
      · split
        · simp [get?]
        · simp [get?, *]
  · rw [if_neg ho]
    induction m with
    | nil => simp [insertSorted, get?, Ne.symm ho]
    | cons e rest ih =>
      unfold insertSorted
      split
      · subst key
        simp [get?, Ne.symm ho]
      · split
        · simp [get?, Ne.symm ho]
        · simp [get?, ih]

/-- Where a name stands among sorted entries. -/
theorem Sorted.split (h : Sorted m) (hget : get? m key = some value) :
    ∃ before after, m = before ++ (key, value) :: after ∧
      (∀ v, Fields.insertSorted m key v = before ++ (key, v) :: after) ∧
      Fields.erase m key = before ++ after := by
  induction m with
  | nil => simp [get?] at hget
  | cons e rest ih =>
    obtain ⟨k, v⟩ := e
    by_cases hk : k = key
    · subst hk
      obtain rfl : v = value := by simpa [get?] using hget
      exact ⟨[], rest, rfl, fun _ => by simp [Fields.insertSorted], by simp [Fields.erase]⟩
    · obtain ⟨hlt, hrest⟩ := List.pairwise_cons.1 h
      have hget' : get? rest key = some value := by simpa [get?, hk] using hget
      obtain ⟨before, after, hm, hins, herase⟩ := ih hrest hget'
      have hless : k < key := hlt _ (mem_of_get? hget')
      refine ⟨(k, v) :: before, after, by rw [hm]; rfl, fun v' => ?_, by simp [Fields.erase, hk, herase]⟩
      rw [Fields.insertSorted, if_neg hk, if_neg (String.lt_asymm hless), hins, List.cons_append]

theorem perm_insertSorted (hget : get? m key = none) :
    (insertSorted m key value).Perm ((key, value) :: m) := by
  induction m with
  | nil => exact .refl _
  | cons e rest ih =>
    by_cases hk : e.1 = key
    · simp [get?, hk] at hget
    · rw [insertSorted, if_neg hk]
      split
      · exact .refl _
      · refine ((ih (by simpa [get?, hk] using hget)).cons e).trans (.swap _ _ _)

/-- Sorted entries are determined by what is found in them. -/
theorem Sorted.ext {m n : List (String × α)} (hm : Sorted m) (hn : Sorted n)
    (h : ∀ key, get? m key = get? n key) : m = n := by
  have hmem : ∀ e, e ∈ m ↔ e ∈ n := fun e =>
    ⟨fun he => mem_of_get? ((h e.1).symm.trans (get?_of_mem hm.nodup he)),
      fun he => mem_of_get? ((h e.1).trans (get?_of_mem hn.nodup he))⟩
  have hasymm : ∀ a b : String × α, a.1 < b.1 → b.1 < a.1 → False := fun _ _ hab hba =>
    String.lt_asymm hab hba
  have hnodup : ∀ l : List (String × α), Sorted l → l.Nodup := fun l hl =>
    (List.pairwise_map.1 hl.nodup).imp fun hne heq => hne (congrArg _ heq)
  have hperm := (List.perm_ext_iff_of_nodup (hnodup m hm) (hnodup n hn)).2 hmem
  exact hperm.eq_of_pairwise (fun a b _ _ hab hba => (hasymm a b hab hba).elim) hm hn

/-! ### Erasing with the last entry put into the freed place -/

/-- Lookup does not depend on the order of entries with distinct names. -/
theorem get?_perm {n : List (String × α)} (hm : (m.map (·.1)).Nodup) (h : n.Perm m) (key : String) :
    get? n key = get? m key := by
  have hn : (n.map (·.1)).Nodup := (h.map _).nodup_iff.2 hm
  cases hkey : get? m key with
  | none =>
    rw [get?_eq_none_iff] at hkey ⊢
    exact fun hmem => hkey ((h.map _).mem_iff.1 hmem)
  | some v => exact get?_of_mem hn (h.mem_iff.2 (mem_of_get? hkey))

/-- Around an entry, no other has its name. -/
theorem ne_of_nodup {before after : List (String × α)}
    (hm : ((before ++ (key, value) :: after).map (·.1)).Nodup) : ∀ e ∈ before ++ after, e.1 ≠ key := by
  have hperm : (before ++ (key, value) :: after).Perm ((key, value) :: (before ++ after)) := List.perm_middle
  rw [(hperm.map _).nodup_iff, List.map_cons, List.nodup_cons] at hm
  intro e he heq
  apply hm.1
  exact List.mem_map.2 ⟨e, he, heq⟩

theorem perm_swapErase {before after : List (String × α)}
    (hm : ((before ++ (key, value) :: after).map (·.1)).Nodup) :
    (swapErase (before ++ (key, value) :: after) key).Perm (before ++ after) := by
  have hget : get? (before ++ (key, value) :: after) key = some value := get?_of_mem hm (by simp)
  have hother := ne_of_nodup hm
  have keep : ∀ (last : String × α) (es : List (String × α)), (∀ e ∈ es, e.1 ≠ key) →
      es.map (fun e => if e.1 = key then last else e) = es := by
    intro last es hes
    rw [List.map_congr_left fun e he => if_neg (hes e he), List.map_id']
  unfold swapErase
  rcases List.eq_nil_or_concat after with rfl | ⟨middle, last, rfl⟩
  · rw [hget, List.getLast?_concat, List.dropLast_concat]
    dsimp only
    rw [List.append_nil] at hother ⊢
    rw [keep _ _ hother]
  · have hbefore : ∀ e ∈ before, e.1 ≠ key := fun e he => hother e (by simp [he])
    have hmiddle : ∀ e ∈ middle, e.1 ≠ key := fun e he => hother e (by simp [he])
    rw [hget, List.concat_eq_append, ← List.cons_append, ← List.append_assoc, List.getLast?_concat,
      List.dropLast_concat]
    dsimp only
    rw [List.map_append, List.map_cons, keep _ _ hbefore, keep _ _ hmiddle, if_pos rfl]
    have hlast : (last :: middle).Perm (middle ++ [last]) := (List.perm_append_singleton last middle).symm
    exact hlast.append_left before

theorem swapErase_of_get?_eq_none (h : get? m key = none) : swapErase m key = m := by
  unfold swapErase
  rw [h]
  cases m.getLast? <;> rfl

theorem swapErase_perm_erase (hm : (m.map (·.1)).Nodup) : (swapErase m key).Perm (erase m key) := by
  cases hget : get? m key with
  | none => rw [swapErase_of_get?_eq_none hget, erase_of_get?_eq_none hget]
  | some v =>
    obtain ⟨before, after, rfl⟩ := List.append_of_mem (mem_of_get? hget)
    have herase : erase (before ++ (key, v) :: after) key = before ++ after := by
      have hbefore : ∀ e ∈ before, e.1 ≠ key := fun e he => ne_of_nodup hm e (List.mem_append_left _ he)
      clear hm hget
      induction before with
      | nil => simp [erase]
      | cons e rest ih =>
        rw [List.cons_append, erase, if_neg (hbefore e (List.mem_cons_self ..)),
          ih fun e he => hbefore e (List.mem_cons_of_mem _ he)]
        rfl
    rw [herase]
    exact perm_swapErase hm

theorem get?_swapErase_self (hm : (m.map (·.1)).Nodup) (key : String) : get? (swapErase m key) key = none := by
  rw [get?_perm (nodup_erase hm key) (swapErase_perm_erase hm), get?_erase_self hm]

theorem get?_swapErase_of_ne (hm : (m.map (·.1)).Nodup) (h : other ≠ key) :
    get? (swapErase m key) other = get? m other := by
  rw [get?_perm (nodup_erase hm key) (swapErase_perm_erase hm), get?_erase_of_ne m h]

theorem swapErase_concat {last : String × α} (h : has (m ++ [last]) key = true) :
    swapErase (m ++ [last]) key = m.map fun e => if e.1 = key then last else e := by
  obtain ⟨v, hv⟩ := Option.isSome_iff_exists.1 h
  unfold swapErase
  rw [List.getLast?_concat, List.dropLast_concat, hv]

theorem swapErase_map (f : α → β) (m : List (String × α)) (key : String) :
    swapErase (m.map fun e => (e.1, f e.2)) key = (swapErase m key).map fun e => (e.1, f e.2) := by
  unfold swapErase
  rw [List.getLast?_map, get?_map]
  cases m.getLast? with
  | none => rfl
  | some last =>
    cases get? m key with
    | none => rfl
    | some v =>
      dsimp only [Option.map_some]
      rw [← List.map_dropLast, List.map_map, List.map_map]
      refine List.map_congr_left fun e _ => ?_
      by_cases he : e.1 = key
      · simp [he]
      · simp [he]

/-- Where the last entry goes depends on the names alone. -/
theorem names_swapErase_congr {n : List (String × α)} (h : m.map (·.1) = n.map (·.1)) (key : String) :
    (swapErase m key).map (·.1) = (swapErase n key).map (·.1) := by
  have hbare (l : List (String × α)) : (swapErase l key).map (·.1) =
      (swapErase ((l.map (·.1)).map fun k => (k, ())) key).map (·.1) := by
    have hmap := congrArg (List.map (·.1)) (swapErase_map (fun _ => ()) l key)
    rw [List.map_map] at hmap ⊢
    exact hmap.symm
  rw [hbare m, hbare n, h]

theorem filter_erase {p : String × α → Bool} (hp : ∀ e, e.1 = key → p e = false) (m : List (String × α)) :
    (erase m key).filter p = m.filter p := by
  induction m with
  | nil => rfl
  | cons e rest ih =>
    by_cases he : e.1 = key
    · simp [erase, he, hp e he]
    · simp [erase, he, List.filter_cons, ih]

/-! ### One name in a run of changes -/

section foldl

variable {f g : List (String × α) → β → List (String × α)} {xs : List β}

theorem get?_foldl_congr {n : List (String × α)}
    (h : ∀ m n, ∀ b ∈ xs, get? m key = get? n key → get? (f m b) key = get? (g n b) key)
    (hmn : get? m key = get? n key) : get? (xs.foldl f m) key = get? (xs.foldl g n) key := by
  induction xs generalizing m n with
  | nil => exact hmn
  | cons b rest ih =>
    exact ih (fun m n c hc => h m n c (List.mem_cons_of_mem _ hc)) (h m n b (List.mem_cons_self ..) hmn)

theorem get?_foldl_of_untouched (h : ∀ m, ∀ b ∈ xs, get? (f m b) key = get? m key) (m : List (String × α)) :
    get? (xs.foldl f m) key = get? m key := by
  induction xs generalizing m with
  | nil => rfl
  | cons b rest ih =>
    rw [List.foldl_cons, ih fun m c hc => h m c (List.mem_cons_of_mem _ hc)]
    exact h m b (List.mem_cons_self ..)

/-- The one change that touches a name decides what is there. -/
theorem get?_foldl_of_touched {b : β} {before after : List β} {v : Option α}
    (hb : ∀ m, get? m key = none → get? (f m b) key = v)
    (hrest : ∀ m, ∀ c ∈ before ++ after, get? (f m c) key = get? m key) (hm : get? m key = none) :
    get? ((before ++ b :: after).foldl f m) key = v := by
  rw [List.foldl_append, List.foldl_cons,
    get?_foldl_of_untouched fun m c hc => hrest m c (List.mem_append_right _ hc)]
  apply hb
  rw [get?_foldl_of_untouched fun m c hc => hrest m c (List.mem_append_left _ hc)]
  exact hm

theorem Sorted.foldl (h : ∀ m, ∀ b ∈ xs, Sorted m → Sorted (f m b)) (hm : Sorted m) : Sorted (xs.foldl f m) := by
  induction xs generalizing m with
  | nil => exact hm
  | cons b rest ih =>
    exact ih (fun m c hc => h m c (List.mem_cons_of_mem _ hc)) (h m b (List.mem_cons_self ..) hm)

end foldl

end LiveLayout.Fields
