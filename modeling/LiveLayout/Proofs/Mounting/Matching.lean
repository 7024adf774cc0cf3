import LiveLayout.Host
import Mathlib.Data.List.Basic
/-!
Matching new nodes with mounted ones. Every new node gets its place, and every mounted node is either
taken over by one of them or left.
-/
namespace LiveLayout.Reconcile

theorem perm_filterMap_set {α : Type} {slots : List (Option α)} {i : Nat} {m : α}
    (h : slots[i]? = some (some m)) :
    (slots.filterMap id).Perm (m :: (slots.set i none).filterMap id) := by
  induction slots generalizing i with
  | nil => simp at h
  | cons slot rest ih =>
    cases i with
    | zero =>
      obtain rfl : slot = some m := by simpa using h
      simp
    | succ i =>
      have hrest := ih (i := i) (by simpa using h)
      cases slot with
      | none => simpa using hrest
      | some m' => simpa using (hrest.cons m').trans (.swap m m' _)

/-- A new node takes over mounted ones with its own key and of its own kind. -/
def Fits (m : Mounted) (n : Node) : Prop := m.key? = n.key? ∧ m.sameKind n = true

/-- A position that is taken holds a mounted node that fits. -/
theorem exists_of_position? {slots : Slots} {index i : Nat} {n : Node}
    (h : position? slots index n = some i) : ∃ m, slots[i]? = some (some m) ∧ Fits m n := by
  unfold position? at h
  split at h
  · rename_i key hkey
    obtain ⟨hi, hm, -⟩ := List.findIdx?_eq_some_iff_getElem.1 h
    cases hs : slots[i] with
    | none => simp [hs] at hm
    | some m =>
      simp only [hs, Option.any_some, Bool.and_eq_true, beq_iff_eq] at hm
      exact ⟨m, by rw [List.getElem?_eq_getElem hi, hs], hm.1.trans hkey.symm, hm.2⟩
  · rename_i hkey
    split at h
    · split at h
      · rename_i hm
        simp only [Bool.and_eq_true, Option.isNone_iff_eq_none] at hm
        obtain rfl := Option.some.inj h
        exact ⟨_, ‹_›, hm.1.trans hkey.symm, hm.2⟩
      · cases h
    · cases h

theorem fits_of_mem_assign {slots : Slots} {index : Nat} {new : List Node} {m : Mounted} {n : Node}
    (h : (some m, n) ∈ (assign slots index new).1) : Fits m n := by
  induction new generalizing slots index with
  | nil => simp [assign] at h
  | cons n' rest ih =>
    simp only [assign, List.mem_cons] at h
    rcases h with h | h
    · obtain ⟨hm, rfl⟩ := Prod.mk.inj h
      cases hp : position? slots index n with
      | none => simp [hp] at hm
      | some i =>
        obtain ⟨m', hm', hfits⟩ := exists_of_position? hp
        simp only [hp, Option.bind_some, hm', Option.join_some, Option.some.injEq] at hm
        exact hm ▸ hfits
    · exact ih h

theorem map_snd_assign (slots : Slots) (index : Nat) (new : List Node) :
    (assign slots index new).1.map (·.2) = new := by
  induction new generalizing slots index with
  | nil => rfl
  | cons n rest ih => simp only [assign, List.map_cons, ih]

/-- No mounted node is lost, and none is taken over twice. -/
theorem perm_assign (slots : Slots) (index : Nat) (new : List Node) :
    (slots.filterMap id).Perm
      ((assign slots index new).1.filterMap (·.1) ++ (assign slots index new).2) := by
  induction new generalizing slots index with
  | nil => exact .refl _
  | cons n rest ih =>
    simp only [assign]
    cases h : position? slots index n with
    | none => simpa using ih slots (index + 1)
    | some i =>
      obtain ⟨m, hm, -⟩ := exists_of_position? h
      simp only [Option.bind_some, hm, Option.join_some]
      exact (perm_filterMap_set hm).trans ((ih (slots.set i none) (index + 1)).cons m)

/-- Where nothing is mounted, nothing is taken over. -/
theorem assign_nil (index : Nat) (new : List Node) :
    assign [] index new = (new.map fun n => (none, n), []) := by
  induction new generalizing index with
  | nil => rfl
  | cons n rest ih =>
    have hnone : position? [] index n = none := by
      unfold position?
      cases n.key? <;> rfl
    simp [assign, hnone, ih]

/-- What comes first among the slots that are left is taken by a node that it fits. -/
theorem position?_of_fits {m : Mounted} {n : Node} (h : Fits m n) (index : Nat) (rest : Slots) :
    position? (List.replicate index none ++ some m :: rest) index n = some index := by
  have hkey : m.key? = n.key? := h.1
  unfold position?
  cases hn : n.key? with
  | none =>
    rw [List.getElem?_append_right (by simp)]
    simp [hkey, hn, h.2]
  | some key =>
    dsimp only
    rw [List.findIdx?_append]
    simp [List.findIdx?_replicate, List.findIdx?_cons, hkey, hn, h.2]

/-- Nodes that fit one by one are taken over one by one, and nothing is left. -/
theorem assign_of_fits {old : List Mounted} {new : List Node} (h : List.Forall₂ Fits old new)
    (index : Nat) :
    assign (List.replicate index none ++ old.map some) index new = ((old.map some).zip new, []) := by
  induction h generalizing index with
  | nil => simp [assign]
  | @cons m n old new hfits _ ih =>
    have hset : (List.replicate index none ++ some m :: old.map some).set index none =
        List.replicate (index + 1) none ++ old.map some := by
      rw [List.set_append_right _ _ (by simp)]
      simp [List.replicate_succ']
    simp only [List.map_cons, assign, position?_of_fits hfits, hset, ih]
    simp

end LiveLayout.Reconcile

namespace LiveLayout.Mounted

/-- Where nothing is mounted, all nodes are. -/
theorem reconcile_nil (host depth : Nat) (update : Mounted → Node → Engine Mounted)
    (nodes : List Node) : reconcile host depth update [] nodes = nodes.mapM (mount host depth) := by
  unfold reconcile
  rw [List.map_nil, Reconcile.assign_nil]
  dsimp only
  rw [List.mapM_map]
  exact bind_pure _

end LiveLayout.Mounted
