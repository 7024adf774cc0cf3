import LiveLayout.Proofs.Forms.Containers
/-!
Dotted paths as lenses into values and into the scopes of a store. What has been written is read, to write what is
read changes nothing, and a second write makes the first one forgotten. Other entries stay, unless an array is in
the way that has no such position.
-/
namespace LiveLayout

namespace Fields

variable {α : Type}

theorem set_set (m : List (String × α)) (key : String) (u v : α) : set (set m key u) key v = set m key v := by
  induction m with
  | nil => simp [set]
  | cons e rest ih =>
    by_cases he : e.1 = key
    · simp [set, he]
    · simp [set, he, ih]

end Fields

namespace Path

variable {v old : Json} {segment a b : String} {path common rest : List String}

/-! ### Values -/

theorem child?_array {items : List Json} {w : Json} (h : child? (.array items) segment = some w) :
    ∃ i, position? segment items.length = some i ∧ items[i]? = some w := by
  obtain ⟨i, hindex, hitem⟩ := Option.bind_eq_some_iff.1 h
  obtain ⟨hi, -⟩ := List.getElem?_eq_some_iff.1 hitem
  have hposition : position? segment items.length = some i := by simp [position?, hindex, Option.filter, hi]
  exact ⟨i, hposition, hitem⟩

theorem write_read (h : read? old path = some v) : write v path old = old := by
  induction path generalizing old with
  | nil => exact (Option.some.inj h).symm
  | cons segment rest ih =>
    rw [read?] at h
    obtain ⟨w, hw, hrest⟩ := Option.bind_eq_some_iff.1 h
    have hwrite : write v rest w = w := ih hrest
    cases old with
    | object fields =>
      have hget : Fields.get? fields segment = some w := hw
      rw [write, hget, Option.getD_some, hwrite, Fields.set_of_get? hget]
    | array items =>
      obtain ⟨i, hposition, hitem⟩ := child?_array hw
      have hsame : items.modify i (write v rest) = items := by
        apply List.ext_getElem?
        intro j
        rw [List.getElem?_modify]
        by_cases hj : i = j
        · subst hj
          simp [hitem, hwrite]
        · simp [hj]
      rw [write, hposition]
      simp only [hsame]
    | _ => cases hw

theorem write_write (u v : Json) (path : List String) (old : Json) :
    write v path (write u path old) = write v path old := by
  induction path generalizing old with
  | nil => rfl
  | cons segment rest ih =>
    have hfresh : write v (segment :: rest) (.object [(segment, write u rest .null)]) =
        .object [(segment, write v rest .null)] := by
      simp [write, Fields.set, Fields.get?, ih]
    cases old with
    | object fields => simp only [write, Fields.get?_set_self, Option.getD_some, Fields.set_set, ih]
    | array items =>
      cases hposition : position? segment items.length with
      | none => simpa only [write, hposition] using hfresh
      | some i =>
        have hagain : (items.modify i (write u rest)).modify i (write v rest) = items.modify i (write v rest) := by
          apply List.ext_getElem?
          intro j
          simp only [List.getElem?_modify]
          cases items[j]? with
          | none => split <;> rfl
          | some w =>
            by_cases hj : i = j
            · simp [hj, ih]
            · simp [hj]
        simp only [write, hposition, List.length_modify, hagain]
    | _ => exact hfresh

/-- A write at a longer path is seen at the shorter one as the rest of the write. -/
theorem read?_write_append (v : Json) (common rest : List String) (old : Json) :
    read? (write v (common ++ rest) old) common = some (write v rest ((read? old common).getD .null)) := by
  induction common generalizing old with
  | nil => rfl
  | cons segment more ih =>
    rw [List.cons_append, read?, child?_write, Option.bind_some, ih, read?]
    cases child? old segment with
    | some w => rfl
    | none => cases more <;> rfl

/-- The segments name different entries, of objects and of arrays. -/
structure Parts (a b : String) : Prop where
  ne : a ≠ b
  index : ∀ i, Decimal.index? a = some i → Decimal.index? b ≠ some i

/-- At the path there is an array that the segment is no position of. -/
def Misses (v : Json) (path : List String) (segment : String) : Prop :=
  ∃ items, read? v path = some (.array items) ∧ position? segment items.length = none

/-- A write through one segment leaves what another one names, in all but an array that it misses. -/
theorem child?_write_of_parts (h : Parts a b) (hmisses : ¬Misses old [] a) :
    child? (write v (a :: rest) old) b = child? old b := by
  cases old with
  | object fields => simp [write, child?, Fields.get?_set_of_ne _ _ h.ne.symm]
  | array items =>
    cases hposition : position? a items.length with
    | none => exact absurd ⟨items, rfl, hposition⟩ hmisses
    | some i =>
      have ha : Decimal.index? a = some i := (Option.filter_eq_some_iff.1 hposition).1
      rw [write, hposition]
      simp only [child?]
      cases hb : Decimal.index? b with
      | none => rfl
      | some j =>
        have hij : i ≠ j := fun hij => h.index i ha (hij ▸ hb)
        simp [List.getElem?_modify, hij]
  | _ => simp [write, child?, Fields.get?, h.ne]

/-- In place of an array that the segment misses, a write makes an object with nothing else. -/
theorem child?_write_of_misses (hne : a ≠ b) (hmisses : Misses old [] a) : child? (write v (a :: rest) old) b = none := by
  obtain ⟨items, hitems, hposition⟩ := hmisses
  cases Option.some.inj hitems
  simp [write, hposition, child?, Fields.get?, hne]

theorem misses_iff {w : Json} (h : read? old common = some w) : Misses old common a ↔ Misses w [] a := by
  simp [Misses, h, read?]

/-- What a write leaves of the paths that part from its own. -/
theorem read?_write_of_parts (h : Parts a b) (hmisses : ¬Misses old common a) (rest path : List String) :
    read? (write v (common ++ a :: rest) old) (common ++ b :: path) = read? old (common ++ b :: path) := by
  rw [read?_append, read?_write_append, Option.bind_some, read?_append, read?]
  cases hcommon : read? old common with
  | none =>
    have hnull : ¬Misses .null [] a := by simp [Misses, read?]
    rw [Option.getD_none, child?_write_of_parts h hnull]
    rfl
  | some w =>
    rw [Option.getD_some, child?_write_of_parts h (mt (misses_iff hcommon).2 hmisses)]
    rfl

theorem read?_write_of_misses (hne : a ≠ b) (hmisses : Misses old common a) (rest path : List String) :
    read? (write v (common ++ a :: rest) old) (common ++ b :: path) = none := by
  obtain ⟨items, hcommon, -⟩ := id hmisses
  rw [read?_append, read?_write_append, Option.bind_some, hcommon, Option.getD_some, read?,
    child?_write_of_misses hne ((misses_iff hcommon).1 hmisses)]
  rfl

end Path

/-! ### Scopes -/

namespace Store

variable {σ τ : Store} {scope k : Scope} {path : String} {v : Json}

theorem ext_level? (h : ∀ k, σ.level? k = τ.level? k) : σ = τ := by
  have hlevels : σ.levels = τ.levels := Array.ext_getElem? h
  cases σ
  cases τ
  exact congrArg Store.mk hlevels

/-- The variables of all levels. -/
def values (σ : Store) : List (List (String × Json)) := σ.levels.toList.map Level.values

/-- The store with a value written at a path; a blank path writes nothing. -/
def put (σ : Store) (scope : Scope) (path : String) (v : Json) : Store :=
  match Path.segments path with
  | [] => σ
  | root :: rest => σ.write scope root rest v

/-- What a scope reads at a path. -/
def read? (σ : Store) (scope : Scope) (path : String) : Option Json := σ.readSegments? scope (Path.segments path)

theorem put_eq_write {root : String} {rest : List String} (hpath : Path.segments path = root :: rest) (σ : Store)
    (scope : Scope) (v : Json) : σ.put scope path v = σ.write scope root rest v := by
  rw [put, hpath]

theorem read?_eq {root : String} {rest : List String} (hpath : Path.segments path = root :: rest) (σ : Store)
    (scope : Scope) : σ.read? scope path = (σ.lookup? scope root).bind (Path.read? · rest) := by
  rw [read?, hpath, readSegments?]

theorem read?_put (hscope : scope < σ.levels.size) (hpath : Path.segments path ≠ []) (v : Json) :
    (σ.put scope path v).read? scope path = some v := by
  obtain ⟨root, rest, hsegments⟩ := List.exists_cons_of_ne_nil hpath
  rw [put_eq_write hsegments, read?_eq hsegments, lookup?_write hscope rfl, Option.bind_some, Path.read?_write]

theorem write_read {root : String} {rest : List String} {old : Json} (hlookup : σ.lookup? scope root = some old)
    (hread : Path.read? old rest = some v) : σ.write scope root rest v = σ := by
  obtain ⟨level, hlevel, hget⟩ := Option.bind_eq_some_iff.1 hlookup
  have hentry : Path.writeEntry v root rest level.values = level.values := by
    rw [Path.writeEntry, hget, Option.getD_some, Path.write_read hread, Fields.set_of_get? hget]
  apply ext_level?
  intro k
  rw [write, level?_modify]
  by_cases hk : σ.owner scope root = k
  · subst hk
    simp [hlevel, hentry]
  · simp [hk]

theorem write_write (hscope : scope < σ.levels.size) (root : String) (rest : List String) (u v : Json) :
    (σ.write scope root rest u).write scope root rest v = σ.write scope root rest v := by
  have howner : (σ.write scope root rest u).owner scope root = σ.owner scope root :=
    (keepsScopes_write σ scope root rest u).owner_eq hscope
  have hentry (level : Level) : Path.writeEntry v root rest (Path.writeEntry u root rest level.values) =
      Path.writeEntry v root rest level.values := by
    simp [Path.writeEntry, Fields.set_set, Path.write_write]
  apply ext_level?
  intro k
  rw [write, howner]
  simp only [write, level?_modify]
  by_cases hk : σ.owner scope root = k
  · cases σ.level? k with
    | none => simp
    | some level => simp [hk, hentry]
  · simp [hk]

theorem put_read (h : σ.read? scope path = some v) : σ.put scope path v = σ := by
  unfold put
  cases hsegments : Path.segments path with
  | nil => rfl
  | cons root rest =>
    rw [read?_eq hsegments] at h
    obtain ⟨old, hlookup, hread⟩ := Option.bind_eq_some_iff.1 h
    exact write_read hlookup hread

theorem put_put (hscope : scope < σ.levels.size) (u v : Json) (path : String) :
    (σ.put scope path u).put scope path v = σ.put scope path v := by
  unfold put
  cases Path.segments path with
  | nil => rfl
  | cons root rest => exact write_write hscope root rest u v

end Store
end LiveLayout
