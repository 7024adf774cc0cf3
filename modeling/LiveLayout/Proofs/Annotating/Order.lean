import LiveLayout.Proofs.Annotating.Brick
/-!
The order of the entries of a brick. Ids, marks and forms that are new go last, and visits leave every entry in its
place. Marks that are erased let the last entry into theirs, which changes the order of the others unless that entry
is a new id.
-/
namespace LiveLayout

namespace Annotate

variable {fields : List (String × Json)} {name : String}

/-- The names of the entries that a pass may write into a brick. -/
def bookkeeping : List String := ["id", "_expressions", "form"]

/-- The names of all other entries, in their order. -/
def otherNames (fields : List (String × Json)) : List String := (fields.map (·.1)).filter (· ∉ bookkeeping)

theorem otherNames_congr {fields' : List (String × Json)} (h : fields'.map (·.1) = fields.map (·.1)) :
    otherNames fields' = otherNames fields := by
  unfold otherNames
  rw [h]

theorem otherNames_cons (e : String × Json) (fields : List (String × Json)) : otherNames (e :: fields) =
    if e.1 ∈ bookkeeping then otherNames fields else e.1 :: otherNames fields := by
  unfold otherNames
  rw [List.map_cons, List.filter_cons]
  by_cases he : e.1 ∈ bookkeeping
  · simp [he]
  · simp [he]

theorem otherNames_set (hname : name ∈ bookkeeping) (fields : List (String × Json)) (v : Json) :
    otherNames (Fields.set fields name v) = otherNames fields := by
  unfold otherNames
  rw [Fields.names_set]
  split
  · rfl
  · rw [List.filter_append, List.filter_singleton]
    simp [hname]

theorem otherNames_replace {e : String × Json} (hname : name ∈ bookkeeping) (he : e.1 ∈ bookkeeping)
    (fields : List (String × Json)) :
    otherNames (fields.map fun e' => if e'.1 = name then e else e') = otherNames fields := by
  induction fields with
  | nil => rfl
  | cons e' rest ih =>
    rw [List.map_cons, otherNames_cons, otherNames_cons, ih]
    by_cases he' : e'.1 = name
    · rw [if_pos he', if_pos he, he', if_pos hname]
    · rw [if_neg he']

/-- A new id takes the place of the marks that are erased. -/
theorem otherNames_swapErase_new (hid : Fields.get? fields "id" = none) (v : Json) :
    otherNames (Fields.swapErase (Fields.set fields "id" v) "_expressions") = otherNames fields := by
  have hset := Fields.set_of_get?_eq_none hid v
  rw [hset]
  cases hmarks : Fields.has (fields ++ [("id", v)]) "_expressions" with
  | true =>
    rw [Fields.swapErase_concat hmarks]
    have hown : ("id", v).1 ∈ bookkeeping := List.mem_cons_self ..
    exact otherNames_replace (by decide) hown fields
  | false =>
    have hnone : Fields.get? (fields ++ [("id", v)]) "_expressions" = none :=
      Option.not_isSome_iff_eq_none.1 (Bool.eq_false_iff.1 hmarks)
    rw [Fields.swapErase_of_get?_eq_none hnone, ← hset]
    exact otherNames_set (by decide) fields v

theorem otherNames_swapErase_perm (hfields : (fields.map (·.1)).Nodup) :
    (otherNames (Fields.swapErase fields "_expressions")).Perm (otherNames fields) := by
  have herase : otherNames (Fields.erase fields "_expressions") = otherNames fields := by
    unfold otherNames
    rw [List.filter_map, List.filter_map, Fields.filter_erase]
    have hmarks : "_expressions" ∈ bookkeeping := by decide
    rintro ⟨_, v⟩ rfl
    exact decide_eq_false (not_not.2 hmarks)
  rw [← herase]
  exact ((Fields.swapErase_perm_erase hfields).map _).filter _

/-- The entries of a brick that comes with an id and has no expressions: the last one takes the place of its marks. -/
theorem otherNames_markExpressions (fields : List (String × Json)) (v : Json) :
    otherNames (markExpressions (Fields.set fields "id" v)) =
      otherNames (if expressionNames fields = [] ∧ Fields.has fields "id" = true then
        Fields.swapErase fields "_expressions" else fields) := by
  unfold markExpressions
  rw [expressionNames_set rfl]
  cases hnames : expressionNames fields with
  | cons first rest =>
    rw [if_neg fun h => List.cons_ne_nil _ _ h.1]
    exact (otherNames_set (by decide) _ _).trans (otherNames_set (by decide) fields v)
  | nil =>
    cases hid : Fields.has fields "id" with
    | false =>
      rw [if_neg fun h => Bool.false_ne_true h.2]
      exact otherNames_swapErase_new (Option.not_isSome_iff_eq_none.1 (Bool.eq_false_iff.1 hid)) v
    | true =>
      rw [if_pos ⟨rfl, rfl⟩]
      have hset : (Fields.set fields "id" v).map (·.1) = fields.map (·.1) := by
        rw [Fields.names_set, if_pos (Fields.has_eq_true_iff.1 hid)]
      exact otherNames_congr (Fields.names_swapErase_congr hset "_expressions")

theorem otherNames_stamped (fields : List (String × Json)) (stamp : Option String) :
    otherNames (stamped fields stamp) = otherNames fields := by
  cases stamp with
  | none => rfl
  | some form => exact otherNames_set (by decide) fields _

/-- Visits leave each entry in its place. -/
theorem names_visitNamed {visits : List (String × Visit)} (form : Option String) {names : List String}
    (h : ∀ name ∈ names, Fields.has visits name = true → name ∈ fields.map (·.1)) (ids : Ids) :
    (visitNamed visits form names fields ids).1.map (·.1) = fields.map (·.1) := by
  induction names generalizing fields ids with
  | nil => rfl
  | cons first rest ih =>
    rw [List.forall_mem_cons] at h
    unfold visitNamed
    cases hvisit : Fields.get? visits first with
    | none => exact ih h.2 ids
    | some visit =>
      have hset : (Fields.set fields first (visit form ids).1).map (·.1) = fields.map (·.1) := by
        rw [Fields.names_set, if_pos (h.1 (by rw [Fields.has, hvisit]; rfl))]
      dsimp only
      rw [bind_run, ih (by rw [hset]; exact h.2), hset]

/-- In a brick that comes with an id, the last entry takes the place of marks that are erased. All others keep their
order. -/
theorem otherNames_brick (registry : Registry) (options : Options) (typeName : String)
    (hfields : (fields.map (·.1)).Nodup) (form : Option String) (ids : Ids) :
    otherNames (brick registry options typeName fields (entries registry options fields) form ids).1 =
      otherNames (if expressionNames fields = [] ∧ Fields.has fields "id" = true then
        Fields.swapErase fields "_expressions" else fields) := by
  obtain ⟨id, -, hset⟩ := identify_eq_set options.keyPrefix fields ids
  rw [brick_eq, hset]
  dsimp only
  generalize hprepared : markExpressions (Fields.set fields "id" (.string id)) = prepared
  generalize hstamp : stamp? registry typeName prepared form = stamp
  have hnames : (visitNamed (entries registry options fields) (innerForm registry typeName prepared form)
      ((nestedAttributes registry typeName (stamped prepared stamp)).filter (· ∉ own stamp)) (stamped prepared stamp)
      (identify options.keyPrefix fields ids).2).1.map (·.1) = (stamped prepared stamp).map (·.1) := by
    refine names_visitNamed _ (fun name hname hvisit => ?_) _
    obtain ⟨hid, hmarks, hform⟩ := not_mem_own (of_decide_eq_true (List.mem_filter.1 hname).2)
    -- An entry that has a visit is there from the start.
    have hthere : Fields.get? (stamped prepared stamp) name = Fields.get? fields name := by
      rw [← get?_marked hfields hid hmarks, hprepared]
      cases stamp with
      | none => rfl
      | some form => exact get?_stamped_of_ne (hform rfl) _
    rw [Fields.has, get?_entries, Option.isSome_map] at hvisit
    rw [← Fields.has_eq_true_iff, Fields.has, hthere]
    exact hvisit
  rw [otherNames_congr hnames, otherNames_stamped, ← hprepared, otherNames_markExpressions]

end Annotate
end LiveLayout
