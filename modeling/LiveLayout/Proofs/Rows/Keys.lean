import LiveLayout.Proofs.Dotted.Lexemes
import LiveLayout.Proofs.Rows.Turns
/-!
The keys of the rows of a list. An element whose key an earlier one has falls back on its position. Two rows have the
same key just when some other element is called what such an element falls back on.
-/
namespace LiveLayout.ForEach

open Engine

/-- The keys that the elements have by themselves, from their ids or positions. -/
def ownKeys (items : List Json) : List String := items.mapIdx fun i item => itemKey item i

/-- What an element is called that falls back on its position. -/
def spareId (i : Nat) : String := toString i ++ "@dup"

/-- The element at a position has a key that an earlier one has. -/
def Repeats (items : List Json) (i : Nat) : Prop := ∃ k ∈ (ownKeys items).take i, (ownKeys items)[i]? = some k

/-! ### Each key -/

/-- The keys in a list that starts at a position, after elements with other keys. -/
theorem keys_eq_mapIdx (seen : List String) (items : List Json) (index : Nat) :
    keys seen items index =
      let own := items.mapIdx fun i item => itemKey item (index + i)
      own.mapIdx fun i k => if k ∈ seen ++ own.take i then rowKey (spareId (index + i)) else k := by
  induction items generalizing seen index with
  | nil => rfl
  | cons item rest ih =>
    have hkey : "#" ++ toString index ++ "@dup" = rowKey (spareId index) := String.append_assoc ..
    have hown : (fun i v => itemKey v (index + (i + 1))) = fun i v => itemKey v (index + 1 + i) := by
      funext i v
      rw [Nat.add_right_comm, Nat.add_assoc]
    rw [keys, ih, hkey]
    dsimp only
    rw [List.mapIdx_cons, List.mapIdx_cons, hown]
    simp only [Nat.add_zero, List.take_zero, List.append_nil, List.take_succ_cons]
    refine congrArg _ (List.mapIdx_eq_mapIdx_iff.2 fun i _ => ?_)
    have hposition : index + (i + 1) = index + 1 + i := by omega
    rw [hposition]
    exact if_congr (List.perm_middle.symm.mem_iff) rfl rfl

theorem getElem?_keys (items : List Json) (i : Nat) : (keys [] items 0)[i]? = (ownKeys items)[i]?.map fun k =>
    if k ∈ (ownKeys items).take i then rowKey (spareId i) else k := by
  have hown : (items.mapIdx fun i item => itemKey item (0 + i)) = ownKeys items := by
    simp only [Nat.zero_add, ownKeys]
  rw [keys_eq_mapIdx]
  dsimp only [List.nil_append]
  rw [hown, List.getElem?_mapIdx]
  simp only [Nat.zero_add]

theorem getElem?_keys_of_repeats {items : List Json} {i : Nat} (h : Repeats items i) :
    (keys [] items 0)[i]? = some (rowKey (spareId i)) := by
  obtain ⟨k, hmem, hget⟩ := h
  rw [getElem?_keys, hget, Option.map_some, if_pos hmem]

theorem getElem?_keys_of_not_repeats {items : List Json} {i : Nat} (h : ¬Repeats items i) :
    (keys [] items 0)[i]? = (ownKeys items)[i]? := by
  rw [getElem?_keys]
  cases hget : (ownKeys items)[i]? with
  | none => rfl
  | some k =>
    have hnot : k ∉ (ownKeys items).take i := fun hmem => h ⟨k, hmem, hget⟩
    rw [Option.map_some, if_neg hnot]

/-! ### Keys that meet -/

theorem spareId_injective : Function.Injective spareId := by
  intro i j h
  have hlist := congrArg String.toList h
  simp only [spareId, String.toList_append] at hlist
  exact Nat.repr_inj.1 (String.toList_inj.1 (List.append_cancel_right hlist))

/-- A position is never what an element falls back on. -/
theorem repr_ne_spareId (i j : Nat) : toString j ≠ spareId i := by
  intro h
  have hat : '@' ∈ (toString j).toList := by simp [h, spareId]
  obtain ⟨c, cs, hlist, hdigits⟩ := Path.digits_repr j
  have hlist' : (toString j).toList = c :: cs := hlist
  have hdigit := hdigits '@' (hlist' ▸ hat)
  revert hdigit
  decide

theorem itemKey_eq_of_ownId?_eq_none {item : Json} (h : ownId? item = none) (index : Nat) :
    itemKey item index = rowKey (toString index) := by
  unfold ownId? at h
  unfold itemKey rowKey
  split
  · simp_all
  · simp_all
  · rfl

theorem mem_ownKeys_spareId {items : List Json} {i : Nat} :
    rowKey (spareId i) ∈ ownKeys items ↔ ∃ item ∈ items, ownId? item = some (spareId i) := by
  unfold ownKeys
  rw [List.mem_mapIdx]
  constructor
  · rintro ⟨j, hj, hkey⟩
    cases hown : ownId? items[j] with
    | some id =>
      rw [itemKey_of_ownId? hown] at hkey
      exact ⟨items[j], List.getElem_mem hj, by rw [hown, rowKey_injective hkey]⟩
    | none =>
      rw [itemKey_eq_of_ownId?_eq_none hown] at hkey
      exact absurd (rowKey_injective hkey) (repr_ne_spareId i j)
  · rintro ⟨item, hmem, hown⟩
    obtain ⟨j, hj, rfl⟩ := List.mem_iff_getElem.1 hmem
    exact ⟨j, hj, itemKey_of_ownId? hown j⟩

/-- Some element falls back on its position, and some element has just that as its id. -/
def Clashes (items : List Json) : Prop :=
  ∃ i < items.length, Repeats items i ∧ ∃ item ∈ items, ownId? item = some (spareId i)

instance (items : List Json) (i : Nat) : Decidable (Repeats items i) :=
  inferInstanceAs (Decidable (∃ k ∈ (ownKeys items).take i, (ownKeys items)[i]? = some k))

instance (items : List Json) : Decidable (Clashes items) :=
  inferInstanceAs
    (Decidable (∃ i < items.length, Repeats items i ∧ ∃ item ∈ items, ownId? item = some (spareId i)))

theorem Repeats.lt_length {items : List Json} {i : Nat} (h : Repeats items i) : i < items.length := by
  obtain ⟨k, -, hget⟩ := h
  obtain ⟨hlength, -⟩ := List.getElem?_eq_some_iff.1 hget
  simpa [ownKeys] using hlength

/-- The first of the elements with a key repeats none. -/
theorem exists_first {items : List Json} {k : String} (h : k ∈ ownKeys items) :
    ∃ i, (ownKeys items)[i]? = some k ∧ ¬Repeats items i := by
  have hfirst : (ownKeys items)[(ownKeys items).idxOf k]? = some k := List.getElem?_idxOf h
  refine ⟨_, hfirst, ?_⟩
  rintro ⟨k', hmem, hget⟩
  cases hfirst.symm.trans hget
  obtain ⟨j, hj, hjk⟩ := List.mem_iff_getElem.1 hmem
  have hlt : j < (ownKeys items).idxOf k := by
    rw [List.length_take] at hj
    omega
  rw [List.getElem_take] at hjk
  exact absurd (List.not_of_lt_findIdx hlt) (by simp [hjk])

theorem repeats_of_lt {items : List Json} {i j : Nat} {k : String} (hij : i < j)
    (hi : (ownKeys items)[i]? = some k) (hj : (ownKeys items)[j]? = some k) : Repeats items j := by
  refine ⟨k, ?_, hj⟩
  rw [List.mem_iff_getElem?]
  exact ⟨i, (List.getElem?_take_of_lt hij).trans hi⟩

theorem nodup_keys_iff (items : List Json) : (keys [] items 0).Nodup ↔ ¬Clashes items := by
  constructor
  · rintro h ⟨i, -, hi, hid⟩
    obtain ⟨j, hget, hj⟩ := exists_first (mem_ownKeys_spareId.2 hid)
    have hkey : (keys [] items 0)[j]? = some (rowKey (spareId i)) := (getElem?_keys_of_not_repeats hj).trans hget
    obtain ⟨hlength, -⟩ := List.getElem?_eq_some_iff.1 hkey
    have hsame := hkey.trans (getElem?_keys_of_repeats hi).symm
    rw [(List.getElem?_inj hlength h).1 hsame] at hj
    exact hj hi
  · intro h
    rw [List.nodup_iff_getElem?_ne_getElem?]
    intro i j hij hlength heq
    obtain ⟨k, hk⟩ : ∃ k, (keys [] items 0)[j]? = some k := ⟨_, List.getElem?_eq_getElem hlength⟩
    have hclash {i j : Nat} (hi : Repeats items i) (hj : (ownKeys items)[j]? = some (rowKey (spareId i))) : False :=
      h ⟨i, hi.lt_length, hi, mem_ownKeys_spareId.1 (List.mem_of_getElem? hj)⟩
    by_cases hi : Repeats items i
    · rw [getElem?_keys_of_repeats hi] at heq
      by_cases hj : Repeats items j
      · rw [getElem?_keys_of_repeats hj] at heq
        have := spareId_injective (rowKey_injective (Option.some.inj heq))
        omega
      · rw [getElem?_keys_of_not_repeats hj] at heq
        exact hclash hi heq.symm
    · rw [getElem?_keys_of_not_repeats hi] at heq
      by_cases hj : Repeats items j
      · rw [getElem?_keys_of_repeats hj] at heq
        exact hclash hj heq
      · rw [getElem?_keys_of_not_repeats hj] at heq hk
        exact hj (repeats_of_lt hij (heq.trans hk) hk)

/-! ### Rendering -/

section

variable {render : Renderer} {p : Props} {s s' : State} {nodes : List Node} {items : List Json} {binding : String}
  {template : Json}

/-- Each element is rendered as a fragment with its key. -/
theorem render_keys (h : Lists p items binding template) (hrun : ForEach.render render p s = some (nodes, s')) :
    nodes.map Node.key? = (keys [] items 0).map some := by
  obtain ⟨r, hr⟩ := Option.isSome_iff_exists.1 h.rendering
  have hrows : Ensures (ForEach.render render p) s fun nodes _ =>
      nodes.map Node.key? = (items.zip (keys [] items 0)).map fun e => some e.2 := by
    simp only [ForEach.render, hr, h.items, h.binding, h.template]
    -- What has been rendered and what is left to render have the keys of the whole list.
    have hstart : List.map Node.key? [] ++ (items.zip (keys [] items 0)).map (fun e => some e.2) =
        (items.zip (keys [] items 0)).map fun e => some e.2 := rfl
    refine (Ensures.mapM (I := fun rest done _ => done.map Node.key? ++ rest.map (fun e => some e.2) =
      (items.zip (keys [] items 0)).map fun e => some e.2) ?_ _ [] hstart).mono fun nodes _ h => by simpa using h
    intro e rest done t hinvariant
    refine .bind (Q := fun _ _ => True) (fun _ _ _ => trivial) fun kids _ _ => .pure ?_
    rw [← hinvariant, List.map_append, List.append_assoc]
    rfl
  have hkeys : (items.zip (keys [] items 0)).map Prod.snd = keys [] items 0 :=
    List.map_snd_zip (Nat.le_of_eq (Scene.length_keys ..))
  rw [hrows _ _ hrun, ← hkeys, List.map_map, hkeys]
  rfl

/-- What is no list is rendered as nothing. -/
theorem render_eq_nil (h : ∀ items binding template, ¬Lists p items binding template)
    (hrun : ForEach.render render p s = some (nodes, s')) : nodes = [] := by
  have hnothing : ForEach.render render p = pure [] := by
    unfold ForEach.render
    split
    · exact absurd ⟨by simp [*], ‹_›, ‹_›, ‹_›⟩ (h _ _ _)
    · rfl
  rw [hnothing, pure_run] at hrun
  cases hrun
  rfl

/-- The rows of a list have distinct keys unless its elements clash. -/
theorem render_nodup_keys_iff (hrun : ForEach.render render p s = some (nodes, s')) :
    (nodes.map Node.key?).Nodup ↔ ∀ items binding template, Lists p items binding template → ¬Clashes items := by
  by_cases hlists : ∃ items binding template, Lists p items binding template
  · obtain ⟨items, binding, template, hlists⟩ := hlists
    rw [render_keys hlists hrun, List.nodup_map_iff (Option.some_injective _), nodup_keys_iff]
    constructor
    · intro h items' _ _ hlists'
      obtain rfl : items = items' := by simpa [hlists.items] using hlists'.items
      exact h
    · intro h
      exact h items binding template hlists
  · have hnone : ∀ items binding template, ¬Lists p items binding template :=
      fun items binding template h => hlists ⟨items, binding, template, h⟩
    rw [render_eq_nil hnone hrun]
    exact ⟨fun _ items binding template h => absurd h (hnone items binding template), fun _ => List.nodup_nil⟩

end

/-- A list of elements with the given ids, of which the second falls back on its position. -/
def twins (third : String) : Props :=
  [("as", .value (.string "x")), ("items", .value (.array (["a", "a", third].map fun id => .object [("id", .string id)]))),
    ("renderKids", .rendering .echoed), ("template", .value (.string "t"))]

theorem render_nodup_keys_iff_twins : ∃ nodes s',
    ForEach.render (fun _ _ _ => pure none) (twins "2@dup") {} = some (nodes, s') ∧ (nodes.map Node.key?).Nodup := by
  obtain ⟨⟨nodes, s'⟩, hrun⟩ : ∃ result, ForEach.render (fun _ _ _ => pure none) (twins "2@dup") {} = some result :=
    ⟨_, rfl⟩
  refine ⟨nodes, s', hrun, (render_nodup_keys_iff hrun).2 fun items binding template h => ?_⟩
  cases h.items
  decide

/-- An element that is called what another one falls back on has the same key. -/
theorem render_keys_clash : ∃ nodes s',
    ForEach.render (fun _ _ _ => pure none) (twins "1@dup") {} = some (nodes, s') ∧
      nodes.map Node.key? = [some "#a", some "#1@dup", some "#1@dup"] :=
  ⟨_, _, rfl, by decide⟩

end LiveLayout.ForEach
