import LiveLayout.Proofs.Rows.Forks
import LiveLayout.Proofs.Rows.Replacing
/-!
What one rendering does to the rows of the lists in a tree. The elements of a list have ids of their own: the row of an
id stays with all that its outline leads to, and is given a new fork; the rows of other ids come and go.
-/
namespace LiveLayout

open Engine Mounted

namespace ForEach

/-- The id of an element that has one: the text under `id`, or else under `key`. -/
def ownId? (item : Json) : Option String :=
  match (item.get? "id").or (item.get? "key") with
  | some (.string s) => if s = "" then none else some s
  | some (.number n) => some n.text
  | _ => none

/-- All elements have ids of their own, no two of them the same. -/
structure Identified (items : List Json) (ids : List String) : Prop where
  own : items.map ownId? = ids.map some
  distinct : ids.Nodup

def rowKey (id : String) : String := "#" ++ id

theorem rowKey_injective : Function.Injective rowKey := by
  intro a b h
  have hlist := congrArg String.toList h
  simp only [rowKey, String.toList_append] at hlist
  exact String.toList_inj.1 (List.append_cancel_left hlist)

theorem itemKey_of_ownId? {item : Json} {id : String} (h : ownId? item = some id) (index : Nat) :
    itemKey item index = rowKey id := by
  unfold ownId? at h
  split at h
  · rename_i s heq
    split at h
    · cases h
    · obtain rfl := Option.some.inj h
      simp only [itemKey, heq, if_neg ‹_›, rowKey]
  · rename_i n heq
    simp only [itemKey, heq, rowKey, Option.some.inj h]
  · cases h

/-- The fragments of elements with ids have those as their keys. -/
theorem keys_of_identified {items : List Json} {ids : List String} (h : Identified items ids) :
    keys [] items 0 = ids.map rowKey := by
  suffices hall : ∀ (seen : List String) (index : Nat), (∀ id ∈ ids, rowKey id ∉ seen) →
      keys seen items index = ids.map rowKey from hall [] 0 fun _ _ => List.not_mem_nil
  obtain ⟨hown, hdistinct⟩ := h
  induction items generalizing ids with
  | nil =>
    cases ids with
    | nil => exact fun _ _ _ => rfl
    | cons id ids => cases hown
  | cons item items ih =>
    cases ids with
    | nil => cases hown
    | cons id ids =>
      intro seen index hseen
      obtain ⟨hitem, hown⟩ := List.cons.inj hown
      obtain ⟨hid, hdistinct⟩ := List.nodup_cons.1 hdistinct
      rw [keys, itemKey_of_ownId? hitem, if_neg (hseen id (List.mem_cons_self ..)), List.map_cons]
      refine congrArg _ (ih hown hdistinct _ _ fun other hother hmem => ?_)
      rcases List.mem_cons.1 hmem with heq | hmem
      · exact hid (rowKey_injective heq ▸ hother)
      · exact hseen other (List.mem_cons_of_mem _ hother) hmem

end ForEach

/-! ### Where components lie -/

namespace Mounted

theorem map_id_linesAll (above : List Nat) (ms : List Mounted) :
    (linesAll above ms).map (·.id) = (partsAll ms).map Part.id := by
  have h := congrArg (List.map Instance.id) (map_linesAll 0 above ms)
  rwa [← map_partsAll, List.map_map, List.map_map, List.map_map] at h

mutual

/-- What a line lies in has it among the components in it. -/
theorem exists_part_of_above {above : List Nat} {l : Line} {j : Nat} : (m : Mounted) → l ∈ m.lines above →
    j ∈ l.above → j ∈ above ∨ ∃ e ∈ m.parts, e.id = j ∧ l.id ∈ (partsAll e.children).map Part.id
  | .primitive _, hl, _ => nomatch hl
  | .element _ _ _ children, hl, hj => exists_partsAll_of_above children hl hj
  | .component id _ c _ children, hl, hj => by
    rcases List.mem_cons.1 hl with rfl | hl
    · exact .inl hj
    · rcases exists_partsAll_of_above children hl hj with hj | ⟨e, he, h⟩
      · refine (List.mem_cons.1 hj).symm.imp_right fun heq => ⟨⟨id, c, children⟩, List.mem_cons_self .., heq.symm, ?_⟩
        exact map_id_linesAll (id :: above) children ▸ List.mem_map_of_mem hl
      · exact .inr ⟨e, List.mem_cons_of_mem _ he, h⟩
  | .fragment _ children, hl, hj => exists_partsAll_of_above children hl hj

theorem exists_partsAll_of_above {above : List Nat} {l : Line} {j : Nat} : (ms : List Mounted) →
    l ∈ linesAll above ms → j ∈ l.above →
    j ∈ above ∨ ∃ e ∈ partsAll ms, e.id = j ∧ l.id ∈ (partsAll e.children).map Part.id
  | [], hl, _ => nomatch hl
  | m :: rest, hl, hj => by
    rw [partsAll]
    rcases List.mem_append.1 hl with hl | hl
    · exact (exists_part_of_above m hl hj).imp_right fun ⟨e, he, h⟩ => ⟨e, List.mem_append_left _ he, h⟩
    · exact (exists_partsAll_of_above rest hl hj).imp_right fun ⟨e, he, h⟩ => ⟨e, List.mem_append_right _ he, h⟩

end

mutual

/-- What is in a component lies in it. -/
theorem exists_line_of_part {e : Part} {j : Nat} (above : List Nat) : (m : Mounted) → e ∈ m.parts →
    j ∈ (partsAll e.children).map Part.id → ∃ l ∈ m.lines above, l.id = j ∧ e.id ∈ l.above
  | .primitive _, he, _ => nomatch he
  | .element _ _ _ children, he, hj => exists_line_of_partsAll above children he hj
  | .component id _ c _ children, he, hj => by
    rcases List.mem_cons.1 he with rfl | he
    · rw [← map_id_linesAll (id :: above)] at hj
      obtain ⟨l, hl, rfl⟩ := List.mem_map.1 hj
      exact ⟨l, List.mem_cons_of_mem _ hl, rfl, mem_above_of_mem_all (List.mem_cons_self ..) children hl⟩
    · obtain ⟨l, hl, h⟩ := exists_line_of_partsAll (id :: above) children he hj
      exact ⟨l, List.mem_cons_of_mem _ hl, h⟩
  | .fragment _ children, he, hj => exists_line_of_partsAll above children he hj

theorem exists_line_of_partsAll {e : Part} {j : Nat} (above : List Nat) : (ms : List Mounted) → e ∈ partsAll ms →
    j ∈ (partsAll e.children).map Part.id → ∃ l ∈ linesAll above ms, l.id = j ∧ e.id ∈ l.above
  | [], he, _ => nomatch he
  | m :: rest, he, hj => by
    rw [linesAll]
    rcases List.mem_append.1 he with he | he
    · obtain ⟨l, hl, h⟩ := exists_line_of_part above m he hj
      exact ⟨l, List.mem_append_left _ hl, h⟩
    · obtain ⟨l, hl, h⟩ := exists_line_of_partsAll above rest he hj
      exact ⟨l, List.mem_append_right _ hl, h⟩

end

/-- No component is in two trees of a list in which no two have the same number. -/
theorem eq_of_mem_parts {ms : List Mounted} {m n : Mounted} {j : Nat} (h : ((partsAll ms).map Part.id).Nodup)
    (hm : m ∈ ms) (hn : n ∈ ms) (hmj : j ∈ m.parts.map Part.id) (hnj : j ∈ n.parts.map Part.id) : m = n := by
  induction ms with
  | nil => cases hm
  | cons k ms ih =>
    rw [partsAll, List.map_append, List.nodup_append] at h
    obtain ⟨-, hms, hne⟩ := h
    have hrest {k : Mounted} (hk : k ∈ ms) (hj : j ∈ k.parts.map Part.id) : j ∈ (partsAll ms).map Part.id := by
      obtain ⟨e, he, rfl⟩ := List.mem_map.1 hj
      exact List.mem_map_of_mem (mem_partsAll.2 ⟨k, hk, he⟩)
    rcases List.mem_cons.1 hm with rfl | hm' <;> rcases List.mem_cons.1 hn with rfl | hn'
    · rfl
    · exact absurd rfl (hne j hmj j (hrest hn' hnj))
    · exact absurd rfl (hne j hnj j (hrest hm' hmj))
    · exact ih hms hm' hn'

end Mounted

/-! ### Rows -/

namespace Part

/-- The row of an id in a list. -/
def HasRow (e : Part) (id : String) (kids : List Mounted) : Prop := .fragment (some (ForEach.rowKey id)) kids ∈ e.children

/-- The part is a list of elements with these ids, over the template. -/
def IsList (e : Part) (ids : List String) (template : Json) : Prop :=
  ∃ p items binding, e.component = .forEach p ∧ ForEach.Lists p items binding template ∧ ForEach.Identified items ids

end Part

/-- The numbers of the components in some trees. -/
def Mounted.numbers (ms : List Mounted) : List Nat := (partsAll ms).map Part.id

/-- What becomes of the rows of a list when its elements have other ids: those of ids that stay have the same
components where the outline leads, the others come and go, and all are in the order of the elements. -/
structure Part.KeepsRows (os : List Outline) (old new : List Mounted) (ids ids' : List String) (d e : Part) : Prop where
  order : List.Forall₂ (fun id m => ∃ kids, m = .fragment (some (ForEach.rowKey id)) kids) ids' e.children
  stays : ∀ id ∈ ids, id ∈ ids' → ∃ kids kids', d.HasRow id kids ∧ e.HasRow id kids' ∧
    (Outline.anchorsAll os kids').map Prod.fst = (Outline.anchorsAll os kids).map Prod.fst
  enters : ∀ id ∈ ids', id ∉ ids → ∃ kids', e.HasRow id kids' ∧ ∀ j ∈ numbers kids', j ∉ numbers old
  leaves : ∀ id ∈ ids, id ∉ ids' → ∃ kids, d.HasRow id kids ∧ ∀ j ∈ numbers kids, j ∉ numbers new

/-- From one forest to another, every component with an earlier number has come out of the one that had it, and lies
where that lay. -/
structure Turn (sc : Scene) (last : Nat) (old new : List Mounted) : Prop where
  parts : Passes last (Part.Becomes sc last) (partsAll old) (partsAll new)
  lines : ∃ again, Regrown last again (linesAll [] old) (linesAll [] new)
  before : Formed sc old
  formed : Formed sc new
  issued : ∀ j ∈ numbers old, j ≤ last
  nodup : (numbers old).Nodup
  nodup' : (numbers new).Nodup

namespace Turn

variable {sc : Scene} {last : Nat} {old new : List Mounted} {d e : Part} {ids ids' : List String} {template : Json}

theorem eq_of_id (h : (numbers old).Nodup) (hd : d ∈ partsAll old) (he : e ∈ partsAll old) (hid : d.id = e.id) : d = e :=
  List.inj_on_of_nodup_map h hd he hid

theorem nodup_children (h : (numbers old).Nodup) (hd : d ∈ partsAll old) : (numbers d.children).Nodup :=
  h.sublist ((sublist_partsAll old hd).map _)

/-- The rows of a list are fragments with the keys of its elements. -/
theorem order (h : Formed sc old) (he : e ∈ partsAll old) (hlist : e.IsList ids template) :
    sc.OutlinedAll (ids.map fun id => .row (sc.outlines template) (ForEach.rowKey id)) (sketchAll {} e.children) := by
  obtain ⟨p, items, binding, hc, hlists, hids⟩ := hlist
  have hrows := h e he (sc.rows p) (by rw [hc]; rfl) {}
  rw [Scene.rows_eq hlists, ForEach.keys_of_identified hids, List.map_map] at hrows
  exact hrows

theorem exists_row (h : Formed sc old) (he : e ∈ partsAll old) (hlist : e.IsList ids template) {id : String}
    (hid : id ∈ ids) : ∃ kids, e.HasRow id kids := by
  have hrows := order h he hlist
  rw [sketchAll_eq_map, Scene.OutlinedAll, List.forall₂_map_right_iff, List.forall₂_map_left_iff] at hrows
  obtain ⟨m, hm, hout⟩ := exists_of_mem_right hrows.flip hid
  obtain ⟨kids, rfl⟩ := exists_of_row hout
  exact ⟨kids, hm⟩

theorem mem_of_row (h : Formed sc old) (he : e ∈ partsAll old) (hlist : e.IsList ids template) {key : Option String}
    {kids : List Mounted} (hrow : .fragment key kids ∈ e.children) : ∃ id ∈ ids, key = some (ForEach.rowKey id) := by
  have hrows := order h he hlist
  rw [sketchAll_eq_map, Scene.OutlinedAll, List.forall₂_map_right_iff, List.forall₂_map_left_iff] at hrows
  obtain ⟨id, hid, hout⟩ := exists_of_mem_right hrows hrow
  exact ⟨id, hid, hout.key_eq⟩

/-- A component that was in another one and has stayed is in that one still. -/
theorem mem_of_mem (h : Turn sc last old new) (hd : d ∈ partsAll old) (he : e ∈ partsAll new) (hid : d.id = e.id)
    {j : Nat} (hj : j ∈ numbers d.children) (hnew : j ∈ numbers new) : j ∈ numbers e.children := by
  obtain ⟨l, hl, rfl, habove⟩ := exists_line_of_partsAll [] old hd hj
  obtain ⟨again, hlines⟩ := h.lines
  rw [numbers, ← map_id_linesAll []] at hnew
  obtain ⟨l', hl', hid'⟩ := List.mem_map.1 hnew
  have hold : (linesAll [] old).map (·.id) = numbers old := map_id_linesAll [] old
  have hle : l'.id ≤ last := hid' ▸ h.issued _ (hold ▸ List.mem_map_of_mem hl)
  -- It lies in the same components as before.
  have hsame : l'.above = l.above := by
    rcases hlines l' hl' with hlt | ⟨r, hr, -⟩
    · omega
    · have heq := List.inj_on_of_nodup_map (f := Line.id) (hold ▸ h.nodup) hr hl hid'
      rw [← heq]
  rw [← hsame] at habove
  rcases exists_partsAll_of_above new hl' habove with hnil | ⟨x, hx, hxid, hmem⟩
  · cases hnil
  · rw [eq_of_id h.nodup' hx he (hxid.trans hid), hid'] at hmem
    exact hmem

/-- Where a list has been given other elements over the same template, its rows are kept by their ids. -/
theorem keepsRows (h : Turn sc last old new) (hd : d ∈ partsAll old) (he : e ∈ partsAll new) (hid : d.id = e.id)
    (hlist : d.IsList ids template) (hlist' : e.IsList ids' template) :
    Part.KeepsRows (sc.outlines template) old new ids ids' d e := by
  have hissued : d.id ≤ last := h.issued _ (List.mem_map_of_mem hd)
  have hbecomes : Part.Becomes sc last d e := by
    rcases h.parts e he with hlt | ⟨d', hd', heq, hbecomes⟩
    · omega
    · rwa [eq_of_id h.nodup hd' hd (heq.trans hid.symm)] at hbecomes
  have hpass : RowsPass last (sc.outlines template) d.children e.children := by
    obtain ⟨p, items, binding, hc, hlists, -⟩ := hlist
    obtain ⟨p', items', binding', hc', hlists', hids'⟩ := hlist'
    refine hbecomes.rows hc hc' hlists hlists' ?_
    rw [ForEach.keys_of_identified hids']
    exact hids'.distinct.map ForEach.rowKey_injective
  refine ⟨?_, fun id hmem hmem' => ?_, fun id hmem hnot => ?_, fun id hmem hnot => ?_⟩
  · have hrows := order h.formed he hlist'
    rw [sketchAll_eq_map, Scene.OutlinedAll, List.forall₂_map_right_iff, List.forall₂_map_left_iff] at hrows
    exact hrows.imp fun _ _ hout => exists_of_row hout
  · obtain ⟨kids', hrow'⟩ := exists_row h.formed he hlist' hmem'
    obtain ⟨kids, hrow⟩ := exists_row h.before hd hlist hmem
    rcases hpass _ _ hrow' with ⟨kids, hrow, hanchors, -⟩ | ⟨hnone, -⟩
    · exact ⟨kids, kids', hrow, hrow', hanchors⟩
    · exact absurd hrow (hnone kids)
  · obtain ⟨kids', hrow'⟩ := exists_row h.formed he hlist' hmem
    refine ⟨kids', hrow', fun j hj hold => ?_⟩
    rcases hpass _ _ hrow' with ⟨kids, hrow, -⟩ | ⟨-, hyoung⟩
    · obtain ⟨other, hother, heq⟩ := mem_of_row h.before hd hlist hrow
      exact hnot (ForEach.rowKey_injective (Option.some.inj heq) ▸ hother)
    · obtain ⟨x, hx, rfl⟩ := List.mem_map.1 hj
      exact absurd (h.issued _ hold) (Nat.not_le.2 (hyoung x hx))
  · obtain ⟨kids, hrow⟩ := exists_row h.before hd hlist hmem
    refine ⟨kids, hrow, fun j hj hnew => ?_⟩
    have hjd : j ∈ numbers d.children := by
      obtain ⟨x, hx, rfl⟩ := List.mem_map.1 hj
      exact List.mem_map_of_mem (mem_partsAll.2 ⟨_, hrow, hx⟩)
    -- It is in some row of the list still, and so in the row with that key before, but that is another one.
    obtain ⟨x, hx, rfl⟩ := List.mem_map.1 (h.mem_of_mem hd he hid hjd hnew)
    obtain ⟨m, hm, hxm⟩ := mem_partsAll.1 hx
    have hrows := order h.formed he hlist'
    rw [sketchAll_eq_map, Scene.OutlinedAll, List.forall₂_map_right_iff, List.forall₂_map_left_iff] at hrows
    obtain ⟨other, hother, hout⟩ := exists_of_mem_right hrows hm
    obtain ⟨kids', rfl⟩ := exists_of_row hout
    have hle : x.id ≤ last := h.issued _ (((sublist_partsAll old hd).map _).subset hjd)
    rcases hpass _ _ hm with ⟨kids₀, hrow₀, -, hrest⟩ | ⟨-, hyoung⟩
    · have hmem₀ := (hrest x hxm).resolve_left (Nat.not_lt.2 hle)
      have heq := eq_of_mem_parts (nodup_children h.nodup hd) hrow hrow₀ hj hmem₀
      obtain ⟨hkey, -⟩ := Mounted.fragment.inj heq
      exact hnot (ForEach.rowKey_injective (Option.some.inj hkey) ▸ hother)
    · exact absurd (hyoung x hxm) (Nat.not_lt.2 hle)

end Turn
end LiveLayout
