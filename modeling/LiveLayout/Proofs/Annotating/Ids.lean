import LiveLayout.Proofs.Annotating.Fresh
/-!
The ids of an annotated layout. An id that may stay keeps its text. One that is made up is new to the whole layout, the
parts that are not visited included, and belongs to one brick.
-/
namespace LiveLayout.Annotate

open Json (Place)

variable {registry : Registry} {options : Options} {form : Option String} {fields : List (String × Json)}
  {items : List Json} {v w : Json} {p : Place} {id : String}

/-- An id made up for the brick at a place. -/
def Given (registry : Registry) (form : Option String) (v v' : Json) (p : Place) (id : String) : Prop :=
  Visited registry form v p ∧ usableId? (v.idAt? p) = none ∧ v'.idAt? p = some (.string id)

/-- An id made up in the entry of a name. -/
def GivenUnder (registry : Registry) (form : Option String) (fields fields' : List (String × Json)) (name : String)
    (p : Place) (id : String) : Prop :=
  ∃ v v' r, p = .entry name :: r ∧ Fields.get? fields name = some v ∧ Fields.get? fields' name = some v' ∧
    Given registry form v v' r id

/-- Whatever form is around the value and whatever ids are taken, those that are handed out in it are all new. -/
def HandsOut (registry : Registry) (options : Options) (v : Json) : Prop :=
  ∀ form ids, Issues ids.taken (value registry options v form ids).2.taken
    (Given registry form v (value registry options v form ids).1)

/-! ### Items -/

/-- The place in a list that has grown by one item in front. -/
def later : Place → Place
  | .item i :: p => .item (i + 1) :: p
  | p => p

theorem given_items_cons {v v' : Json} {items items' : List Json}
    (h : Given registry form (.array (v :: items)) (.array (v' :: items')) p id) :
    (∃ r, p = .item 0 :: r ∧ Given registry form v v' r id) ∨
      ∃ r, p = later r ∧ Given registry form (.array items) (.array items') r id := by
  obtain ⟨hvisited, hid, hget⟩ := h
  cases hvisited with
  | @item _ _ i u r hitem inside =>
    cases i with
    | zero =>
      cases hitem
      exact .inl ⟨r, rfl, inside, hid, hget⟩
    | succ i => exact .inr ⟨.item i :: r, rfl, .item hitem inside, hid, hget⟩

theorem issues_values (h : ∀ v ∈ items, HandsOut registry options v) (form : Option String) (ids : Ids) :
    Issues ids.taken (values registry options items form ids).2.taken
      (Given registry form (.array items) (.array (values registry options items form ids).1)) := by
  induction items generalizing ids with
  | nil =>
    refine .nothing (fun p id hp => ?_) _
    cases hp.1 with
    | item item => cases item
  | cons v rest ih =>
    rw [List.forall_mem_cons] at h
    unfold values
    rw [bind_run, bind_run, pure_run]
    have hfirst := (h.1 form ids).within (.item 0 :: ·)
    have hrest := (ih h.2 (value registry options v form ids).2).within later
    exact hfirst.append hrest fun p id hp => given_items_cons hp

theorem handsOut_array (h : ∀ v ∈ items, HandsOut registry options v) : HandsOut registry options (.array items) := by
  intro form ids
  have hissues := issues_values h form ids
  unfold value
  rw [bind_run, pure_run]
  exact hissues

/-! ### Entries -/

theorem issues_group (hfields : (fields.map (·.1)).Nodup) (h : ∀ e ∈ fields, HandsOut registry options e.2)
    (form : Option String) (ids : Ids) :
    Issues ids.taken (group (entries registry options fields) form ids).2.taken fun p id =>
      ∃ name, GivenUnder registry form fields (group (entries registry options fields) form ids).1 name p id := by
  induction fields generalizing ids with
  | nil =>
    refine .nothing ?_ _
    rintro p id ⟨_, _, _, _, -, hget, -⟩
    cases hget
  | cons e rest ih =>
    obtain ⟨k, u⟩ := e
    rw [List.forall_mem_cons] at h
    rw [List.map_cons, List.nodup_cons] at hfields
    unfold entries group
    rw [bind_run, bind_run, pure_run]
    have hfirst := (h.1 form ids).within (.entry k :: ·)
    have hrest := ih hfields.2 h.2 (value registry options u form ids).2
    refine hfirst.append hrest ?_
    rintro p id ⟨name, v, v', r, rfl, hv, hv', hgiven⟩
    unfold Fields.get? at hv hv'
    by_cases hname : k = name
    · rw [if_pos hname] at hv hv'
      cases hname
      cases hv
      cases hv'
      exact .inl ⟨r, rfl, hgiven⟩
    · rw [if_neg hname] at hv hv'
      exact .inr ⟨name, v, v', r, rfl, hv, hv', hgiven⟩

/-- What is visited under one of the names stays as its own visit left it, since no name comes twice. -/
theorem issues_visitNamed {names : List String} (hnames : names.Nodup) (h : ∀ e ∈ fields, HandsOut registry options e.2)
    (form : Option String) (current : List (String × Json)) (ids : Ids) :
    Issues ids.taken (visitNamed (entries registry options fields) form names current ids).2.taken fun p id =>
      ∃ name ∈ names, GivenUnder registry form fields
        (visitNamed (entries registry options fields) form names current ids).1 name p id := by
  induction names generalizing current ids with
  | nil =>
    refine .nothing ?_ _
    rintro p id ⟨_, hname, -⟩
    cases hname
  | cons first rest ih =>
    rw [List.nodup_cons] at hnames
    unfold visitNamed
    rw [get?_entries]
    cases hfirst : Fields.get? fields first with
    | none =>
      refine (ih hnames.2 current ids).mono ?_
      rintro p id ⟨name, hname, hgiven⟩
      refine ⟨name, (List.mem_cons.1 hname).resolve_left ?_, hgiven⟩
      rintro rfl
      obtain ⟨_, _, _, -, hget, -⟩ := hgiven
      cases hfirst.symm.trans hget
    | some u =>
      rw [Option.map_some]
      dsimp only
      rw [bind_run]
      have hvisit := (h _ (Fields.mem_of_get? hfirst) form ids).within (.entry first :: ·)
      have hrest := ih hnames.2 (Fields.set current first (value registry options u form ids).1)
        (value registry options u form ids).2
      refine hvisit.append hrest ?_
      rintro p id ⟨name, hname, hgiven⟩
      rcases List.mem_cons.1 hname with rfl | hname
      · obtain ⟨v, v', r, rfl, hv, hv', hgiven⟩ := hgiven
        obtain ⟨_, _, hmem, -⟩ | ⟨-, hkept⟩ := get?_visitNamed (entries registry options fields) form rest
          (Fields.set current name (value registry options u form ids).1) (value registry options u form ids).2 name
        · exact absurd hmem hnames.1
        rw [Fields.get?_set_self] at hkept
        cases hfirst.symm.trans hv
        cases hkept.symm.trans hv'
        exact .inl ⟨r, rfl, hgiven⟩
      · exact .inr ⟨name, hname, hgiven⟩

theorem handsOut_group (huntyped : (Brick.mk fields).typeName? = none) (hfields : (fields.map (·.1)).Nodup)
    (h : ∀ e ∈ fields, HandsOut registry options e.2) : HandsOut registry options (.object fields) := by
  intro form ids
  have hissues := issues_group hfields h form ids
  unfold value
  rw [huntyped]
  dsimp only
  rw [bind_run, pure_run]
  refine hissues.mono ?_
  rintro p id ⟨hvisited, hid, hget⟩
  cases hvisited with
  | here typed => cases huntyped.symm.trans typed
  | nested typed => cases huntyped.symm.trans typed
  | @entry _ _ name v r untyped entry inside =>
    rw [Json.idAt?_of_get? entry] at hid
    obtain ⟨v', hv', hget⟩ := Json.exists_step?_of_idAt? hget
    exact ⟨name, v, v', r, rfl, entry, hv', inside, hid, hget⟩

/-! ### Bricks -/

/-- The visits inside a brick leave its own id alone. -/
theorem get?_brick_id {typeName : String} (hfields : (fields.map (·.1)).Nodup) (visits : List (String × Visit))
    (form : Option String) (ids : Ids) :
    Fields.get? (brick registry options typeName fields visits form ids).1 "id" =
      Fields.get? (identify options.keyPrefix fields ids).1 "id" := by
  obtain ⟨prepared, -, hid, heq⟩ := brick_prepared registry options typeName hfields visits form ids
  have hown : "id" ∈ own (stamp? registry typeName fields form) := mem_own_iff.2 (.inl rfl)
  obtain ⟨_, _, hmem, -⟩ | ⟨-, hkept⟩ := get?_visitNamed visits (innerForm registry typeName fields form)
    ((nestedAttributes registry typeName fields).filter (· ∉ own (stamp? registry typeName fields form))) prepared
    (identify options.keyPrefix fields ids).2 "id"
  · exact absurd hown (of_decide_eq_true (List.mem_filter.1 hmem).2)
  · rw [heq, hkept, hid]

theorem handsOut_brick {typeName : String} (htyped : (Brick.mk fields).typeName? = some typeName)
    (hfields : (fields.map (·.1)).Nodup) (h : ∀ e ∈ fields, HandsOut registry options e.2) :
    HandsOut registry options (.object fields) := by
  intro form ids
  have hid : Fields.get? (brick registry options typeName fields (entries registry options fields) form ids).1 "id" =
      Fields.get? (identify options.keyPrefix fields ids).1 "id" := get?_brick_id hfields _ form ids
  obtain ⟨prepared, -, -, heq⟩ :=
    brick_prepared registry options typeName hfields (entries registry options fields) form ids
  rw [heq] at hid
  unfold value
  rw [htyped]
  dsimp only
  rw [bind_run, pure_run, heq]
  dsimp only
  have hlisted {name : String} (hname : name ∈ nestedAttributes registry typeName fields)
      (hfree : name ∉ own (stamp? registry typeName fields form)) :
      name ∈ (nestedAttributes registry typeName fields).filter (· ∉ own (stamp? registry typeName fields form)) :=
    List.mem_filter.2 ⟨hname, decide_eq_true hfree⟩
  have hnames : ((nestedAttributes registry typeName fields).filter
      (· ∉ own (stamp? registry typeName fields form))).Nodup := (Fields.nodup_eraseDups _).filter _
  have hown := issues_identify options.keyPrefix fields ids
  have hinside := issues_visitNamed hnames h (innerForm registry typeName fields form) prepared
    (identify options.keyPrefix fields ids).2
  refine hown.append hinside ?_
  rintro p id ⟨hvisited, husable, hget⟩
  cases hvisited with
  | here =>
    rw [Json.idAt?_of_object (Json.at?_nil _)] at husable hget
    exact .inl ⟨rfl, husable, hid.symm.trans hget⟩
  | entry untyped => cases untyped.symm.trans htyped
  | @nested _ _ _ name v r typed listed free entry inside =>
    cases htyped.symm.trans typed
    rw [Json.idAt?_of_get? entry] at husable
    obtain ⟨v', hv', hget⟩ := Json.exists_step?_of_idAt? hget
    exact .inr ⟨name, hlisted listed free, v, v', r, rfl, entry, hv', inside, husable, hget⟩

theorem handsOut (h : v.wellFormed = true) : HandsOut registry options v := by
  have hinherits : Json.Inherits (HandsOut registry options) := by
    constructor
    · intro items hitems
      exact handsOut_array hitems
    · intro fields hnames hfields
      cases htyped : (Brick.mk fields).typeName? with
      | none => exact handsOut_group htyped hnames hfields
      | some typeName => exact handsOut_brick htyped hnames hfields
    · intro v hitems hfields form ids
      have hleaf : (value registry options v form ids).2 = ids := by
        cases v with
        | array items => cases hitems
        | object fields => cases hfields
        | _ => rfl
      rw [hleaf]
      refine .nothing (fun p id hp => ?_) _
      cases v with
      | array items => cases hitems
      | object fields => cases hfields
      | _ => cases hp.1
  exact hinherits.of_wellFormed v h

/-! ### Ids that stay -/

/-- The text that stands under `id`: a string, the empty one too, or a number as it is written. -/
def idText? : Json → Option String
  | .string s => some s
  | .number n => some n.text
  | _ => none

theorem idText?_of_usableId? {v : Option Json} (h : usableId? v = some id) : v.bind idText? = some id := by
  unfold usableId? at h
  split at h
  · split at h
    · cases h
    · exact h
  · exact h
  · cases h

theorem usableId?_of_idText? (h : idText? v = some id) (hne : id ≠ "") : usableId? (some v) = some id := by
  unfold idText? at h
  split at h
  · cases h
    exact if_neg hne
  · exact h
  · cases h

theorem collectIds_subset_items (h : v ∈ items) : collectIds v ⊆ collectItemIds items := by
  induction items with
  | nil => cases h
  | cons u rest ih =>
    unfold collectItemIds
    rcases List.mem_cons.1 h with rfl | h
    · exact List.subset_append_left ..
    · exact List.subset_append_of_subset_right _ (ih h)

theorem collectIds_subset_fields {name : String} (h : (name, v) ∈ fields) : collectIds v ⊆ collectFieldIds fields := by
  induction fields with
  | nil => cases h
  | cons e rest ih =>
    unfold collectFieldIds
    rcases List.mem_cons.1 h with rfl | h
    · exact List.subset_append_left ..
    · exact List.subset_append_of_subset_right _ (ih h)

/-- Every text under `id` is known before any brick gets one. -/
theorem mem_collectIds (h : v.idAt? p = some w) (hw : idText? w = some id) : id ∈ collectIds v := by
  induction p generalizing v with
  | nil =>
    obtain ⟨fields, hv, hget⟩ := Json.exists_object_of_idAt? h
    cases hv
    unfold collectIds
    rw [hget]
    refine List.mem_append_left _ ?_
    unfold idText? at hw
    split at hw
    · cases hw
      exact List.mem_singleton_self _
    · cases hw
      exact List.mem_singleton_self _
    · cases hw
  | cons s p ih =>
    obtain ⟨u, hu, hget⟩ := Json.exists_step?_of_idAt? h
    have hmem := ih hget
    cases v with
    | array items =>
      cases s with
      | item i => exact collectIds_subset_items (List.mem_of_getElem? hu) hmem
      | entry name => cases hu
    | object fields =>
      cases s with
      | item i => cases hu
      | entry name => exact List.mem_append_right _ (collectIds_subset_fields (Fields.mem_of_get? hu) hmem)
    | _ => cases hu

/-! ### The brick at a place -/

/-- In a brick without layouts, no other is visited. -/
theorem Visited.eq_nil (h : Visited registry form (.object fields) p) (typeName : String)
    (htyped : (Brick.mk fields).typeName? = some typeName)
    (hnone : ∀ name ∈ nestedAttributes registry typeName fields, Fields.get? fields name = none) : p = [] := by
  cases h with
  | here => rfl
  | entry untyped => cases untyped.symm.trans htyped
  | nested typed listed free entry =>
    cases htyped.symm.trans typed
    cases (hnone _ listed).symm.trans entry

/-- A visited brick gets the id that it would get by itself. -/
theorem Visited.idAt?_value (h : Visited registry form v p) (hv : v.wellFormed = true) (options : Options) (ids : Ids) :
    ∃ fields ids', v.idAt? p = Fields.get? fields "id" ∧
      (value registry options v form ids).1.idAt? p = Fields.get? (identify options.keyPrefix fields ids').1 "id" := by
  obtain ⟨fields, typeName, inner, ids', hat, hfields, -, hresult⟩ := h.value_at hv options ids
  refine ⟨fields, ids', Json.idAt?_of_object hat, ?_⟩
  rw [Json.idAt?_of_object hresult, get?_brick_id hfields]

theorem Visited.exists_id (h : Visited registry form v p) (hv : v.wellFormed = true) (ids : Ids) :
    ∃ id, id ≠ "" ∧ (value registry options v form ids).1.idAt? p = some (.string id) := by
  obtain ⟨fields, ids', -, hresult⟩ := h.idAt?_value hv options ids
  obtain ⟨id, hne, hset⟩ := identify_eq_set options.keyPrefix fields ids'
  refine ⟨id, hne, hresult.trans ?_⟩
  rw [hset, Fields.get?_set_self]

theorem Visited.id_of_usable (h : Visited registry form v p) (hv : v.wellFormed = true)
    (hid : usableId? (v.idAt? p) = some id) (ids : Ids) :
    (value registry options v form ids).1.idAt? p = some (.string id) := by
  obtain ⟨fields, ids', hbefore, hresult⟩ := h.idAt?_value hv options ids
  rw [hbefore] at hid
  rw [hresult, identify_of_usable options.keyPrefix hid, Fields.get?_set_self]

/-- An id that is made up differs from all texts under `id` in the layout, and from the ids of all other bricks. -/
theorem given_annotate (hv : v.wellFormed = true)
    (hgiven : Given registry options.formName v (annotate registry options v) p id) :
    (∀ q w, v.idAt? q = some w → idText? w ≠ some id) ∧
      ∀ q, Visited registry options.formName v q → (annotate registry options v).idAt? q = some (.string id) →
        q = p := by
  have hissues : Issues (collectIds v) _ (Given registry options.formName v (annotate registry options v)) :=
    handsOut hv options.formName ⟨0, collectIds v⟩
  have hnew : ∀ q w, v.idAt? q = some w → idText? w ≠ some id := fun q w hq htext =>
    hissues.free p id hgiven (mem_collectIds hq htext)
  refine ⟨hnew, fun q hq hid => ?_⟩
  cases husable : usableId? (v.idAt? q) with
  | none => exact hissues.apart q p id ⟨hq, husable, hid⟩ hgiven
  | some kept =>
    have hkept : (annotate registry options v).idAt? q = some (.string kept) := hq.id_of_usable hv husable _
    cases hid.symm.trans hkept
    obtain ⟨w, hw, htext⟩ := Option.bind_eq_some_iff.1 (idText?_of_usableId? husable)
    exact absurd htext (hnew q w hw)

end LiveLayout.Annotate

namespace LiveLayout

open Annotate

/-- Annotating a layout ends, and every brick that it visits then has an id. A usable one keeps its text; one that is
made up is unlike all that stand under `id` and unlike those of all other bricks. So no two bricks have the same id,
unless they came with it. -/
theorem annotate_ids (registry : Registry) (options : Annotate.Options) {layout : Json}
    (h : layout.wellFormed = true) :
    (∀ ids : Ids, ∃ n, ids.count < n ∧
      (∀ m, ids.count < m → m < n → candidate options.keyPrefix m ∈ ids.taken) ∧
      candidate options.keyPrefix n ∉ ids.taken ∧
      freshId options.keyPrefix ids =
        (candidate options.keyPrefix n, ⟨n, candidate options.keyPrefix n :: ids.taken⟩)) ∧
    (∀ p, Visited registry options.formName layout p →
      ∃ id, id ≠ "" ∧ (annotate registry options layout).idAt? p = some (.string id) ∧
        (∀ v text, layout.idAt? p = some v → idText? v = some text → text ≠ "" → id = text) ∧
        (usableId? (layout.idAt? p) = none →
          (∀ q v, layout.idAt? q = some v → idText? v ≠ some id) ∧
          ∀ q, Visited registry options.formName layout q →
            (annotate registry options layout).idAt? q = some (.string id) → q = p)) ∧
    ((∀ p q id, Visited registry options.formName layout p → Visited registry options.formName layout q →
        usableId? (layout.idAt? p) = some id → usableId? (layout.idAt? q) = some id → p = q) →
      ∀ p q, Visited registry options.formName layout p → Visited registry options.formName layout q →
        (annotate registry options layout).idAt? p = (annotate registry options layout).idAt? q → p = q) := by
  have hid (p : Json.Place) (hp : Visited registry options.formName layout p) :
      ∃ id, id ≠ "" ∧ (annotate registry options layout).idAt? p = some (.string id) := hp.exists_id h _
  have hkept {p : Json.Place} {id : String} (hp : Visited registry options.formName layout p)
      (husable : usableId? (layout.idAt? p) = some id) :
      (annotate registry options layout).idAt? p = some (.string id) := hp.id_of_usable h husable _
  refine ⟨freshId_eq options.keyPrefix, ?_, ?_⟩
  · intro p hp
    obtain ⟨id, hne, hget⟩ := hid p hp
    refine ⟨id, hne, hget, ?_, fun husable => given_annotate h ⟨hp, husable, hget⟩⟩
    intro v text hv htext hnonempty
    have husable : usableId? (layout.idAt? p) = some text := by
      rw [hv]
      exact usableId?_of_idText? htext hnonempty
    cases hget.symm.trans (hkept hp husable)
    rfl
  · intro hdistinct p q hp hq hsame
    obtain ⟨id, -, hget⟩ := hid p hp
    have hget' := hsame.symm.trans hget
    cases hpusable : usableId? (layout.idAt? p) with
    | none => exact ((given_annotate h ⟨hp, hpusable, hget⟩).2 q hq hget').symm
    | some first =>
      cases hqusable : usableId? (layout.idAt? q) with
      | none => exact (given_annotate h ⟨hq, hqusable, hget'⟩).2 p hp hget
      | some second =>
        cases hget.symm.trans (hkept hp hpusable)
        cases hget'.symm.trans (hkept hq hqusable)
        exact hdistinct p q id hp hq hpusable hqusable

/-- A text without an id, one with a number for an id and an unvisited part that has the first candidate, and one whose
id is empty. -/
def mixedIds : Json := .array
  [.object [("type", .string "Text")],
    .object [("type", .string "Text"), ("id", .nat 7), ("note", .object [("id", .string "brick-1")])],
    .object [("type", .string "Text"), ("id", .string "")]]

theorem visited_mixedIds {p : Json.Place} (h : Visited {} none mixedIds p) :
    p = [.item 0] ∨ p = [.item 1] ∨ p = [.item 2] := by
  cases h with
  | @item _ _ i v r item inside =>
    match i with
    | 0 =>
      cases item
      exact .inl (congrArg _ (inside.eq_nil "Text" (by decide) (by decide)))
    | 1 =>
      cases item
      exact .inr (.inl (congrArg _ (inside.eq_nil "Text" (by decide) (by decide))))
    | 2 =>
      cases item
      exact .inr (.inr (congrArg _ (inside.eq_nil "Text" (by decide) (by decide))))
    | i + 3 => cases item

theorem annotate_ids_mixed : mixedIds.wellFormed = true ∧
    ∀ p q, Visited {} none mixedIds p → Visited {} none mixedIds q →
      (annotate {} {} mixedIds).idAt? p = (annotate {} {} mixedIds).idAt? q → p = q := by
  have hmixed : mixedIds.wellFormed = true := by decide
  refine ⟨hmixed, (annotate_ids {} {} hmixed).2.2 ?_⟩
  -- Only the second text came with an id that may stay.
  have hsecond {p : Json.Place} {id : String} (hp : Visited {} none mixedIds p)
      (husable : usableId? (mixedIds.idAt? p) = some id) : p = [.item 1] := by
    rcases visited_mixedIds hp with rfl | rfl | rfl
    · cases husable
    · rfl
    · have hempty : usableId? (mixedIds.idAt? [.item 2]) = none := by decide
      cases hempty.symm.trans husable
  intro p q id hp hq hpid hqid
  rw [hsecond hp hpid, hsecond hq hqid]

end LiveLayout
