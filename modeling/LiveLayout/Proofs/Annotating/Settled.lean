import LiveLayout.Proofs.Annotating.Visits
/-!
What has been annotated is settled: another pass finds every id, mark and form where it would put it, and
hands out no id. The order of the entries stays too.
-/
namespace LiveLayout.Annotate

variable {registry : Registry} {options : Options} {form : Option String} {fields fields' : List (String × Json)}
  {typeName : String}

/-- A visit leaves the value as it is, whatever ids are taken, and takes none. -/
def Settled (registry : Registry) (options : Options) (form : Option String) (v : Json) : Prop :=
  ∀ ids, value registry options v form ids = (v, ids)

/-- Whatever a visit makes of the value is settled. -/
def Settles (registry : Registry) (options : Options) (v : Json) : Prop :=
  ∀ form ids, Settled registry options form (value registry options v form ids).1

/-! ### Parts that are settled -/

theorem settled_string (s : String) : Settled registry options form (.string s) := fun _ => rfl

theorem values_settled {items : List Json} (h : ∀ v ∈ items, Settled registry options form v) (ids : Ids) :
    values registry options items form ids = (items, ids) := by
  induction items with
  | nil => rfl
  | cons v rest ih =>
    rw [List.forall_mem_cons] at h
    unfold values
    rw [bind_run, h.1 ids, bind_run, ih h.2, pure_run]

theorem settled_array {items : List Json} (h : ∀ v ∈ items, Settled registry options form v) :
    Settled registry options form (.array items) := by
  intro ids
  unfold value
  rw [bind_run, values_settled h, pure_run]

theorem settled_texts (texts : List String) : Settled registry options form (.array (texts.map .string)) := by
  apply settled_array
  intro v hv
  obtain ⟨s, -, rfl⟩ := List.mem_map.1 hv
  exact settled_string s

theorem group_settled (h : ∀ e ∈ fields, Settled registry options form e.2) (ids : Ids) :
    group (entries registry options fields) form ids = (fields, ids) := by
  induction fields with
  | nil => rfl
  | cons e rest ih =>
    rw [List.forall_mem_cons] at h
    unfold entries group
    rw [bind_run, h.1 ids, bind_run, ih h.2, pure_run]

theorem settled_group (huntyped : (Brick.mk fields).typeName? = none)
    (h : ∀ e ∈ fields, Settled registry options form e.2) :
    Settled registry options form (.object fields) := by
  intro ids
  unfold value
  rw [huntyped]
  dsimp only
  rw [bind_run, group_settled h, pure_run]

theorem visitNamed_settled {names : List String}
    (h : ∀ name ∈ names, ∀ v, Fields.get? fields name = some v → Settled registry options form v) (ids : Ids) :
    visitNamed (entries registry options fields) form names fields ids = (fields, ids) := by
  induction names with
  | nil => rfl
  | cons first rest ih =>
    rw [List.forall_mem_cons] at h
    unfold visitNamed
    rw [get?_entries]
    cases hfirst : Fields.get? fields first with
    | none => exact ih h.2
    | some v =>
      rw [Option.map_some]
      dsimp only
      rw [bind_run, h.1 v hfirst ids, Fields.set_of_get? hfirst]
      exact ih h.2

/-! ### Bookkeeping that is in place -/

theorem identify_of_id (keyPrefix : String) {id : String} (hid : id ≠ "")
    (h : Fields.get? fields "id" = some (.string id)) (ids : Ids) :
    identify keyPrefix fields ids = (fields, ids) := by
  have husable : usableId? (Fields.get? fields "id") = some id := by
    rw [h]
    exact if_neg hid
  rw [identify_of_usable keyPrefix husable, Fields.set_of_get? h]

theorem markExpressions_of_marks (h : Fields.get? fields "_expressions" = marks? (expressionNames fields)) :
    markExpressions fields = fields := by
  unfold markExpressions
  cases hnames : expressionNames fields with
  | nil =>
    rw [hnames] at h
    exact Fields.swapErase_of_get?_eq_none h
  | cons first rest =>
    rw [hnames] at h
    exact Fields.set_of_get? h

theorem stamped_of_form {stamp : Option String}
    (h : ∀ name, stamp = some name → Fields.get? fields "form" = some (.string name)) :
    stamped fields stamp = fields := by
  cases stamp with
  | none => rfl
  | some name => exact Fields.set_of_get? (h name rfl)

/-- A brick whose bookkeeping is in place is settled if its nested layouts are. -/
theorem settled_brick (htyped : (Brick.mk fields).typeName? = some typeName)
    (hid : ∃ id, id ≠ "" ∧ Fields.get? fields "id" = some (.string id))
    (hmarks : Fields.get? fields "_expressions" = marks? (expressionNames fields))
    (hstamp : ∀ name, stamp? registry typeName fields form = some name →
      Fields.get? fields "form" = some (.string name))
    (hnested : ∀ name ∈ nestedAttributes registry typeName fields, ∀ v, Fields.get? fields name = some v →
      Settled registry options (innerForm registry typeName fields form) v) :
    Settled registry options form (.object fields) := by
  intro ids
  obtain ⟨id, hne, hid⟩ := hid
  have hbrick : brick registry options typeName fields (entries registry options fields) form ids = (fields, ids) := by
    rw [brick_eq, identify_of_id _ hne hid]
    dsimp only
    rw [markExpressions_of_marks hmarks, stamped_of_form hstamp]
    apply visitNamed_settled
    intro name hname
    exact hnested name (List.mem_filter.1 hname).1
  unfold value
  rw [htyped]
  dsimp only
  rw [bind_run, hbrick, pure_run]

/-! ### What visits make -/

theorem Annotated.nestedAttributes_eq (h : Annotated registry options typeName form fields fields') :
    nestedAttributes registry typeName fields' = nestedAttributes registry typeName fields :=
  nestedAttributes_congr (h.texts _ fun hmem => by simpa using mem_own hmem) registry typeName

theorem Annotated.innerForm_eq (h : Annotated registry options typeName form fields fields') :
    innerForm registry typeName fields' = innerForm registry typeName fields :=
  innerForm_congr (h.texts _ fun hmem => by simpa using mem_own hmem) registry typeName

/-- A form that would be taken over once more is there already. -/
theorem Annotated.stamp_in_place (h : Annotated registry options typeName form fields fields') {name : String}
    (hname : stamp? registry typeName fields' form = some name) :
    Fields.get? fields' "form" = some (.string name) := by
  cases hbefore : stamp? registry typeName fields form with
  | some before =>
    -- Both are the form around the brick.
    cases (stamp?_eq_some_iff.1 hbefore).2.symm.trans (stamp?_eq_some_iff.1 hname).2
    exact h.stamped _ hbefore
  | none =>
    -- Nothing was taken over before, so that the texts that decide about it are the same ones.
    have htext := h.texts "form" (by simp [hbefore, own])
    have hstamp : stamp? registry typeName fields' form = none := by
      rw [← hbefore]
      unfold stamp?
      rw [takesForm_congr htext]
    rw [hstamp] at hname
    cases hname

theorem settled_annotated (htyped : (Brick.mk fields).typeName? = some typeName)
    (h : Annotated registry options typeName form fields fields')
    (hnested : ∀ e ∈ fields, Settles registry options e.2) :
    Settled registry options form (.object fields') := by
  apply settled_brick (h.typeName?_eq.trans htyped) h.identified h.marks fun _ hname => h.stamp_in_place hname
  intro name hlisted v' hv'
  rw [h.nestedAttributes_eq] at hlisted
  rw [h.innerForm_eq]
  by_cases hown : name ∈ own (stamp? registry typeName fields form)
  · rcases h.own_eq hown hv' with ⟨s, rfl⟩ | ⟨texts, rfl⟩
    · exact settled_string s
    · exact settled_texts texts
  · cases hv : Fields.get? fields name with
    | none =>
      have htext := h.texts name hown
      rw [textAt?_eq_none.2 hv, textAt?_eq_none, hv'] at htext
      cases htext
    | some v =>
      obtain ⟨ids, hvisited⟩ := h.visited name hlisted hown v hv
      cases hv'.symm.trans hvisited
      exact hnested _ (Fields.mem_of_get? hv) _ ids

theorem textAt?_group (registry : Registry) (options : Options) (fields : List (String × Json))
    (form : Option String) (ids : Ids) (name : String) :
    textAt? (group (entries registry options fields) form ids).1 name = textAt? fields name := by
  induction fields generalizing ids with
  | nil => rfl
  | cons e rest ih =>
    unfold entries group
    rw [bind_run, bind_run, pure_run]
    unfold textAt? Fields.get?
    split
    · rw [Option.map_some, Option.map_some, str?_value]
    · exact ih _

theorem settles_object (hnames : (fields.map (·.1)).Nodup) (h : ∀ e ∈ fields, Settles registry options e.2) :
    Settles registry options (.object fields) := by
  intro form ids
  cases htyped : (Brick.mk fields).typeName? with
  | some typeName =>
    rw [value_brick htyped]
    exact settled_annotated htyped (brick_annotated hnames form ids) h
  | none =>
    rw [value_group htyped]
    have htexts := textAt?_group registry options fields form ids
    apply settled_group
    · exact (typeName?_congr (htexts "type") (htexts "brick")).trans htyped
    · intro e he
      obtain ⟨i, hi⟩ := List.mem_iff_getElem?.1 he
      obtain ⟨ids', hget⟩ := getElem?_group registry options fields form ids i
      obtain ⟨old, hold, rfl⟩ := Option.map_eq_some_iff.1 (hget.symm.trans hi)
      exact h old (List.mem_of_getElem? hold) form ids'

theorem settles_array {items : List Json} (h : ∀ v ∈ items, Settles registry options v) :
    Settles registry options (.array items) := by
  intro form ids
  rw [value_array]
  apply settled_array
  intro v hv
  obtain ⟨i, hi⟩ := List.mem_iff_getElem?.1 hv
  obtain ⟨ids', hget⟩ := getElem?_values registry options items form ids i
  obtain ⟨old, hold, rfl⟩ := Option.map_eq_some_iff.1 (hget.symm.trans hi)
  exact h old (List.mem_of_getElem? hold) form ids'

theorem settles {v : Json} (h : v.wellFormed = true) : Settles registry options v := by
  have hinherits : Json.Inherits (Settles registry options) := by
    constructor
    · intro items hitems
      exact settles_array hitems
    · intro fields hnames hfields
      exact settles_object hnames hfields
    · intro v hitems hfields form ids ids'
      cases v with
      | array items => cases hitems
      | object fields => cases hfields
      | _ => rfl
  exact hinherits.of_wellFormed v h

end LiveLayout.Annotate

namespace LiveLayout

/-- To annotate a layout that has been annotated changes nothing, not even the order of its entries. -/
theorem annotate_annotate (registry : Registry) (options : Annotate.Options) (layout : Json)
    (h : layout.wellFormed = true) :
    annotate registry options (annotate registry options layout) = annotate registry options layout := by
  have hsettled : Annotate.Settled registry options options.formName (annotate registry options layout) :=
    Annotate.settles h options.formName ⟨0, Annotate.collectIds layout⟩
  unfold annotate at hsettled ⊢
  rw [hsettled]

/-- A form with an old mark in front, around a field without an id and a slot that names its attribute. -/
def halfAnnotated : Json := .object
  [("_expressions", .array [.string "gone"]), ("type", .string "Form"), ("name", .string "login"), ("id", .nat 7),
    ("children", .array
      [.object [("type", .string "Input"), ("name", .string "user"), ("value", .string "\x7blogin.user\x7d")],
        .object [("type", .string "Slot"), ("slotKey", .string "extra"), ("id", .string "brick-1"),
          ("extra", .object [("side", .object [("type", .string "Input"), ("form", .string "")])])]])]

def loginRegistry : Registry where
  containers := [("Form", ["submit"])]
  fields := [("Input", [("onChange", ⟨0, none⟩)])]

theorem annotate_annotate_half : halfAnnotated.wellFormed = true ∧
    annotate loginRegistry {} (annotate loginRegistry {} halfAnnotated) = annotate loginRegistry {} halfAnnotated :=
  ⟨by decide, annotate_annotate loginRegistry {} halfAnnotated (by decide)⟩

end LiveLayout
