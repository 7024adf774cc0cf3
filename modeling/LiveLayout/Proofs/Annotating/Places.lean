import LiveLayout.Proofs.Annotating.Visits
/-!
Places in a layout, and those of the bricks that the annotation comes to. It makes of such a brick what it would make of
it alone, with the ids that are taken by then.
-/
namespace LiveLayout

namespace Json

/-- A step into a value: to an item of an array, or to an entry of an object. -/
inductive Descent where
  | item (i : Nat)
  | entry (name : String)
  deriving DecidableEq

/-- The steps from a value to what stands somewhere in it. -/
abbrev Place := List Descent

def step? : Json → Descent → Option Json
  | .array items, .item i => items[i]?
  | .object fields, .entry name => Fields.get? fields name
  | _, _ => none

def at? : Json → Place → Option Json
  | v, [] => some v
  | v, s :: p => (v.step? s).bind fun w => w.at? p

variable {v w : Json} {s : Descent} {p : Place} {name : String}

theorem at?_nil (v : Json) : v.at? [] = some v := rfl

theorem at?_cons (v : Json) (s : Descent) (p : Place) : v.at? (s :: p) = (v.step? s).bind fun w => w.at? p := rfl

theorem at?_of_step? (h : v.step? s = some w) : v.at? (s :: p) = w.at? p := by
  rw [at?_cons, h, Option.bind_some]

theorem at?_append (v : Json) (p q : Place) : v.at? (p ++ q) = (v.at? p).bind fun w => w.at? q := by
  induction p generalizing v with
  | nil => rfl
  | cons s p ih =>
    rw [List.cons_append, at?_cons, at?_cons]
    cases v.step? s with
    | none => rfl
    | some w => exact ih w

theorem at?_entry_of_object {fields : List (String × Json)} (h : v.at? p = some (.object fields)) (name : String) :
    v.at? (p ++ [.entry name]) = Fields.get? fields name := by
  rw [at?_append, h, Option.bind_some, at?_cons]
  exact Option.bind_fun_some _

/-- The values around a place, the nearest one first. -/
def around : Json → Place → List Json
  | _, [] => []
  | v, s :: p => ((v.step? s).map fun w => w.around p).getD [] ++ [v]

theorem around_of_step? (h : v.step? s = some w) : v.around (s :: p) = w.around p ++ [v] := by
  rw [around, h]
  rfl

/-- What stands under `id` in the object at a place. -/
def idAt? (v : Json) (p : Place) : Option Json := (v.at? p).bind fun w => w.get? "id"

theorem idAt?_of_step? (h : v.step? s = some w) : v.idAt? (s :: p) = w.idAt? p := by
  unfold idAt?
  rw [at?_of_step? h]

theorem idAt?_of_get? {fields : List (String × Json)} (h : Fields.get? fields name = some w) :
    (object fields).idAt? (.entry name :: p) = w.idAt? p :=
  idAt?_of_step? (v := .object fields) (s := .entry name) h

theorem exists_step?_of_idAt? (h : v.idAt? (s :: p) = some w) : ∃ u, v.step? s = some u ∧ u.idAt? p = some w := by
  unfold idAt? at h
  rw [at?_cons] at h
  cases hu : v.step? s with
  | none =>
    rw [hu] at h
    cases h
  | some u =>
    rw [hu, Option.bind_some] at h
    exact ⟨u, rfl, h⟩

theorem idAt?_of_object {fields : List (String × Json)} (h : v.at? p = some (.object fields)) :
    v.idAt? p = Fields.get? fields "id" := by
  unfold idAt?
  rw [h]
  rfl

/-- An id stands in an object. -/
theorem exists_object_of_idAt? (h : v.idAt? p = some w) :
    ∃ fields, v.at? p = some (.object fields) ∧ Fields.get? fields "id" = some w := by
  obtain ⟨u, hu, hw⟩ := Option.bind_eq_some_iff.1 h
  cases u with
  | object fields => exact ⟨fields, hu, hw⟩
  | _ => cases hw

/-! ### Well-formed values -/

theorem wellFormedItems_iff {items : List Json} :
    wellFormedItems items = true ↔ ∀ w ∈ items, w.wellFormed = true := by
  induction items with
  | nil => exact ⟨fun _ => List.forall_mem_nil _, fun _ => rfl⟩
  | cons u rest ih =>
    unfold wellFormedItems
    rw [Bool.and_eq_true, List.forall_mem_cons, ih]

theorem wellFormedFields_iff {fields : List (String × Json)} :
    wellFormedFields fields = true ↔ ∀ e ∈ fields, e.2.wellFormed = true := by
  induction fields with
  | nil => exact ⟨fun _ => List.forall_mem_nil _, fun _ => rfl⟩
  | cons e rest ih =>
    unfold wellFormedFields
    rw [Bool.and_eq_true, List.forall_mem_cons, ih]

theorem wellFormed_array_iff {items : List Json} :
    (array items).wellFormed = true ↔ ∀ w ∈ items, w.wellFormed = true := by
  rw [wellFormed]
  exact wellFormedItems_iff

theorem wellFormed_object_iff {fields : List (String × Json)} : (object fields).wellFormed = true ↔
    (fields.map (·.1)).Nodup ∧ ∀ e ∈ fields, e.2.wellFormed = true := by
  rw [wellFormed, Bool.and_eq_true, decide_eq_true_iff, wellFormedFields_iff]

/-- What stands in a well-formed value is well-formed. -/
theorem wellFormed_of_step? (h : v.wellFormed = true) (hw : v.step? s = some w) : w.wellFormed = true := by
  unfold step? at hw
  split at hw
  · exact wellFormed_array_iff.1 h w (List.mem_of_getElem? hw)
  · exact (wellFormed_object_iff.1 h).2 _ (Fields.mem_of_get? hw)
  · cases hw

theorem wellFormed_of_at? (h : v.wellFormed = true) (hw : v.at? p = some w) : w.wellFormed = true := by
  induction p generalizing v with
  | nil =>
    cases hw
    exact h
  | cons s p ih =>
    obtain ⟨u, hu, hw⟩ := Option.bind_eq_some_iff.1 hw
    exact ih (wellFormed_of_step? h hu) hw

end Json

namespace Annotate

open Json (Place Descent)

variable {registry : Registry}

/-- The annotation comes to the brick at a place: through the items of arrays, the entries of objects without a type,
and the nested attributes of bricks. Before the layout stands the name of the form around it. -/
inductive Visited (registry : Registry) : Option String → Json → Place → Prop where
  | here {form : Option String} {fields : List (String × Json)} {typeName : String}
      (typed : (Brick.mk fields).typeName? = some typeName) : Visited registry form (.object fields) []
  | item {form : Option String} {items : List Json} {i : Nat} {v : Json} {p : Place} (item : items[i]? = some v)
      (inside : Visited registry form v p) : Visited registry form (.array items) (.item i :: p)
  | entry {form : Option String} {fields : List (String × Json)} {name : String} {v : Json} {p : Place}
      (untyped : (Brick.mk fields).typeName? = none) (entry : Fields.get? fields name = some v)
      (inside : Visited registry form v p) : Visited registry form (.object fields) (.entry name :: p)
  | nested {form : Option String} {fields : List (String × Json)} {typeName name : String} {v : Json} {p : Place}
      (typed : (Brick.mk fields).typeName? = some typeName)
      (listed : name ∈ nestedAttributes registry typeName fields)
      (free : name ∉ own (stamp? registry typeName fields form)) (entry : Fields.get? fields name = some v)
      (inside : Visited registry (innerForm registry typeName fields form) v p) :
      Visited registry form (.object fields) (.entry name :: p)

/-! ### What the annotation makes of entries -/

theorem get?_group (registry : Registry) (options : Options) (fields : List (String × Json)) (form : Option String)
    (ids : Ids) (name : String) : ∃ ids', Fields.get? (group (entries registry options fields) form ids).1 name =
      (Fields.get? fields name).map fun v => (value registry options v form ids').1 := by
  induction fields generalizing ids with
  | nil => exact ⟨ids, rfl⟩
  | cons e rest ih =>
    unfold entries group
    rw [bind_run, bind_run, pure_run]
    unfold Fields.get?
    split
    · exact ⟨ids, rfl⟩
    · exact ih _

theorem step?_item_value (registry : Registry) (options : Options) (items : List Json) (form : Option String)
    (ids : Ids) (i : Nat) : ∃ ids', (value registry options (.array items) form ids).1.step? (.item i) =
      items[i]?.map fun v => (value registry options v form ids').1 := by
  rw [value_array]
  exact getElem?_values registry options items form ids i

theorem step?_entry_value (registry : Registry) (options : Options) {fields : List (String × Json)}
    (huntyped : (Brick.mk fields).typeName? = none) (form : Option String) (ids : Ids) (name : String) :
    ∃ ids', (value registry options (.object fields) form ids).1.step? (.entry name) =
      (Fields.get? fields name).map fun v => (value registry options v form ids').1 := by
  rw [value_group huntyped]
  exact get?_group registry options fields form ids name

theorem step?_nested_value (options : Options) {form : Option String} {fields : List (String × Json)}
    {typeName name : String} {v : Json} (htyped : (Brick.mk fields).typeName? = some typeName)
    (hfields : (fields.map (·.1)).Nodup) (hlisted : name ∈ nestedAttributes registry typeName fields)
    (hfree : name ∉ own (stamp? registry typeName fields form)) (hentry : Fields.get? fields name = some v)
    (ids : Ids) :
    ∃ ids', (value registry options (.object fields) form ids).1.step? (.entry name) =
      some (value registry options v (innerForm registry typeName fields form) ids').1 := by
  rw [value_brick htyped]
  have hannotated : Annotated registry options typeName form fields _ := brick_annotated hfields form ids
  exact hannotated.visited name hlisted hfree v hentry

section

variable {options : Options} {form inner : Option String} {fields : List (String × Json)} {v w : Json} {s : Descent}
  {p : Place} {typeName : String}

/-! ### One step into a layout -/

/-- The pass goes on from a value to what is there after a step, with the form around each. -/
inductive Enters (registry : Registry) : Option String → Json → Descent → Option String → Json → Prop where
  | item {form : Option String} {items : List Json} {i : Nat} {v : Json} (item : items[i]? = some v) :
      Enters registry form (.array items) (.item i) form v
  | entry {form : Option String} {fields : List (String × Json)} {name : String} {v : Json}
      (untyped : (Brick.mk fields).typeName? = none) (entry : Fields.get? fields name = some v) :
      Enters registry form (.object fields) (.entry name) form v
  | nested {form : Option String} {fields : List (String × Json)} {typeName name : String} {v : Json}
      (typed : (Brick.mk fields).typeName? = some typeName)
      (listed : name ∈ nestedAttributes registry typeName fields)
      (free : name ∉ own (stamp? registry typeName fields form)) (entry : Fields.get? fields name = some v) :
      Enters registry form (.object fields) (.entry name) (innerForm registry typeName fields form) v

theorem visited_cons_iff : Visited registry form v (s :: p) ↔
    ∃ inner w, Enters registry form v s inner w ∧ Visited registry inner w p := by
  constructor
  · intro h
    cases h with
    | item item inside => exact ⟨_, _, .item item, inside⟩
    | entry untyped entry inside => exact ⟨_, _, .entry untyped entry, inside⟩
    | nested typed listed free entry inside => exact ⟨_, _, .nested typed listed free entry, inside⟩
  · rintro ⟨inner, w, henters, inside⟩
    cases henters with
    | item item => exact .item item inside
    | entry untyped entry => exact .entry untyped entry inside
    | nested typed listed free entry => exact .nested typed listed free entry inside

theorem Enters.step? (h : Enters registry form v s inner w) : v.step? s = some w := by
  cases h with
  | item item => exact item
  | entry untyped entry => exact entry
  | nested typed listed free entry => exact entry

theorem Enters.value_step (h : Enters registry form v s inner w) (hv : v.wellFormed = true) (options : Options)
    (ids : Ids) :
    ∃ ids', (value registry options v form ids).1.step? s = some (value registry options w inner ids').1 := by
  cases h with
  | @item items i _ item =>
    obtain ⟨ids', hstep⟩ := step?_item_value registry options items form ids i
    rw [item] at hstep
    exact ⟨ids', hstep⟩
  | @entry fields name _ untyped entry =>
    obtain ⟨ids', hstep⟩ := step?_entry_value registry options untyped form ids name
    rw [entry] at hstep
    exact ⟨ids', hstep⟩
  | nested typed listed free entry =>
    exact step?_nested_value options typed (Json.wellFormed_object hv).1 listed free entry ids

/-- The step leads to an entry that the annotation of a brick keeps for itself. -/
inductive OwnStep (registry : Registry) (form : Option String) : Json → Descent → Prop where
  | entry {fields : List (String × Json)} {typeName name : String} (typed : (Brick.mk fields).typeName? = some typeName)
      (own : name ∈ own (stamp? registry typeName fields form)) : OwnStep registry form (.object fields) (.entry name)

theorem step?_annotated_cases {fields' : List (String × Json)} (htyped : (Brick.mk fields).typeName? = some typeName)
    (h : Annotated registry options typeName form fields fields') (s : Descent) :
    (∃ inner w, Enters registry form (.object fields) s inner w) ∨
      (Json.object fields').step? s = (Json.object fields).step? s ∨
      OwnStep registry form (.object fields) s := by
  cases s with
  | item i => exact .inr (.inl rfl)
  | entry name =>
    by_cases hown : name ∈ own (stamp? registry typeName fields form)
    · exact .inr (.inr (.entry htyped hown))
    by_cases hlisted : name ∈ nestedAttributes registry typeName fields
    · cases hentry : Fields.get? fields name with
      | some w => exact .inl ⟨_, w, .nested htyped hlisted hown hentry⟩
      | none =>
        have htext := h.texts name hown
        rw [textAt?_eq_none.2 hentry, textAt?_eq_none] at htext
        exact .inr (.inl (htext.trans hentry.symm))
    · exact .inr (.inl (h.kept name hlisted hown))

/-- After a step, the pass has gone on from what was there, has left that as it was, or keeps the entry for itself. -/
theorem step?_value_cases (registry : Registry) (options : Options) (hv : v.wellFormed = true) (form : Option String)
    (ids : Ids) (s : Descent) :
    (∃ inner w, Enters registry form v s inner w) ∨
      (value registry options v form ids).1.step? s = v.step? s ∨
      OwnStep registry form v s := by
  cases v with
  | array items =>
    cases s with
    | entry name =>
      rw [value_array]
      exact .inr (.inl rfl)
    | item i =>
      cases hitem : items[i]? with
      | some w => exact .inl ⟨form, w, .item hitem⟩
      | none =>
        obtain ⟨ids', hstep⟩ := step?_item_value registry options items form ids i
        rw [hitem] at hstep
        exact .inr (.inl (hstep.trans hitem.symm))
  | object fields =>
    have hfields := (Json.wellFormed_object hv).1
    cases htyped : (Brick.mk fields).typeName? with
    | none =>
      cases s with
      | item i =>
        rw [value_group htyped]
        exact .inr (.inl rfl)
      | entry name =>
        cases hentry : Fields.get? fields name with
        | some w => exact .inl ⟨form, w, .entry htyped hentry⟩
        | none =>
          obtain ⟨ids', hstep⟩ := step?_entry_value registry options htyped form ids name
          rw [hentry] at hstep
          exact .inr (.inl (hstep.trans hentry.symm))
    | some typeName =>
      rw [value_brick htyped]
      exact step?_annotated_cases htyped (brick_annotated hfields form ids) s
  | _ => exact .inr (.inl rfl)

/-! ### The form at a place -/

/-- The name of a form container, if the value is one that has a literal name. -/
def containerName? (registry : Registry) (v : Json) : Option String :=
  v.fields?.bind fun fields => (Brick.mk fields).typeName?.bind fun typeName =>
    if (registry.container? typeName).isSome then (Brick.mk fields).name? else none

/-- The form that belongs to a place: the name of the nearest form container around it that has a literal one, else what
is inherited. -/
def formAt (registry : Registry) (form : Option String) (v : Json) (p : Place) : Option String :=
  ((v.around p).findSome? (containerName? registry)).or form

theorem innerForm_eq (htyped : (Brick.mk fields).typeName? = some typeName) (form : Option String) :
    innerForm registry typeName fields form = (containerName? registry (.object fields)).or form := by
  have hname : containerName? registry (.object fields) =
      if (registry.container? typeName).isSome then (Brick.mk fields).name? else none := by
    unfold containerName? Json.fields?
    rw [Option.bind_some, htyped, Option.bind_some]
  rw [hname]
  unfold innerForm
  cases (Brick.mk fields).name? with
  | none => rw [ite_self, Option.none_or]
  | some name =>
    dsimp only
    split
    · rfl
    · rfl

theorem Enters.form_eq (h : Enters registry form v s inner w) : inner = (containerName? registry v).or form := by
  cases h with
  | item item => rfl
  | entry untyped entry =>
    unfold containerName? Json.fields?
    rw [Option.bind_some, untyped]
    rfl
  | nested typed listed free entry => exact innerForm_eq typed form

theorem Enters.formAt_cons (h : Enters registry form v s inner w) (p : Place) :
    formAt registry form v (s :: p) = formAt registry inner w p := by
  unfold formAt
  rw [Json.around_of_step? h.step?, List.findSome?_append, List.findSome?_singleton, Option.or_assoc, h.form_eq]

/-- Whether a brick is visited is decided where the pass goes on. -/
theorem Enters.visited_iff (h : Enters registry form v s inner w) :
    Visited registry form v (s :: p) ↔ Visited registry inner w p := by
  rw [visited_cons_iff]
  constructor
  · rintro ⟨inner', w', h', hvisited⟩
    cases h'.step?.symm.trans h.step?
    rw [h.form_eq, ← h'.form_eq]
    exact hvisited
  · intro hvisited
    exact ⟨inner, w, h, hvisited⟩

/-! ### What the annotation makes of the brick at a place -/

/-- At the place of a visited brick stands what the annotation makes of it in the form that belongs there. -/
theorem Visited.value_formAt (h : Visited registry form v p) (hv : v.wellFormed = true) (options : Options)
    (ids : Ids) :
    ∃ fields typeName ids', v.at? p = some (.object fields) ∧ (fields.map (·.1)).Nodup ∧
      (Brick.mk fields).typeName? = some typeName ∧ (value registry options v form ids).1.at? p =
        some (.object (brick registry options typeName fields (entries registry options fields)
          (formAt registry form v p) ids').1) := by
  induction p generalizing form v ids with
  | nil =>
    cases h with
    | here typed => exact ⟨_, _, ids, rfl, (Json.wellFormed_object hv).1, typed, congrArg some (value_brick typed ..)⟩
  | cons s p ih =>
    obtain ⟨inner, w, henters, hinside⟩ := visited_cons_iff.1 h
    obtain ⟨ids', hafter⟩ := henters.value_step hv options ids
    rw [Json.at?_of_step? henters.step?, Json.at?_of_step? hafter, henters.formAt_cons]
    exact ih hinside (Json.wellFormed_of_step? hv henters.step?) ids'

end

/-- At the place of a brick that is visited stands what the annotation makes of that brick. -/
theorem Visited.value_at {form : Option String} {v : Json} {p : Place} (h : Visited registry form v p)
    (hv : v.wellFormed = true) (options : Options) (ids : Ids) :
    ∃ fields typeName inner ids', v.at? p = some (.object fields) ∧ (fields.map (·.1)).Nodup ∧
      (Brick.mk fields).typeName? = some typeName ∧
      (value registry options v form ids).1.at? p =
        some (.object (brick registry options typeName fields (entries registry options fields) inner ids').1) := by
  obtain ⟨fields, typeName, ids', hat, hfields, htyped, hafter⟩ := h.value_formAt hv options ids
  exact ⟨fields, typeName, formAt registry form v p, ids', hat, hfields, htyped, hafter⟩

end Annotate
end LiveLayout
