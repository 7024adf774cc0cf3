import LiveLayout.Proofs.Annotating.Brick
/-!
Where the annotation goes in a layout. Every brick that it visits is annotated, whatever is visited around
it.
-/
namespace LiveLayout.Annotate

variable {registry : Registry} {options : Options}

/-- A brick of a layout and what stands for it in another one, reached by the same steps in both: through
the items of arrays, the entries of objects without a type and the nested attributes of bricks. Beside a
layout and a brick stands the name of the form around it. -/
inductive Visits (registry : Registry) : Option String → Json → Json →
    Option String → List (String × Json) → List (String × Json) → Prop where
  | brick {form : Option String} {fields fields' : List (String × Json)} {typeName : String}
      (typed : (Brick.mk fields).typeName? = some typeName) :
      Visits registry form (.object fields) (.object fields') form fields fields'
  | item {form inner : Option String} {items items' : List Json} {i : Nat} {v v' : Json}
      {b b' : List (String × Json)} (before : items[i]? = some v) (after : items'[i]? = some v')
      (inside : Visits registry form v v' inner b b') :
      Visits registry form (.array items) (.array items') inner b b'
  | entry {form inner : Option String} {fields fields' : List (String × Json)} {i : Nat} {name : String}
      {v v' : Json} {b b' : List (String × Json)} (untyped : (Brick.mk fields).typeName? = none)
      (before : fields[i]? = some (name, v)) (after : fields'[i]? = some (name, v'))
      (inside : Visits registry form v v' inner b b') :
      Visits registry form (.object fields) (.object fields') inner b b'
  | nested {form inner : Option String} {fields fields' : List (String × Json)} {typeName name : String}
      {v v' : Json} {b b' : List (String × Json)}
      (typed : (Brick.mk fields).typeName? = some typeName)
      (listed : name ∈ nestedAttributes registry typeName fields)
      (before : Fields.get? fields name = some v) (after : Fields.get? fields' name = some v')
      (inside : Visits registry (innerForm registry typeName fields form) v v' inner b b') :
      Visits registry form (.object fields) (.object fields') inner b b'

/-! ### What visits yield -/

theorem value_array (items : List Json) (form : Option String) (ids : Ids) :
    (value registry options (.array items) form ids).1 = .array (values registry options items form ids).1 := by
  unfold value
  rw [bind_run, pure_run]

theorem value_brick {fields : List (String × Json)} {typeName : String}
    (h : (Brick.mk fields).typeName? = some typeName) (form : Option String) (ids : Ids) :
    (value registry options (.object fields) form ids).1 =
      .object (brick registry options typeName fields (entries registry options fields) form ids).1 := by
  unfold value
  rw [h]
  dsimp only
  rw [bind_run, pure_run]

theorem value_group {fields : List (String × Json)} (h : (Brick.mk fields).typeName? = none)
    (form : Option String) (ids : Ids) : (value registry options (.object fields) form ids).1 =
      .object (group (entries registry options fields) form ids).1 := by
  unfold value
  rw [h]
  dsimp only
  rw [bind_run, pure_run]

theorem getElem?_values (registry : Registry) (options : Options) (items : List Json) (form : Option String)
    (ids : Ids) (i : Nat) :
    ∃ ids', (values registry options items form ids).1[i]? =
      items[i]?.map fun v => (value registry options v form ids').1 := by
  induction items generalizing ids i with
  | nil => exact ⟨ids, rfl⟩
  | cons v rest ih =>
    unfold values
    rw [bind_run, bind_run, pure_run]
    cases i with
    | zero => exact ⟨ids, rfl⟩
    | succ i => exact ih _ i

theorem getElem?_group (registry : Registry) (options : Options)
    (fields : List (String × Json)) (form : Option String) (ids : Ids) (i : Nat) :
    ∃ ids', (group (entries registry options fields) form ids).1[i]? =
      fields[i]?.map fun e => (e.1, (value registry options e.2 form ids').1) := by
  induction fields generalizing ids i with
  | nil => exact ⟨ids, rfl⟩
  | cons e rest ih =>
    unfold entries group
    rw [bind_run, bind_run, pure_run]
    cases i with
    | zero => exact ⟨ids, rfl⟩
    | succ i => exact ih _ i

/-! ### Every visited brick -/

/-- Nothing is visited in a text. -/
theorem not_visits_of_str? {form inner : Option String} {v v' : Json} {b b' : List (String × Json)} {s : String}
    (h : v'.str? = some s) : ¬Visits registry form v v' inner b b' := by
  intro hv
  cases hv <;> cases h

/-- All that is visited in the value has been annotated. -/
def VisitedAnnotated (registry : Registry) (options : Options) (v : Json) : Prop :=
  ∀ form ids inner b b', Visits registry form v (value registry options v form ids).1 inner b b' →
    ∃ typeName, (Brick.mk b).typeName? = some typeName ∧ Annotated registry options typeName inner b b'

/-- The entries that the annotation keeps for itself hold no layouts. -/
theorem not_visits_own {form inner form' : Option String} {fields fields' : List (String × Json)}
    {typeName name : String} {v v' : Json} {b b' : List (String × Json)}
    (h : Annotated registry options typeName form fields fields')
    (hname : name ∈ own (stamp? registry typeName fields form)) (hget : Fields.get? fields' name = some v') :
    ¬Visits registry form' v v' inner b b' := by
  intro hv
  rcases h.own_eq hname hget with ⟨s, rfl⟩ | ⟨names, rfl⟩
  · exact not_visits_of_str? rfl hv
  · cases hv with
    | item before after inside =>
      obtain ⟨s, -, rfl⟩ := List.mem_map.1 (List.mem_of_getElem? after)
      exact not_visits_of_str? rfl inside

theorem visitedAnnotated_brick {fields : List (String × Json)} {typeName : String}
    (htyped : (Brick.mk fields).typeName? = some typeName) (hfields : (fields.map (·.1)).Nodup)
    (h : ∀ e ∈ fields, VisitedAnnotated registry options e.2) :
    VisitedAnnotated registry options (.object fields) := by
  intro form ids inner b b' hv
  rw [value_brick htyped] at hv
  have hannotated : Annotated registry options typeName form fields _ := brick_annotated hfields form ids
  generalize (brick registry options typeName fields (entries registry options fields) form ids).1 = fields'
    at hv hannotated
  cases hv with
  | brick => exact ⟨typeName, htyped, hannotated⟩
  | entry untyped => cases untyped.symm.trans htyped
  | nested typed listed before after inside =>
    cases htyped.symm.trans typed
    rename_i name v v'
    by_cases hname : name ∈ own (stamp? registry typeName fields form)
    · exact absurd inside (not_visits_own hannotated hname after)
    · obtain ⟨ids', hget⟩ := hannotated.visited name listed hname v before
      cases after.symm.trans hget
      exact h _ (Fields.mem_of_get? before) _ ids' inner b b' inside

theorem visitedAnnotated_group {fields : List (String × Json)} (huntyped : (Brick.mk fields).typeName? = none)
    (h : ∀ e ∈ fields, VisitedAnnotated registry options e.2) :
    VisitedAnnotated registry options (.object fields) := by
  intro form ids inner b b' hv
  rw [value_group huntyped] at hv
  have helements := getElem?_group registry options fields form ids
  generalize (group (entries registry options fields) form ids).1 = fields' at hv helements
  cases hv with
  | brick typed => cases huntyped.symm.trans typed
  | nested typed => cases huntyped.symm.trans typed
  | entry untyped before after inside =>
    obtain ⟨ids', hget⟩ := helements _
    rw [before] at hget
    cases after.symm.trans hget
    exact h _ (List.mem_of_getElem? before) form ids' inner b b' inside

theorem visitedAnnotated_array {items : List Json} (h : ∀ v ∈ items, VisitedAnnotated registry options v) :
    VisitedAnnotated registry options (.array items) := by
  intro form ids inner b b' hv
  rw [value_array] at hv
  have helements := getElem?_values registry options items form ids
  generalize (values registry options items form ids).1 = items' at hv helements
  cases hv with
  | item before after inside =>
    obtain ⟨ids', hget⟩ := helements _
    rw [before] at hget
    cases after.symm.trans hget
    exact h _ (List.mem_of_getElem? before) form ids' inner b b' inside

theorem visitedAnnotated {v : Json} (h : v.wellFormed = true) : VisitedAnnotated registry options v := by
  have hinherits : Json.Inherits (VisitedAnnotated registry options) := by
    constructor
    · intro items hitems
      exact visitedAnnotated_array hitems
    · intro fields hnames hfields
      cases htyped : (Brick.mk fields).typeName? with
      | none => exact visitedAnnotated_group htyped hfields
      | some typeName => exact visitedAnnotated_brick htyped hnames hfields
    · intro v hitems hfields form ids inner b b' hv
      cases v with
      | array items => cases hitems
      | object fields => cases hfields
      | _ => cases hv
  exact hinherits.of_wellFormed v h

end LiveLayout.Annotate

namespace LiveLayout

/-- Whatever the annotation visits in a layout is annotated afterwards. -/
theorem annotate_visits (registry : Registry) (options : Annotate.Options) {layout : Json}
    (h : layout.wellFormed = true) {form : Option String} {b b' : List (String × Json)}
    (hv : Annotate.Visits registry options.formName layout (annotate registry options layout) form b b') :
    ∃ typeName, (Brick.mk b).typeName? = some typeName ∧
      Annotate.Annotated registry options typeName form b b' :=
  Annotate.visitedAnnotated h _ _ _ _ _ hv

end LiveLayout
