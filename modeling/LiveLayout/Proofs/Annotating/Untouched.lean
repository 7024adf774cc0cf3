import LiveLayout.Proofs.Annotating.Order
import LiveLayout.Proofs.Annotating.Passes
/-!
What the annotation leaves as it is. It writes the ids and the marks of the bricks that it visits, and the form of a
form field that has none, which is that of the nearest named container around it. Nothing else is added, removed or
replaced, and it stays in its order unless marks are erased in front of it.
-/
namespace LiveLayout

namespace Json

/-- The same value, or one of the same outline: an array of as many items, or an object with the same names in the same
order. -/
inductive SameOutline : Json → Json → Prop where
  | refl (v : Json) : SameOutline v v
  | array {items items' : List Json} (length : items'.length = items.length) :
      SameOutline (.array items) (.array items')
  | object {fields fields' : List (String × Json)} (names : fields'.map (·.1) = fields.map (·.1)) :
      SameOutline (.object fields) (.object fields')

theorem SameOutline.some_refl (v : Option Json) : Option.Rel SameOutline v v := by
  cases v with
  | none => exact .none
  | some v => exact .some (.refl v)

end Json

namespace Annotate

open Json (Place Descent SameOutline)

variable {registry : Registry} {options : Options} {form inner : Option String} {fields : List (String × Json)}
  {v w : Json} {s : Descent} {p : Place} {name typeName : String}

/-! ### Forms -/

/-- At the place is a form field that has no text under `form`, or an empty one. -/
def LacksForm (registry : Registry) (v : Json) (p : Place) : Prop :=
  ∃ fields typeName, v.at? p = some (.object fields) ∧ (Brick.mk fields).typeName? = some typeName ∧
    (registry.field? typeName).isSome ∧ ∀ text, Fields.get? fields "form" = some (.string text) → text = ""

theorem lacksForm_iff (hat : v.at? p = some (.object fields)) (htyped : (Brick.mk fields).typeName? = some typeName) :
    LacksForm registry v p ↔ takesForm registry typeName fields = true := by
  rw [takesForm_iff]
  constructor
  · rintro ⟨_, _, hat', htyped', hfield⟩
    cases hat.symm.trans hat'
    cases htyped.symm.trans htyped'
    exact hfield
  · intro hfield
    exact ⟨fields, typeName, hat, htyped, hfield⟩

/-! ### What is written -/

/-- The entries that a pass writes: the id and the marks of each brick that it visits, and the form of a field that has
none, if there is one for it. -/
inductive Writes (registry : Registry) (form : Option String) (v : Json) (p : Place) : String → Prop where
  | id (visited : Visited registry form v p) : Writes registry form v p "id"
  | marks (visited : Visited registry form v p) : Writes registry form v p "_expressions"
  | form (visited : Visited registry form v p) (lacks : LacksForm registry v p)
      (found : (formAt registry form v p).isSome) : Writes registry form v p "form"

theorem Writes.visited (h : Writes registry form v p name) : Visited registry form v p := by
  cases h with
  | id visited => exact visited
  | marks visited => exact visited
  | form visited => exact visited

/-- The place is not in an entry that is written. -/
def Untouched (registry : Registry) (form : Option String) (v : Json) (p : Place) : Prop :=
  ∀ q name, q ++ [.entry name] <+: p → ¬Writes registry form v q name

/-- What is written into a brick is what its annotation keeps for itself. -/
theorem writes_iff (hvisited : Visited registry form v p) (hat : v.at? p = some (.object fields))
    (htyped : (Brick.mk fields).typeName? = some typeName) :
    Writes registry form v p name ↔ name ∈ own (stamp? registry typeName fields (formAt registry form v p)) := by
  rw [mem_own_iff, isSome_stamp?_iff, ← lacksForm_iff hat htyped]
  constructor
  · intro h
    cases h with
    | id => exact .inl rfl
    | marks => exact .inr (.inl rfl)
    | form _ lacks found => exact .inr (.inr ⟨rfl, lacks, found⟩)
  · rintro (rfl | rfl | ⟨rfl, lacks, found⟩)
    · exact .id hvisited
    · exact .marks hvisited
    · exact .form hvisited lacks found

/-! ### One step into a layout -/

theorem Enters.lacksForm_iff (h : Enters registry form v s inner w) :
    LacksForm registry v (s :: p) ↔ LacksForm registry w p := by
  unfold LacksForm
  rw [Json.at?_of_step? h.step?]

theorem Enters.writes_iff (h : Enters registry form v s inner w) :
    Writes registry form v (s :: p) name ↔ Writes registry inner w p name := by
  constructor
  · intro hw
    cases hw with
    | id visited => exact .id (h.visited_iff.1 visited)
    | marks visited => exact .marks (h.visited_iff.1 visited)
    | form visited lacks found =>
      exact .form (h.visited_iff.1 visited) (h.lacksForm_iff.1 lacks) (by rw [← h.formAt_cons]; exact found)
  · intro hw
    cases hw with
    | id visited => exact .id (h.visited_iff.2 visited)
    | marks visited => exact .marks (h.visited_iff.2 visited)
    | form visited lacks found =>
      exact .form (h.visited_iff.2 visited) (h.lacksForm_iff.2 lacks) (by rw [h.formAt_cons]; exact found)

theorem Enters.untouched (h : Enters registry form v s inner w) (hp : Untouched registry form v (s :: p)) :
    Untouched registry inner w p := by
  intro q name hprefix hw
  exact hp (s :: q) name (List.cons_prefix_cons.2 ⟨rfl, hprefix⟩) (h.writes_iff.2 hw)

/-- The way to a place that is not written does not start with an entry that the annotation keeps for itself. -/
theorem Untouched.not_ownStep (hp : Untouched registry form v (s :: p)) : ¬OwnStep registry form v s := by
  intro h
  cases h with
  | @entry fields typeName name typed own =>
    have hwrites : Writes registry form (.object fields) [] name := (writes_iff (.here typed) rfl typed).2 own
    exact hp [] name (List.cons_prefix_cons.2 ⟨rfl, List.nil_prefix⟩) hwrites

/-- Where the pass goes on, it writes nothing. -/
theorem Enters.not_writes (h : Enters registry form v (.entry name) inner w) : ¬Writes registry form v [] name := by
  intro hw
  cases h with
  | entry untyped =>
    cases hw.visited with
    | here typed => cases untyped.symm.trans typed
  | nested typed listed free => exact free ((Annotate.writes_iff hw.visited rfl typed).1 hw)

theorem Visited.untouched (h : Visited registry form v p) : Untouched registry form v p := by
  induction p generalizing form v with
  | nil =>
    intro q name hprefix
    simp at hprefix
  | cons s p ih =>
    obtain ⟨inner, w, henters, hinside⟩ := visited_cons_iff.1 h
    intro q name hprefix hw
    cases q with
    | nil =>
      obtain ⟨rfl, -⟩ := List.cons_prefix_cons.1 hprefix
      exact henters.not_writes hw
    | cons t q =>
      obtain ⟨rfl, hrest⟩ := List.cons_prefix_cons.1 hprefix
      exact ih hinside q name hrest (henters.writes_iff.1 hw)

/-! ### What is not visited -/

/-- Where no brick is visited, nothing changes. -/
theorem settled_of_unvisited (hv : v.wellFormed = true) (h : ∀ p, ¬Visited registry form v p) :
    Settled registry options form v := by
  have hinherits : Json.Inherits fun v => ∀ form, (∀ p, ¬Visited registry form v p) →
      Settled registry options form v := by
    constructor
    · intro items hitems form h
      apply settled_array
      intro w hw
      obtain ⟨i, hi⟩ := List.mem_iff_getElem?.1 hw
      exact hitems w hw form fun p hp => h _ (.item hi hp)
    · intro fields hnames hfields form h
      cases htyped : (Brick.mk fields).typeName? with
      | some typeName => exact absurd (.here htyped) (h [])
      | none =>
        apply settled_group htyped
        intro e he
        exact hfields e he form fun p hp => h _ (.entry htyped (Fields.get?_of_mem hnames he) hp)
    · intro v hitems hfields form _ ids
      cases v with
      | array items => cases hitems
      | object fields => cases hfields
      | _ => rfl
  exact hinherits.of_wellFormed v hv form h

theorem length_values (registry : Registry) (options : Options) (items : List Json) (form : Option String)
    (ids : Ids) : (values registry options items form ids).1.length = items.length := by
  induction items generalizing ids with
  | nil => rfl
  | cons v rest ih =>
    unfold values
    rw [bind_run, bind_run, pure_run, List.length_cons, List.length_cons, ih]

/-- A value that is no visited brick keeps its outline. -/
theorem sameOutline_value (h : ¬Visited registry form v []) (options : Options) (ids : Ids) :
    SameOutline v (value registry options v form ids).1 := by
  cases v with
  | array items =>
    rw [value_array]
    exact .array (length_values ..)
  | object fields =>
    cases htyped : (Brick.mk fields).typeName? with
    | some typeName => exact absurd (.here htyped) h
    | none =>
      rw [value_group htyped]
      exact .object (names_group ..)
  | _ => exact .refl _

/-! ### What stands at a place -/

/-- A place that is not written, and at and below which no brick is visited, has what it had. -/
theorem at?_value_of_unvisited (hv : v.wellFormed = true) (hp : Untouched registry form v p)
    (h : ∀ q, Visited registry form v q → ¬p <+: q) (options : Options) (ids : Ids) :
    (value registry options v form ids).1.at? p = v.at? p := by
  induction p generalizing form v ids with
  | nil =>
    have hsettled : Settled registry options form v :=
      settled_of_unvisited hv fun q hq => h q hq List.nil_prefix
    rw [hsettled ids]
  | cons s p ih =>
    rcases step?_value_cases registry options hv form ids s with ⟨inner, w, henters⟩ | hstep | hown
    · obtain ⟨ids', hafter⟩ := henters.value_step hv options ids
      rw [Json.at?_of_step? hafter, Json.at?_of_step? henters.step?]
      refine ih (Json.wellFormed_of_step? hv henters.step?) (henters.untouched hp) (fun q hq hprefix => ?_) ids'
      exact h (s :: q) (henters.visited_iff.2 hq) (List.cons_prefix_cons.2 ⟨rfl, hprefix⟩)
    · rw [Json.at?_cons, Json.at?_cons, hstep]
    · exact absurd hown hp.not_ownStep

/-- A place that is not written has a value of the outline that it had, unless a brick is visited there. -/
theorem sameOutline_at?_value (hv : v.wellFormed = true) (hp : Untouched registry form v p)
    (h : ¬Visited registry form v p) (options : Options) (ids : Ids) :
    Option.Rel SameOutline (v.at? p) ((value registry options v form ids).1.at? p) := by
  induction p generalizing form v ids with
  | nil => exact .some (sameOutline_value h options ids)
  | cons s p ih =>
    rcases step?_value_cases registry options hv form ids s with ⟨inner, w, henters⟩ | hstep | hown
    · obtain ⟨ids', hafter⟩ := henters.value_step hv options ids
      rw [Json.at?_of_step? hafter, Json.at?_of_step? henters.step?]
      exact ih (Json.wellFormed_of_step? hv henters.step?) (henters.untouched hp) (mt henters.visited_iff.2 h) ids'
    · rw [Json.at?_cons, Json.at?_cons, hstep]
      exact SameOutline.some_refl _
    · exact absurd hown hp.not_ownStep

end Annotate

open Annotate

/-- Annotating a layout writes only ids and marks, and the forms of fields without one, in the bricks that it visits.
Where no brick is visited nothing changes, and all around them arrays keep their items and objects their entries, in
their order. A brick does so too, but for the last entry of one that comes with an id: that takes the place of marks
that are erased. -/
theorem annotate_spares (registry : Registry) (options : Annotate.Options) {layout : Json}
    (h : layout.wellFormed = true) :
    (∀ p, Untouched registry options.formName layout p →
      ((∀ q, Visited registry options.formName layout q → ¬p <+: q) →
        (annotate registry options layout).at? p = layout.at? p) ∧
      (¬Visited registry options.formName layout p →
        Option.Rel Json.SameOutline (layout.at? p) ((annotate registry options layout).at? p))) ∧
    ∀ p, Visited registry options.formName layout p → Untouched registry options.formName layout p ∧
      ∃ fields fields' typeName, layout.at? p = some (.object fields) ∧
        (annotate registry options layout).at? p = some (.object fields') ∧
        (Brick.mk fields).typeName? = some typeName ∧
        (∀ name ∉ nestedAttributes registry typeName fields, ¬Writes registry options.formName layout p name →
          Fields.get? fields' name = Fields.get? fields name) ∧
        (otherNames fields').Perm (otherNames fields) ∧
        otherNames fields' = otherNames (if expressionNames fields = [] ∧ Fields.has fields "id" = true then
          Fields.swapErase fields "_expressions" else fields) ∧
        (Writes registry options.formName layout p "form" →
          Fields.get? fields' "form" = (formAt registry options.formName layout p).map .string) := by
  refine ⟨fun p hp => ⟨fun hnone => ?_, fun hnot => ?_⟩, fun p hp => ?_⟩
  · exact at?_value_of_unvisited h hp hnone options _
  · exact sameOutline_at?_value h hp hnot options _
  · obtain ⟨fields, typeName, ids, hat, hfields, htyped, hafter⟩ :=
      hp.value_formAt h options ⟨0, collectIds layout⟩
    have hannotated : Annotated registry options typeName (formAt registry options.formName layout p) fields _ :=
      brick_annotated hfields _ ids
    have horder := otherNames_brick registry options typeName hfields (formAt registry options.formName layout p) ids
    generalize (brick registry options typeName fields (entries registry options fields)
      (formAt registry options.formName layout p) ids).1 = fields' at hafter hannotated horder
    have hwrites {name : String} : Writes registry options.formName layout p name ↔
        name ∈ own (stamp? registry typeName fields (formAt registry options.formName layout p)) :=
      writes_iff hp hat htyped
    refine ⟨hp.untouched, fields, fields', typeName, hat, hafter, htyped, ?_, ?_, horder, ?_⟩
    · intro name hlisted hnot
      exact hannotated.kept name hlisted (mt hwrites.2 hnot)
    · rw [horder]
      split
      · exact otherNames_swapErase_perm hfields
      · exact .refl _
    · intro hform
      have hsome : (stamp? registry typeName fields (formAt registry options.formName layout p)).isSome = true := by
        simpa [mem_own_iff] using hwrites.1 hform
      obtain ⟨name, hstamp⟩ := Option.isSome_iff_exists.1 hsome
      rw [hannotated.stamped name hstamp, (stamp?_eq_some_iff.1 hstamp).2, Option.map_some]

/-- The field in the slot of the form, in a part of it without a type: what stood under its `form` is replaced. -/
theorem annotate_spares_half : halfAnnotated.wellFormed = true ∧
    ∃ fields', (annotate loginRegistry {} halfAnnotated).at?
        [.entry "children", .item 1, .entry "extra", .entry "side"] = some (.object fields') ∧
      otherNames fields' = ["type"] ∧ Fields.get? fields' "form" = some (.string "login") := by
  have hform : halfAnnotated.wellFormed = true := by decide
  have hvisited : Visited loginRegistry none halfAnnotated
      [.entry "children", .item 1, .entry "extra", .entry "side"] := by
    refine @Visited.nested _ _ _ "Form" "children" _ _ (by decide) (by decide) (by decide) rfl ?_
    refine .item rfl ?_
    refine @Visited.nested _ _ _ "Slot" "extra" _ _ (by decide) (by decide) (by decide) rfl ?_
    refine .entry (by decide) rfl ?_
    exact @Visited.here _ _ _ "Input" (by decide)
  obtain ⟨-, fields, fields', typeName, hat, hafter, -, -, -, horder, hwritten⟩ :=
    (annotate_spares loginRegistry {} hform).2 _ hvisited
  have hbefore : halfAnnotated.at? [.entry "children", .item 1, .entry "extra", .entry "side"] =
      some (.object [("type", .string "Input"), ("form", .string "")]) := rfl
  cases hbefore.symm.trans hat
  have hlacks : LacksForm loginRegistry halfAnnotated
      [.entry "children", .item 1, .entry "extra", .entry "side"] := by
    refine ⟨_, "Input", hbefore, by decide, by decide, fun text htext => ?_⟩
    cases htext
    rfl
  exact ⟨hform, fields', hafter, horder.trans (by decide), hwritten (.form hvisited hlacks rfl)⟩

/-- A text that was annotated when its content was an expression. Since then its content has been set to a plain text,
and two properties have been added. -/
def settledText : List (String × Json) :=
  [("type", .string "Text"), ("content", .string "hello"), ("id", .string "brick-1"),
    ("_expressions", .array [.string "content"]), ("title", .string "greeting"), ("lang", .string "en")]

/-- The last property comes to stand before the other one. -/
theorem annotate_moves_last : ∃ fields', annotate {} {} (.object settledText) = .object fields' ∧
    otherNames settledText = ["type", "content", "title", "lang"] ∧
    otherNames fields' = ["type", "content", "lang", "title"] :=
  ⟨_, rfl, by decide, by decide⟩

end LiveLayout
