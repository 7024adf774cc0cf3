import LiveLayout.Proofs.Annotating.Brick
import LiveLayout.Proofs.Fields
/-!
An annotated brick without its marks, and when a marked property stands alone under its name.
-/
namespace LiveLayout

/-- Whether the property is a hook of forms for bricks of the type. -/
def Registry.hooks (r : Registry) (typeName name : String) : Bool :=
  (r.field? typeName).any (Fields.has · name) || (r.container? typeName).any (·.contains name)

/-- Whether bricks of the type render layouts in their properties. -/
def Registry.rendersLayouts (r : Registry) (typeName : String) : Bool :=
  (Special.ofName? typeName).isSome || (r.resolve? typeName).any fun t => !t.childAttributes.isEmpty

namespace Brick

/-- The brick without its marks. -/
def unmarked (b : Brick) : Brick := ⟨Fields.erase b.fields "_expressions"⟩

/-- The marks are those that the annotation makes. -/
def Annotated (b : Brick) : Prop :=
  b.get? "_expressions" = Annotate.marks? (Annotate.expressionNames b.fields)

/-- Nothing else becomes a property of the name that the entry gets: no hook, no other entry, and no rendering. -/
structure Alone (r : Registry) (config : Config) (b : Brick) (typeName name : String) : Prop where
  hooks : r.hooks typeName (Renderer.rename config name) = false
  entries : ∀ e ∈ b.props, e.1 ≠ name → e.1 ≠ "id" → e.1 ≠ "form" → r.hooks typeName e.1 = false →
    Renderer.rename config e.1 ≠ Renderer.rename config name
  rendering : r.rendersLayouts typeName = true → Renderer.rename config name ≠ Props.renderingName

instance (r : Registry) (config : Config) (b : Brick) (typeName name : String) :
    Decidable (b.Alone r config typeName name) :=
  decidable_of_iff (r.hooks typeName (Renderer.rename config name) = false ∧
      (∀ e ∈ b.props, e.1 ≠ name → e.1 ≠ "id" → e.1 ≠ "form" → r.hooks typeName e.1 = false →
        Renderer.rename config e.1 ≠ Renderer.rename config name) ∧
      (r.rendersLayouts typeName = true → Renderer.rename config name ≠ Props.renderingName))
    ⟨fun ⟨hhooks, hentries, hrendering⟩ => ⟨hhooks, hentries, hrendering⟩,
      fun h => ⟨h.hooks, h.entries, h.rendering⟩⟩

/-- No marked property shares its name with anything else. -/
def Distinct (r : Registry) (config : Config) (b : Brick) (typeName : String) : Prop :=
  ∀ name ∈ b.expressions, name ≠ "children" → b.Alone r config typeName name

/-- No marked property is a hook. -/
def Hookless (r : Registry) (b : Brick) (typeName : String) : Prop :=
  ∀ name ∈ b.expressions, name ≠ "children" → r.hooks typeName name = false

instance (r : Registry) (config : Config) (b : Brick) (typeName : String) :
    Decidable (b.Distinct r config typeName) :=
  inferInstanceAs (Decidable (∀ name ∈ b.expressions, name ≠ "children" → b.Alone r config typeName name))

instance (r : Registry) (b : Brick) (typeName : String) : Decidable (b.Hookless r typeName) :=
  inferInstanceAs (Decidable (∀ name ∈ b.expressions, name ≠ "children" → r.hooks typeName name = false))

variable {b : Brick}

theorem get?_unmarked (b : Brick) {name : String} (h : name ≠ "_expressions") :
    b.unmarked.get? name = b.get? name := Fields.get?_erase_of_ne b.fields h

theorem typeName?_unmarked (b : Brick) : b.unmarked.typeName? = b.typeName? := by
  simp [typeName?, get?_unmarked]

theorem id?_unmarked (b : Brick) : b.unmarked.id? = b.id? := by
  simp [id?, get?_unmarked]

theorem name?_unmarked (b : Brick) : b.unmarked.name? = b.name? := by
  simp [name?, get?_unmarked]

theorem children?_unmarked (b : Brick) : b.unmarked.children? = b.children? :=
  b.get?_unmarked (by decide)

theorem props_unmarked (b : Brick) : b.unmarked.props = b.props := by
  refine Fields.filter_erase (fun e he => ?_) b.fields
  rw [he]
  rfl

theorem expressions_unmarked (h : (b.fields.map (·.1)).Nodup) : b.unmarked.expressions = [] := by
  unfold expressions get? unmarked
  rw [Fields.get?_erase_self h]

/-- The marks are no text, so that nothing takes them for the name of a handler. -/
theorem Annotated.str?_eq_none (h : b.Annotated) : (b.get? "_expressions").bind Json.str? = none := by
  rw [h]
  cases Annotate.expressionNames b.fields <;> rfl

theorem Annotated.str?_unmarked (h : b.Annotated) (hfields : (b.fields.map (·.1)).Nodup) (hook : String) :
    (b.unmarked.get? hook).bind Json.str? = (b.get? hook).bind Json.str? := by
  by_cases hhook : hook = "_expressions"
  · rw [hhook, h.str?_eq_none, get?, unmarked, Fields.get?_erase_self hfields]
    rfl
  · rw [get?_unmarked b hhook]

theorem Annotated.expressions_eq (h : b.Annotated) : b.expressions = Annotate.expressionNames b.fields :=
  Annotate.marked_of_marks h

theorem unmarked_eq_self (h : b.Annotated) (hnone : b.expressions = []) : b.unmarked = b := by
  rw [h.expressions_eq] at hnone
  unfold Annotated at h
  rw [hnone] at h
  unfold unmarked
  rw [Fields.erase_of_get?_eq_none h]

/-- A marked entry of an annotated brick is an expression. -/
theorem Annotated.of_mem (h : b.Annotated) {name : String} (hname : name ∈ b.expressions) :
    ∃ s text, (name, .string s) ∈ b.fields ∧ bindingText? s = some text ∧ isDynamicCandidate name = true := by
  rw [h.expressions_eq] at hname
  obtain ⟨⟨name', raw⟩, he, rfl⟩ := List.mem_map.1 hname
  obtain ⟨he, hcandidate⟩ := List.mem_filter.1 he
  simp only [Bool.and_eq_true] at hcandidate
  obtain ⟨hcandidate, hbinding⟩ := hcandidate
  cases raw with
  | string s =>
    obtain ⟨text, htext⟩ := Option.isSome_iff_exists.1 (show (bindingText? s).isSome = true from hbinding)
    exact ⟨s, text, he, htext, hcandidate⟩
  | _ => cases hbinding

end Brick

/-- A marked property other than the children becomes a property by itself where nothing is marked. -/
theorem isDynamicCandidate_eq {name : String} (h : isDynamicCandidate name = true) (hne : name ≠ "children") :
    isMetaField name = false ∧ isHandlerName name = false ∧ name ≠ "id" ∧ name ≠ "form" := by
  simp only [isDynamicCandidate, Bool.or_eq_true, beq_iff_eq, hne, false_or, Bool.and_eq_true,
    Bool.not_eq_true', bne_iff_ne] at h
  obtain ⟨⟨⟨hmeta, hhandler⟩, hid⟩, hform⟩ := h
  exact ⟨hmeta, hhandler, hid, hform⟩

end LiveLayout
