import LiveLayout.Proofs.Unmarked.Brick
import LiveLayout.Proofs.Drawing.Sketch
/-!
The properties of a brick whose expressions are marked are those that it has with the expressions in place, as long as
no marked property shares its name with anything else.
-/
namespace LiveLayout

namespace Scene

variable {sc : Scene} {layers : Layers} {b : Brick} {typeName : String} {target : Target}

/-! ### Marked properties -/

/-- A marked property with its syntax tree. -/
def dynamic (e : String × String) : Dynamic := ⟨e.1, e.2, (Expr.parse e.2).toOption⟩

@[simp] theorem dynamic_name (e : String × String) : (dynamic e).name = e.1 := rfl

theorem parsed_fst (entries : List (String × String)) : (parsed entries).1 = entries.map dynamic := by
  have hfold (done : List Dynamic × List String) :
      (entries.foldl parse done).1 = done.1 ++ entries.map dynamic := by
    induction entries generalizing done with
    | nil => simp
    | cons e rest ih =>
      rw [List.foldl_cons, ih, parse]
      cases hp : Expr.parse e.2 <;> simp [dynamic, hp, Except.toOption]
  simpa [parsed_eq] using hfold ([], [])

theorem current?_dynamic (sc : Scene) (layers : Layers) (e : String × String) :
    sc.current? layers (dynamic e) = sc.evaluateText? layers e.2 := rfl

theorem inline?_of_binding {s text : String} (h : bindingText? s = some text) :
    sc.inline? layers s = sc.evaluateText? layers text := by
  unfold inline?
  rw [h]

theorem renders_eq (h : sc.target? typeName = some target) :
    sc.renders typeName target = sc.registry.rendersLayouts typeName := by
  unfold renders Registry.rendersLayouts
  unfold target? at h
  cases hspecial : Special.ofName? typeName with
  | some kind =>
    rw [hspecial] at h
    cases h
    rfl
  | none =>
    rw [hspecial] at h
    cases hresolve : sc.registry.resolve? typeName with
    | some brickType =>
      rw [hresolve] at h
      cases h
      rfl
    | none =>
      rw [hresolve] at h
      dsimp only at h
      split at h
      · cases h
        rfl
      · cases h

/-! ### Properties, one entry after the other -/

/-- One entry of a brick that becomes a property by itself, unless it is left to others. -/
def setOwn (sc : Scene) (layers : Layers) (typeName : String) (marks : List String) (props : Props)
    (e : String × Json) : Props :=
  if sc.skips typeName marks e.1 then props
  else match sc.property? layers e.1 e.2 with
    | some p => props.insert (Renderer.rename sc.config e.1) p
    | none => props

theorem ownProps_eq (sc : Scene) (layers : Layers) (b : Brick) (typeName : String) (marks : List String) :
    sc.ownProps layers b typeName marks = b.props.foldl (sc.setOwn layers typeName marks) [] := by
  unfold ownProps
  rw [List.foldl_filter]
  congr 1
  funext props e
  unfold setOwn
  cases sc.skips typeName marks e.1 <;> rfl

/-- One marked entry of a brick that becomes a property. -/
def setMarked (sc : Scene) (layers : Layers) (marks : List String) (props : Props) (e : String × Json) :
    Props :=
  if marks.contains e.1 && Renderer.rename sc.config e.1 != "children" then
    match e.2.str?.bind bindingText? with
    | some text =>
      match sc.evaluateText? layers text with
      | some v => props.insert (Renderer.rename sc.config e.1) (.value v)
      | none => Fields.erase props (Renderer.rename sc.config e.1)
    | none => props
  else props

theorem proxyProps_eq (sc : Scene) (layers : Layers) (b : Brick) (typeName : String) (target : Target) :
    sc.proxyProps layers (sc.proxy layers b typeName target) =
      b.fields.foldl (sc.setMarked layers b.expressions) (sc.outfit layers b typeName target b.expressions) := by
  have hdynamic : (sc.proxy layers b typeName target).dynamic =
      (Renderer.marked sc.config b b.expressions).map dynamic := parsed_fst _
  unfold proxyProps
  rw [hdynamic, List.filter_map, List.foldl_map, List.foldl_filter, Renderer.marked, List.foldl_filterMap,
    List.foldl_filter]
  congr 1
  funext props e
  unfold setMarked
  cases b.expressions.contains e.1 with
  | false => rfl
  | true =>
    cases e.2.str?.bind bindingText? with
    | none => simp
    | some text =>
      have hcurrent := sc.current?_dynamic layers (Renderer.rename sc.config e.1, text)
      by_cases hname : Renderer.rename sc.config e.1 = "children"
      · simp [hname]
      · cases hvalue : sc.evaluateText? layers text <;> simp [hname, hcurrent, hvalue]

/-! ### What an entry leaves alone -/

theorem skips_eq_hooks (sc : Scene) (typeName : String) (marks : List String) (name : String) :
    sc.skips typeName marks name =
      (name == "id" || name == "form" || marks.contains name || sc.registry.hooks typeName name) := by
  simp [skips, Registry.hooks, Bool.or_assoc]

theorem get?_setOwn_of_ne {marks : List String} {e : String × Json} {x : String}
    (h : sc.skips typeName marks e.1 = false → Renderer.rename sc.config e.1 ≠ x) (props : Props) :
    Fields.get? (sc.setOwn layers typeName marks props e) x = Fields.get? props x := by
  unfold setOwn
  split
  · rfl
  · rename_i hskip
    split
    · rw [Props.insert, Fields.get?_insertSorted, if_neg (h (Bool.eq_false_iff.2 hskip)).symm]
    · rfl

theorem get?_setMarked_of_ne {marks : List String} {e : String × Json} {x : String}
    (h : e.1 ∈ marks → Renderer.rename sc.config e.1 ≠ "children" → Renderer.rename sc.config e.1 ≠ x)
    (props : Props) : Fields.get? (sc.setMarked layers marks props e) x = Fields.get? props x := by
  unfold setMarked
  split
  · rename_i hmarked
    simp only [Bool.and_eq_true, List.contains_iff_mem, bne_iff_ne] at hmarked
    have hne := h hmarked.1 hmarked.2
    split
    · split
      · rw [Props.insert, Fields.get?_insertSorted, if_neg hne.symm]
      · exact Fields.get?_erase_of_ne _ hne.symm
    · rfl
  · rfl

/-- The handlers of forms are the same whatever the other properties are. -/
theorem get?_wire_congr {p q : Props} {x : String} (h : Fields.get? p x = Fields.get? q x) :
    Fields.get? (sc.wire b typeName p) x = Fields.get? (sc.wire b typeName q) x := by
  have insert (m n : Props) (name : String) (v : Property) (h : Fields.get? m x = Fields.get? n x) :
      Fields.get? (m.insert name v) x = Fields.get? (n.insert name v) x := by
    rw [Props.insert, Props.insert, Fields.get?_insertSorted, Fields.get?_insertSorted, h]
  have field (hooks : List (String × HookArgument)) :
      Fields.get? (wireField b hooks p) x = Fields.get? (wireField b hooks q) x := by
    unfold wireField
    split
    · exact h
    · exact Fields.get?_foldl_congr (fun m n hook _ hmn => insert m n hook.1 _ hmn) h
  have container (hooks : List String) {m n : Props} (h : Fields.get? m x = Fields.get? n x) :
      Fields.get? (sc.wireContainer b hooks m) x = Fields.get? (sc.wireContainer b hooks n) x := by
    refine Fields.get?_foldl_congr (fun m n hook _ hmn => ?_) h
    split
    · exact insert m n hook _ hmn
    · exact hmn
  unfold wire
  cases sc.registry.field? typeName with
  | none =>
    cases sc.registry.container? typeName with
    | none => exact h
    | some hooks => exact container hooks h
  | some fieldHooks =>
    cases sc.registry.container? typeName with
    | none => exact field fieldHooks
    | some hooks => exact container hooks (field fieldHooks)

theorem get?_wire_of_not_hook {x : String} (hx : sc.registry.hooks typeName x = false) (p : Props) :
    Fields.get? (sc.wire b typeName p) x = Fields.get? p x := by
  simp only [Registry.hooks, Bool.or_eq_false_iff, Option.any_eq_false] at hx
  obtain ⟨hfield, hcontainer⟩ := hx
  have field (hooks : List (String × HookArgument)) (h : sc.registry.field? typeName = some hooks) (p : Props) :
      Fields.get? (wireField b hooks p) x = Fields.get? p x := by
    unfold wireField
    split
    · rfl
    · refine Fields.get?_foldl_of_untouched (fun m hook hmem => ?_) p
      rw [Props.insert, Fields.get?_insertSorted, if_neg]
      rintro rfl
      have hnot := hfield hooks h
      rw [Fields.has_eq_true_iff.2 (List.mem_map_of_mem hmem)] at hnot
      cases hnot
  have container (hooks : List String) (h : sc.registry.container? typeName = some hooks) (p : Props) :
      Fields.get? (sc.wireContainer b hooks p) x = Fields.get? p x := by
    refine Fields.get?_foldl_of_untouched (fun m hook hmem => ?_) p
    split
    · rw [Props.insert, Fields.get?_insertSorted, if_neg]
      rintro rfl
      exact absurd (hcontainer hooks h) (by simpa using hmem)
    · rfl
  unfold wire
  cases hf : sc.registry.field? typeName with
  | none =>
    cases hc : sc.registry.container? typeName with
    | none => rfl
    | some hooks => exact container hooks hc p
  | some fieldHooks =>
    cases hc : sc.registry.container? typeName with
    | none => exact field fieldHooks hf p
    | some hooks => exact (container hooks hc _).trans (field fieldHooks hf p)

theorem wire_unmarked (h : b.Annotated) (hfields : (b.fields.map (·.1)).Nodup) (p : Props) :
    sc.wire b.unmarked typeName p = sc.wire b typeName p := by
  simp only [wire, wireField, wireContainer, Brick.name?_unmarked, Brick.id?_unmarked, h.str?_unmarked hfields]

theorem get?_outfit (sc : Scene) (layers : Layers) (b : Brick) (typeName : String) (target : Target)
    (marks : List String) (x : String) :
    Fields.get? (sc.outfit layers b typeName target marks) x =
      if sc.renders typeName target = true ∧ x = Props.renderingName then some (.rendering .echoed)
      else Fields.get? (sc.fixedProps layers b typeName marks) x := by
  unfold outfit
  by_cases hrenders : sc.renders typeName target = true
  · rw [if_pos hrenders, Props.insert, Fields.get?_insertSorted]
    simp [hrenders]
  · rw [if_neg hrenders, if_neg fun h => hrenders h.1]

theorem sorted_outfit (sc : Scene) (layers : Layers) (b : Brick) (typeName : String) (target : Target)
    (marks : List String) : Fields.Sorted (sc.outfit layers b typeName target marks) := by
  have hown : Fields.Sorted (sc.ownProps layers b typeName marks) := by
    refine Fields.Sorted.foldl (fun m e _ hm => ?_) .nil
    split
    · exact hm.insertSorted _ _
    · exact hm
  have field (hooks : List (String × HookArgument)) {p : Props} (hp : Fields.Sorted p) :
      Fields.Sorted (wireField b hooks p) := by
    unfold wireField
    split
    · exact hp
    · exact Fields.Sorted.foldl (fun m hook _ hm => hm.insertSorted _ _) hp
  have container (hooks : List String) {p : Props} (hp : Fields.Sorted p) :
      Fields.Sorted (sc.wireContainer b hooks p) := by
    refine Fields.Sorted.foldl (fun m hook _ hm => ?_) hp
    split
    · exact hm.insertSorted _ _
    · exact hm
  have hfixed : Fields.Sorted (sc.fixedProps layers b typeName marks) := by
    unfold fixedProps wire
    cases sc.registry.field? typeName with
    | none =>
      cases sc.registry.container? typeName with
      | none => exact hown
      | some hooks => exact container hooks hown
    | some fieldHooks =>
      cases sc.registry.container? typeName with
      | none => exact field fieldHooks hown
      | some hooks => exact container hooks (field fieldHooks hown)
  unfold outfit
  split
  · exact hfixed.insertSorted _ _
  · exact hfixed

/-! ### The properties, marked or in place -/

/-- The marks of a brick are those of its expressions, and no other entry is taken for the children. -/
structure Legible (sc : Scene) (b : Brick) : Prop where
  fields : (b.fields.map (·.1)).Nodup
  annotated : b.Annotated
  classAttribute : sc.config.classAttribute ≠ "children"

theorem Legible.rename_ne_children (h : sc.Legible b) {name : String} (hname : name ≠ "children") :
    Renderer.rename sc.config name ≠ "children" := by
  unfold Renderer.rename
  split
  · exact h.classAttribute
  · exact hname

/-- What a marked property has in common with one whose expression is in place. -/
structure Inlines (sc : Scene) (b : Brick) (typeName : String) : Prop where
  fields : (b.fields.map (·.1)).Nodup
  annotated : b.Annotated
  distinct : b.Distinct sc.registry sc.config typeName
  hookless : b.Hookless sc.registry typeName
  classAttribute : sc.config.classAttribute ≠ "children"

namespace Inlines

variable (h : sc.Inlines b typeName)

include h

theorem legible : sc.Legible b := ⟨h.fields, h.annotated, h.classAttribute⟩

/-- No other entry becomes a property of the name of a marked one. -/
theorem rename_ne {name : String} (hname : name ∈ b.expressions) (hne : name ≠ "children")
    {e : String × Json} (he : e ∈ b.props) (hother : e.1 ≠ name) (marks : List String)
    (hskip : sc.skips typeName marks e.1 = false) :
    Renderer.rename sc.config e.1 ≠ Renderer.rename sc.config name := by
  simp only [skips_eq_hooks, Bool.or_eq_false_iff, beq_eq_false_iff_ne] at hskip
  obtain ⟨⟨⟨hid, hform⟩, -⟩, hhook⟩ := hskip
  exact (h.distinct name hname hne).entries e he hother hid hform hhook

/-- A marked property has the value of its expression, be that marked or in place. -/
theorem get?_of_marked {name : String} (hname : name ∈ b.expressions) (hne : name ≠ "children")
    (ht : sc.target? typeName = some target) :
    Fields.get? (sc.proxyProps layers (sc.proxy layers b typeName target)) (Renderer.rename sc.config name) =
      Fields.get? (sc.outfit layers b.unmarked typeName target []) (Renderer.rename sc.config name) := by
  obtain ⟨s, text, hmem, htext, hcandidate⟩ := h.annotated.of_mem hname
  obtain ⟨hmeta, hhandler, hid, hform⟩ := isDynamicCandidate_eq hcandidate hne
  have halone := h.distinct name hname hne
  have hhook := h.hookless name hname hne
  have hprop : (name, .string s) ∈ b.props := List.mem_filter.2 ⟨hmem, by simp [hmeta]⟩
  have hnames : (b.props.map (·.1)).Nodup := h.fields.sublist (List.filter_sublist.map _)
  have hrendering : ¬(sc.renders typeName target = true ∧
      Renderer.rename sc.config name = Props.renderingName) := by
    rw [renders_eq ht]
    exact fun ⟨hrenders, heq⟩ => halone.rendering hrenders heq
  -- Where it is marked, only its own expression touches it.
  have hmarked : Fields.get? (sc.proxyProps layers (sc.proxy layers b typeName target))
      (Renderer.rename sc.config name) = (sc.evaluateText? layers text).map .value := by
    have hstart : Fields.get? (sc.outfit layers b typeName target b.expressions)
        (Renderer.rename sc.config name) = none := by
      rw [get?_outfit, if_neg hrendering, fixedProps, get?_wire_of_not_hook halone.hooks, ownProps_eq]
      refine Fields.get?_foldl_of_untouched (fun m e he => get?_setOwn_of_ne (fun hskip => ?_) m) []
      refine h.rename_ne hname hne he (fun heq => ?_) _ hskip
      simp [skips, heq, hname] at hskip
    obtain ⟨before, after, hfields⟩ := List.append_of_mem hmem
    have hnodup := h.fields
    rw [proxyProps_eq]
    rw [hfields] at hnodup ⊢
    refine Fields.get?_foldl_of_touched (fun m hm => ?_) (fun m e he => ?_) hstart
    · simp only [setMarked, List.contains_iff_mem.2 hname, h.legible.rename_ne_children hne, bne_iff_ne, ne_eq,
        not_false_eq_true, Bool.true_and, if_true, Json.str?, Option.bind_some, htext]
      cases sc.evaluateText? layers text with
      | none => rw [Fields.erase_of_get?_eq_none hm, hm]; rfl
      | some v => simp [Props.insert, Fields.get?_insertSorted]
    · refine get?_setMarked_of_ne (fun hmarked hchildren => ?_) m
      have hother := Fields.ne_of_nodup hnodup e he
      have hne' : e.1 ≠ "children" := fun heq => hchildren (by rw [heq]; rfl)
      obtain ⟨_, _, -, -, hcandidate'⟩ := h.annotated.of_mem hmarked
      obtain ⟨hmeta', -, hid', hform'⟩ := isDynamicCandidate_eq hcandidate' hne'
      have he' : e ∈ b.fields := by
        rw [hfields]
        exact ((List.sublist_cons_self ..).append_left before).subset he
      exact halone.entries e (List.mem_filter.2 ⟨he', by simp [hmeta']⟩) hother hid' hform'
        (h.hookless e.1 hmarked hne')
  rw [hmarked, get?_outfit, if_neg hrendering, fixedProps, get?_wire_of_not_hook halone.hooks, ownProps_eq,
    Brick.props_unmarked]
  obtain ⟨before, after, hprops⟩ := List.append_of_mem hprop
  rw [hprops] at hnames ⊢
  refine (Fields.get?_foldl_of_touched (fun m hm => ?_) (fun m e he => ?_) rfl).symm
  · have hskip : sc.skips typeName [] name = false := by simp [skips_eq_hooks, hid, hform, hhook]
    simp only [setOwn, hskip, property?, hhandler, inline?_of_binding htext, Bool.false_eq_true, if_false]
    cases sc.evaluateText? layers text with
    | none => exact hm
    | some v => simp [Props.insert, Fields.get?_insertSorted]
  · refine get?_setOwn_of_ne (fun hskip => ?_) m
    refine h.rename_ne hname hne ?_ (Fields.ne_of_nodup hnames e he) _ hskip
    rw [hprops]
    exact ((List.sublist_cons_self ..).append_left before).subset he

/-- All other properties do not depend on what is marked. -/
theorem get?_of_not_marked {x : String}
    (hx : ∀ name ∈ b.expressions, name ≠ "children" → Renderer.rename sc.config name ≠ x) :
    Fields.get? (sc.proxyProps layers (sc.proxy layers b typeName target)) x =
      Fields.get? (sc.outfit layers b.unmarked typeName target []) x := by
  have hown : Fields.get? (sc.ownProps layers b typeName b.expressions) x =
      Fields.get? (sc.ownProps layers b.unmarked typeName []) x := by
    rw [ownProps_eq, ownProps_eq, Brick.props_unmarked]
    refine Fields.get?_foldl_congr (fun m n e he hmn => ?_) rfl
    by_cases hmarked : e.1 ∈ b.expressions
    · have hne : e.1 ≠ "children" := by
        intro heq
        have hmeta := (List.mem_filter.1 he).2
        rw [heq] at hmeta
        cases hmeta
      rw [get?_setOwn_of_ne fun _ => hx e.1 hmarked hne, get?_setOwn_of_ne fun _ => hx e.1 hmarked hne, hmn]
    · have hskips : sc.skips typeName b.expressions e.1 = sc.skips typeName [] e.1 := by
        simp [skips, hmarked]
      unfold setOwn
      rw [hskips]
      split
      · exact hmn
      · split
        · rw [Props.insert, Props.insert, Fields.get?_insertSorted, Fields.get?_insertSorted, hmn]
        · exact hmn
  rw [proxyProps_eq, Fields.get?_foldl_of_untouched fun m e _ => get?_setMarked_of_ne (fun hmarked hchildren =>
    hx e.1 hmarked fun heq => hchildren (by rw [heq]; rfl)) m, get?_outfit, get?_outfit, fixedProps, fixedProps,
    wire_unmarked h.annotated h.fields, get?_wire_congr hown]

/-- A proxy gives its brick the properties that the brick has with its expressions in place. -/
theorem proxyProps_eq_outfit (ht : sc.target? typeName = some target) :
    sc.proxyProps layers (sc.proxy layers b typeName target) = sc.outfit layers b.unmarked typeName target [] := by
  have hsorted : Fields.Sorted (sc.proxyProps layers (sc.proxy layers b typeName target)) := by
    rw [proxyProps_eq]
    refine Fields.Sorted.foldl (fun m e _ hm => ?_) (sc.sorted_outfit layers b typeName target b.expressions)
    unfold setMarked
    split
    · split
      · split
        · exact hm.insertSorted _ _
        · exact hm.erase _
      · exact hm
    · exact hm
  refine hsorted.ext (sc.sorted_outfit layers b.unmarked typeName target []) fun x => ?_
  by_cases hx : ∃ name ∈ b.expressions, name ≠ "children" ∧ Renderer.rename sc.config name = x
  · obtain ⟨name, hname, hne, rfl⟩ := hx
    exact h.get?_of_marked hname hne ht
  · exact h.get?_of_not_marked fun name hname hne heq => hx ⟨name, hname, hne, heq⟩

end Inlines
end Scene
end LiveLayout
