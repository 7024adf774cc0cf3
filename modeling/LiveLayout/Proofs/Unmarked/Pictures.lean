import LiveLayout.Proofs.Unmarked.Props
import LiveLayout.Proofs.Mounting.Shown
/-!
A brick whose expressions are marked shows what it shows with the expressions in place.
-/
namespace LiveLayout.Scene

variable {sc : Scene} {layers : Layers} {b : Brick} {typeName : String} {target : Target}

/-! ### The children -/

namespace Legible

variable (h : sc.Legible b)

include h

/-- Marked children are followed by their expression; others are no expression. -/
theorem children_cases (layers : Layers) (typeName : String) (target : Target) :
    (∃ s text, b.children? = some (.string s) ∧ bindingText? s = some text ∧
      (sc.proxy layers b typeName target).dynamic.find? (·.name = "children") =
        some (dynamic ("children", text))) ∨
    ((∀ s, b.children? = some (.string s) → isBinding s = false) ∧
      (sc.proxy layers b typeName target).dynamic.find? (·.name = "children") = none) := by
  have hdynamic : (sc.proxy layers b typeName target).dynamic =
      (Renderer.marked sc.config b b.expressions).map dynamic := parsed_fst _
  have hentry : ∀ e ∈ Renderer.marked sc.config b b.expressions, e.1 = "children" →
      ∃ s, ("children", .string s) ∈ b.fields ∧ "children" ∈ b.expressions ∧ bindingText? s = some e.2 := by
    intro e he hname
    obtain ⟨⟨name, raw⟩, hmem, he⟩ := List.mem_filterMap.1 he
    obtain ⟨hmem, hmarked⟩ := List.mem_filter.1 hmem
    obtain ⟨text, htext, rfl⟩ := Option.map_eq_some_iff.1 he
    obtain rfl : name = "children" := by
      by_contra hne
      exact h.rename_ne_children hne hname
    obtain ⟨s, hs, htext⟩ := Option.bind_eq_some_iff.1 htext
    cases raw <;> cases hs
    exact ⟨s, hmem, by simpa using hmarked, htext⟩
  rw [hdynamic]
  by_cases hmarked : "children" ∈ b.expressions
  · left
    obtain ⟨s, text, hmem, htext, -⟩ := h.annotated.of_mem hmarked
    have hchildren : b.children? = some (.string s) := Fields.get?_of_mem h.fields hmem
    refine ⟨s, text, hchildren, htext, ?_⟩
    have hthere : ("children", text) ∈ Renderer.marked sc.config b b.expressions := by
      refine List.mem_filterMap.2 ⟨("children", .string s), List.mem_filter.2 ⟨hmem, ?_⟩, ?_⟩
      · simpa using hmarked
      · simp [Json.str?, htext, Renderer.rename]
    cases hfind : ((Renderer.marked sc.config b b.expressions).map dynamic).find? (·.name = "children") with
    | none =>
      have hno := List.find?_eq_none.1 hfind _ (List.mem_map_of_mem hthere)
      simp [dynamic] at hno
    | some d =>
      obtain ⟨e, he, rfl⟩ := List.mem_map.1 (List.mem_of_find?_eq_some hfind)
      have hfound := List.find?_some hfind
      have hname : e.1 = "children" := of_decide_eq_true hfound
      obtain ⟨s', hs', -, htext'⟩ := hentry e he hname
      have hsame := (Fields.get?_of_mem h.fields hs').symm.trans hchildren
      cases hsame
      obtain rfl := Option.some.inj (htext'.symm.trans htext)
      rw [← hname]
  · right
    refine ⟨fun s hs => ?_, List.find?_eq_none.2 fun d hd => ?_⟩
    · by_contra hbinding
      refine hmarked (h.annotated.expressions_eq ▸ List.mem_map.2 ⟨("children", .string s), ?_, rfl⟩)
      exact List.mem_filter.2 ⟨Fields.mem_of_get? hs, by simpa [isDynamicCandidate, Json.str?] using hbinding⟩
    · obtain ⟨e, he, rfl⟩ := List.mem_map.1 hd
      intro hname
      obtain ⟨_, -, hthere, -⟩ := hentry e he (of_decide_eq_true hname)
      exact hmarked hthere

/-- A proxy renders the children that its brick has with the expressions in place. -/
theorem kids_defines (depth : Nat) (typeName : String) (target : Target) :
    Defines (sc.proxyKids (sc.upTo depth) layers (sc.proxy layers b typeName target))
      (sc.children (sc.upTo depth) layers b.children?) := by
  have hkids : (sc.proxy layers b typeName target).children = b.children? := rfl
  unfold proxyKids
  rw [hkids]
  rcases h.children_cases layers typeName target with ⟨s, text, hs, htext, hfind⟩ | ⟨hplain, hfind⟩
  · rw [hfind, hs]
    exact .of_eq (by simp only [children, inline?_of_binding htext, current?_dynamic])
  · rw [hfind]
    cases hc : b.children? with
    | none => exact .refl _
    | some v =>
      cases v with
      | null => cases depth <;> first | exact .none | exact .refl _
      | string s =>
        simp only [children, inline_of_not_binding (hplain s hc)]
        cases depth <;> first | exact .none | exact .refl _
      | _ => exact .refl _

theorem kids_defined (depth : Nat) (typeName : String) (target : Target) :
    Defines (sc.children (sc.upTo depth) layers b.children?)
      (sc.proxyKids (sc.upTo (depth + 1)) layers (sc.proxy layers b typeName target)) := by
  have hkids : (sc.proxy layers b typeName target).children = b.children? := rfl
  have hdeeper : ArtistLe (sc.upTo depth) (sc.upTo (depth + 1)) := upTo_le (.refl sc) (Nat.le_succ depth)
  unfold proxyKids
  rw [hkids]
  rcases h.children_cases layers typeName target with ⟨s, text, hs, htext, hfind⟩ | ⟨hplain, hfind⟩
  · rw [hfind, hs]
    simp only [children, inline?_of_binding htext, current?_dynamic]
    cases sc.evaluateText? layers text with
    | none => exact .refl _
    | some v => exact content_le hdeeper layers v
  · rw [hfind]
    cases hc : b.children? with
    | none => exact .refl _
    | some v =>
      cases v with
      | null => exact .refl _
      | string s =>
        simp only [children, inline_of_not_binding (hplain s hc)]
        exact .refl _
      | bool x => exact tree_le hdeeper layers (.bool x)
      | number x => exact tree_le hdeeper layers (.number x)
      | array items => exact tree_le hdeeper layers (.array items)
      | object fields => exact tree_le hdeeper layers (.object fields)

end Legible

/-! ### The whole brick -/

namespace Inlines

variable (h : sc.Inlines b typeName)

include h

theorem brick_unmarked (render : Artist) (ht : sc.target? typeName = some target) :
    sc.brick render layers b.unmarked typeName target =
      ((sc.children render layers b.children?).bind fun nodes =>
        (sc.build render target layers (sc.proxyProps layers (sc.proxy layers b typeName target)) nodes).bind
          fun node => some (node.withKey? b.id?)) := by
  rw [h.proxyProps_eq_outfit ht]
  unfold brick
  rw [Brick.expressions_unmarked h.fields, Brick.children?_unmarked, Brick.id?_unmarked]
  rfl

theorem node_defines (depth : Nat) (ht : sc.target? typeName = some target) :
    Defines (sc.proxyNode (sc.upTo depth) layers (sc.proxy layers b typeName target))
      (sc.brick (sc.upTo depth) layers b.unmarked typeName target) := by
  rw [h.brick_unmarked _ ht]
  exact (h.legible.kids_defines depth typeName target).bind fun _ => .refl _

theorem node_defined (depth : Nat) (ht : sc.target? typeName = some target) :
    Defines (sc.brick (sc.upTo depth) layers b.unmarked typeName target)
      (sc.proxyNode (sc.upTo (depth + 1)) layers (sc.proxy layers b typeName target)) := by
  rw [h.brick_unmarked _ ht]
  refine (h.legible.kids_defined depth typeName target).bind fun nodes => .bind ?_ fun _ => .refl _
  exact build_le (.refl sc) (upTo_le (.refl sc) (Nat.le_succ depth)) target layers _ nodes

end Inlines

/-- What pictures show, and what was sent on the way. -/
def report (ps : List Picture) : List Json × List Request := (Picture.toJsonAll ps, Picture.sentAll ps)

/-- What a proxy shows is what its node does. -/
theorem report_component (q : Picture) : report [.component none [q]] = report [q] := by
  simp [report, Picture.toJsonAll, Picture.flattenAll, Picture.flatten, Picture.sentAll, Picture.sent]

theorem pictures_object (hallowed : sc.allowed = fun _ => true) (htype : b.typeName? = some typeName)
    (ht : sc.target? typeName = some target) (depth : Nat) :
    sc.pictures (depth + 1) layers (.object b.fields) =
      (sc.brick (sc.upTo depth) layers b typeName target).bind fun k => (sc.picture (depth + 1) k).map ([·]) := by
  obtain ⟨fields⟩ := b
  simp only [pictures, tree, upTo, node, htype, ht, hallowed, if_true]
  cases sc.brick (sc.upTo depth) layers ⟨fields⟩ typeName target with
  | none => rfl
  | some k =>
    simp only [Option.map_some, Option.toList, Option.bind_eq_bind, Option.bind_some, List.mapM_cons, List.mapM_nil]
    cases sc.picture (depth + 1) k <;> rfl

/-- Without a known type, nothing is shown. -/
theorem pictures_of_unknown (h : b.typeName?.bind sc.target? = none) (depth : Nat) :
    sc.pictures (depth + 1) layers (.object b.fields) = some [] := by
  obtain ⟨fields⟩ := b
  simp only [pictures, tree, upTo, node]
  cases htype : (Brick.mk fields).typeName? with
  | none => rfl
  | some typeName =>
    rw [htype, Option.bind_some] at h
    simp only [h]
    rfl

theorem picture_proxy (depth : Nat) (key : Option String) (p : Proxy) :
    (sc.picture (depth + 1) (.component key layers (.proxy p))).map ([·]) =
      (sc.proxyNode (sc.upTo depth) layers p).bind fun k =>
        (sc.picture depth k).map fun q => [.component none [q]] := by
  simp only [picture, component, sent?]
  cases sc.proxyNode (sc.upTo depth) layers p with
  | none => rfl
  | some k =>
    simp only [Option.map_some, Option.bind_eq_bind, Option.bind_some, List.mapM_cons, List.mapM_nil]
    cases sc.picture depth k <;> rfl

/-- With its expressions marked, a brick shows and sends what it does with them in place. A proxy takes one
level more. -/
theorem report_defines (hallowed : sc.allowed = fun _ => true)
    (h : ∀ typeName, b.typeName? = some typeName → (sc.target? typeName).isSome = true → sc.Inlines b typeName)
    (layers : Layers) (depth : Nat) :
    Defines ((sc.pictures depth layers (.object b.fields)).map report)
        ((sc.pictures depth layers (.object b.unmarked.fields)).map report) ∧
      Defines ((sc.pictures depth layers (.object b.unmarked.fields)).map report)
        ((sc.pictures (depth + 1) layers (.object b.fields)).map report) := by
  cases depth with
  | zero => exact ⟨.none, .none⟩
  | succ depth =>
    cases hknown : b.typeName?.bind sc.target? with
    | none =>
      have hunmarked : b.unmarked.typeName?.bind sc.target? = none := by rw [b.typeName?_unmarked, hknown]
      rw [pictures_of_unknown hknown, pictures_of_unknown hknown, pictures_of_unknown hunmarked]
      exact ⟨.refl _, .refl _⟩
    | some target =>
      obtain ⟨typeName, htype, ht⟩ := Option.bind_eq_some_iff.1 hknown
      have hb := h typeName htype (by rw [ht]; rfl)
      cases hmarks : b.expressions with
      | nil =>
        rw [Brick.unmarked_eq_self hb.annotated hmarks]
        exact ⟨.refl _, (pictures_le (.refl sc) rfl (Nat.le_succ _) layers _).map _⟩
      | cons mark marks =>
        have hbrick (depth : Nat) : sc.brick (sc.upTo depth) layers b typeName target =
            some (.component b.id? layers (.proxy (sc.proxy layers b typeName target))) := by
          unfold brick
          rw [hmarks]
          rfl
        have hmarked (depth : Nat) : sc.pictures (depth + 1) layers (.object b.fields) =
            (sc.proxyNode (sc.upTo depth) layers (sc.proxy layers b typeName target)).bind fun k =>
              (sc.picture depth k).map fun q => [.component none [q]] := by
          rw [pictures_object hallowed htype ht, hbrick, Option.bind_some, picture_proxy]
        have hplain : sc.pictures (depth + 1) layers (.object b.unmarked.fields) = _ :=
          pictures_object hallowed ((b.typeName?_unmarked).trans htype) ht depth
        rw [hmarked, hmarked, hplain]
        simp only [Option.map_bind, Function.comp_def, Option.map_map, report_component]
        exact ⟨(hb.node_defines depth ht).bind fun k =>
            (picture_le (.refl sc) rfl (Nat.le_succ depth) k).map _,
          (hb.node_defined depth ht).bind fun _ => .refl _⟩

end LiveLayout.Scene
