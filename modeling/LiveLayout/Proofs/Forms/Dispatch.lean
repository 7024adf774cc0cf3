import LiveLayout.App
import LiveLayout.Proofs.Annotating.Visits
import LiveLayout.Proofs.Forms.Wiring
/-!
What a call of a hook of a form field comes to, from the annotation of the field to the write.
-/
namespace LiveLayout

open Engine Renderer

namespace Annotate

variable {registry : Registry} {options : Options} {form : Option String} {fields fields' : List (String × Json)}
  {typeName id : String}

/-- A field is kept below its own form, if it names one, or else below the form around it. -/
theorem Annotated.fieldPath_eq (h : Annotated registry options typeName form fields fields')
    (hfield : (registry.field? typeName).isSome = true) (name : String) :
    Form.fieldPath (Brick.mk fields').form? name =
      Form.fieldPath (((Brick.mk fields).form?.filter (· ≠ "")).or form) name := by
  have hkept (hstamp : stamp? registry typeName fields form = none) :
      (Brick.mk fields').form? = (Brick.mk fields).form? := by
    refine form?_congr (h.texts _ ?_)
    rw [hstamp]
    simp [own]
  cases htakes : takesForm registry typeName fields with
  | false =>
    have hstamp : stamp? registry typeName fields form = none := by simp [stamp?, htakes]
    rw [hkept hstamp]
    cases hform : (Brick.mk fields).form? with
    | none => simp [takesForm, hfield, hform] at htakes
    | some own =>
      have hown : own ≠ "" := by simpa [takesForm, hfield, hform] using htakes
      have hfilter : (some own).filter (· ≠ "") = some own := by simp [Option.filter, hown]
      rw [hfilter, Option.some_or]
  | true =>
    have hnone : (Brick.mk fields).form?.filter (· ≠ "") = none := by
      cases hform : (Brick.mk fields).form? with
      | none => rfl
      | some own => simpa [takesForm, hfield, hform] using htakes
    rw [hnone, Option.none_or]
    cases form with
    | some around =>
      have hstamped := h.stamped around (by simp [stamp?, htakes])
      unfold Brick.form? Brick.get?
      rw [hstamped]
      rfl
    | none =>
      rw [hkept (by simp [stamp?])]
      cases hform : (Brick.mk fields).form? with
      | none => rfl
      | some own =>
        have hempty : own = "" := by simpa [hform] using hnone
        rw [hempty]
        rfl

/-- The marks of an annotated brick are those of its texts in braces. -/
theorem Annotated.marked_iff (h : Annotated registry options typeName form fields fields') (config : Config)
    (hook : String) : hook ∈ (marked config ⟨fields'⟩ (Brick.mk fields').expressions).map (·.1) ↔
      ∃ name text, (name, .string text) ∈ fields' ∧ isDynamicCandidate name = true ∧ isBinding text = true ∧
        rename config name = hook := by
  have hmarks : (Brick.mk fields').expressions = expressionNames fields' := marked_of_marks h.marks
  rw [hmarks]
  simp only [marked, expressionNames, List.mem_map, List.mem_filterMap, List.mem_filter, List.contains_iff_mem,
    Bool.and_eq_true]
  constructor
  · rintro ⟨_, ⟨⟨name, v⟩, ⟨hmem, ⟨name', v'⟩, ⟨-, hcandidate, -⟩, rfl⟩, hentry⟩, rfl⟩
    obtain ⟨text, htext, rfl⟩ := Option.map_eq_some_iff.1 hentry
    obtain ⟨raw, hraw, hbinding⟩ := Option.bind_eq_some_iff.1 htext
    cases v with
    | string s =>
      obtain rfl : s = raw := Option.some.inj hraw
      exact ⟨name', s, hmem, hcandidate, by rw [isBinding, hbinding]; rfl, rfl⟩
    | _ => cases hraw
  · rintro ⟨name, text, hmem, hcandidate, hbinding, rfl⟩
    obtain ⟨expression, htext⟩ := Option.isSome_iff_exists.1 hbinding
    refine ⟨(rename config name, expression), ⟨(name, .string text), ⟨hmem, (name, .string text), ⟨hmem, hcandidate, hbinding⟩, rfl⟩, ?_⟩, rfl⟩
    simp [Json.str?, htext]

end Annotate

/-- A text in braces stands in the brick for what is called like the hook. -/
def Brick.Expresses (b : Brick) (config : Config) (hook : String) : Prop :=
  hook ≠ "children" ∧ ∃ name text, (name, .string text) ∈ b.fields ∧ isDynamicCandidate name = true ∧
    isBinding text = true ∧ rename config name = hook

namespace App

variable {a : App} {m : Mount} {s : State} {i : Nat} {r : Interpreter} {options : Annotate.Options} {layout : Json}
  {form : Option String} {fields fields' : List (String × Json)} {typeName target key tag id : String}
  {hooks : List (String × HookArgument)} {props : Props} {children : List Output} {scope : Scope}

/-- A call of the hook of an element is a call of what stands under the hook. -/
theorem handler?_shown {shown : List Output} (h : Output.findAll? key shown = some (.element tag (some key) props children))
    (hook : String) : handler? shown key hook = (Fields.get? props hook).bind Property.handler? := by
  unfold handler?
  rw [h]
  rfl

/-- A field's handler writes at most once, where it finds a value, and then calls the user's function. -/
theorem dispatch_shown {hook path : String} {argument : HookArgument} {user : Option Handler}
    (hm : a.find? target = .ok m) (hhandler : handler? (Mounted.snapshot m.host.roots) key hook =
      some (.field argument path scope user)) (args : List Json) : a.dispatch target key hook args = do
    log (.dispatched key hook target)
    match Form.extract? argument args with
    | some value => set scope path value
    | none => log (.noFieldValue argument path)
    match user with
    | some called => call called args
    | none => pure ()
    return .ok () := by
  have htree : a.tree target = .ok (Mounted.snapshot m.host.roots) := by rw [tree, hm]; rfl
  unfold dispatch
  rw [htree]
  dsimp only
  rw [hhandler]
  dsimp only
  conv_lhs => unfold call
  funext t
  cases Form.extract? argument args with
  | none => cases user <;> simp only [bind_run, log_run, pure_run, Option.bind_some]
  | some value => cases user <;> simp only [bind_run, Option.bind_assoc, pure_run, Option.bind_some]

theorem dispatch_lost {hook : String} (hm : a.find? target = .ok m)
    (hnone : handler? (Mounted.snapshot m.host.roots) key hook = none) (args : List Json) :
    a.dispatch target key hook args = return .error (.noHandler key hook) := by
  have htree : a.tree target = .ok (Mounted.snapshot m.host.roots) := by rw [tree, hm]; rfl
  unfold dispatch
  rw [htree]
  dsimp only
  rw [hnone]

/-- On the element of a form field, a call of a hook keeps the value that it finds where the field's path leads, and
then calls the user's function, unless something else stands under the hook. Where that is an expression, the call
does nothing at all. -/
theorem dispatch_field (hlayout : layout.wellFormed = true)
    (hvisits : Annotate.Visits s.registry options.formName layout (annotate s.registry options layout) form fields fields')
    (htyped : (Brick.mk fields).typeName? = some typeName) (helement : MakesElement s.registry typeName)
    (hfield : s.registry.field? typeName = some hooks) (hhooks : Fields.Sorted hooks)
    (hr : s.interpreters[i]? = some r) (hf : r.Faithful) (hrenders : Renders i ⟨fields'⟩ scope s props)
    (hm : a.find? target = .ok m)
    (hshown : Output.findAll? key (Mounted.snapshot m.host.roots) = some (.element tag (some key) props children)) :
    ∃ id, (Brick.mk fields').id? = some id ∧ ∀ hook argument, (hook, argument) ∈ hooks →
      let path := Form.fieldPath (((Brick.mk fields).form?.filter (· ≠ "")).or form) ((Brick.mk fields).name?.getD id)
      (¬Given s.registry r typeName ⟨fields'⟩ hook → ¬(Brick.mk fields').Expresses r.config hook →
        ∀ args, a.dispatch target key hook args = do
          log (.dispatched key hook target)
          match Form.extract? argument args with
          | some value => set scope path value
          | none => log (.noFieldValue argument path)
          match r.user? ⟨fields'⟩ hook with
          | some called => call called args
          | none => pure ()
          return .ok ()) ∧
      ((Brick.mk fields').Expresses r.config hook →
        ∀ args, a.dispatch target key hook args = return .error (.noHandler key hook)) ∧
      (Given s.registry r typeName ⟨fields'⟩ hook → ∀ called,
        handler? (Mounted.snapshot m.host.roots) key hook = some called → called.isField = false) := by
  obtain ⟨_, htyped', hannotated⟩ := annotate_visits s.registry options hlayout hvisits
  cases htyped.symm.trans htyped'
  obtain ⟨id, -, hid⟩ := hannotated.identified
  have hid? : (Brick.mk fields').id? = some id := by rw [Brick.id?, Brick.get?, hid]; rfl
  have hname : (Brick.mk fields').name?.or (Brick.mk fields').id? = some ((Brick.mk fields).name?.getD id) := by
    rw [hannotated.name?_eq, hid?]
    cases (Brick.mk fields).name? <;> rfl
  have hpath := hannotated.fieldPath_eq (by rw [hfield]; rfl) ((Brick.mk fields).name?.getD id)
  obtain ⟨hwired, hlost⟩ := renders_wired hr hf (hannotated.typeName?_eq.trans htyped) helement hfield hname hrenders
  refine ⟨id, hid?, fun hook argument hmem => ?_⟩
  have hmarked : Marked r.config ⟨fields'⟩ hook ↔ (Brick.mk fields').Expresses r.config hook :=
    and_congr_right fun _ => hannotated.marked_iff r.config hook
  obtain ⟨hover, hfree⟩ := hwired hook (List.mem_map_of_mem hmem)
  refine ⟨fun hgiven hexpresses args => ?_, fun hexpresses args => ?_, fun hgiven called hcalled => ?_⟩
  · obtain ⟨argument', hmem', hget⟩ := hfree (not_or.2 ⟨hgiven, mt hmarked.1 hexpresses⟩)
    obtain rfl : argument' = argument := by
      have hargument := Fields.get?_of_mem hhooks.nodup hmem
      rw [Fields.get?_of_mem hhooks.nodup hmem'] at hargument
      exact Option.some.inj hargument
    have hhandler : handler? (Mounted.snapshot m.host.roots) key hook =
        some (.field argument' (Form.fieldPath (((Brick.mk fields).form?.filter (· ≠ "")).or form)
          ((Brick.mk fields).name?.getD id)) scope (r.user? ⟨fields'⟩ hook)) := by
      rw [handler?_shown hshown, hget, ← hpath]
      rfl
    exact dispatch_shown hm hhandler args
  · refine dispatch_lost hm ?_ args
    rw [handler?_shown hshown]
    have hnone := hlost hook (hmarked.2 hexpresses)
    cases hget : Fields.get? props hook with
    | none => rfl
    | some v =>
      cases v with
      | handler h => exact absurd hget (hnone h)
      | _ => rfl
  · rw [handler?_shown hshown] at hcalled
    obtain ⟨v, hget, hv⟩ := Option.bind_eq_some_iff.1 hcalled
    cases v with
    | handler h =>
      cases hv
      by_contra hisField
      exact hover (.inl hgiven) ⟨called, hget, by simpa using hisField⟩
    | _ => cases hv

def mailField : List (String × Json) :=
  [("type", .string "input"), ("id", .string "k"), ("name", .string "mail"), ("onChange", .string "typed")]

/-- A form with one field. -/
def signUp : List (String × Json) :=
  [("type", .string "form"), ("name", .string "user"), ("children", .object mailField)]

def signUpState : State where
  registry := {
    containers := [("form", ["onSubmit"])]
    fields := [("input", [("change", ⟨0, none⟩), ("onChange", ⟨0, none⟩)])] }

def mailProps : Props :=
  [("change", .handler (.field ⟨0, none⟩ "user.mail" 0 none)), ("name", .value (.string "mail")),
    ("onChange", .handler (.field ⟨0, none⟩ "user.mail" 0 (some (.user "typed" []))))]

theorem signUp_shown : (App.mount {} (.object signUp) "main" 0 .anything signUpState).map
    (fun r => (r.1.2, r.1.1.tree "main")) = some (.ok (), .ok [.element "form" (some "brick-1")
      [("name", .value (.string "user"))] [.element "input" (some "k") mailProps []]]) := rfl

theorem dispatch_field_input : ∃ a s,
    App.mount {} (.object signUp) "main" 0 .anything signUpState = some ((a, .ok ()), s) ∧
    ∀ args, a.dispatch "main" "k" "onChange" args = do
      log (.dispatched "k" "onChange" "main")
      match Form.extract? ⟨0, none⟩ args with
      | some value => set 0 "user.mail" value
      | none => log (.noFieldValue ⟨0, none⟩ "user.mail")
      call (.user "typed" []) args
      return .ok () := by
  obtain ⟨⟨⟨a, found⟩, s⟩, hrun, hshown⟩ := Option.map_eq_some_iff.1 signUp_shown
  obtain ⟨rfl, htree⟩ := Prod.mk.inj hshown
  have hfound : ∃ m, a.find? "main" = .ok m ∧ Output.findAll? "k" (Mounted.snapshot m.host.roots) =
      some (.element "input" (some "k") mailProps []) := by
    unfold tree at htree
    cases hm : a.find? "main" with
    | ok m =>
      rw [hm] at htree
      have hsnapshot : Mounted.snapshot m.host.roots = _ := Except.ok.inj htree
      refine ⟨m, rfl, ?_⟩
      rw [hsnapshot]
      rfl
    | error e =>
      rw [hm] at htree
      cases htree
  obtain ⟨m, hm, hshown⟩ := hfound
  let rendered : State := { signUpState with interpreters := [⟨{}, false, some .anything, []⟩] }
  let annotated := mailField ++ [("form", .string "user")]
  have hrun' : upTo 2 0 (.object annotated) 0 rendered = some (some (.element "input" (some "k") mailProps []), _) := rfl
  have hlisted : "children" ∈ Annotate.nestedAttributes rendered.registry "form" signUp := by decide
  have hvisits : Annotate.Visits rendered.registry ({} : Annotate.Options).formName (.object signUp)
      (annotate rendered.registry {} (.object signUp)) (some "user") mailField annotated := .nested rfl hlisted rfl rfl (.brick rfl)
  have hsorted : Fields.Sorted [("change", (⟨0, none⟩ : HookArgument)), ("onChange", ⟨0, none⟩)] := by
    simp only [Fields.Sorted, List.pairwise_cons, List.mem_singleton, forall_eq]
    exact ⟨by decide, List.forall_mem_nil _, .nil⟩
  have htyped : (Brick.mk mailField).typeName? = some "input" := rfl
  have hfield : rendered.registry.field? "input" = some [("change", ⟨0, none⟩), ("onChange", ⟨0, none⟩)] := rfl
  have helement : MakesElement rendered.registry "input" := ⟨rfl, fun _ h => by cases h⟩
  have hr : rendered.interpreters[0]? = some ⟨{}, false, some .anything, []⟩ := rfl
  obtain ⟨id, hid, hdispatch⟩ := dispatch_field rfl hvisits htyped helement hfield hsorted hr
    (Interpreter.faithful_of_bound rfl) (.element hrun') hm hshown
  cases hid.symm.trans (show (Brick.mk annotated).id? = some "k" from rfl)
  refine ⟨a, s, hrun, (hdispatch "onChange" ⟨0, none⟩ (by simp)).1 ?_ ?_⟩
  · rintro (⟨hcontainer, -⟩ | ⟨hrenders, -⟩)
    · cases hcontainer
    · cases hrenders
  · have hplain : ∀ e ∈ annotated, e.2.str?.any isBinding = false := by decide
    rintro ⟨-, name, text, hmem, -, hbinding, -⟩
    exact Bool.false_ne_true ((hplain _ hmem).symm.trans hbinding)

/-- A field of its own form with a text in braces under its hook. -/
def bracedField : Json :=
  .object [("type", .string "input"), ("id", .string "k"), ("name", .string "n"), ("change", .string "\x7bx\x7d")]

def bracedState : State where
  store := ⟨#[{ label := "root", values := [("x", .string "X")], parent := none }]⟩
  registry := { fields := [("input", [("change", ⟨0, none⟩)])] }

/-- The value of the expression stands where the handler should be, and a call of the hook writes nothing. -/
theorem dispatch_field_lost : (App.mount {} bracedField "main" 0 .anything bracedState).bind (fun r =>
      (r.1.1.dispatch "main" "k" "change" [.string "v"] r.2).map fun r' =>
        (r'.1.isOk, r'.2.store.lookup? 0 "n" |>.isSome)) = some (false, false) := by
  decide +kernel

end App
end LiveLayout
