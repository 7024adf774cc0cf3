import LiveLayout.Proofs.Forms.Handlers
import LiveLayout.Proofs.Lifecycle.Components
import LiveLayout.Proofs.Running.Transparent
import LiveLayout.Proofs.Unmarked.Props
/-!
The properties of the elements that form fields become. Under every hook stands the field's handler, unless a
container's handler, a rendering or an expression has come to stand there after it.
-/
namespace LiveLayout

open Engine

/-- The function that the source has under the name that a brick gives for a hook. -/
def Interpreter.user? (r : Interpreter) (b : Brick) (hook : String) : Option Handler :=
  ((b.get? hook).bind Json.str?).bind fun id => (r.source.bind (·.find? id)).map (Handler.user id)

/-- A target that is an element with the properties given to it. -/
inductive Target.IsElement : Target → Prop where
  | tag (name : String) : IsElement (.tag name)
  | constructor (tag : String) : IsElement (.constructor (.element tag))

/-- What the handlers of a form field are made of. -/
structure Wiring where
  hooks : List (String × HookArgument)
  path : String
  scope : Scope
  /-- The user's function for each hook. -/
  called : String → Option Handler

def Handler.isField : Handler → Bool
  | .field .. => true
  | _ => false

theorem Interpreter.isField_of_user? {r : Interpreter} {b : Brick} {hook : String} {h : Handler}
    (hh : r.user? b hook = some h) : h.isField = false := by
  obtain ⟨id, -, hid⟩ := Option.bind_eq_some_iff.1 hh
  obtain ⟨actions, -, rfl⟩ := Option.map_eq_some_iff.1 hid
  rfl

/-! ### Handlers among properties -/

namespace Props

variable {w : Wiring} {taken : String → Prop} {p q : Props} {name : String}

/-- A handler of a field stands under the name. -/
def HasField (p : Props) (name : String) : Prop := ∃ h, Fields.get? p name = some (.handler h) ∧ h.isField = true

/-- Under every hook of the field stands its handler; under those that are taken no field's handler does. -/
def Wired (w : Wiring) (taken : String → Prop) (p : Props) : Prop := ∀ hook ∈ w.hooks.map (·.1),
  (taken hook → ¬p.HasField hook) ∧ (¬taken hook → ∃ argument, (hook, argument) ∈ w.hooks ∧
    Fields.get? p hook = some (.handler (.field argument w.path w.scope (w.called hook))))

/-- Something that is no handler, or nothing, has come to stand under the name. -/
structure Overlaid (name : String) (p q : Props) : Prop where
  unhandled : ∀ h, Fields.get? q name ≠ some (.handler h)
  rest : ∀ other, other ≠ name → Fields.get? q other = Fields.get? p other

theorem Overlaid.insert (p : Props) (name : String) {v : Property} (hv : v.handler? = none) :
    Overlaid name p (p.insert name v) := by
  refine ⟨fun h hget => ?_, fun other hother => ?_⟩
  · rw [Props.insert, Fields.get?_insertSorted, if_pos rfl] at hget
    cases hget
    cases hv
  · rw [Props.insert, Fields.get?_insertSorted, if_neg hother]

theorem Overlaid.erase (hp : Fields.Sorted p) (name : String) : Overlaid name p (Fields.erase p name) := by
  refine ⟨fun h hget => ?_, fun other hother => Fields.get?_erase_of_ne p hother⟩
  rw [Fields.get?_erase_self hp.nodup] at hget
  cases hget

theorem Wired.overlaid (h : p.Wired w taken) (ho : Overlaid name p q) :
    q.Wired w fun hook => taken hook ∨ hook = name := by
  intro hook hhook
  constructor
  · rintro htaken ⟨found, hfound, hfield⟩
    by_cases heq : hook = name
    · subst hook
      exact ho.unhandled found hfound
    · rw [ho.rest hook heq] at hfound
      exact (h hook hhook).1 (htaken.resolve_right heq) ⟨found, hfound, hfield⟩
  · intro hfree
    rw [not_or] at hfree
    rw [ho.rest hook hfree.2]
    exact (h hook hhook).2 hfree.1

theorem Wired.congr {taken' : String → Prop} (h : p.Wired w taken) (htaken : ∀ hook, taken' hook ↔ taken hook) :
    p.Wired w taken' := by
  intro hook hhook
  rw [htaken]
  exact h hook hhook

end Props

namespace Renderer

variable {s t : State} {i : Nat} {r : Interpreter} {b : Brick} {scope : Scope} {typeName : String}
  {hooks : List (String × HookArgument)} {name : String} {target : Target} {render : Renderer}

/-! ### The properties of a brick -/

theorem userHandler?_ensures (hr : s.interpreters[i]? = some r) (hf : r.Faithful) (b : Brick) (hook : String) (t : State)
    (hq : Quiet s t) : Ensures (userHandler? i b hook) t fun called t' => called = r.user? b hook ∧ Quiet s t' := by
  obtain ⟨r', hr', hlike⟩ := hq.interpreters i r hr
  unfold userHandler? Interpreter.user?
  cases (b.get? hook).bind Json.str? with
  | none => exact .pure ⟨rfl, hq⟩
  | some id =>
    obtain ⟨t', hrun, hq'⟩ := handler?_run hr' (hlike.faithful hf) id
    rw [hlike.source] at hrun
    exact .of_run hrun ⟨rfl, hq.trans hq'⟩

theorem exists_stage (hr : s.interpreters[i]? = some r) (hf : r.Faithful) (hq : Quiet s t) (scope : Scope) :
    ∃ r', t.interpreters[i]? = some r' ∧ r.Like r' ∧ OnStage t i (t.store.root scope) (t.scene r' scope) := by
  obtain ⟨r', hr', hlike⟩ := hq.interpreters i r hr
  exact ⟨r', hr', hlike, rfl, ⟨r', hr', rfl, rfl, rfl, hlike.faithful hf⟩, rfl, rfl, rfl, rfl⟩

theorem trace_quiet (n : Notice) (hq : Quiet s t) : Ensures (trace n) t fun _ t' => Quiet s t' := by
  obtain ⟨_, t', hrun, hq'⟩ := silent_trace n t
  exact .of_run hrun (hq.trans hq')

theorem property?_quiet (hr : s.interpreters[i]? = some r) (hf : r.Faithful) (b : Brick) (scope : Scope) (name : String)
    (raw : Json) (hq : Quiet s t) : Ensures (property? i b scope name raw) t fun _ t' => Quiet s t' := by
  obtain ⟨r', -, -, hstage⟩ := exists_stage hr hf hq scope
  have hyields := property?_paints (σ := t.store) rfl b name raw t rfl hstage
  refine hyields.ensures.mono ?_
  rintro _ _ ⟨_, -, hq', -⟩
  exact hq.trans hq'

/-- Neither the user's functions nor what containers make of them are handlers of fields. -/
theorem isField_containerHandler {form : Option String} {called : Handler} (h : called.isField = false) :
    (containerHandler form scope called).isField = false := by
  cases form with
  | none => exact h
  | some form => rfl

/-- The hook is one of the container as well, and the user has a function for it. -/
def HandedOver (registry : Registry) (r : Interpreter) (typeName : String) (b : Brick) (hook : String) : Prop :=
  (registry.container? typeName).any (·.contains hook) = true ∧ (r.user? b hook).isSome = true

theorem fixedProps_wired (hr : s.interpreters[i]? = some r) (hf : r.Faithful)
    (hfield : s.registry.field? typeName = some hooks) (hname : b.name?.or b.id? = some name) (dynamic : List String)
    (hq : Quiet s t) : Ensures (fixedProps i b typeName dynamic scope) t fun p s' => Quiet s s' ∧
      p.Wired ⟨hooks, Form.fieldPath b.form? name, scope, r.user? b⟩ (HandedOver s.registry r typeName b) := by
  have hasks (hook : String) (t : State) := userHandler?_ensures hr hf b hook t
  obtain ⟨r', hr', -⟩ := hq.interpreters i r hr
  unfold fixedProps
  refine .bind_run (get_run t) (.bind_run (show interpreter? i t = some (r', t) by simp [interpreter?, hr']) ?_)
  rw [hq.registry, hfield]
  refine (Ensures.foldlM (I := fun _ _ t => Quiet s t) (fun e _ done t hq => ?_) _ _ hq).bind fun own t hq => ?_
  · refine (property?_quiet hr hf b scope e.1 e.2 hq).bind fun found t' hq' => ?_
    cases found <;> exact .pure hq'
  refine (wireField_ensures hname hasks (fun n _ => trace_quiet n) hq).bind ?_
  rintro p t' ⟨hq', hwired⟩
  cases hcontainer : s.registry.container? typeName with
  | none =>
    refine .pure ⟨hq', fun hook hhook => ⟨fun hover => ?_, fun _ => ?_⟩⟩
    · have hany := hover.1
      rw [hcontainer] at hany
      cases hany
    · obtain ⟨argument, called, hmem, rfl, hget⟩ := hwired hook hhook
      exact ⟨argument, hmem, hget⟩
  | some own =>
    refine (wireContainer_ensures hasks hq').mono ?_
    rintro p' t'' ⟨hq'', hcontained⟩
    refine ⟨hq'', fun hook hhook => ?_⟩
    have hmem (h : HandedOver s.registry r typeName b hook) : hook ∈ own := by
      simpa [hcontainer] using h.1
    constructor
    · rintro hover ⟨found, hfound, hisField⟩
      rcases hcontained hook with ⟨hnone, -⟩ | ⟨-, called, hcalled, hget⟩
      · have hsome := hover.2
        rw [← hnone (hmem hover)] at hsome
        cases hsome
      · cases hget.symm.trans hfound
        rw [isField_containerHandler (Interpreter.isField_of_user? hcalled.symm)] at hisField
        cases hisField
    · intro hfree
      obtain ⟨argument, called, hmem', rfl, hget⟩ := hwired hook hhook
      rcases hcontained hook with ⟨-, hsame⟩ | ⟨hin, called, hcalled, -⟩
      · exact ⟨argument, hmem', hsame.trans hget⟩
      · exact absurd ⟨by simpa [hcontainer] using hin, by rw [← hcalled]; rfl⟩ hfree

/-- The hook is the name under which bricks of this type find their rendering. -/
def IsRendering (registry : Registry) (typeName hook : String) : Prop :=
  (registry.resolve? typeName).any (fun t => !t.childAttributes.isEmpty) = true ∧ hook = Props.renderingName

/-- Something other than an expression stands under the hook in the place of the field's handler. -/
def Given (registry : Registry) (r : Interpreter) (typeName : String) (b : Brick) (hook : String) : Prop :=
  HandedOver registry r typeName b hook ∨ IsRendering registry typeName hook

/-- The properties that a brick gives its node, or keeps beside its expressions. -/
structure Outfit (s : State) (r : Interpreter) (b : Brick) (typeName : String) (w : Wiring) (p : Props) : Prop where
  sorted : Fields.Sorted p
  wired : p.Wired w (Given s.registry r typeName b)

/-- An element, or a component that will make one, has the properties. -/
inductive Dressed (target : Target) (config : Config) (b : Brick) (p : Props) : Node → Prop where
  | element (tag : String) (key : Option String) (children : List Node) (plain : b.expressions = []) :
      Dressed target config b p (.element tag key p children)
  | component (key : Option String) (q : Proxy) (fixed : q.fixed = p) (made : q.target = target)
      (dynamic : q.dynamic.map (fun d => (d.name, d.text)) = marked config b b.expressions) :
      Dressed target config b p (.component key (.proxy q))

theorem build_element (render : Renderer) (scope : Scope) (h : target.IsElement) (p : Props) (children : List Node) (transport : Bool) (t : State) :
    ∃ tag, build render target p children scope transport t = some (.element tag none p children, t) := by
  cases h with
  | tag name => exact ⟨name, rfl⟩
  | constructor tag => exact ⟨tag, rfl⟩

theorem brick_dressed (hr : s.interpreters[i]? = some r) (hf : r.Faithful)
    (hfield : s.registry.field? typeName = some hooks) (hname : b.name?.or b.id? = some name)
    (htarget : target.IsElement) {s₀ : State} (hq₀ : Quiet s s₀) :
    Ensures (brick render i b typeName target scope) s₀ fun n _ => ∃ p,
      Outfit s r b typeName ⟨hooks, Form.fieldPath b.form? name, scope, r.user? b⟩ p ∧
        Dressed target r.config b p n := by
  refine (trace_quiet (.rendered typeName target b.id?) hq₀).bind fun _ t hq => ?_
  obtain ⟨r', -, -, hstage⟩ := exists_stage hr hf hq scope
  have hpaints := fixedProps_paints (σ := t.store) rfl b typeName b.expressions t rfl hstage
  refine ((fixedProps_wired hr hf hfield hname b.expressions hq).and hpaints.ensures).bind ?_
  rintro p t₁ ⟨⟨hq₁, hwired⟩, _, hdrawn, -, hsame⟩
  cases hdrawn
  refine .bind_run (get_run t₁) ?_
  have hregistry : (t.scene r' scope).registry = s.registry := hq.registry
  have hrenders : (t.scene r' scope).renders typeName target =
      (s.registry.resolve? typeName).any fun t => !t.childAttributes.isEmpty := by
    rw [← hregistry]
    cases htarget <;> rfl
  have hsorted := (t.scene r' scope).sorted_outfit (t.store.layers scope) b typeName target b.expressions
  have hnames := (congrArg (List.map (·.1)) (outfit_same hsame target).1).symm
  rw [Props.bare, List.map_map] at hnames
  have hgiven : Props.Wired ⟨hooks, Form.fieldPath b.form? name, scope, r.user? b⟩ (Given s.registry r typeName b)
      (if (t.scene r' scope).renders typeName target then
        p.insert Props.renderingName (.rendering (.interpreted i scope)) else p) := by
    by_cases hdeclares : (s.registry.resolve? typeName).any (fun t => !t.childAttributes.isEmpty) = true
    · rw [if_pos (hrenders.trans hdeclares)]
      refine (hwired.overlaid (.insert p _ rfl)).congr fun hook => ?_
      simp [Given, IsRendering, hdeclares]
    · rw [if_neg fun h => hdeclares (hrenders.symm.trans h)]
      refine hwired.congr fun hook => ?_
      simp [Given, IsRendering, hdeclares]
  -- The properties are those of an outfit, whatever becomes of them.
  suffices rest : ∀ out, Outfit s r b typeName ⟨hooks, Form.fieldPath b.form? name, scope, r.user? b⟩ out →
      Ensures (if b.expressions.isEmpty then do
          let nodes ← children render i b.children? scope
          let node ← build render target out nodes scope (← interpreter? i).transport
          return node.withKey? b.id?
        else do
          let parsed ← parseMarked (marked (← interpreter? i).config b b.expressions)
          return .component b.id? (.proxy
            { target, key := b.id?, fixed := out, dynamic := parsed.1, scope, children := b.children?,
              interpreter := i, depends := parsed.2 })) t₁ fun n _ => ∃ p,
        Outfit s r b typeName ⟨hooks, Form.fieldPath b.form? name, scope, r.user? b⟩ p ∧
          Dressed target r.config b p n by
    rw [show t₁.registry = (t.scene r' scope).registry from hq₁.registry.trans hregistry.symm]
    exact rest _ ⟨hsorted.of_names hnames.symm, hgiven⟩
  intro out hout
  by_cases hplain : b.expressions.isEmpty = true
  · rw [if_pos hplain]
    refine .bind (Q := fun _ _ => True) (fun _ _ _ => trivial) fun nodes t₂ _ => ?_
    refine .bind (Q := fun _ _ => True) (fun _ _ _ => trivial) fun it t₃ _ => ?_
    obtain ⟨tag, hbuild⟩ := build_element render scope htarget out nodes it.transport t₃
    refine .bind_run hbuild (.pure ⟨out, hout, ?_⟩)
    cases b.id? with
    | none => exact .element tag none nodes (List.isEmpty_iff.1 hplain)
    | some key => exact .element tag (some key) nodes (List.isEmpty_iff.1 hplain)
  · rw [if_neg hplain]
    obtain ⟨r₁, hr₁, hlike, hstage₁⟩ := exists_stage hr hf hq₁ scope
    refine .bind_run (show interpreter? i t₁ = some (r₁, t₁) by simp [interpreter?, hr₁]) ?_
    rw [hlike.config]
    have hparsed := parseMarked_paints (marked r.config b b.expressions) t₁ rfl hstage₁
    refine hparsed.ensures.bind ?_
    rintro parsed t₂ ⟨_, hdrawn, -, heq⟩
    refine .pure ⟨out, hout, ?_⟩
    cases hdrawn
    subst parsed
    exact .component b.id? _ rfl rfl (Scene.parsed_map _)

/-- Bricks of the type are elements with the properties given to them. -/
def MakesElement (registry : Registry) (typeName : String) : Prop := Special.ofName? typeName = none ∧
  ∀ t, registry.resolve? typeName = some t → ∃ tag, t.constructor = .element tag

theorem resolve?_element (helement : MakesElement s.registry typeName) :
    Ensures (resolve? i typeName) s fun found t => Quiet s t ∧ ∀ target, found = some target → target.IsElement := by
  unfold resolve?
  rw [helement.1]
  refine .bind_run (get_run s) ?_
  cases hresolve : s.registry.resolve? typeName with
  | some brickType =>
    obtain ⟨tag, htag⟩ := helement.2 brickType hresolve
    refine .pure ⟨.refl s, fun target htarget => ?_⟩
    cases htarget
    rw [htag]
    exact .constructor tag
  | none =>
    dsimp only
    split
    · refine .pure ⟨.refl s, fun target htarget => ?_⟩
      cases htarget
      exact .tag typeName
    · refine .bind (Q := fun _ t => Quiet s t) (fun it t hrun => ?_) fun it t hq => ?_
      · obtain ⟨_, -, heq⟩ := Option.map_eq_some_iff.1 hrun
        cases heq
        exact .refl s
      · refine .bind_run (log_run _ t) (.pure ⟨hq.trans ⟨rfl, .refl _⟩, fun target htarget => ?_⟩)
        cases hpass : it.config.passUnknown with
        | true =>
          rw [hpass] at htarget
          cases htarget
          exact .tag typeName
        | false =>
          rw [hpass] at htarget
          cases htarget

theorem upTo_dressed {fields : List (String × Json)} (scope : Scope) (hr : s.interpreters[i]? = some r) (hf : r.Faithful)
    (htyped : (Brick.mk fields).typeName? = some typeName) (helement : MakesElement s.registry typeName)
    (hfield : s.registry.field? typeName = some hooks) (hname : (Brick.mk fields).name?.or (Brick.mk fields).id? = some name)
    (depth : Nat) : Ensures (upTo depth i (.object fields) scope) s fun found _ => ∀ n, found = some n →
      ∃ p target, Target.IsElement target ∧ Outfit s r ⟨fields⟩ typeName
        ⟨hooks, Form.fieldPath (Brick.mk fields).form? name, scope, r.user? ⟨fields⟩⟩ p ∧
        Dressed target r.config ⟨fields⟩ p n := by
  cases depth with
  | zero => exact .endless
  | succ depth =>
    unfold upTo node
    dsimp only
    rw [htyped]
    refine (resolve?_element helement).bind ?_
    rintro found t ⟨hq, htarget⟩
    cases found with
    | none => exact .pure fun n hn => by cases hn
    | some target =>
      refine (brick_dressed hr hf hfield hname (htarget target rfl) hq).bind ?_
      rintro n t' ⟨p, hp, hn⟩
      refine .pure ?_
      rintro _ ⟨⟩
      exact ⟨p, target, htarget target rfl, hp, hn⟩

/-! ### Components made of bricks -/

/-- The hook is the name of a marked property. -/
def Marked (config : Config) (b : Brick) (hook : String) : Prop :=
  hook ≠ "children" ∧ hook ∈ (marked config b b.expressions).map (·.1)

/-- Whenever the component renders, its expressions stand in the place of what its other properties hold. -/
theorem node_wired {p : Proxy} {w : Wiring} {taken : String → Prop} (htarget : p.target.IsElement)
    (hsorted : Fields.Sorted p.fixed) (hwired : p.fixed.Wired w taken) :
    Ensures (p.node render) s fun n _ => ∃ tag key props children, n = .element tag key props children ∧
      Props.Wired w (fun hook => taken hook ∨ hook ≠ "children" ∧ hook ∈ p.dynamic.map (·.name)) props ∧
      ∀ hook, hook ≠ "children" → hook ∈ p.dynamic.map (·.name) → ∀ h, Fields.get? props hook ≠ some (.handler h) := by
  have hnames (hook : String) : hook ∈ (p.dynamic.filter (·.name ≠ "children")).map (·.name) ↔
      hook ≠ "children" ∧ hook ∈ p.dynamic.map (·.name) := by
    simp only [List.mem_map, List.mem_filter, decide_eq_true_eq]
    constructor
    · rintro ⟨d, ⟨hd, hne⟩, rfl⟩
      exact ⟨hne, d, hd, rfl⟩
    · rintro ⟨hne, d, hd, rfl⟩
      exact ⟨d, ⟨hd, hne⟩, rfl⟩
  unfold Proxy.node
  refine (Ensures.foldlM (I := fun rest props _ => Fields.Sorted props ∧ ∃ before,
    before ++ rest = p.dynamic.filter (·.name ≠ "children") ∧
      Props.Wired w (fun hook => taken hook ∨ hook ∈ before.map (·.name)) props ∧
      ∀ hook ∈ before.map (·.name), ∀ h, Fields.get? props hook ≠ some (.handler h))
    (fun d rest props t h => ?_) _ _
    ⟨hsorted, [], rfl, hwired.congr (by simp), fun _ h => absurd h List.not_mem_nil⟩).bind fun props t h => ?_
  · obtain ⟨hprops, before, hbefore, hw, hlost⟩ := h
    have hafter : (before ++ [d]) ++ rest = p.dynamic.filter (·.name ≠ "children") := by simpa using hbefore
    -- Whatever the expression comes to, it is laid over what stood under its name.
    have hstep {props' : Props} (ho : Props.Overlaid d.name props props') :
        Props.Wired w (fun hook => taken hook ∨ hook ∈ (before ++ [d]).map (·.name)) props' ∧
          ∀ hook ∈ (before ++ [d]).map (·.name), ∀ h, Fields.get? props' hook ≠ some (.handler h) := by
      refine ⟨(hw.overlaid ho).congr fun hook => by simp [or_assoc], fun hook hhook => ?_⟩
      by_cases heq : hook = d.name
      · rw [heq]
        exact ho.unhandled
      · rw [ho.rest hook heq]
        refine hlost hook ?_
        rw [List.map_append, List.mem_append, List.map_singleton, List.mem_singleton] at hhook
        exact hhook.resolve_right heq
    refine .bind (Q := fun _ _ => True) (fun _ _ _ => trivial) fun v t' _ => ?_
    cases v with
    | none => exact .pure ⟨hprops.erase _, _, hafter, hstep (.erase hprops _)⟩
    | some v => exact .pure ⟨hprops.insertSorted _ _, _, hafter, hstep (.insert props _ rfl)⟩
  · obtain ⟨-, before, hbefore, hw, hlost⟩ := h
    rw [List.append_nil] at hbefore
    subst before
    simp only [hnames, and_imp] at hw hlost
    refine .bind (Q := fun _ _ => True) (fun _ _ _ => trivial) fun children t₁ _ => ?_
    refine .bind (Q := fun _ _ => True) (fun _ _ _ => trivial) fun it t₂ _ => ?_
    obtain ⟨tag, hbuild⟩ := build_element render p.scope htarget props children it.transport t₂
    refine .bind_run hbuild (.pure ?_)
    cases p.key with
    | none => exact ⟨tag, none, props, children, rfl, hw, hlost⟩
    | some key => exact ⟨tag, some key, props, children, rfl, hw, hlost⟩

/-- The properties of an element that a brick becomes: at once, or whenever a component renders that was made of it,
and that has been mounted and has received other descriptions like that one since. -/
inductive Renders (i : Nat) (b : Brick) (scope : Scope) (s : State) : Props → Prop where
  | element {depth : Nat} {tag : String} {key : Option String} {props : Props} {children : List Node} {s' : State}
      (run : upTo depth i (.object b.fields) scope s = some (some (.element tag key props children), s')) :
      Renders i b scope s props
  | component {depth depth' : Nat} {tag : String} {key key' : Option String} {p q : Proxy} {props : Props}
      {children : List Node} {s' t t' : State}
      (run : upTo depth i (.object b.fields) scope s = some (some (.component key (.proxy q)), s'))
      (lives : Component.Resembles (.proxy p) (.proxy q))
      (rerun : p.node (upTo depth') t = some (.element tag key' props children, t')) : Renders i b scope s props

/-- Something else stands under the hook in the place of the field's handler. -/
def Taken (registry : Registry) (r : Interpreter) (typeName : String) (b : Brick) (hook : String) : Prop :=
  Given registry r typeName b hook ∨ Marked r.config b hook

theorem renders_wired {props : Props} (hr : s.interpreters[i]? = some r) (hf : r.Faithful)
    (htyped : b.typeName? = some typeName) (helement : MakesElement s.registry typeName)
    (hfield : s.registry.field? typeName = some hooks) (hname : b.name?.or b.id? = some name)
    (hrenders : Renders i b scope s props) :
    props.Wired ⟨hooks, Form.fieldPath b.form? name, scope, r.user? b⟩ (Taken s.registry r typeName b) ∧
      ∀ hook, Marked r.config b hook → ∀ h, Fields.get? props hook ≠ some (.handler h) := by
  have hdressed := upTo_dressed scope hr hf htyped helement hfield hname
  cases hrenders with
  | element run =>
    obtain ⟨p, target, htarget, hp, hn⟩ := hdressed _ _ _ run _ rfl
    cases hn with
    | element _ _ _ plain =>
      have hmarked (hook : String) : ¬Marked r.config b hook := by simp [Marked, marked, plain]
      exact ⟨hp.wired.congr fun hook => or_iff_left (hmarked hook), fun hook h => absurd h (hmarked hook)⟩
  | @component _ _ _ _ _ q _ _ _ _ _ _ run lives rerun =>
    obtain ⟨p, target, htarget, hp, hn⟩ := hdressed _ _ _ run _ rfl
    cases hn with
    | component _ _ fixed made dynamic =>
      obtain ⟨hsame, heq⟩ := lives
      simp only [Proxy.sameBrick, Bool.and_eq_true, beq_iff_eq] at hsame
      have hfixed : q.fixed = p := (congrArg Proxy.fixed heq).trans fixed
      have hmade : q.target = target := hsame.1.trans made
      have hnames : q.dynamic.map (·.name) = (marked r.config b b.expressions).map (·.1) := by
        rw [← dynamic, ← hsame.2, List.map_map]
        rfl
      subst hfixed hmade
      obtain ⟨_, _, _, _, hnode, hwired, hlost⟩ := node_wired htarget hp.sorted hp.wired _ _ rerun
      cases hnode
      rw [hnames] at hwired hlost
      exact ⟨hwired, fun hook hmarked => hlost hook hmarked.1 hmarked.2⟩

end Renderer
end LiveLayout
