import LiveLayout.Proofs.Drawing.Stage
import Mathlib.Data.List.Forall2
/-!
Rendering a layout in a scope gives the nodes that the scene draws, all of which stand in that scope.
-/
namespace LiveLayout.Renderer

open Engine

variable {σ : Store} {i : Nat} {root scope : Nat} {sc : Scene} {tr : Bool}

/-- A property as the scene has it, which is no rendering. -/
def SameProperty (p q : Property) : Prop := p.bare = q ∧ ∀ r, p ≠ .rendering r

/-- Properties as the scene has them, with renderings in the scope. -/
def SameProps (i : Nat) (scope : Scope) (p q : Props) : Prop := p.bare = q ∧ p.At i scope

/-- A node as the scene draws it, which stands in the scope. -/
def SameNode (σ : Store) (i : Nat) (tr : Bool) (scope : Scope) (n : Node) (k : Sketch) : Prop :=
  n.sketch σ = k ∧ n.Placed (·.At i tr scope)

/-- What the engine reads in the scope is what the scene has in its layers. -/
theorem lookup?_eq {s : State} (hσ : s.store = σ) (hs : OnStage s i root sc)
    (hroot : σ.root scope = root) : σ.lookup? scope = (σ.layers scope).lookup? sc.root := by
  funext name
  rw [Store.lookup?_eq_layers, hroot, ← hs.root, hσ]

theorem evaluateText_eq {s : State} (hσ : s.store = σ) (hs : OnStage s i root sc)
    (hroot : σ.root scope = root) (text : String) :
    (s.store.evaluateText scope text).toOption = sc.evaluateText? (σ.layers scope) text := by
  unfold Store.evaluateText Scene.evaluateText? Scene.evaluate? Store.evaluate
  rw [hσ, lookup?_eq hσ hs hroot]
  cases Expr.parse text with
  | error => rfl
  | ok e => cases h : e.evaluate ((σ.layers scope).lookup? sc.root) <;> simp [h, Except.toOption]

theorem evaluate?_paints (hroot : σ.root scope = root) (raw : String) :
    Paints σ i root sc (evaluate? raw scope) (some (sc.inline? (σ.layers scope) raw)) (· = ·) := by
  unfold evaluate? Scene.inline?
  cases bindingText? raw with
  | none => exact .pure rfl
  | some text =>
    refine .get fun s hσ hs => ?_
    dsimp only
    rw [← evaluateText_eq hσ hs hroot]
    cases s.store.evaluateText scope text with
    | error e => exact .silent (silent_log _) fun _ => .pure rfl
    | ok v => exact .pure rfl

/-- The source is asked for a handler at most once, and what it answered is kept. -/
theorem handler?_run {s : State} {it : Interpreter} (hit : s.interpreters[i]? = some it)
    (hf : it.Faithful) (id : String) : ∃ s',
      handler? i id s = some ((it.source.bind (·.find? id)).map (Handler.user id), s') ∧ Quiet s s' := by
  cases hb : Fields.get? it.bound id with
  | some known =>
    refine ⟨s, ?_, .refl s⟩
    rw [← hf id known hb]
    simp [handler?, bind_run, interpreter?, hit, hb]
  | none =>
    obtain ⟨rs, hrs, keep⟩ : ∃ rs, rs = (s.interpreters.modify i fun r => { r with
        bound := Fields.set r.bound id ((it.source.bind (·.find? id)).map (Handler.user id)) }) ∧
        Interpreter.Keep s.interpreters rs := by
      refine ⟨_, rfl, Interpreter.keep_modify fun r hr => Interpreter.like_bind id ?_⟩
      rw [Option.some.inj (hr.symm.trans hit)]
    have known : interpreter? i s = some (it, s) := by simp [interpreter?, hit]
    cases hsrc : it.source with
    | none =>
      refine ⟨{ s with interpreters := rs }, ?_, rfl, keep⟩
      simp only [handler?, bind_run, known, Option.bind_some, hb, hsrc, hrs]
      rfl
    | some source =>
      refine ⟨{ s with interpreters := rs, events := .lookup id :: s.events }, ?_, rfl, keep⟩
      simp only [handler?, bind_run, known, Option.bind_some, hb, hsrc, hrs]
      rfl

theorem handler?_paints (id : String) :
    Paints σ i root sc (handler? i id) (some (sc.handler? id))
      fun found p => found.map (fun h => (Property.handler h).bare) = p := by
  intro s hσ hs
  obtain ⟨it, hit, -, -, hsrc, hf⟩ := hs.interpreter
  obtain ⟨s', hrun, hq⟩ := handler?_run hit hf id
  refine .of_run hrun ⟨hq, ?_⟩
  simp only [Scene.handler?, hsrc, Option.map_map]
  rfl

theorem resolve?_paints (typeName : String) :
    Paints σ i root sc (resolve? i typeName) (some (sc.target? typeName)) (· = ·) := by
  unfold resolve? Scene.target?
  cases Special.ofName? typeName with
  | some kind => exact .pure rfl
  | none =>
    refine .get fun s _ hs => ?_
    rw [hs.registry]
    cases sc.registry.resolve? typeName with
    | some brickType => exact .pure rfl
    | none =>
      cases typeName.toList.head?.any Text.isLowercase with
      | true => exact .pure rfl
      | false =>
        refine .interpreter fun it hc _ _ => .silent (silent_log _) fun _ => .pure ?_
        rw [hc]
        rfl

/-! ### Properties -/

theorem sameProperty_handler (h : Handler) : SameProperty (.handler h) Scene.someHandler := by
  refine ⟨rfl, fun r hr => ?_⟩
  cases hr

theorem sameProperty_value (v : Json) : SameProperty (.value v) (.value v) := by
  refine ⟨rfl, fun r hr => ?_⟩
  cases hr

theorem property?_paints (hroot : σ.root scope = root) (b : Brick) (name : String) (raw : Json) :
    Paints σ i root sc (property? i b scope name raw) (some (sc.property? (σ.layers scope) name raw))
      (Option.Rel SameProperty) := by
  cases raw with
  | string s =>
    simp only [property?, Scene.property?]
    cases isHandlerName name with
    | true =>
      refine (handler?_paints s).value fun found h => ?_
      cases found with
      | some handler =>
        refine .pure ?_
        rw [if_pos rfl, ← h]
        exact .some (sameProperty_handler handler)
      | none =>
        refine .silent (silent_log _) fun _ => .pure ?_
        rw [if_pos rfl, ← h]
        exact .none
    | false =>
      refine (evaluate?_paints hroot s).value fun v h => .pure ?_
      rw [if_neg Bool.false_ne_true, ← h]
      cases v with
      | none => exact .none
      | some v => exact .some (sameProperty_value v)
  | _ => exact .pure (.some (sameProperty_value _))

theorem SameProps.insert {p q : Props} (h : SameProps i scope p q) (name : String) {v w : Property}
    (hv : SameProperty v w) : SameProps i scope (p.insert name v) (q.insert name w) :=
  ⟨by rw [Props.bare_insert, h.1, hv.1], h.2.insert name fun r hr => absurd hr (hv.2 r)⟩

theorem userHandler?_paints (b : Brick) (hook : String) :
    Paints σ i root sc (userHandler? i b hook) (some (((b.get? hook).bind Json.str?).bind sc.handler?))
      fun found p => found.map (fun h => (Property.handler h).bare) = p := by
  unfold userHandler?
  cases (b.get? hook).bind Json.str? with
  | none => exact .pure rfl
  | some id => exact handler?_paints id

theorem wireField_paints (b : Brick) (hooks : List (String × HookArgument)) {p q : Props}
    (h : SameProps i scope p q) :
    Paints σ i root sc (wireField i b hooks scope p) (some (Scene.wireField b hooks q))
      (SameProps i scope) := by
  unfold wireField Scene.wireField
  cases b.name?.or b.id? with
  | none => exact .silent (silent_log _) fun _ => .pure h
  | some name =>
    refine .foldl hooks (fun p q hook _ h => ?_) h
    refine (userHandler?_paints b hook.1).value fun user _ => .silent (silent_trace _) fun _ => .pure ?_
    exact h.insert _ (sameProperty_handler _)

theorem wireContainer_paints (b : Brick) (hooks : List String) {p q : Props}
    (h : SameProps i scope p q) :
    Paints σ i root sc (wireContainer i b hooks scope p) (some (sc.wireContainer b hooks q))
      (SameProps i scope) := by
  refine .foldl hooks (fun p q hook _ h => ?_) h
  refine (userHandler?_paints b hook).value fun user hu => ?_
  rw [← hu]
  cases user with
  | none => exact .pure h
  | some user => exact .pure (h.insert _ (sameProperty_handler _))

theorem fixedProps_paints (hroot : σ.root scope = root) (b : Brick) (typeName : String)
    (dynamic : List String) :
    Paints σ i root sc (fixedProps i b typeName dynamic scope)
      (some (sc.fixedProps (σ.layers scope) b typeName dynamic)) (SameProps i scope) := by
  refine .get fun s _ hs => .interpreter fun it hc _ _ => ?_
  rw [hs.registry, hc]
  refine Paints.value (b := sc.ownProps (σ.layers scope) b typeName dynamic) (Q := SameProps i scope)
    (.foldl _ (fun p q e _ h => ?_) ⟨rfl, .nil⟩) fun p hp => ?_
  · refine (property?_paints hroot b e.1 e.2).value fun found hf => ?_
    generalize sc.property? (σ.layers scope) e.1 e.2 = drawn at hf
    cases hf with
    | none => exact .pure h
    | some hv => exact .pure (h.insert _ hv)
  unfold Scene.fixedProps Scene.wire
  cases sc.registry.field? typeName with
  | none =>
    refine Paints.value (b := sc.ownProps (σ.layers scope) b typeName dynamic) (.pure hp) fun p hp => ?_
    cases sc.registry.container? typeName with
    | none => exact .pure hp
    | some hooks => exact wireContainer_paints b hooks hp
  | some hooks =>
    refine (wireField_paints b hooks hp).value fun p hp => ?_
    cases sc.registry.container? typeName with
    | none => exact .pure hp
    | some hooks => exact wireContainer_paints b hooks hp

theorem parseMarked_paints (entries : List (String × String)) :
    Paints σ i root sc (parseMarked entries) (some (Scene.parsed entries)) (· = ·) := by
  refine .foldl entries (fun b c e _ h => ?_) rfl
  subst h
  dsimp only
  cases Expr.parse e.2 with
  | ok e => exact .pure rfl
  | error cause => exact .silent (silent_log _) fun _ => .pure rfl

/-! ### Layouts -/

variable {render : Renderer} {artist : Artist}

/-- In the scope, the renderer gives what the artist draws. -/
def Shows (σ : Store) (i : Nat) (root scope : Scope) (sc : Scene) (render : Renderer)
    (artist : Artist) : Prop :=
  ∀ v, Paints σ i root sc (render i v scope) (artist (σ.layers scope) v)
    (Option.Rel (SameNode σ i sc.transport scope))

abbrev SameNodes (σ : Store) (i : Nat) (tr : Bool) (scope : Scope) : List Node → List Sketch → Prop :=
  List.Forall₂ (SameNode σ i tr scope)

theorem sameNode_primitive (v : Json) : SameNode σ i tr scope (.primitive v) (.primitive v) :=
  ⟨rfl, Node.placed_primitive v⟩

theorem SameNodes.map_sketch {ns : List Node} {ks : List Sketch} (h : SameNodes σ i tr scope ns ks) :
    Node.sketchAll σ ns = ks ∧ ∀ n ∈ ns, n.Placed (·.At i tr scope) := by
  induction h with
  | nil => exact ⟨rfl, fun _ hn => nomatch hn⟩
  | cons h _ ih =>
    refine ⟨by rw [Node.sketchAll, h.1, ih.1], ?_⟩
    simp only [List.forall_mem_cons]
    exact ⟨h.2, ih.2⟩

theorem sameNode_element {ns : List Node} {ks : List Sketch} (h : SameNodes σ i tr scope ns ks)
    (tag : String) (key : Option String) {p q : Props} (hp : p.bare = q) :
    SameNode σ i tr scope (.element tag key p ns) (.element tag key q ks) := by
  obtain ⟨hs, hpl⟩ := h.map_sketch
  exact ⟨by rw [Node.sketch, hs, hp], Node.placed_element.2 hpl⟩

theorem sameNode_fragment {ns : List Node} {ks : List Sketch} (h : SameNodes σ i tr scope ns ks)
    (key : Option String) : SameNode σ i tr scope (.fragment key ns) (.fragment key ks) := by
  obtain ⟨hs, hpl⟩ := h.map_sketch
  exact ⟨by rw [Node.sketch, hs], Node.placed_fragment.2 hpl⟩

theorem SameNode.withKey? {n : Node} {k : Sketch} (h : SameNode σ i tr scope n k)
    (key : Option String) : SameNode σ i tr scope (n.withKey? key) (k.withKey? key) :=
  ⟨by rw [Node.sketch_withKey?, h.1], h.2.withKey? key⟩

theorem tree_paints (hr : Shows σ i root scope sc render artist) (layout : Json) :
    Paints σ i root sc (tree render i layout scope) (Scene.tree artist (σ.layers scope) layout)
      (SameNodes σ i sc.transport scope) := by
  cases layout with
  | array items => exact .filterMapM items fun item => hr item
  | _ =>
    refine (hr _).map fun n k h => ?_
    cases h with
    | none => exact .nil
    | some h => exact .cons h .nil

theorem content_paints (hr : Shows σ i root scope sc render artist) (v : Json) :
    Paints σ i root sc (content render i v scope) (Scene.content artist (σ.layers scope) v)
      (SameNodes σ i sc.transport scope) := by
  cases v with
  | null => exact .pure .nil
  | array items => exact tree_paints hr (.array items)
  | object fields => exact tree_paints hr (.object fields)
  | _ => exact .pure (.cons (sameNode_primitive _) .nil)

theorem children_paints (hr : Shows σ i root scope sc render artist) (hroot : σ.root scope = root)
    (given : Option Json) :
    Paints σ i root sc (children render i given scope) (sc.children artist (σ.layers scope) given)
      (SameNodes σ i sc.transport scope) := by
  match given with
  | none | some .null => exact .pure .nil
  | some (.string s) =>
    refine (evaluate?_paints hroot s).value fun v h => ?_
    simp only [Scene.children, ← h]
    cases v with
    | none => exact .pure .nil
    | some v => exact content_paints hr v
  | some (.bool b) => exact tree_paints hr (.bool b)
  | some (.number n) => exact tree_paints hr (.number n)
  | some (.array items) => exact tree_paints hr (.array items)
  | some (.object fields) => exact tree_paints hr (.object fields)

/-- A rendering in the scope, where the scene has the layers of the scope. -/
def SameRendering (σ : Store) (i : Nat) (scope : Scope) : Option Rendering → Option Layers → Prop :=
  Option.Rel fun r layers => r = .interpreted i scope ∧ layers = σ.layers scope

theorem SameProps.rendering {p q : Props} (h : SameProps i scope p q) (σ : Store) :
    SameRendering σ i scope p.rendering? (Scene.rendering? (σ.layers scope) q) := by
  rw [Scene.rendering?, ← h.1, Props.rendering?_bare]
  cases hr : p.rendering? with
  | none => exact .none
  | some r => exact .some ⟨h.2.rendering_eq hr, rfl⟩

theorem SameProps.erase {p q : Props} (h : SameProps i scope p q) (name : String) :
    SameProps i scope (Fields.erase p name) (Fields.erase q name) :=
  ⟨by rw [Props.bare_erase, h.1], h.2.erase name⟩

theorem SameProps.get?_value {p q : Props} (h : SameProps i scope p q) (name : String) :
    (Fields.get? q name).bind Property.value? = (Fields.get? p name).bind Property.value? := by
  rw [← h.1, Props.get?_bare]
  cases Fields.get? p name with
  | none => rfl
  | some v => exact v.value?_bare

theorem layoutAt_paints (hr : Shows σ i root scope sc render artist) {rendering : Option Rendering}
    {drawn : Option Layers} (h : SameRendering σ i scope rendering drawn) {p q : Props}
    (hp : SameProps i scope p q) (name : String) :
    Paints σ i root sc (layoutAt render rendering (Fields.get? p name))
      (Scene.layoutAt artist drawn (Fields.get? q name)) (Option.Rel (SameNodes σ i sc.transport scope)) := by
  unfold layoutAt Scene.layoutAt
  rw [hp.get?_value]
  cases h with
  | none => cases (Fields.get? p name).bind Property.value? <;> exact .pure .none
  | some h =>
    obtain ⟨rfl, rfl⟩ := h
    cases (Fields.get? p name).bind Property.value? with
    | none => exact .pure .none
    | some layout => exact (tree_paints hr layout).map fun _ _ h => .some h

theorem section?_paints (hr : Shows σ i root scope sc render artist) {rendering : Option Rendering}
    {drawn : Option Layers} (h : SameRendering σ i scope rendering drawn) {p q : Props}
    (hp : SameProps i scope p q) (name : String) :
    Paints σ i root sc (section? render rendering p name) (Scene.section? artist drawn q name)
      (SameNodes σ i sc.transport scope) := by
  refine (layoutAt_paints hr h hp name).bind fun a b hab => ?_
  cases hab with
  | none => exact .pure .nil
  | some h => exact .pure (.cons (sameNode_element h _ _ rfl) .nil)

theorem SameNodes.append {ns ms : List Node} {ks ls : List Sketch} (h : SameNodes σ i tr scope ns ks)
    (h' : SameNodes σ i tr scope ms ls) : SameNodes σ i tr scope (ns ++ ms) (ks ++ ls) :=
  List.rel_append h h'

theorem follow_paints (hr : Shows σ i root scope sc render artist) (recipe : Recipe) {p q : Props}
    (hp : SameProps i scope p q) {ns : List Node} {ks : List Sketch} (hn : SameNodes σ i sc.transport scope ns ks) :
    Paints σ i root sc (follow render recipe p ns)
      (Scene.follow artist recipe (σ.layers scope) q ks) (SameNode σ i sc.transport scope) := by
  have hrend := hp.rendering σ
  have hrest := hp.erase Props.renderingName
  cases recipe with
  | group key => exact .pure (sameNode_fragment hn _)
  | text s => exact .pure (sameNode_primitive _)
  | container tag attributes =>
    refine Paints.bind (Q := fun b c => SameProps i scope b.1 c.1 ∧ SameNodes σ i sc.transport scope b.2 c.2)
      (.foldlM attributes (fun b c name _ h => ?_) ⟨hrest, .nil⟩) fun b c h => ?_
    · refine (layoutAt_paints hr hrend h.1 name).bind fun _ _ hab => ?_
      cases hab with
      | none => exact .pure ⟨h.1.erase name, h.2⟩
      | some hab => exact .pure ⟨h.1.erase name, h.2.append hab⟩
    · exact .pure (sameNode_element (h.2.append hn) _ _ h.1.1)
  | card =>
    refine (section?_paints hr hrend hrest "header").bind fun _ _ hh => ?_
    have hrest := hrest.erase "header"
    refine (section?_paints hr hrend hrest "footer").bind fun _ _ hf => .pure ?_
    refine sameNode_element ?_ _ _ (hrest.erase "footer").1
    exact (hh.append (.cons (sameNode_element hn _ _ rfl) .nil)).append hf

theorem renderingLayers_eq {p q : Props} (hp : SameProps i scope p q) :
    Component.renderingLayers σ p = (Scene.rendering? (σ.layers scope) q).getD [] := by
  unfold Component.renderingLayers
  generalize hdrawn : Scene.rendering? (σ.layers scope) q = drawn
  have h := hp.rendering σ
  rw [hdrawn] at h
  generalize p.rendering? = r at h
  cases h with
  | none => rfl
  | some h =>
    obtain ⟨rfl, rfl⟩ := h
    rfl

theorem sameNode_component {c d : Component} {layers : Layers} (hc : c.At i tr scope)
    (hbare : c.bare = d) (hl : c.layers σ = layers) (key : Option String) :
    SameNode σ i tr scope (.component key c) (.component key layers d) :=
  ⟨by rw [Node.sketch, hbare, hl], Node.placed_component.2 hc⟩

theorem build_paints (hr : Shows σ i root scope sc render artist) (target : Target) {p q : Props}
    (hp : SameProps i scope p q) {ns : List Node} {ks : List Sketch} (hn : SameNodes σ i sc.transport scope ns ks) :
    Paints σ i root sc (build render target p ns scope sc.transport)
      (sc.build artist target (σ.layers scope) q ks) (SameNode σ i sc.transport scope) := by
  have hl := renderingLayers_eq (σ := σ) hp
  match target with
  | .special .conditional =>
    exact .pure (sameNode_component (c := .conditional p) hp.2 (by rw [← hp.1]; rfl) hl none)
  | .special .forEach =>
    exact .pure (sameNode_component (c := .forEach p) hp.2 (by rw [← hp.1]; rfl) hl none)
  | .special .slot =>
    exact .pure (sameNode_component (c := .slot p) hp.2 (by rw [← hp.1]; rfl) hl none)
  | .special .fetch =>
    exact .pure (sameNode_component (c := .fetch ⟨p, scope, sc.transport⟩) ⟨rfl, rfl, hp.2⟩
      (by rw [← hp.1]; rfl) rfl none)
  | .constructor (.element tag) => exact .pure (sameNode_element hn _ _ hp.1)
  | .constructor (.recipe _ recipe) => exact follow_paints hr recipe hp hn
  | .tag name => exact .pure (sameNode_element hn _ _ hp.1)

/-! ### Bricks -/

theorem outfit_same {p : Props} {b : Brick} {typeName : String} {dynamic : List String}
    (hp : SameProps i scope p (sc.fixedProps (σ.layers scope) b typeName dynamic)) (target : Target) :
    SameProps i scope
      (if sc.renders typeName target then
        p.insert Props.renderingName (.rendering (.interpreted i scope)) else p)
      (sc.outfit (σ.layers scope) b typeName target dynamic) := by
  unfold Scene.outfit
  split
  · refine ⟨by rw [Props.bare_insert, hp.1]; rfl, hp.2.insert _ fun r hr => ?_⟩
    cases hr
    rfl
  · exact hp

theorem sameNode_proxy {p : Props} {b : Brick} {typeName : String} {target : Target}
    (hp : SameProps i scope p (sc.outfit (σ.layers scope) b typeName target b.expressions))
    {parsed : List Dynamic × List String}
    (h : parsed = Scene.parsed (marked sc.config b b.expressions)) :
    SameNode σ i sc.transport scope
      (.component b.id? (.proxy
        { target, key := b.id?, fixed := p, dynamic := parsed.1, scope, children := b.children?,
          interpreter := i, depends := parsed.2 }))
      (.component b.id? (σ.layers scope) (.proxy (sc.proxy (σ.layers scope) b typeName target))) := by
  subst h
  refine sameNode_component (c := .proxy _) ⟨rfl, rfl, hp.2, ?_⟩ ?_ rfl b.id?
  · simp only [Proxy.Parsed, Scene.parsed_map]
  · simp only [Component.bare, hp.1]
    rfl

theorem brick_paints (hr : Shows σ i root scope sc render artist) (hroot : σ.root scope = root)
    (b : Brick) (typeName : String) (target : Target) :
    Paints σ i root sc (brick render i b typeName target scope)
      (sc.brick artist (σ.layers scope) b typeName target) (SameNode σ i sc.transport scope) := by
  refine .silent (silent_trace _) fun _ => ?_
  refine (fixedProps_paints hroot b typeName b.expressions).value fun p hp => ?_
  refine .get fun s _ hs => ?_
  rw [hs.registry]
  -- The properties are those of the scene, whatever else goes into them.
  suffices rest : ∀ out, SameProps i scope out (sc.outfit (σ.layers scope) b typeName target b.expressions) →
      Paints σ i root sc
        (if b.expressions.isEmpty then do
          let nodes ← children render i b.children? scope
          let node ← build render target out nodes scope (← interpreter? i).transport
          return node.withKey? b.id?
        else do
          let parsed ← parseMarked (marked (← interpreter? i).config b b.expressions)
          return .component b.id? (.proxy
            { target, key := b.id?, fixed := out, dynamic := parsed.1, scope, children := b.children?,
              interpreter := i, depends := parsed.2 }))
        (sc.brick artist (σ.layers scope) b typeName target) (SameNode σ i sc.transport scope) from
    rest _ (outfit_same hp target)
  intro out hout
  unfold Scene.brick
  by_cases hnone : b.expressions.isEmpty = true
  · rw [if_pos hnone, if_pos hnone]
    rw [List.isEmpty_iff.1 hnone] at hout
    refine (children_paints hr hroot b.children?).bind fun ns ks hn => ?_
    refine .interpreter fun it _ ht _ => ?_
    rw [ht]
    exact (build_paints hr target hout hn).bind fun _ _ h => .pure (h.withKey? b.id?)
  · rw [if_neg hnone, if_neg hnone]
    refine .interpreter fun it hc _ _ => ?_
    rw [hc]
    exact (parseMarked_paints _).value fun parsed h => .pure (sameNode_proxy hout h)

theorem node_paints (hr : Shows σ i root scope sc render artist) (hroot : σ.root scope = root)
    (v : Json) :
    Paints σ i root sc (node render i v scope) (sc.node artist (σ.layers scope) v)
      (Option.Rel (SameNode σ i sc.transport scope)) := by
  cases v with
  | null => exact .pure .none
  | array items => exact (tree_paints hr (.array items)).map fun _ _ h => .some (sameNode_fragment h none)
  | object fields =>
    simp only [node, Scene.node]
    cases (Brick.mk fields).typeName? with
    | none => exact .silent (silent_log _) fun _ => .pure .none
    | some typeName =>
      refine (resolve?_paints typeName).value fun target ht => ?_
      dsimp only
      rw [← ht]
      cases target with
      | none => exact .pure .none
      | some target =>
        intro s hσ hs
        dsimp only
        rw [hs.allowed, if_pos rfl]
        exact (brick_paints hr hroot ⟨fields⟩ typeName target).map (fun _ _ h => .some h) s hσ hs
  | _ => exact .pure (.some (sameNode_primitive _))

/-- Rendering a layout gives what the scene draws in the layers of the scope. -/
theorem upTo_paints (hroot : σ.root scope = root) (depth : Nat) :
    Shows σ i root scope sc (upTo depth) (sc.upTo depth) := by
  induction depth with
  | zero => exact fun _ _ _ _ => .endless
  | succ depth ih => exact fun v => node_paints ih hroot v

end LiveLayout.Renderer
