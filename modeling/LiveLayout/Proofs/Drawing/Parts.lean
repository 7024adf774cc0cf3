import LiveLayout.Proofs.Drawing.Render
import LiveLayout.Proofs.Store.Subscriptions
/-!
Components render what the scene draws for them. They add forks to the store, and change nothing else of
it.
-/
namespace LiveLayout

open Engine

/-- The second state differs from the first by records, by what interpreters have asked for and by new
forks. -/
structure Forked (s s' : State) : Prop where
  rest : s' = { s with
    store := s'.store
    notices := s'.notices
    events := s'.events
    interpreters := s'.interpreters }
  interpreters : Interpreter.Keep s.interpreters s'.interpreters
  store : s.store.Extends s'.store

namespace Forked

variable {s s' s'' : State}

theorem refl (s : State) : Forked s s := ⟨rfl, .refl _, .refl _⟩

theorem trans (h : Forked s s') (h' : Forked s' s'') : Forked s s'' := by
  refine ⟨?_, h.interpreters.trans h'.interpreters, h.store.trans h'.store⟩
  conv_lhs => rw [h'.rest, h.rest]

theorem registry (h : Forked s s') : s'.registry = s.registry := by rw [h.rest]

theorem network (h : Forked s s') : s'.network = s.network := by rw [h.rest]

theorem hosts (h : Forked s s') : s'.hosts = s.hosts := by rw [h.rest]

theorem fetches (h : Forked s s') : s'.fetches = s.fetches := by rw [h.rest]

theorem fork (s : State) (parent : Scope) (label : String) (bindings : List (String × Json)) :
    Forked s { s with store := (s.store.fork parent label bindings).2 } :=
  ⟨rfl, .refl _, s.store.extends_push rfl⟩

end Forked

theorem Quiet.forked {s s' : State} (h : Quiet s s') : Forked s s' := by
  refine ⟨?_, h.interpreters, by rw [h.store]; exact .refl _⟩
  conv_lhs => rw [h.rest]
  rw [h.store]

/-- The component renders by the interpreter, in a scope of the store over the root. -/
def Within (σ : Store) (i : Nat) (tr : Bool) (root : Scope) (c : Component) : Prop :=
  ∃ scope, scope < σ.levels.size ∧ σ.root scope = root ∧ c.At i tr scope

theorem Within.keep {σ τ : Store} {i root : Nat} {tr : Bool} {c : Component}
    (h : Within σ i tr root c) (hστ : σ.KeepsScopes τ) : Within τ i tr root c := by
  obtain ⟨scope, hlt, hroot, hat⟩ := h
  exact ⟨scope, hστ.lt_size hlt, (hστ.root_eq hlt).trans hroot, hat⟩

theorem Within.layers_eq {σ τ : Store} {i root : Nat} {tr : Bool} {c : Component}
    (h : Within σ i tr root c) (hστ : σ.KeepsForks τ) : c.layers τ = c.layers σ := by
  obtain ⟨scope, hlt, -, hat⟩ := h
  exact hat.layers_congr (hστ.layers_eq hlt)

theorem OnStage.forked {s s' : State} {i root : Nat} {sc : Scene} (h : OnStage s i root sc)
    (hf : Forked s s') (hroot : root < s.store.levels.size) : OnStage s' i root sc := by
  refine ⟨hf.registry.trans h.registry, ?_, ?_, by rw [hf.network, h.answer], h.allowed, h.fetches⟩
  · obtain ⟨r, hr, hc, ht, hs, hfaith⟩ := h.interpreter
    obtain ⟨r', hr', hl⟩ := hf.interpreters i r hr
    exact ⟨r', hr', hl.config.trans hc, hl.transport.trans ht, hl.source.trans hs, hl.faithful hfaith⟩
  · rw [← h.root, hf.store.values.valueAt?_eq hroot]

/-- Nodes as the scene draws them, within the scopes of the store. -/
structure Drawn (σ : Store) (i : Nat) (tr : Bool) (root : Scope) (ns : List Node) (ks : List Sketch) :
    Prop where
  sketch : ns.map (Node.sketch σ) = ks
  placed : ∀ n ∈ ns, n.Placed (Within σ i tr root)

namespace Drawn

variable {σ τ : Store} {i root scope : Nat} {tr : Bool} {ns ms : List Node} {ks ls : List Sketch}

theorem nil : Drawn σ i tr root [] [] := ⟨rfl, fun _ h => nomatch h⟩

theorem append (h : Drawn σ i tr root ns ks) (h' : Drawn σ i tr root ms ls) :
    Drawn σ i tr root (ns ++ ms) (ks ++ ls) := by
  refine ⟨by rw [List.map_append, h.sketch, h'.sketch], fun n hn => ?_⟩
  rcases List.mem_append.1 hn with hn | hn
  · exact h.placed n hn
  · exact h'.placed n hn

theorem of_sameNodes (h : Renderer.SameNodes σ i tr scope ns ks) (hscope : scope < σ.levels.size)
    (hroot : σ.root scope = root) : Drawn σ i tr root ns ks := by
  obtain ⟨hs, hp⟩ := h.map_sketch
  exact ⟨by rw [← hs, Node.sketchAll_eq], fun n hn =>
    (hp n hn).mono fun _ hat => ⟨scope, hscope, hroot, hat⟩⟩

/-- What is drawn stays as it is while only forks are added. -/
theorem keep (h : Drawn σ i tr root ns ks) (hστ : σ.KeepsForks τ) : Drawn τ i tr root ns ks := by
  refine ⟨?_, fun n hn => (h.placed n hn).mono fun _ hw => hw.keep hστ.keepsScopes⟩
  rw [← h.sketch]
  exact List.map_congr_left fun n hn => (h.placed n hn).sketch_congr fun c hw => hw.layers_eq hστ

theorem fragment (h : Drawn σ i tr root ns ks) (key : Option String) :
    Drawn σ i tr root [.fragment key ns] [.fragment key ks] := by
  refine ⟨?_, fun n hn => ?_⟩
  · rw [← h.sketch, List.map_singleton, Node.sketch, Node.sketchAll_eq]
  · rw [List.mem_singleton.1 hn]
    exact Node.placed_fragment.2 h.placed

end Drawn

/-! ### Proxies -/

section Proxy

variable {σ : Store} {i root scope : Nat} {sc : Scene} {render : Renderer} {artist : Artist}

theorem Proxy.evaluate?_paints {p : Proxy} (hroot : σ.root p.scope = root) (d : Dynamic) :
    Paints σ i root sc (p.evaluate? d) (some (sc.current? (σ.layers p.scope) d)) (· = ·) := by
  unfold Proxy.evaluate? Scene.current?
  cases d.expr with
  | none => exact .pure rfl
  | some e =>
    refine .get fun s hσ hs => ?_
    have heval : (s.store.evaluate p.scope e).toOption = sc.evaluate? (σ.layers p.scope) e := by
      rw [Store.evaluate, hσ, Renderer.lookup?_eq hσ hs hroot, Scene.evaluate?]
    simp only [Option.bind_some, ← heval]
    cases s.store.evaluate p.scope e with
    | error cause => exact .silent (silent_log _) fun _ => .pure rfl
    | ok v => exact .pure rfl

theorem Proxy.kids_paints {p : Proxy} (hat : (Component.proxy p).At i sc.transport scope)
    (hroot : σ.root scope = root) (hr : Renderer.Shows σ i root scope sc render artist) :
    Paints σ i root sc (p.kids render) (sc.proxyKids artist (σ.layers scope) p)
      (Renderer.SameNodes σ i sc.transport scope) := by
  obtain ⟨rfl, rfl, -⟩ := hat
  unfold Proxy.kids Scene.proxyKids
  cases p.dynamic.find? (·.name = "children") with
  | some d =>
    refine (Proxy.evaluate?_paints hroot d).value fun v h => ?_
    dsimp only
    rw [← h]
    cases v with
    | some v => exact Renderer.content_paints hr v
    | none => exact .pure .nil
  | none =>
    cases p.children with
    | some layout => exact Renderer.tree_paints hr layout
    | none => exact .pure .nil

theorem Proxy.node_paints {p : Proxy} (hat : (Component.proxy p).At i sc.transport scope)
    (hroot : σ.root scope = root) (hr : Renderer.Shows σ i root scope sc render artist) :
    Paints σ i root sc (p.node render)
      (sc.proxyNode artist (σ.layers scope) { p with
        fixed := p.fixed.bare
        scope := 0
        interpreter := 0
        subscriber := none })
      (Renderer.SameNode σ i sc.transport scope) := by
  obtain ⟨rfl, rfl, hfixed, -⟩ := id hat
  refine Paints.value (b := sc.proxyProps (σ.layers p.scope) { p with fixed := p.fixed.bare })
    (Q := Renderer.SameProps p.interpreter p.scope) (.foldl _ (fun q r d _ h => ?_) ⟨rfl, hfixed⟩) fun q hq => ?_
  · refine (Proxy.evaluate?_paints hroot d).value fun v hv => ?_
    rw [← hv]
    cases v with
    | some v => exact .pure (h.insert _ (Renderer.sameProperty_value v))
    | none => exact .pure (h.erase _)
  refine (Proxy.kids_paints hat hroot hr).bind fun ns ks hn => ?_
  refine .interpreter fun it _ ht _ => ?_
  rw [ht]
  exact (Renderer.build_paints hr p.target hq hn).bind fun _ _ h => .pure (h.withKey? p.key)

end Proxy

/-! ### Components -/

section Component

variable {s : State} {i root scope : Nat} {sc : Scene}

/-- What a component's rendering gives, with what has changed meanwhile. -/
def Rendered (s : State) (i : Nat) (tr : Bool) (root : Scope) (ns : List Node) (ks : List Sketch)
    (s' : State) : Prop := Forked s s' ∧ Drawn s'.store i tr root ns ks

theorem rendered_of_paints {x : Engine (List Node)} {r : Option (List Sketch)}
    (h : Paints s.store i root sc x r (Renderer.SameNodes s.store i sc.transport scope)) (hs : OnStage s i root sc)
    (hscope : scope < s.store.levels.size) (hroot : s.store.root scope = root) :
    Yields x s r (Rendered s i sc.transport root) := by
  refine (h s rfl hs).mono fun ns ks s' ⟨hq, hn⟩ => ⟨hq.forked, ?_⟩
  rw [hq.store]
  exact .of_sameNodes hn hscope hroot

theorem tree_yields (hs : OnStage s i root sc) (hscope : scope < s.store.levels.size)
    (hroot : s.store.root scope = root) (depth : Nat) (layout : Json) :
    Yields (Renderer.tree (Renderer.upTo depth) i layout scope) s
      (Scene.tree (sc.upTo depth) (s.store.layers scope) layout) (Rendered s i sc.transport root) :=
  rendered_of_paints (Renderer.tree_paints (Renderer.upTo_paints hroot depth) layout) hs hscope hroot

/-- A layout rendered in a fork of the scope is drawn beneath the fork's bindings. -/
theorem fork_yields (hs : OnStage s i root sc) (hscope : scope < s.store.levels.size)
    (hroot : s.store.root scope = root) (depth : Nat) (layout : Json) (label : String)
    (bindings : List (String × Json)) :
    Yields (Renderer.kids (Renderer.upTo depth) (.interpreted i scope) layout (some (label, bindings))) s
      (Scene.tree (sc.upTo depth) (bindings :: s.store.layers scope) layout) (Rendered s i sc.transport root) := by
  have hfork := Forked.fork s scope label bindings
  have hlt : root < s.store.levels.size := by
    rw [← hroot]
    exact Nat.lt_of_le_of_lt (s.store.root_le scope) hscope
  have hscope' : s.store.levels.size < (s.store.fork scope label bindings).2.levels.size := by
    simp [Store.fork]
  refine .bind_run (t := { s with store := (s.store.fork scope label bindings).2 }) rfl ?_
  rw [← s.store.layers_push label bindings hscope]
  refine (tree_yields (hs.forked hfork hlt) hscope' ?_ depth layout).mono fun ns ks s' h =>
    ⟨hfork.trans h.1, h.2⟩
  exact (s.store.root_push label bindings hscope).trans hroot

theorem under_yields (hs : OnStage s i root sc) (hscope : scope < s.store.levels.size)
    (hroot : s.store.root scope = root) {p : Props} (hp : p.At i scope) (depth : Nat) (name : String) :
    Yields (p.render (Renderer.upTo depth) name) s
      (Scene.under (sc.upTo depth) (Component.renderingLayers s.store p) p.bare name)
      (Rendered s i sc.transport root) := by
  unfold Props.render Scene.under Component.renderingLayers
  rw [Props.rendering?_bare, Props.value?_bare]
  cases hr : p.rendering? with
  | none => exact .pure ⟨.refl s, .nil⟩
  | some r =>
    obtain rfl := hp.rendering_eq hr
    cases p.value? name with
    | none => exact .pure ⟨.refl s, .nil⟩
    | some layout => exact tree_yields hs hscope hroot depth layout

/-- The elements of a list are drawn one after the other, each in a fork of its own. -/
theorem forEach_yields (hs : OnStage s i root sc) (hscope : scope < s.store.levels.size)
    (hroot : s.store.root scope = root) {p : Props} (hp : p.At i scope) (depth : Nat) :
    Yields (ForEach.render (Renderer.upTo depth) p) s
      (Scene.forEach (sc.upTo depth) (Component.renderingLayers s.store p) p.bare)
      (Rendered s i sc.transport root) := by
  have hlt : root < s.store.levels.size := by
    rw [← hroot]
    exact Nat.lt_of_le_of_lt (s.store.root_le scope) hscope
  unfold ForEach.render Scene.forEach Component.renderingLayers
  rw [Props.rendering?_bare]
  simp only [Props.value?_bare, Props.text?_bare]
  have nothing : Yields (pure []) s (some []) (Rendered s i sc.transport root) := .pure ⟨.refl s, .nil⟩
  cases hr : p.rendering? with
  | none => exact nothing
  | some r =>
    obtain rfl := hp.rendering_eq hr
    cases p.value? "items" with
    | none => exact nothing
    | some list =>
      cases list with
      | array items =>
        cases p.text? "as" with
        | none => exact nothing
        | some binding =>
          cases p.value? "template" with
          | none => exact nothing
          | some template =>
            refine (Yields.mapM (I := fun _ bs cs t => Forked s t ∧ Drawn t.store i sc.transport root bs cs)
              (fun e _ bs cs t h => ?_) (items.zip (ForEach.keys [] items 0)) [] [] ⟨.refl s, .nil⟩).mono
              fun bs cs t h => h
            obtain ⟨hf, hd⟩ := h
            have hkeep := hf.store.values.keepsForks
            have hscope' := hkeep.keepsScopes.lt_size hscope
            have hroot' := (hkeep.keepsScopes.root_eq hscope).trans hroot
            have hs' := hs.forked hf hlt
            have hfork := fork_yields hs' hscope' hroot' depth template "ForEach" [(binding, e.1)]
            dsimp only
            rw [← hkeep.layers_eq hscope, Option.map_eq_bind]
            refine hfork.bind fun ns ks t' h' => .pure ⟨hf.trans h'.1, ?_⟩
            exact (hd.keep h'.1.store.values.keepsForks).append (h'.2.fragment (some e.2))
      | _ => exact nothing

theorem slot_yields (hs : OnStage s i root sc) (hscope : scope < s.store.levels.size)
    (hroot : s.store.root scope = root) {p : Props} (hp : p.At i scope) (depth : Nat) :
    Yields (Slot.render (Renderer.upTo depth) p) s
      (Scene.slot (sc.upTo depth) (Component.renderingLayers s.store p) p.bare)
      (Rendered s i sc.transport root) := by
  have hlayout : Slot.layout? p.bare = Slot.layout? p := by
    simp [Slot.layout?]
  unfold Slot.render Scene.slot Component.renderingLayers
  rw [Props.rendering?_bare, hlayout]
  cases hr : p.rendering? with
  | none => exact .pure ⟨.refl s, .nil⟩
  | some r =>
    obtain rfl := hp.rendering_eq hr
    cases Slot.layout? p with
    | none => exact .pure ⟨.refl s, .nil⟩
    | some layout => exact tree_yields hs hscope hroot depth layout

theorem bodyValue_paints {σ : Store} (hroot : σ.root scope = root) (raw : Json) :
    Paints σ i root sc (Fetch.bodyValue scope raw) (some (sc.bodyValue (σ.layers scope) raw))
      (· = ·) := by
  unfold Fetch.bodyValue Scene.bodyValue
  cases raw.str?.bind bindingText? with
  | none => exact .pure rfl
  | some text =>
    refine .get fun s hσ hs => ?_
    dsimp only
    rw [← Renderer.evaluateText_eq hσ hs hroot]
    cases s.store.evaluateText scope text with
    | error e => exact .silent (silent_log _) fun _ => .pure rfl
    | ok v => exact .pure rfl

theorem body?_paints {σ : Store} {f : Fetch} (hroot : σ.root f.scope = root) :
    Paints σ i root sc f.body? (some (sc.body? (σ.layers f.scope) f.props.bare)) (· = ·) := by
  unfold Fetch.body? Scene.body?
  rw [Props.value?_bare]
  cases (f.props.value? "body").bind Json.items? with
  | none => exact .pure rfl
  | some entries =>
    refine Paints.value (b := entries.foldl (sc.bodyField (σ.layers f.scope)) []) (Q := (· = ·))
      (.foldl entries (fun b c entry _ h => ?_) rfl) fun fields h => .pure (by rw [h]; rfl)
    subst h
    unfold Scene.bodyField
    cases ((entry.get? "key").or (entry.get? "name")).bind Json.str? with
    | none => exact .silent (silent_log _) fun _ => .pure rfl
    | some key => exact (bodyValue_paints hroot _).value fun v hv => .pure (by rw [hv])

theorem header?_bare (p : Props) :
    p.bare.filterMap (fun e => Fetch.header? e.1 e.2) = p.filterMap fun e => Fetch.header? e.1 e.2 := by
  rw [Props.bare, List.filterMap_map]
  congr 1
  funext e
  simp only [Function.comp, Fetch.header?, Property.value?_bare]

theorem request?_paints {σ : Store} {f : Fetch} (hroot : σ.root f.scope = root) :
    Paints σ i root sc f.request? (some (sc.request? (σ.layers f.scope) f.props.bare)) (· = ·) := by
  unfold Fetch.request? Scene.request?
  simp only [Props.text?_bare]
  cases f.props.text? "url" with
  | none => exact .pure rfl
  | some url =>
    simp only [Option.map_some, header?_bare]
    cases isMutating (asciiUpper ((f.props.text? "method").getD "GET")) with
    | true => exact (body?_paints hroot).value fun body h => .pure (by rw [h]; rfl)
    | false => exact .pure rfl

theorem fork?_bare (p : Props) (state : FetchState) : Fetch.fork? p.bare state = Fetch.fork? p state := by
  cases state <;> simp [Fetch.fork?]

/-- The state of the request that a fetch component has made. -/
def State.fetchState (s : State) (self : Instance) : FetchState :=
  ((s.fetches.find? (·.owner = self)).map FetchRecord.state).getD .pending

theorem fetch_yields (hs : OnStage s i root sc) {f : Fetch} (hscope : f.scope < s.store.levels.size)
    (hroot : s.store.root f.scope = root) (hp : f.props.At i f.scope) (self : Instance) (depth : Nat) :
    Yields (f.render (Renderer.upTo depth) self) s
      (Scene.fetch (sc.upTo depth) (s.store.layers f.scope) f.props.bare (s.fetchState self))
      (Rendered s i sc.transport root) := by
  refine .bind_run (a := s.fetches.find? (·.owner = self)) (t := s) rfl ?_
  have hstate : ((s.fetches.find? (·.owner = self)).map FetchRecord.state).getD .pending = s.fetchState self := rfl
  dsimp only
  rw [hstate]
  unfold Scene.fetch
  simp only [Props.rendering?_bare, Props.value?_bare, fork?_bare]
  have hunder (name : String) := under_yields hs hscope hroot hp depth name
  unfold Component.renderingLayers at hunder
  have nothing : Yields (pure []) s (some []) (Rendered s i sc.transport root) := .pure ⟨.refl s, .nil⟩
  cases hr : f.props.rendering? with
  | none => exact nothing
  | some r =>
    obtain rfl := hp.rendering_eq hr
    rw [hr] at hunder
    cases s.fetchState self with
    | pending => exact hunder _
    | succeeded response data =>
      dsimp only
      cases Fetch.fork? f.props (.succeeded response data) with
      | none => exact nothing
      | some e => exact fork_yields hs hscope hroot depth e.1 "Fetch" e.2
    | failed error =>
      dsimp only
      cases Fetch.fork? f.props (.failed error) with
      | none => exact nothing
      | some e => exact fork_yields hs hscope hroot depth e.1 "Fetch" e.2

/-- A component whose request is as at first renders what the scene draws for it. -/
theorem component_yields (hs : OnStage s i root sc) (hscope : scope < s.store.levels.size)
    (hroot : s.store.root scope = root) {c : Component} (hc : c.At i sc.transport scope) {self : Instance}
    (hstate : ∀ f, c = .fetch f → s.fetchState self =
      sc.firstState (s.store.layers f.scope) { f with props := f.props.bare, scope := 0 })
    (depth : Nat) :
    Yields (c.render (Renderer.upTo depth) self) s
      (sc.component (sc.upTo depth) (c.layers s.store) c.bare) (Rendered s i sc.transport root) := by
  cases c with
  | proxy p =>
    obtain ⟨rfl, rfl, -⟩ := id hc
    refine rendered_of_paints ?_ hs hscope hroot
    exact (Proxy.node_paints hc hroot (Renderer.upTo_paints hroot depth)).map fun _ _ h => .cons h .nil
  | conditional props =>
    have hbranch : Conditional.branch props.bare = Conditional.branch props := by
      simp [Conditional.branch]
    simp only [Component.bare, Scene.component, hbranch]
    exact under_yields hs hscope hroot hc depth _
  | forEach props => exact forEach_yields hs hscope hroot hc depth
  | slot props => exact slot_yields hs hscope hroot hc depth
  | fetch f =>
    obtain ⟨rfl, -, hp⟩ := hc
    simp only [Component.bare, Scene.component, Component.layers, hs.fetches, if_true]
    rw [← hstate f rfl]
    exact fetch_yields hs hscope hroot hp self depth
  | probe | plain => exact hc.elim

/-- Whether the component makes a request. -/
def Component.Fetches (c : Component) : Prop := ∃ f, c = .fetch f

/-- Whatever has become of a request, a component adds but forks, and its nodes stand in scopes over the
same root. One without a request renders what the scene draws for it. -/
theorem component_ensures (hs : OnStage s i root sc) (hscope : scope < s.store.levels.size)
    (hroot : s.store.root scope = root) {c : Component} (hc : c.At i sc.transport scope) (self : Instance)
    (depth : Nat) :
    Ensures (c.render (Renderer.upTo depth) self) s fun ns s' =>
      Forked s s' ∧ (∀ n ∈ ns, n.Placed (Within s'.store i sc.transport root)) ∧
        (c.Fetches ∨ sc.component (sc.upTo depth) (c.layers s.store) c.bare =
          some (ns.map (Node.sketch s'.store))) := by
  have drawn (hf : ∀ f, c ≠ .fetch f) : Ensures (c.render (Renderer.upTo depth) self) s fun ns s' =>
      Forked s s' ∧ (∀ n ∈ ns, n.Placed (Within s'.store i sc.transport root)) ∧
        (c.Fetches ∨ sc.component (sc.upTo depth) (c.layers s.store) c.bare =
          some (ns.map (Node.sketch s'.store))) := by
    refine (component_yields hs hscope hroot hc (fun f h => absurd h (hf f)) depth).ensures.mono ?_
    rintro ns s' ⟨ks, hks, hforked, hdrawn⟩
    exact ⟨hforked, hdrawn.placed, .inr (by rw [hks, hdrawn.sketch])⟩
  cases c with
  | fetch f =>
    obtain ⟨rfl, -, hp⟩ := hc
    refine (fetch_yields hs hscope hroot hp self depth).ensures.mono ?_
    rintro ns s' ⟨ks, -, hforked, hdrawn⟩
    exact ⟨hforked, hdrawn.placed, .inl ⟨f, rfl⟩⟩
  | _ => exact drawn nofun

end Component
end LiveLayout
