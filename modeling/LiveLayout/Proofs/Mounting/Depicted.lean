import LiveLayout.Proofs.Mounting.Tree
/-!
Mounting and updating without a ledger. Whatever a tree has been before, once it is updated to new nodes it
shows what the scene draws for them, or something in it fetches.
-/
namespace LiveLayout

open Engine

namespace Engine

variable {α β γ δ : Type} {x : Engine α} {s : State} {r : Option β}

/-- The step gives a result wherever the calculation does. What it gives is related to what the calculation
gives, or to the calculation giving nothing. -/
structure Meets (x : Engine α) (s : State) (r : Option β) (Q : α → Option β → State → Prop) : Prop where
  total : x s = none → r = none
  ensures : Ensures x s fun a s' => Q a r s'

namespace Meets

variable {Q Q' : α → Option β → State → Prop} {R : γ → Option δ → State → Prop}

theorem of_run {a : α} {s' : State} (hx : x s = some (a, s')) (h : Q a r s') : Meets x s r Q := by
  refine ⟨fun hnone => ?_, .of_run hx h⟩
  rw [hx] at hnone
  cases hnone

theorem pure {a : α} (h : Q a r s) : Meets (pure a) s r Q := of_run rfl h

theorem endless : Meets endless s (none : Option β) Q := ⟨fun _ => rfl, .endless⟩

theorem mono (h : Meets x s r Q) (hQ : ∀ a s', Q a r s' → Q' a r s') : Meets x s r Q' :=
  ⟨h.total, h.ensures.mono hQ⟩

/-- What follows may give something even where the calculation has stopped. -/
theorem bind {f : α → Engine γ} {q : Option δ} (hx : Meets x s r Q) (hq : r = none → q = none)
    (hf : ∀ a t, Q a r t → Meets (f a) t q R) : Meets (x >>= f) s q R := by
  refine ⟨fun hnone => ?_, hx.ensures.bind fun a t hQ => (hf a t hQ).ensures⟩
  rw [Engine.bind_run] at hnone
  cases hrun : x s with
  | none => exact hq (hx.total hrun)
  | some e =>
    rw [hrun, Option.bind_some] at hnone
    exact (hf e.1 e.2 (hx.ensures e.1 e.2 hrun)).total hnone

theorem bind_run {f : α → Engine γ} {q : Option δ} {a : α} {t : State} (hx : x s = some (a, t))
    (hf : Meets (f a) t q R) : Meets (x >>= f) s q R := by
  refine ⟨fun hnone => hf.total ?_, .bind_run hx hf.ensures⟩
  rwa [Engine.bind_run, hx] at hnone

theorem of_yields {P : α → β → State → Prop} (h : Yields x s r P)
    (hQ : ∀ a b s', r = some b → P a b s' → Q a (some b) s') : Meets x s r Q := by
  rcases h.cases with ⟨hx, rfl⟩ | ⟨a, b, s', hx, rfl, hP⟩
  · refine ⟨fun _ => rfl, fun a s' hrun => ?_⟩
    rw [hx] at hrun
    cases hrun
  · exact of_run hx (hQ a b s' rfl hP)

end Meets
end Engine

/-! ### Components -/

namespace Component

variable {c next : Component} {i scope : Nat} {tr tr' : Bool} {s s' : State}

/-- The component comes from a layout. -/
def OfLayout (c : Component) : Prop := ∃ i tr scope, c.At i tr scope

/-- The component comes from a layout, and its interpreter and its scope exist. -/
def Seated (s : State) (c : Component) : Prop :=
  ∃ i tr scope, c.At i tr scope ∧ scope < s.store.levels.size ∧
    ∃ r, s.interpreters[i]? = some r ∧ r.Faithful

theorem Seated.ofLayout (h : c.Seated s) : c.OfLayout := by
  obtain ⟨i, tr, scope, hat, -⟩ := h
  exact ⟨i, tr, scope, hat⟩

theorem Seated.move (h : c.Seated s) (hscopes : s.store.KeepsScopes s'.store)
    (hinterpreters : ∀ (i : Nat) (r : Interpreter), s.interpreters[i]? = some r → r.Faithful →
      ∃ r', s'.interpreters[i]? = some r' ∧ r'.Faithful) : c.Seated s' := by
  obtain ⟨i, tr, scope, hat, hscope, r, hr, hf⟩ := h
  exact ⟨i, tr, scope, hat, hscopes.lt_size hscope, hinterpreters i r hr hf⟩

theorem Seated.keep {waits : Nat → Prop} (h : c.Seated s) (hk : KeepsFor waits s s') : c.Seated s' := by
  refine h.move hk.values.keepsScopes fun i r hr hf => ?_
  obtain ⟨r', hr', hl⟩ := hk.interpreters i r hr
  exact ⟨r', hr', hl.faithful hf⟩

/-- Only what fetches knows whether there is a transport. -/
theorem At.of_not_fetches (h : c.At i tr scope) (hc : ¬c.Fetches) : c.At i tr' scope := by
  cases c with
  | fetch f => exact absurd ⟨f, rfl⟩ hc
  | _ => exact h

theorem unmount_run (hc : c.OfLayout) (self : Instance) (s : State) :
    ∃ s', c.unmount self s = some ((), s') ∧ Keeps s s' := by
  cases c with
  | proxy p =>
    cases hsub : p.subscriber with
    | none => exact ⟨s, by simp [Component.unmount, Proxy.unmount, hsub], .refl s⟩
    | some who =>
      obtain ⟨s', hrun, hq⟩ := Proxy.unmount_run hsub s
      exact ⟨s', hrun, (KeepsFor.store s (s.store.keepsValues_unsubscribeAll _ _ _)).trans hq.keeps⟩
  | fetch f =>
    obtain ⟨s', hrun, hs', -⟩ := Fetch.unmount_run self s
    exact ⟨s', hrun, hs'.keeps⟩
  | conditional | forEach | slot => exact ⟨s, rfl, .refl s⟩
  | probe | plain =>
    obtain ⟨_, _, _, hat⟩ := hc
    exact hat.elim

/-- A proxy takes over from another for the same brick, whether it is subscribed or not. -/
theorem receive?_proxy {p q : Proxy} (h : p.sameBrick q = true) (s : State) :
    ∃ s', p.receive? q s = some (some (p.turned q), s') ∧ Keeps s s' := by
  cases hsub : p.subscriber with
  | some who => exact ⟨_, Proxy.receive?_run h hsub s, .store s (p.keepsValues_moved _ _ _)⟩
  | none =>
    refine ⟨s, ?_, .refl s⟩
    have hturned : (p.turned q).subscriber = none := hsub
    have hstill {p' : Proxy} (hp' : p'.subscriber = none) (f : Store → Scope → String → Subscriber → Store) :
        p'.changeSubscriptions f = pure () := by
      unfold Proxy.changeSubscriptions
      rw [hp']
    have hrun : p.receive? q s = (if p.scope ≠ q.scope then do
        p.changeSubscriptions Store.unsubscribe
        (p.turned q).changeSubscriptions Store.subscribe
        return some (p.turned q)
      else return some (p.turned q)) s := by
      unfold Proxy.receive?
      rw [h]
      rfl
    rw [hrun, hstill hsub, hstill hturned]
    split <;> rfl

/-- What a component becomes is what the next one describes. Of what fetches, the transport stays. -/
structure Becomes (next : Component) (i : Nat) (scope : Scope) (c' : Component) : Prop where
  place : ∃ tr, c'.At i tr scope
  fetches : c'.Fetches ↔ next.Fetches
  layers : ∀ σ, c'.layers σ = next.layers σ
  bare : ¬next.Fetches → c'.bare = next.bare

theorem receive?_run (hc : c.OfLayout) (hnext : next.At i tr scope) (s : State) :
    ∃ r s', c.receive? next s = some (r, s') ∧ Keeps s s' ∧ ∀ c', r = some c' → next.Becomes i scope c' := by
  have refuse (h : c.receive? next s = some (none, s)) : ∃ r s', c.receive? next s = some (r, s') ∧
      Keeps s s' ∧ ∀ c', r = some c' → next.Becomes i scope c' := by
    refine ⟨none, s, h, .refl s, ?_⟩
    rintro _ ⟨⟩
  have accept {s' : State} (hk : Keeps s s') (c' : Component) (h : c.receive? next s = some (some c', s'))
      (hb : next.Becomes i scope c') : ∃ r s', c.receive? next s = some (r, s') ∧
      Keeps s s' ∧ ∀ c', r = some c' → next.Becomes i scope c' := by
    refine ⟨some c', s', h, hk, ?_⟩
    rintro _ ⟨⟩
    exact hb
  have self : next.Becomes i scope next := ⟨⟨tr, hnext⟩, .rfl, fun _ => rfl, fun _ => rfl⟩
  obtain ⟨j, tr₀, scope₀, hat⟩ := hc
  cases c with
  | proxy p =>
    cases next with
    | proxy q =>
      cases hb : p.sameBrick q with
      | false => exact refuse (by simp [receive?, Proxy.receive?, bind_run, hb])
      | true =>
        obtain ⟨s', hrun, hk⟩ := receive?_proxy hb s
        have hparsed := Proxy.sameBrick_parsed hb hat.2.2.2 hnext.2.2.2
        refine accept hk (.proxy (p.turned q)) ?_ ⟨⟨tr, ?_⟩, by simp [Fetches], fun _ => rfl, fun _ => ?_⟩
        · simp only [receive?, bind_run, hrun, Option.bind_some]
          rfl
        · rw [Proxy.turned, hparsed.1, hparsed.2]
          exact hnext
        · rw [Proxy.turned, hparsed.1, hparsed.2]
          rfl
    | _ => exact refuse rfl
  | conditional props =>
    cases next with
    | conditional props' => exact accept (.refl s) _ rfl self
    | _ => exact refuse rfl
  | forEach props =>
    cases next with
    | forEach props' => exact accept (.refl s) _ rfl self
    | _ => exact refuse rfl
  | slot props =>
    cases next with
    | slot props' => exact accept (.refl s) _ rfl self
    | _ => exact refuse rfl
  | fetch f =>
    cases next with
    | fetch g =>
      obtain ⟨hs, -, hp⟩ := hnext
      have hfetches : Fetches (.fetch g) := ⟨g, rfl⟩
      exact accept (.refl s) (.fetch { g with transport := f.transport }) rfl
        ⟨⟨f.transport, hs, rfl, hp⟩, ⟨fun _ => hfetches, fun _ => ⟨_, rfl⟩⟩, fun _ => rfl, absurd hfetches⟩
    | _ => exact refuse rfl
  | probe | plain => exact hat.elim

end Component

/-! ### Scenes where nothing fetches -/

namespace Scene

variable {sc : Scene}

/-- The scene without components that fetch. -/
def still (sc : Scene) : Scene := { sc with fetches := false }

theorem upTo_still (sc : Scene) (depth : Nat) : sc.still.upTo depth = sc.upTo depth := by
  induction depth with
  | zero => rfl
  | succ depth ih =>
    funext layers v
    rw [upTo, upTo, ih]
    rfl

theorem component_still_of_fetches (render : Artist) (layers : Layers) {c : Component} (hc : c.Fetches) :
    sc.still.component render layers c.bare = none := by
  obtain ⟨f, rfl⟩ := hc
  rfl

theorem component_still (render : Artist) (layers : Layers) {c : Component} (hc : ¬c.Fetches) :
    sc.still.component render layers c.bare = sc.component render layers c.bare := by
  cases c with
  | fetch f => exact absurd ⟨f, rfl⟩ hc
  | _ => rfl

end Scene

/-- A component renders what is drawn for it where nothing fetches, unless it fetches itself. -/
theorem Component.render_meets {s : State} {i root scope : Nat} {sc : Scene} (hs : OnStage s i root sc)
    (hscope : scope < s.store.levels.size) (hroot : s.store.root scope = root) {c : Component}
    {tr : Bool} (hc : c.At i tr scope) (self : Instance) (depth : Nat) :
    Meets (c.render (Renderer.upTo depth) self) s
      (sc.still.component (sc.upTo depth) (c.layers s.store) c.bare) fun ns ks s' =>
        Forked s s' ∧ (∀ n ∈ ns, n.Placed (Within s'.store i sc.transport root)) ∧
          (ks.isSome = true ↔ ¬c.Fetches) ∧ ∀ ls, ks = some ls → ns.map (Node.sketch s'.store) = ls := by
  by_cases hfetch : c.Fetches
  · rw [Scene.component_still_of_fetches _ _ hfetch]
    refine ⟨fun _ => rfl, ?_⟩
    obtain ⟨f, rfl⟩ := hfetch
    obtain ⟨rfl, -, hp⟩ := hc
    refine (fetch_yields hs hscope hroot hp self depth).ensures.mono ?_
    rintro ns s' ⟨ks, -, hf, hd⟩
    exact ⟨hf, hd.placed, ⟨nofun, fun h => absurd ⟨f, rfl⟩ h⟩, nofun⟩
  · rw [Scene.component_still _ _ hfetch]
    have hyields : Yields (c.render (Renderer.upTo depth) self) s _ _ :=
      component_yields hs hscope hroot (hc.of_not_fetches hfetch) (fun f hf => absurd ⟨f, hf⟩ hfetch) depth
    refine .of_yields hyields ?_
    rintro ns ks s' - ⟨hf, hd⟩
    refine ⟨hf, hd.placed, ⟨fun _ => hfetch, fun _ => rfl⟩, ?_⟩
    rintro _ ⟨⟩
    exact hd.sketch

/-! ### Trees -/

namespace Mounted

variable {host i root : Nat} {sc : Scene} {s s' s₁ : State}

theorem mem_componentsAll {ms : List Mounted} {e : Instance × Component} :
    e ∈ componentsAll host ms ↔ ∃ m ∈ ms, e ∈ m.components host := by
  induction ms with
  | nil => simp [componentsAll]
  | cons m rest ih => simp [componentsAll, ih]

/-- Nothing among the nodes fetches. -/
def Fetchless (host : Nat) (ms : List Mounted) : Prop := ∀ e ∈ componentsAll host ms, ¬e.2.Fetches

/-- Nodes have been mounted or updated, and show the pictures. There are none just where something fetches. -/
structure Depicted (host : Nat) (s : State) (ms : List Mounted) (r : Option (List Picture)) (s' : State) :
    Prop where
  keeps : Keeps s s'
  seated : ∀ e ∈ componentsAll host ms, e.2.Seated s'
  shows : ∀ ps, r = some ps → List.Forall₂ Shows ms ps
  fetchless : r.isSome = true ↔ Fetchless host ms

namespace Depicted

variable {ms children : List Mounted} {m : Mounted} {r : Option (List Picture)} {p : Option Picture}

theorem nil (s : State) : Depicted host s [] (some []) s :=
  ⟨.refl s, nofun, fun _ h => Option.some.inj h ▸ .nil, ⟨fun _ => nofun, fun _ => rfl⟩⟩

theorem after (h : Depicted host s₁ ms r s') (hk : Keeps s s₁) : Depicted host s ms r s' :=
  ⟨hk.trans h.keeps, h.seated, h.shows, h.fetchless⟩

theorem before (h : Depicted host s ms r s₁) (hk : Keeps s₁ s') : Depicted host s ms r s' :=
  ⟨h.keeps.trans hk, fun e he => (h.seated e he).keep hk, h.shows, h.fetchless⟩

/-- One node, and then others. -/
theorem cons (h : Depicted host s [m] (p.map ([·])) s₁) (h' : Depicted host s₁ ms r s') :
    Depicted host s (m :: ms) (p.bind fun p => r.map (p :: ·)) s' := by
  have hm := h.fetchless
  have hms := h'.fetchless
  have hkeep := (h.before h'.keeps).seated
  simp only [Fetchless, componentsAll_singleton] at hm hkeep
  refine ⟨h.keeps.trans h'.keeps, ?_, ?_, ?_⟩
  · intro e he
    rcases List.mem_append.1 he with he | he
    · exact hkeep e he
    · exact h'.seated e he
  · intro ps hps
    obtain ⟨q, rfl, hps⟩ := Option.bind_eq_some_iff.1 hps
    obtain ⟨qs, rfl, rfl⟩ := Option.map_eq_some_iff.1 hps
    obtain ⟨hq, -⟩ := List.forall₂_cons.1 (h.shows [q] rfl)
    exact .cons hq (h'.shows qs rfl)
  · have hboth : Fetchless host (m :: ms) ↔
        (∀ e ∈ m.components host, ¬e.2.Fetches) ∧ Fetchless host ms := by
      simp only [Fetchless, componentsAll, List.forall_mem_append]
    rw [hboth, ← hm, ← hms]
    cases p <;> cases r <;> simp

theorem primitive (s : State) (v : Json) :
    Depicted host s [.primitive v] (some [.primitive v]) s :=
  ⟨.refl s, nofun, fun _ h => Option.some.inj h ▸ .cons (fun _ => rfl) .nil, ⟨fun _ => nofun, fun _ => rfl⟩⟩

theorem element (h : Depicted host s children r s') (tag : String) (key : Option String) (props : Props) :
    Depicted host s [.element tag key props children] ((r.map (.element tag key props.bare)).map ([·])) s' := by
  refine ⟨h.keeps, ?_, ?_, ?_⟩
  · rw [componentsAll_singleton]
    exact h.seated
  · intro ps hps
    simp only [Option.map_map, Option.map_eq_some_iff] at hps
    obtain ⟨qs, rfl, rfl⟩ := hps
    refine .cons (fun around => ?_) .nil
    rw [flatten, Picture.flatten, Output.bareAll, Output.bare, flattenAll_shows (h.shows qs rfl)]
    rfl
  · rw [Option.isSome_map, Option.isSome_map, h.fetchless, Fetchless, Fetchless, componentsAll_singleton]
    rfl

theorem fragment (h : Depicted host s children r s') (key : Option String) :
    Depicted host s [.fragment key children] ((r.map (.fragment key)).map ([·])) s' := by
  refine ⟨h.keeps, ?_, ?_, ?_⟩
  · rw [componentsAll_singleton]
    exact h.seated
  · intro ps hps
    simp only [Option.map_map, Option.map_eq_some_iff] at hps
    obtain ⟨qs, rfl, rfl⟩ := hps
    refine .cons (fun around => ?_) .nil
    cases key <;> exact flattenAll_shows (h.shows qs rfl) _
  · rw [Option.isSome_map, Option.isSome_map, h.fetchless, Fetchless, Fetchless, componentsAll_singleton]
    rfl

/-- A component with what it has rendered. It has no picture if it fetches. -/
theorem component {c : Component} {ks : Option (List Sketch)} (h : Depicted host s children r s')
    (draw : List Sketch → Option (List Picture)) (id : Nat) (key : Option String) (renders : Nat)
    (sent : Option Request)
    (hc : c.Seated s') (hks : ks.isSome = true ↔ ¬c.Fetches) (hr : ∀ ls, ks = some ls → draw ls = r) :
    Depicted host s [.component id key c renders children]
      ((ks.bind fun ls => (draw ls).map (.component sent)).map ([·])) s' := by
  refine ⟨h.keeps, ?_, ?_, ?_⟩
  · rw [componentsAll_singleton]
    intro e he
    rcases List.mem_cons.1 he with rfl | he
    · exact hc
    · exact h.seated e he
  · intro ps hps
    obtain ⟨p, hp, rfl⟩ := Option.map_eq_some_iff.1 hps
    obtain ⟨ls, rfl, hp⟩ := Option.bind_eq_some_iff.1 hp
    obtain ⟨qs, hqs, rfl⟩ := Option.map_eq_some_iff.1 hp
    rw [hr ls rfl] at hqs
    exact .cons (fun around => flattenAll_shows (h.shows qs hqs) around) .nil
  · have hboth : Fetchless host [.component id key c renders children] ↔
        ¬c.Fetches ∧ Fetchless host children := by
      simp only [Fetchless, componentsAll_singleton, components, List.forall_mem_cons]
    rw [hboth, ← hks, ← h.fetchless]
    cases ks with
    | none => simp
    | some ls => simp [hr ls rfl]

end Depicted

mutual

/-- Whatever is mounted can be unmounted. -/
theorem unmount_run : (m : Mounted) → ∀ s, (∀ e ∈ m.components host, e.2.OfLayout) →
    ∃ s', m.unmount host s = some ((), s') ∧ Keeps s s'
  | .primitive _, s, _ => ⟨s, rfl, .refl s⟩
  | .element _ _ _ children, s, h => unmountAll_run children s h
  | .component id key c _ children, s, h => by
    obtain ⟨_, s₁, htrace, hq⟩ := silent_trace (.unmounted c.name key) s
    obtain ⟨s₂, hrun, hk⟩ := Component.unmount_run (h _ (List.mem_cons_self ..)) ⟨host, id⟩ s₁
    obtain ⟨s₃, hchildren, hk'⟩ := unmountAll_run children s₂ fun e he => h e (List.mem_cons_of_mem _ he)
    refine ⟨s₃, ?_, hq.keeps.trans (hk.trans hk')⟩
    simp only [unmount, bind_run, htrace, hrun, Option.bind_some, hchildren]
  | .fragment _ children, s, h => unmountAll_run children s h

theorem unmountAll_run : (ms : List Mounted) → ∀ s, (∀ e ∈ componentsAll host ms, e.2.OfLayout) →
    ∃ s', unmountAll host ms s = some ((), s') ∧ Keeps s s'
  | [], s, _ => ⟨s, rfl, .refl s⟩
  | m :: rest, s, h => by
    obtain ⟨s₁, hrun, hk⟩ := unmount_run m s fun e he => h e (List.mem_append_left _ he)
    obtain ⟨s₂, hrest, hk'⟩ := unmountAll_run rest s₁ fun e he => h e (List.mem_append_right _ he)
    refine ⟨s₂, ?_, hk.trans hk'⟩
    simp only [unmountAll, bind_run, hrun, Option.bind_some, hrest]

end

/-- Nodes that are mounted or updated one after the other. -/
theorem mapM_depicted {α : Type} {f : α → Engine Mounted} {g : α → Option Picture} (xs : List α)
    (step : ∀ a ∈ xs, ∀ t, Keeps s t →
      Meets (f a) t (g a) fun m p t' => Depicted host t [m] (p.map ([·])) t') :
    Meets (xs.mapM f) s (xs.mapM g) (Depicted host s) := by
  induction xs generalizing s with
  | nil =>
    rw [List.mapM_nil, List.mapM_nil]
    exact .pure (.nil s)
  | cons a rest ih =>
    rw [List.mapM_cons, List.mapM_cons]
    refine (step a (List.mem_cons_self ..) s (.refl s)).bind (fun hnone => by rw [hnone]; rfl) fun m t hm => ?_
    have hrest := ih (s := t) fun b hb u hu => step b (List.mem_cons_of_mem _ hb) u (hm.keeps.trans hu)
    refine hrest.bind (fun hnone => by rw [hnone]; cases g a <;> rfl) fun ms u hms => .pure ?_
    have hall := hm.cons hms
    cases hp : g a with
    | none => rwa [hp] at hall
    | some p =>
      rw [hp] at hall
      cases hq : rest.mapM g with
      | none => rwa [hq] at hall
      | some ps => rwa [hq] at hall

/-- The step lays nodes one after the other, and ends with what the scene draws for them in trees so deep. -/
def Lays (host i : Nat) (root : Scope) (sc : Scene) (depth : Nat) (lay : List Node → Engine (List Mounted)) :
    Prop :=
  ∀ s nodes, Ready s host i root sc → (∀ n ∈ nodes, n.Placed (Within s.store i sc.transport root)) →
    Meets (lay nodes) s ((nodes.map (Node.sketch s.store)).mapM (sc.still.picture depth)) (Depicted host s)

/-- A component renders, and what it renders is laid in it. -/
theorem component_depicted {depth : Nat} {lay : List Node → Engine (List Mounted)}
    (hlay : Lays host i root sc depth lay) (id : Nat) (key : Option String) {c : Component} (renders : Nat)
    (hs : Ready s host i root sc) {scope : Nat} (hscope : scope < s.store.levels.size)
    (hroot : s.store.root scope = root) {tr : Bool} (hat : c.At i tr scope) (sent : Option Request) :
    Meets (c.render (Renderer.upTo depth) ⟨host, id⟩ >>= fun nodes => lay nodes >>= fun children =>
        pure (.component id key c renders children)) s
      (do
        let nodes ← sc.still.component (sc.upTo depth) (c.layers s.store) c.bare
        let children ← nodes.mapM (sc.still.picture depth)
        return .component sent children)
      fun m p s' => Depicted host s [m] (p.map ([·])) s' := by
  refine (c.render_meets hs.onStage hscope hroot hat ⟨host, id⟩ depth).bind (fun hnone => by rw [hnone]; rfl)
    fun nodes t ⟨hf, hplaced, hks, hdrawn⟩ => ?_
  have ht := hs.keep hf.keeps
  have hseated : c.Seated t := by
    obtain ⟨r, hr, -, -, -, hfaith⟩ := ht.onStage.interpreter
    exact ⟨i, tr, scope, hat, hf.store.values.keepsScopes.lt_size hscope, r, hr, hfaith⟩
  have hnodes := hlay t nodes ht hplaced
  refine hnodes.bind (fun hnone => ?_) fun children u hchildren => .pure ?_
  · cases hk : sc.still.component (sc.upTo depth) (c.layers s.store) c.bare with
    | none => rfl
    | some ls =>
      rw [hdrawn ls hk] at hnone
      simp [hnone]
  · have hcomponent := (hchildren.after hf.keeps).component (fun ls => ls.mapM (sc.still.picture depth)) id key
      renders sent (hseated.keep hchildren.keeps) hks fun ls hls => by rw [hdrawn ls hls]
    cases hk : sc.still.component (sc.upTo depth) (c.layers s.store) c.bare with
    | none => rwa [hk] at hcomponent
    | some ls =>
      rw [hk] at hcomponent
      cases hp : ls.mapM (sc.still.picture depth) <;> simpa [hp] using hcomponent

/-! ### Mounting -/

/-- Mounting a node meets what the scene draws for it. -/
def Draws (host i : Nat) (root : Scope) (sc : Scene) (depth : Nat) : Prop :=
  ∀ s n, Ready s host i root sc → n.Placed (Within s.store i sc.transport root) →
    Meets (mount host depth n) s (sc.still.picture depth (n.sketch s.store)) fun m p s' =>
      Depicted host s [m] (p.map ([·])) s'

theorem Draws.lays {depth : Nat} (h : Draws host i root sc depth) :
    Lays host i root sc depth fun nodes => nodes.mapM (mount host depth) := by
  intro s nodes hs hn
  rw [List.mapM_map]
  refine mapM_depicted nodes fun n hmem t hk => ?_
  have hplaced := hn n hmem
  have step := h t n (hs.keep hk) (hplaced.mono fun _ hw => hw.keep hk.values.keepsScopes)
  rwa [hplaced.sketch_congr fun c hw => hw.layers_eq hk.values.keepsForks] at step

theorem mount_draws (depth : Nat) : Draws host i root sc depth := by
  induction depth with
  | zero => exact fun _ _ _ _ => .endless
  | succ depth ih =>
    intro s n hs hn
    cases n with
    | primitive v => exact .pure (.primitive s v)
    | element tag key props children =>
      rw [Node.sketch, Node.sketchAll_eq, Scene.picture]
      exact (ih.lays s children hs (Node.placed_element.1 hn)).bind (fun hnone => by rw [hnone]; rfl)
        fun next t hnext => .pure (hnext.element tag key props)
    | fragment key children =>
      rw [Node.sketch, Node.sketchAll_eq, Scene.picture]
      exact (ih.lays s children hs (Node.placed_fragment.1 hn)).bind (fun hnone => by rw [hnone]; rfl)
        fun next t hnext => .pure (hnext.fragment key)
    | component key c =>
      obtain ⟨id, c', s₁, s₂, s₃, hnext, htrace, hmount, he⟩ := enter hs (Node.placed_component.1 hn) key
      obtain ⟨scope, hscope, hroot, hat⟩ := he.within
      have hcomponent := component_depicted ih.lays id key 1 (hs.keep he.keeps) hscope hroot hat
        (sc.still.sent? (c.layers s.store) c.bare)
      rw [he.layers, he.bare] at hcomponent
      refine .bind_run hnext (.bind_run htrace (.bind_run hmount ?_))
      rw [Node.sketch, Scene.picture, Scene.upTo_still]
      exact hcomponent.mono fun m s' h => h.after he.keeps

/-! ### Updating -/

/-- Updating what comes from layouts to a node that fits meets what the scene draws for the node. -/
def Redraws (host i : Nat) (root : Scope) (sc : Scene) (depth : Nat)
    (update : Mounted → Node → Engine Mounted) : Prop :=
  ∀ s m n, Reconcile.Fits m n → (∀ e ∈ m.components host, e.2.OfLayout) → Ready s host i root sc →
    n.Placed (Within s.store i sc.transport root) →
    Meets (update m n) s (sc.still.picture depth (n.sketch s.store)) fun m' p s' =>
      Depicted host s [m'] (p.map ([·])) s'

theorem Redraws.lays {depth : Nat} {update : Mounted → Node → Engine Mounted}
    (h : Redraws host i root sc depth update) {old : List Mounted}
    (hold : ∀ e ∈ componentsAll host old, e.2.OfLayout) :
    Lays host i root sc depth (reconcile host depth update old) := by
  intro s nodes hs hn
  have hperm := Reconcile.perm_assign (old.map some) 0 nodes
  have hmap := Reconcile.map_snd_assign (old.map some) 0 nodes
  have hfits := @Reconcile.fits_of_mem_assign (old.map some) 0 nodes
  unfold reconcile
  generalize Reconcile.assign (old.map some) 0 nodes = assigned at hperm hmap hfits
  obtain ⟨pairs, left⟩ := assigned
  rw [List.filterMap_map, Function.id_comp, List.filterMap_some] at hperm
  subst hmap
  -- Whatever is taken over or left was there before.
  have hcomponents := fun e => (componentsAll_perm host hperm).mem_iff (a := e)
  have htaken : ∀ m n, (some m, n) ∈ pairs → ∀ e ∈ m.components host, e.2.OfLayout := fun m n hmem e he => by
    have hin : m ∈ pairs.filterMap (·.1) := List.mem_filterMap.2 ⟨(some m, n), hmem, rfl⟩
    exact hold e ((hcomponents e).2 (mem_componentsAll.2 ⟨m, List.mem_append_left _ hin, he⟩))
  have hleft : ∀ e ∈ componentsAll host left, e.2.OfLayout := fun e he => by
    obtain ⟨m, hin, he⟩ := mem_componentsAll.1 he
    exact hold e ((hcomponents e).2 (mem_componentsAll.2 ⟨m, List.mem_append_right _ hin, he⟩))
  refine .bind (r := ((pairs.map (·.2)).map (Node.sketch s.store)).mapM (sc.still.picture depth))
    (Q := Depicted host s) ?_ id fun next t hnext => ?_
  · rw [List.map_map, List.mapM_map]
    refine mapM_depicted pairs fun e hmem t hk => ?_
    obtain ⟨m, n⟩ := e
    have hplaced := hn n (List.mem_map_of_mem hmem)
    have hplaced' := hplaced.mono fun _ hw => hw.keep hk.values.keepsScopes
    dsimp only [Function.comp]
    rw [← hplaced.sketch_congr fun c hw => hw.layers_eq hk.values.keepsForks]
    cases m with
    | none => exact mount_draws depth t n (hs.keep hk) hplaced'
    | some m => exact h t m n (hfits hmem) (htaken m n hmem) (hs.keep hk) hplaced'
  · obtain ⟨u, hrun, hk⟩ := unmountAll_run left t hleft
    exact .bind_run hrun (.pure (hnext.before hk))

/-- A component that renders again, with what it rendered before. -/
theorem rerender_depicted {depth : Nat} {update : Mounted → Node → Engine Mounted}
    (h : Redraws host i root sc depth update) {children : List Mounted}
    (hchildren : ∀ e ∈ componentsAll host children, e.2.OfLayout) (id : Nat) (key : Option String) {c : Component}
    (renders : Nat) (hs : Ready s host i root sc) {scope : Nat} (hscope : scope < s.store.levels.size)
    (hroot : s.store.root scope = root) {tr : Bool} (hat : c.At i tr scope) (sent : Option Request) :
    Meets (rerender host depth update id key c renders children) s
      (do
        let nodes ← sc.still.component (sc.upTo depth) (c.layers s.store) c.bare
        let children ← nodes.mapM (sc.still.picture depth)
        return .component sent children)
      fun m p s' => Depicted host s [m] (p.map ([·])) s' := by
  have hlay : Lays host i root sc depth fun nodes => (do
      trace (.rerendered c.name key (renders + 1))
      reconcile host depth update children nodes) := by
    intro t nodes ht hplaced
    obtain ⟨_, u, htrace, hq⟩ := silent_trace (.rerendered c.name key (renders + 1)) t
    refine .bind_run htrace ?_
    rw [← hq.store] at hplaced ⊢
    exact (h.lays hchildren u nodes (ht.keep hq.keeps) hplaced).mono fun ms s' h => h.after hq.keeps
  have hrerender : rerender host depth update id key c renders children =
      (c.render (Renderer.upTo depth) ⟨host, id⟩ >>= fun nodes => (do
        trace (.rerendered c.name key (renders + 1))
        reconcile host depth update children nodes) >>= fun next =>
          pure (.component id key c (renders + 1) next)) := by
    simp only [rerender, bind_assoc]
  rw [hrerender]
  exact component_depicted hlay id key (renders + 1) hs hscope hroot hat sent

theorem update_redraws (depth : Nat) : Redraws host i root sc depth (update host depth) := by
  induction depth with
  | zero => exact fun _ _ _ _ _ _ _ => .endless
  | succ depth ih =>
    intro s m n hfits hm hs hn
    -- A node of another kind, or one that is refused, takes the place of the old one.
    have replace {s₁ : State} (hk : Keeps s s₁) :
        Meets (do m.unmount host; mount host (depth + 1) n) s₁ (sc.still.picture (depth + 1) (n.sketch s.store))
          fun m' p s' => Depicted host s [m'] (p.map ([·])) s' := by
      obtain ⟨s₂, hrun, hk'⟩ := unmount_run m s₁ hm
      have hk₂ := hk.trans hk'
      rw [← hn.sketch_congr fun c hw => hw.layers_eq hk₂.values.keepsForks]
      refine .bind_run hrun ((mount_draws (depth + 1) s₂ n (hs.keep hk₂) ?_).mono fun m' s' h => h.after hk₂)
      exact hn.mono fun _ hw => hw.keep hk₂.values.keepsScopes
    cases m with
    | primitive v =>
      cases n with
      | primitive v' => exact .pure (.primitive s v')
      | _ => exact replace (.refl s)
    | element tag key props old =>
      cases n with
      | element tag' key' props' new =>
        obtain rfl : tag = tag' := beq_iff_eq.1 hfits.2
        rw [Node.sketch, Node.sketchAll_eq, Scene.picture]
        exact (ih.lays hm s new hs (Node.placed_element.1 hn)).bind (fun hnone => by rw [hnone]; rfl)
          fun next t hnext => .pure (hnext.element tag key' props')
      | _ => exact replace (.refl s)
    | fragment key old =>
      cases n with
      | fragment key' new =>
        rw [Node.sketch, Node.sketchAll_eq, Scene.picture]
        exact (ih.lays hm s new hs (Node.placed_fragment.1 hn)).bind (fun hnone => by rw [hnone]; rfl)
          fun next t hnext => .pure (hnext.fragment key')
      | _ => exact replace (.refl s)
    | component id key c renders children =>
      cases n with
      | component newKey next =>
        obtain ⟨scope, hscope, hroot, hnext⟩ := Node.placed_component.1 hn
        obtain ⟨r, s₁, hrun, hk, hr⟩ := c.receive?_run (hm _ (List.mem_cons_self ..)) hnext s
        refine .bind_run hrun ?_
        cases r with
        | none => exact replace hk
        | some c' =>
          obtain ⟨⟨tr, hat'⟩, hfetches, hlayers, hbare⟩ := hr c' rfl
          have hkeep := hk.values.keepsForks
          have hdrawn : sc.still.component (sc.upTo depth) (c'.layers s₁.store) c'.bare =
              sc.still.component (sc.upTo depth) (next.layers s.store) next.bare := by
            rw [hlayers, hnext.layers_congr (hkeep.layers_eq hscope)]
            by_cases hfetch : next.Fetches
            · rw [Scene.component_still_of_fetches _ _ hfetch,
                Scene.component_still_of_fetches _ _ (hfetches.2 hfetch)]
            · rw [hbare hfetch]
          have hrerender := rerender_depicted ih (fun e he => hm e (List.mem_cons_of_mem _ he)) id key renders
            (hs.keep hk) (hkeep.keepsScopes.lt_size hscope)
            ((hkeep.keepsScopes.root_eq hscope).trans hroot) hat' (sc.still.sent? (next.layers s.store) next.bare)
          rw [hdrawn] at hrerender
          rw [Node.sketch, Scene.picture, Scene.upTo_still]
          exact hrerender.mono fun m' s' h => h.after hk
      | _ => exact replace (.refl s)

end Mounted
end LiveLayout
