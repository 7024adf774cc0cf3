import LiveLayout.Proofs.Rows.Successors
/-!
Updating a tree to new nodes takes over all that has the outlines of what is mounted, and of a list of elements the
rows whose keys are there again.
-/
namespace LiveLayout

open Engine Mounted

namespace Engine

variable {α β : Type}

/-- What holds of each result of a loop, where every turn keeps what the others need. -/
theorem Ensures.forall₂ {K : State → State → Prop} (refl : ∀ s, K s s)
    (trans : ∀ {s t u}, K s t → K t u → K s u) {f : α → Engine β} {R : α → β → State → Prop}
    (mono : ∀ {a b s t}, K s t → R a b s → R a b t) {s : State} (xs : List α)
    (step : ∀ a ∈ xs, ∀ t, K s t → Ensures (f a) t fun b t' => K t t' ∧ R a b t') :
    Ensures (xs.mapM f) s fun bs s' => K s s' ∧ List.Forall₂ (fun a b => R a b s') xs bs := by
  induction xs generalizing s with
  | nil => exact .pure ⟨refl s, .nil⟩
  | cons a rest ih =>
    rw [List.mapM_cons]
    refine (step a (List.mem_cons_self ..) s (refl s)).bind fun b t hb => ?_
    have hrest := ih (s := t) fun c hc u hk => step c (List.mem_cons_of_mem _ hc) u (trans hb.1 hk)
    exact hrest.bind fun bs s' hbs => .pure ⟨trans hb.1 hbs.1, .cons (mono hbs.1 hb.2) hbs.2⟩

end Engine

namespace Component

variable {sc : Scene} {o : Outline} {c next : Component} {key key' : Option String}

/-- A component does not refuse to become what has the same outline. -/
theorem receive?_of_outline (hc : sc.componentOutline? key c = some o)
    (hnext : sc.componentOutline? key' next = some o) (s : State) :
    ∃ c' s', c.receive? next s = some (some c', s') := by
  cases c with
  | proxy p =>
    obtain rfl := Option.some.inj hc
    cases next with
    | proxy q =>
      obtain ⟨-, htarget, hdynamic, -⟩ := Outline.proxy.inj (Option.some.inj hnext)
      have hsame : p.sameBrick q = true := by
        rw [Proxy.sameBrick, htarget, hdynamic]
        simp
      obtain ⟨s', hrun, -⟩ := receive?_proxy hsame s
      exact ⟨.proxy (p.turned q), s', by simp [receive?, bind_run, hrun]⟩
    | _ => cases hnext
  | conditional | forEach | slot | fetch =>
    obtain rfl := Option.some.inj hc
    cases next <;> cases hnext
    exact ⟨_, s, rfl⟩
  | probe | plain => cases hc

/-- What a component of a layout becomes is special in the same way. -/
theorem receive?_special {i scope : Nat} {tr : Bool} (hc : c.At i tr scope) (next : Component) (s : State) :
    Ensures (c.receive? next) s fun r _ => ∀ c', r = some c' → c'.special? = c.special? := by
  have refused {s : State} : Ensures (Pure.pure none : Engine (Option Component)) s fun r _ =>
      ∀ c', r = some c' → c'.special? = c.special? := .pure fun _ h => nomatch h
  cases c with
  | proxy p =>
    cases next with
    | proxy q =>
      refine .bind (Q := fun _ _ => True) (fun _ _ _ => trivial) fun r t _ => .pure fun c' hc' => ?_
      obtain ⟨_, -, rfl⟩ := Option.map_eq_some_iff.1 hc'
      rfl
    | _ => exact refused
  | conditional | forEach | slot | fetch =>
    cases next <;> first | exact refused | exact .pure fun _ h => Option.some.inj h ▸ rfl
  | probe | plain => exact hc.elim

end Component

section

variable {sc : Scene} {last : Nat} {σ τ : Store} {old new : List Mounted} {nodes : List Node} {m m' : Mounted} {n : Node}

theorem Takes.move {old : Option Mounted} (h : Takes sc last τ old n m') (hn : n.sketch τ = n.sketch σ) :
    Takes sc last σ old n m' := by
  refine ⟨h.parts, fun o ho => h.outlined o (hn ▸ ho), fun m hm o hold hnew => h.anchors m hm o ?_ (hn ▸ hnew)⟩
  exact Scene.Outlined.move m hold

theorem TakesAll.outlined (h : TakesAll sc last σ old nodes new) {os : List Outline}
    (hnodes : sc.OutlinedAll os (nodes.map (Node.sketch σ))) (τ : Store) : sc.OutlinedAll os (sketchAll τ new) := by
  rw [← Reconcile.map_snd_assign (old.map some) 0 nodes, List.map_map] at hnodes
  rw [TakesAll] at h
  generalize (Reconcile.assign (old.map some) 0 nodes).1 = pairs at h hnodes
  induction h generalizing os with
  | nil => exact hnodes
  | cons ht _ ih =>
    cases hnodes with
    | cons hn hrest => exact .cons (ht.outlined _ hn τ) (ih hrest)

theorem Takes.primitive (v v' : Json) : Takes sc last σ (some (.primitive v)) (.primitive v') (.primitive v') := by
  refine ⟨.nil, fun o ho _ => ho, ?_⟩
  rintro _ ⟨⟩ o - -
  cases o with
  | node kind key os => cases os <;> rfl
  | _ => rfl

/-- What is new in the place of a mounted node has come out of that, if nothing has the outline of both. -/
theorem Takes.mono (h : Takes sc last σ none n m') (hne : ∀ o, sc.Outlined o (m.sketch σ) → ¬sc.Outlined o (n.sketch σ)) :
    Takes sc last σ (some m) n m' := by
  refine ⟨h.parts.mono nofun, h.outlined, ?_⟩
  rintro _ ⟨⟩ o hm hn
  exact absurd hn (hne o hm)

theorem Takes.element (h : TakesAll sc last σ old nodes new) (tag : String) (key key' : Option String)
    (props props' : Props) : Takes sc last σ (some (.element tag key props old)) (.element tag key' props' nodes)
      (.element tag key' props' new) := by
  have hnodes : (Node.element tag key' props' nodes).sketch σ = .element tag key' props'.bare (nodes.map (Node.sketch σ)) := by
    rw [Node.sketch, Node.sketchAll_eq]
  refine ⟨h.passes, fun o ho τ => ?_, ?_⟩
  · rw [hnodes] at ho
    exact ho.congr rfl rfl rfl fun os hos => h.outlined hos τ
  · rintro _ ⟨⟩ o hold hnew
    rw [hnodes] at hnew
    cases o with
    | leaf => rfl
    | node kind key os => exact h.anchors hold.inner hnew.inner
    | proxy | special => cases hold.kind_eq

theorem Takes.fragment (h : TakesAll sc last σ old nodes new) (key key' : Option String) :
    Takes sc last σ (some (.fragment key old)) (.fragment key' nodes) (.fragment key' new) := by
  have hnodes : (Node.fragment key' nodes).sketch σ = .fragment key' (nodes.map (Node.sketch σ)) := by
    rw [Node.sketch, Node.sketchAll_eq]
  refine ⟨h.passes, fun o ho τ => ?_, ?_⟩
  · rw [hnodes] at ho
    exact ho.congr rfl rfl rfl fun os hos => h.outlined hos τ
  · rintro _ ⟨⟩ o hold hnew
    rw [hnodes] at hnew
    cases o with
    | leaf => rfl
    | node kind key os => exact h.anchors hold.inner hnew.inner
    | proxy | special => cases hold.kind_eq

theorem Mounted.Young.parts {host : Nat} {ms : List Mounted} (h : Young host last ms) : ∀ e ∈ partsAll ms, last < e.id := by
  intro e he
  refine h (⟨host, e.id⟩, e.component) ?_
  rw [← map_partsAll]
  exact List.mem_map_of_mem he

theorem Mounted.Raised.outlined {host i depth : Nat} {root : Scope} {s s' : State} {k : Sketch}
    (h : Raised host i root sc depth s [k] [m] s') {o : Outline} (ho : sc.Outlined o k) (τ : Store) :
    sc.Outlined o (m.sketch τ) := by
  have hsketch : m.sketch s'.store = k := (List.cons.inj h.sketch).1
  rw [← hsketch] at ho
  exact Scene.Outlined.move m ho

/-- A component has been given other properties, and has rendered again. -/
theorem Takes.component {id renders renders' : Nat} {key : Option String} {c c' next : Component}
    (h : TakesAll sc last τ old nodes new) (hformed : Formed sc [.component id key c renders old])
    (hyields : ∀ os, sc.yields c' = some os → sc.OutlinedAll os (nodes.map (Node.sketch τ)))
    (hbare : c'.bare = next.bare) (hspecial : c'.special? = c.special?) (σ : Store) :
    Takes sc last σ (some (.component id key c renders old)) (.component key next) (.component id key c' renders' new) := by
  have hold : ∀ os, sc.yields c = some os → sc.OutlinedAll os (sketchAll τ old) := fun os hos =>
    hformed ⟨id, c, old⟩ (List.mem_cons_self ..) os hos τ
  have hnext : sc.componentOutline? key c' = sc.componentOutline? key next := by
    rw [← Scene.componentOutline?_bare, hbare, Scene.componentOutline?_bare]
  refine ⟨h.passes.cons rfl ⟨hspecial, ?_⟩, fun o ho τ => ?_, ?_⟩
  · rintro p p' items items' binding binding' template hc hc' hlists hlists' hkeys
    have hrows := hold (sc.rows p) (congrArg sc.yields hc)
    have hrows' := hyields (sc.rows p') (congrArg sc.yields hc')
    rw [Scene.rows_eq hlists] at hrows
    rw [Scene.rows_eq hlists'] at hrows'
    exact h.rowsPass hrows hrows' hkeys
  · rw [Node.sketch, Scene.outlined_component, Scene.componentOutline?_bare] at ho
    rw [Mounted.sketch, Scene.outlined_component, Scene.componentOutline?_bare, hnext, ho]
  · rintro _ ⟨⟩ o hm hn
    rw [Node.sketch, Scene.outlined_component, Scene.componentOutline?_bare, ← hnext] at hn
    rw [Mounted.sketch, Scene.outlined_component, Scene.componentOutline?_bare] at hm
    cases o with
    | leaf | node => cases (Scene.key?_of_componentOutline? hm).2
    | special => rfl
    | proxy key' target dynamic inside =>
      obtain ⟨p, rfl⟩ : ∃ p, c = .proxy p := by cases c <;> first | exact ⟨_, rfl⟩ | cases hm
      obtain ⟨q, rfl⟩ : ∃ q, c' = .proxy q := by cases c' <;> first | exact ⟨_, rfl⟩ | cases hn
      obtain ⟨-, -, -, hp⟩ := Outline.proxy.inj (Option.some.inj hm)
      obtain ⟨-, -, -, hq⟩ := Outline.proxy.inj (Option.some.inj hn)
      have hanchors := h.anchors (hold [inside] (hp ▸ rfl)) (hyields [inside] (hq ▸ rfl))
      have hchild := hold [inside] (hp ▸ rfl)
      have hchild' := h.outlined (hyields [inside] (hq ▸ rfl)) τ
      cases old with
      | nil => cases hchild
      | cons child rest =>
        cases new with
        | nil => cases hchild'
        | cons child' rest' =>
          simp only [Outline.anchorsAll, List.append_nil] at hanchors
          simp only [Outline.anchors, List.map_cons, hanchors]

/-- What has been mounted for a node is new. -/
theorem Takes.mounted {host i depth : Nat} {root : Scope} {s s' : State} (hyoung : Young host last [m'])
    (hm' : Raised host i root sc depth s [n.sketch s.store] [m'] s') : Takes sc last s.store none n m' := by
  refine ⟨.of_young fun e he => ?_, fun o ho => hm'.outlined ho, fun _ h => nomatch h⟩
  exact Young.parts hyoung e (by rwa [partsAll_singleton])

end

namespace Mounted

variable {host i root depth last : Nat} {sc : Scene} {s : State}

/-- How one node is updated to another, so that all with the same outlines stays. -/
def Succeeds (host i : Nat) (root : Scope) (sc : Scene) (last : Nat) (update : Mounted → Node → Engine Mounted) : Prop :=
  ∀ s m n, Reconcile.Fits m n → Ready s host i root sc → GivenOut host last s →
    (∀ e ∈ m.components host, Stationed s i sc.transport root e) → Formed sc [m] →
    n.Placed (Within s.store i sc.transport root) →
    Ensures (update m n) s fun m' _ => Takes sc last s.store (some m) n m'

theorem reconcile_takes {update : Mounted → Node → Engine Mounted} (hraises : Raises host i root sc depth update)
    (hupdate : Succeeds host i root sc last update) (old : List Mounted) (nodes : List Node)
    (hs : Ready s host i root sc) (hlast : GivenOut host last s)
    (h : ∀ e ∈ componentsAll host old, Stationed s i sc.transport root e) (hformed : Formed sc old)
    (hn : ∀ n ∈ nodes, n.Placed (Within s.store i sc.transport root)) :
    Ensures (reconcile host depth update old nodes) s fun new _ => TakesAll sc last s.store old nodes new := by
  have hfits := @Reconcile.fits_of_mem_assign (old.map some) 0 nodes
  have hmap := Reconcile.map_snd_assign (old.map some) 0 nodes
  have hold := @mem_of_mem_assign old nodes
  unfold reconcile TakesAll
  generalize Reconcile.assign (old.map some) 0 nodes = assigned at hfits hmap hold
  obtain ⟨pairs, left⟩ := assigned
  dsimp only at *
  refine .bind (Ensures.forall₂ (K := Keeps) (R := fun (e : Option Mounted × Node) m _ => Takes sc last s.store e.1 e.2 m) .refl .trans
    (fun _ h => h) pairs fun e he t hk => ?_) fun new t hnew => .bind (Q := fun _ _ => True) (fun _ _ _ => trivial) fun _ _ _ => .pure hnew.2
  have hplaced : e.2.Placed (Within s.store i sc.transport root) := hn e.2 (hmap ▸ List.mem_map_of_mem he)
  have hplaced' := hplaced.mono fun _ hw => hw.keep hk.values.keepsScopes
  have hsketch : e.2.sketch t.store = e.2.sketch s.store :=
    hplaced.sketch_congr fun c hw => hw.layers_eq hk.values.keepsForks
  have ht := hs.keep hk
  obtain ⟨m, n⟩ := e
  cases m with
  | none =>
    have hmount := (mount_young depth t n ht (hlast.keep hk) hplaced').and (mount_raised depth n ht hplaced')
    exact hmount.mono fun m' t' h' => ⟨h'.2.keeps, (Takes.mounted h'.1.2 h'.2).move hsketch⟩
  | some m =>
    have hin := hold he
    have hm : ∀ e ∈ m.components host, Stationed t i sc.transport root e := fun e he =>
      (h e (mem_componentsAll.2 ⟨m, hin, he⟩)).keep hk
    have hmformed : Formed sc [m] := fun e he => hformed e (mem_partsAll.2 ⟨m, hin, by rwa [partsAll_singleton] at he⟩)
    have hstep := (hraises t m n (hfits he) ht hm hplaced').and
      (hupdate t m n (hfits he) ht (hlast.keep hk) hm hmformed hplaced')
    exact hstep.mono fun m' t' h' => ⟨h'.1.keeps, h'.2.move hsketch⟩

theorem rerender_takes {update : Mounted → Node → Engine Mounted} (hraises : Raises host i root sc depth update)
    (hupdate : Succeeds host i root sc last update) {id : Nat} (key : Option String) {c : Component} (renders : Nat)
    {children : List Mounted} (hs : Ready s host i root sc) (hlast : GivenOut host last s)
    (hc : Stationed s i sc.transport root (⟨host, id⟩, c))
    (h : ∀ e ∈ componentsAll host children, Stationed s i sc.transport root e) (hformed : Formed sc children) :
    Ensures (rerender host depth update id key c renders children) s fun m _ => ∃ nodes new σ,
      m = .component id key c (renders + 1) new ∧ TakesAll sc last σ children nodes new ∧
      ∀ os, sc.yields c = some os → sc.OutlinedAll os (nodes.map (Node.sketch σ)) := by
  obtain ⟨scope, hscope, hroot, hat⟩ := hc.1
  have hrender := (Component.again_yields hs.onStage hscope hroot hat ⟨host, id⟩ depth).ensures
  refine hrender.bind fun nodes s₁ ⟨ks, hks, hf, hd⟩ => ?_
  obtain ⟨_, s₂, htrace, hq⟩ := silent_trace (.rerendered c.name key (renders + 1)) s₁
  have hk := (hf.trans hq.forked).keeps
  have hd₂ := hd.keep (by rw [hq.store]; exact Store.KeepsForks.refl _ : s₁.store.KeepsForks s₂.store)
  have step := reconcile_takes hraises hupdate children nodes (hs.keep hk) (hlast.keep hk)
    (fun e he => (h e he).keep hk) hformed hd₂.placed
  refine .bind_run htrace (step.bind fun new s₃ hnew => .pure ⟨nodes, new, s₂.store, rfl, hnew, fun os hos => ?_⟩)
  rw [hd₂.sketch]
  rw [← Scene.yields_bare] at hos
  exact Scene.again_outlined (Scene.upTo_outlined depth) hks os hos

theorem update_succeeds (last depth : Nat) : Succeeds host i root sc last (update host depth) := by
  induction depth with
  | zero => exact fun _ _ _ _ _ _ _ _ _ => .endless
  | succ depth ih =>
    intro s m n hfits hs hlast h hformed hn
    have hraises : Raises host i root sc depth (update host depth) := update_raises depth
    have inner {children : List Mounted} (hparts : partsAll children = m.parts) : Formed sc children := fun e he =>
      hformed e (by rwa [partsAll_singleton, ← hparts])
    cases m with
    | primitive v =>
      cases n with
      | primitive v' => exact .pure (.primitive v v')
      | _ => cases hfits.2
    | element tag key props old =>
      cases n with
      | element tag' key' props' new =>
        obtain rfl : tag = tag' := beq_iff_eq.1 hfits.2
        exact .bind (reconcile_takes hraises ih old new hs hlast h (inner rfl) (Node.placed_element.1 hn))
          fun _ _ hnew => .pure (.element hnew tag key key' props props')
      | _ => cases hfits.2
    | fragment key old =>
      cases n with
      | fragment key' new =>
        exact .bind (reconcile_takes hraises ih old new hs hlast h (inner rfl) (Node.placed_fragment.1 hn))
          fun _ _ hnew => .pure (.fragment hnew key key')
      | _ => cases hfits.2
    | component id key c renders children =>
      cases n with
      | component newKey next =>
        obtain rfl : key = newKey := hfits.1
        have hc := h (⟨host, id⟩, c) (List.mem_cons_self ..)
        have hchildren := fun e (he : e ∈ componentsAll host children) => h e (List.mem_cons_of_mem _ he)
        obtain ⟨_, -, -, hat⟩ := hc.1
        obtain ⟨scope, hscope, hroot, hnext⟩ := Node.placed_component.1 hn
        obtain ⟨r, s₁, hrun, hk, hr⟩ := Component.receive?_takes hat hnext s
        refine .bind_run hrun ?_
        cases r with
        | none =>
          -- The component has refused, so it does not have the outline of the next one.
          obtain ⟨s₂, hunmount, hk₂⟩ : ∃ s₂, unmount host (.component id key c renders children) s₁ = some ((), s₂) ∧
            Keeps s₁ s₂ := unmount_run _ s₁ fun e he => (h e he).ofLayout
          have hk' := hk.trans hk₂
          have hplaced := hn.mono fun _ hw => hw.keep hk'.values.keepsScopes
          have hmount := (mount_young (depth + 1) s₂ (.component key next) (hs.keep hk') (hlast.keep hk') hplaced).and
            (mount_raised (depth + 1) (.component key next) (hs.keep hk') hplaced)
          refine .bind_run hunmount (hmount.mono fun m' s₃ h' => ?_)
          have hsketch := hn.sketch_congr fun c hw => hw.layers_eq hk'.values.keepsForks
          refine ((Takes.mounted h'.1.2 h'.2).move hsketch).mono fun o hm hnode => ?_
          rw [Mounted.sketch, Scene.outlined_component, Scene.componentOutline?_bare] at hm
          rw [Node.sketch, Scene.outlined_component, Scene.componentOutline?_bare] at hnode
          obtain ⟨c', s', haccept⟩ := Component.receive?_of_outline hm hnode s
          cases haccept.symm.trans hrun
        | some c' =>
          obtain ⟨hat', hbare, hlayers⟩ := hr c' rfl
          have hspecial := Component.receive?_special hat next s _ _ hrun c' rfl
          have hc' : Stationed s₁ i sc.transport root (⟨host, id⟩, c') :=
            ⟨Within.keep ⟨scope, hscope, hroot, hat'⟩ hk.values.keepsScopes, hc.2.keep hk⟩
          refine (rerender_takes hraises ih key renders (hs.keep hk) (hlast.keep hk) hc'
            (fun e he => (hchildren e he).keep hk) fun e he => ?_).mono fun m' s₂ => ?_
          · exact hformed e (by rw [partsAll_singleton]; exact List.mem_cons_of_mem _ he)
          · rintro ⟨nodes, new, σ, rfl, hnew, hyields⟩
            exact .component hnew hformed hyields hbare hspecial s.store
      | _ => cases hfits.2

end Mounted
end LiveLayout
