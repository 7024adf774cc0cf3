import LiveLayout.Proofs.Mounting.Hooks
import LiveLayout.Proofs.Mounting.Matching
import LiveLayout.Proofs.Mounting.Shown
/-!
Mounting, updating and unmounting keep the ledger of the mounted components. What has been mounted or
updated shows what the scene draws.
-/
namespace LiveLayout

open Engine

/-- The components `ms` of a host are in the ledger beside others, and render over the root. -/
structure Held (s : State) (i : Nat) (tr : Bool) (root : Scope) (cs ms : List (Instance × Component)) :
    Prop where
  ledger : Ledger s.store (ms ++ cs)
  numbered : Numbered s ((ms ++ cs).map (·.1))
  within : ∀ e ∈ ms, Within s.store i tr root e.2

/-- Over the state, a host can mount what the scene draws. -/
structure Ready (s : State) (host i : Nat) (root : Scope) (sc : Scene) : Prop where
  onStage : OnStage s i root sc
  root : root < s.store.levels.size
  host : ∃ r, s.host? host = some r

variable {s s' : State} {host i root : Nat} {tr : Bool} {sc : Scene}
  {cs ms ns : List (Instance × Component)}

theorem Ready.keep {waits : Nat → Prop} (h : Ready s host i root sc) (hk : KeepsFor waits s s') :
    Ready s' host i root sc := by
  refine ⟨h.onStage.keep hk h.root, hk.values.keepsScopes.lt_size h.root, ?_⟩
  obtain ⟨r, hr⟩ := h.host
  obtain ⟨r', hr', -⟩ := hk.hosts _ r hr
  exact ⟨r', hr'⟩

namespace Held

theorem perm (h : Held s i tr root cs ms) (hp : ms.Perm ns) : Held s i tr root cs ns :=
  ⟨h.ledger.perm (hp.append_right _),
    fun j hj => h.numbered j (((hp.append_right _).map _).mem_iff.2 hj),
    fun e he => h.within e (hp.mem_iff.2 he)⟩

/-- No two of the components are the same instance. -/
theorem nodup (h : Held s i tr root cs (ns ++ ms)) : (ns.map (·.1)).Nodup := by
  have hn := h.ledger.nodup
  rw [List.append_assoc, List.map_append] at hn
  exact (List.nodup_append.1 hn).1

theorem forked (h : Held s i tr root cs ms) (hf : Forked s s') : Held s' i tr root cs ms :=
  ⟨h.ledger.extend hf.store, h.numbered.keep hf.keeps,
    fun e he => (h.within e he).keep hf.store.values.keepsScopes⟩

/-- A state in which the ledger has become another one, and which keeps the rest. -/
theorem step {waits : Nat → Prop} (h : Held s i tr root cs ms) (hk : KeepsFor waits s s')
    (hl : Ledger s'.store (ns ++ cs))
    (hn : ∀ e ∈ ns, e ∈ ms ∨ Numbered s' [e.1] ∧ Within s'.store i tr root e.2) :
    Held s' i tr root cs ns := by
  have hnum := h.numbered.keep hk
  refine ⟨hl, fun j hj => ?_, fun e he => ?_⟩
  · obtain ⟨e, he, rfl⟩ := List.mem_map.1 hj
    rcases List.mem_append.1 he with he | he
    · rcases hn e he with he | ⟨he, -⟩
      · exact hnum e.1 (List.mem_map_of_mem (List.mem_append_left _ he))
      · exact he e.1 (List.mem_singleton_self _)
    · exact hnum e.1 (List.mem_map_of_mem (List.mem_append_right _ he))
  · rcases hn e he with he | ⟨-, he⟩
    · exact (h.within e he).keep hk.values.keepsScopes
    · exact he

theorem of_store {waits : Nat → Prop} (h : Held s i tr root cs ms) (hk : KeepsFor waits s s')
    (hstore : s'.store = s.store) : Held s' i tr root cs ms :=
  h.step hk (hstore ▸ h.ledger) fun _ he => .inl he

end Held

/-- A component has a number and has been mounted, but has not rendered yet. -/
structure Entered (s : State) (host i : Nat) (root : Scope) (sc : Scene) (c : Component) (id : Nat)
    (c' : Component) (s' : State) : Prop where
  keeps : Keeps s s'
  within : Within s'.store i sc.transport root c'
  layers : c'.layers s'.store = c.layers s.store
  bare : c'.bare = c.bare
  requests : s'.network.requests = s.network.requests ++ (sc.sent? (c.layers s.store) c.bare).toList
  fetchState : ∀ f, c' = .fetch f → s'.fetchState ⟨host, id⟩ =
    sc.firstState (s'.store.layers f.scope) { f with props := f.props.bare, scope := 0 }
  numbered : Numbered s' [⟨host, id⟩]
  ledger : ∀ es, Ledger s.store es → Numbered s (es.map (·.1)) → Ledger s'.store ((⟨host, id⟩, c') :: es)

/-- How mounting a component begins. -/
theorem enter {c : Component} (hs : Ready s host i root sc) (hc : Within s.store i sc.transport root c)
    (key : Option String) : ∃ id c' s₁ s₂ s', nextInstance host s = some (⟨host, id⟩, s₁) ∧
      trace (.mounted c.name key) s₁ = some ((), s₂) ∧ c.mount ⟨host, id⟩ s₂ = some (c', s') ∧
      Entered s host i root sc c id c' s' := by
  obtain ⟨scope, hscope, hroot, hat⟩ := hc
  obtain ⟨r, hr⟩ := hs.host
  obtain ⟨s₁, hnext, hk₁, hstore₁, hnum, hnet₁⟩ := nextInstance_run hr
  obtain ⟨_, s₂, htrace, hq⟩ := silent_trace (.mounted c.name key) s₁
  have hk₂ := hk₁.trans hq.keeps
  have hstore₂ : s₂.store = s.store := hq.store.trans hstore₁
  rw [← hstore₂] at hscope hroot
  obtain ⟨c', s₃, hmount, hat', hm⟩ :=
    Component.mount_run (hs.keep hk₂).onStage hscope hroot hat ⟨host, r.lastId + 1⟩
  have hforks := hm.keeps.values.keepsForks
  refine ⟨r.lastId + 1, c', s₁, s₂, s₃, hnext, htrace, hmount, hk₂.trans hm.keeps, ?_, ?_, hm.bare, ?_, ?_, ?_, ?_⟩
  · exact Within.keep ⟨scope, hscope, hroot, hat'⟩ hforks.keepsScopes
  · rw [hm.layers, hat.layers_congr (hforks.layers_eq hscope), hstore₂]
  · rw [hm.requests, hstore₂, hq.network, hnet₁]
  · rintro f rfl
    obtain ⟨rfl, -⟩ := id hat'
    rw [hm.fetchState f rfl, hforks.layers_eq hscope]
  · exact (hnum.keep hq.keeps).keep hm.keeps
  · intro es hl hn
    rw [← hstore₂] at hl
    exact hm.ledger _ hl (hn.fresh hr)

/-- What has been entered renders what the scene draws for it. -/
theorem Entered.yields {c c' : Component} {id : Nat} (h : Entered s host i root sc c id c' s')
    (hs : Ready s host i root sc) (depth : Nat) :
    Yields (c'.render (Renderer.upTo depth) ⟨host, id⟩) s'
      (sc.component (sc.upTo depth) (c.layers s.store) c.bare) (Rendered s' i sc.transport root) := by
  obtain ⟨scope, hscope, hroot, hat⟩ := h.within
  have hdrawn := component_yields (hs.keep h.keeps).onStage hscope hroot hat h.fetchState depth
  rwa [h.bare, h.layers] at hdrawn

namespace Mounted

mutual

/-- Unmounting a tree strikes its components out of the ledger. -/
theorem unmount_ensures : (m : Mounted) → ∀ s ms, Held s i tr root cs (m.components host ++ ms) →
    Ensures (m.unmount host) s fun _ s' => Keeps s s' ∧ Held s' i tr root cs ms
  | .primitive _, s, ms, h => .pure ⟨.refl s, h⟩
  | .element _ _ _ children, s, ms, h => unmountAll_ensures children s ms h
  | .component id key c _ children, s, ms, h => by
    obtain ⟨_, s₁, htrace, hq⟩ := silent_trace (.unmounted c.name key) s
    have h₁ := h.forked hq.forked
    have hprobe : ∀ p kids, c ≠ .probe p kids := by
      rintro p kids rfl
      exact (h.within _ (List.mem_cons_self ..)).elim fun _ hw => hw.2.2
    refine .bind_run htrace ?_
    refine .bind (Component.unmount_ensures hprobe ⟨host, id⟩ s₁) fun _ s₂ ⟨hk, _, hl⟩ => ?_
    have h₂ : Held s₂ i tr root cs (componentsAll host children ++ ms) :=
      h₁.step hk (hl _ h₁.ledger) fun e he => .inl (List.mem_cons_of_mem _ he)
    refine (unmountAll_ensures children s₂ ms h₂).mono fun _ s₃ ⟨hk', h₃⟩ => ?_
    exact ⟨hq.keeps.trans (hk.trans hk'), h₃⟩
  | .fragment _ children, s, ms, h => unmountAll_ensures children s ms h

theorem unmountAll_ensures : (old : List Mounted) → ∀ s ms,
    Held s i tr root cs (componentsAll host old ++ ms) →
    Ensures (unmountAll host old) s fun _ s' => Keeps s s' ∧ Held s' i tr root cs ms
  | [], s, ms, h => .pure ⟨.refl s, h⟩
  | m :: rest, s, ms, h => by
    rw [componentsAll, List.append_assoc] at h
    refine .bind (unmount_ensures m s _ h) fun _ s₁ ⟨hk, h₁⟩ => ?_
    refine (unmountAll_ensures rest s₁ ms h₁).mono fun _ s₂ ⟨hk', h₂⟩ => ?_
    exact ⟨hk.trans hk', h₂⟩

end

end Mounted

/-- Nodes have been mounted for sketches: their components have been added to those held, and all but the
excused ones show what the scene draws for them. -/
structure Laid (host i : Nat) (root : Scope) (sc : Scene) (cs : List (Instance × Component))
    (excused : Instance × Component → Prop) (ms : List (Instance × Component)) (s : State)
    (ks : List Sketch) (new : List Mounted) (s' : State) : Prop where
  keeps : Keeps s s'
  held : Held s' i sc.transport root cs (Mounted.componentsAll host new ++ ms)
  sketch : Mounted.sketchAll s'.store new = ks
  fresh : sc.Fresh s'.store excused (Mounted.renderedAll s'.store host new)

namespace Laid

open Mounted

variable {excused excused' : Instance × Component → Prop} {s₁ s₂ : State} {ks ls : List Sketch}
  {done new children : List Mounted}

theorem nil (h : Held s i sc.transport root cs ms) :
    Laid host i root sc cs excused ms s [] [] s := ⟨.refl s, h, rfl, .nil⟩

theorem mono (h : Laid host i root sc cs excused ms s ks new s')
    (hP : ∀ e, excused e → excused' e) : Laid host i root sc cs excused' ms s ks new s' :=
  ⟨h.keeps, h.held, h.sketch, h.fresh.mono fun _ _ => hP _⟩

theorem after (h : Laid host i root sc cs excused ms s₁ ks new s') (hk : Keeps s s₁) :
    Laid host i root sc cs excused ms s ks new s' :=
  ⟨hk.trans h.keeps, h.held, h.sketch, h.fresh⟩

/-- What follows leaves nodes as they are. -/
theorem append (h : Laid host i root sc cs excused ns s ks done s₁)
    (h' : Laid host i root sc cs excused (componentsAll host done ++ ms) s₁ ls new s₂) :
    Laid host i root sc cs excused ms s (ks ++ ls) (done ++ new) s₂ := by
  have hl : ∀ e ∈ componentsAll host done, e.2.layers s₂.store = e.2.layers s₁.store := fun e he =>
    (h.held.within e (List.mem_append_left _ he)).layers_eq h'.keeps.values.keepsForks
  refine ⟨h.keeps.trans h'.keeps, h'.held.perm ?_, ?_, ?_⟩
  · rw [componentsAll_append, ← List.append_assoc]
    exact List.perm_append_comm.append_right ms
  · rw [sketchAll_append, sketchAll_congr done hl, h.sketch, h'.sketch]
  · rw [renderedAll_append]
    exact (h.fresh.keep hl).append h'.fresh

theorem primitive (h : Held s i sc.transport root cs ms) (v : Json) :
    Laid host i root sc cs excused ms s [.primitive v] [.primitive v] s := ⟨.refl s, h, rfl, .nil⟩

theorem element (h : Laid host i root sc cs excused ms s ks children s') (tag : String)
    (key : Option String) (props : Props) :
    Laid host i root sc cs excused ms s [.element tag key props.bare ks] [.element tag key props children]
      s' := by
  refine ⟨h.keeps, ?_, ?_, ?_⟩
  · rw [componentsAll_singleton]
    exact h.held
  · rw [sketchAll, Mounted.sketch, h.sketch, sketchAll]
  · rw [renderedAll_singleton]
    exact h.fresh

theorem fragment (h : Laid host i root sc cs excused ms s ks children s') (key : Option String) :
    Laid host i root sc cs excused ms s [.fragment key ks] [.fragment key children] s' := by
  refine ⟨h.keeps, ?_, ?_, ?_⟩
  · rw [componentsAll_singleton]
    exact h.held
  · rw [sketchAll, Mounted.sketch, h.sketch, sketchAll]
  · rw [renderedAll_singleton]
    exact h.fresh

/-- A component is laid with the nodes that it renders. -/
theorem component {id : Nat} {c : Component} (key : Option String) (renders : Nat)
    (h : Laid host i root sc cs excused ((⟨host, id⟩, c) :: ms) s ks children s')
    (hc : Within s.store i sc.transport root c)
    (hcurrent : excused (⟨host, id⟩, c) ∨ ∃ depth,
      sc.component (sc.upTo depth) (c.layers s.store) c.bare = some ks) :
    Laid host i root sc cs excused ms s [.component key (c.layers s.store) c.bare]
      [.component id key c renders children] s' := by
  have hl := hc.layers_eq h.keeps.values.keepsForks
  refine ⟨h.keeps, ?_, ?_, ?_⟩
  · rw [componentsAll_singleton]
    exact h.held.perm List.perm_middle
  · rw [sketchAll, Mounted.sketch, hl, sketchAll]
  · rw [renderedAll_singleton, rendered, h.sketch]
    intro e he
    rcases List.mem_cons.1 he with rfl | he
    · refine hcurrent.imp_right fun ⟨depth, hd⟩ => ⟨depth, ?_⟩
      rwa [hl]
    · exact h.fresh e he

end Laid

namespace Mounted

/-- Mounting a node gives a result just when the scene has a picture of it. The requests sent are those
in the picture. -/
def Mounts (host i : Nat) (root : Scope) (sc : Scene) (cs : List (Instance × Component)) (depth : Nat) :
    Prop :=
  ∀ s n ms, Ready s host i root sc → Held s i sc.transport root cs ms →
    n.Placed (Within s.store i sc.transport root) →
    Yields (mount host depth n) s (sc.picture depth (n.sketch s.store)) fun m p s' =>
      Laid host i root sc cs (fun _ => False) ms s [n.sketch s.store] [m] s' ∧
        s'.network.requests = s.network.requests ++ p.sent

/-- Nodes are mounted one after the other. -/
theorem mountAll_yields {depth : Nat} (hmount : Mounts host i root sc cs depth) (nodes : List Node)
    (hs : Ready s host i root sc) (h : Held s i sc.transport root cs ms)
    (hn : ∀ n ∈ nodes, n.Placed (Within s.store i sc.transport root)) :
    Yields (nodes.mapM (mount host depth)) s ((nodes.map (Node.sketch s.store)).mapM (sc.picture depth))
      fun next ps s' =>
        Laid host i root sc cs (fun _ => False) ms s (nodes.map (Node.sketch s.store)) next s' ∧
          s'.network.requests = s.network.requests ++ Picture.sentAll ps := by
  rw [List.mapM_map]
  refine (Yields.mapM (I := fun rest done ps t =>
    (∃ ks, ks ++ rest.map (Node.sketch s.store) = nodes.map (Node.sketch s.store) ∧
      Laid host i root sc cs (fun _ => False) ms s ks done t) ∧
    t.network.requests = s.network.requests ++ Picture.sentAll ps ∧
    ∀ n ∈ rest, n.Placed (Within s.store i sc.transport root))
    (fun n rest done ps t hI => ?_) nodes [] []
    ⟨⟨[], rfl, .nil h⟩, (List.append_nil _).symm, hn⟩).mono fun next ps t hI => ?_
  · obtain ⟨⟨ks, hks, hl⟩, hreq, hp⟩ := hI
    rw [List.forall_mem_cons] at hp
    have hkeep := hl.keeps.values
    have hsketch : n.sketch t.store = n.sketch s.store :=
      hp.1.sketch_congr fun c hw => hw.layers_eq hkeep.keepsForks
    have step := hmount t n _ (hs.keep hl.keeps) hl.held (hp.1.mono fun _ hw => hw.keep hkeep.keepsScopes)
    rw [hsketch] at step
    refine step.mono fun m p t' ⟨hm, hreq'⟩ => ⟨⟨ks ++ [n.sketch s.store], ?_, hl.append hm⟩, ?_, hp.2⟩
    · rw [← hks, List.map_cons, List.append_assoc, List.singleton_append]
    · rw [hreq', hreq, Picture.sentAll_append, List.append_assoc]
      simp [Picture.sentAll]
  · obtain ⟨⟨ks, hks, hl⟩, hreq, -⟩ := hI
    rw [List.map_nil, List.append_nil] at hks
    subst hks
    exact ⟨hl, hreq⟩

theorem mount_mounts (depth : Nat) : Mounts host i root sc cs depth := by
  induction depth with
  | zero => exact fun _ _ _ _ _ _ => .endless
  | succ depth ih =>
    intro s n ms hs h hn
    cases n with
    | primitive v => exact .pure ⟨.primitive h v, by simp [Picture.sent]⟩
    | element tag key props children =>
      rw [Node.sketch, Node.sketchAll_eq, Scene.picture, Option.map_eq_bind]
      refine (mountAll_yields ih children hs h (Node.placed_element.1 hn)).bind fun next ps s' ⟨hl, hreq⟩ => ?_
      exact .pure ⟨hl.element tag key props, hreq⟩
    | fragment key children =>
      rw [Node.sketch, Node.sketchAll_eq, Scene.picture, Option.map_eq_bind]
      refine (mountAll_yields ih children hs h (Node.placed_fragment.1 hn)).bind fun next ps s' ⟨hl, hreq⟩ => ?_
      exact .pure ⟨hl.fragment key, hreq⟩
    | component key c =>
      obtain ⟨id, c', s₁, s₂, s₃, hnext, htrace, hmount, he⟩ := enter hs (Node.placed_component.1 hn) key
      have h₃ : Held s₃ i sc.transport root cs ((⟨host, id⟩, c') :: ms) := by
        refine h.step he.keeps (he.ledger _ h.ledger h.numbered) fun e hmem => ?_
        rcases List.mem_cons.1 hmem with rfl | hmem
        · exact .inr ⟨he.numbered, he.within⟩
        · exact .inl hmem
      refine .bind_run hnext (.bind_run htrace (.bind_run hmount ?_))
      rw [Node.sketch, Scene.picture]
      refine (he.yields hs depth).with_result.bind fun nodes ks s₄ ⟨hcurrent, hf, hd⟩ => ?_
      obtain ⟨rfl, hplaced⟩ := hd
      refine (mountAll_yields ih nodes ((hs.keep he.keeps).keep hf.keeps) (h₃.forked hf) hplaced).bind
        fun next ps s₅ ⟨hl, hreq⟩ => .pure ⟨?_, ?_⟩
      · have hl' := (hl.after hf.keeps).component key 1 he.within
          (.inr ⟨depth, by rw [he.layers, he.bare]; exact hcurrent⟩)
        rw [he.layers, he.bare] at hl'
        exact hl'.after he.keeps
      · rw [hreq, hf.network, he.requests, Picture.sent, List.append_assoc]

/-- How one node is updated to another: the components that render once more show what the scene draws
for them, and what fetches is excused. -/
def Updates (host i : Nat) (root : Scope) (sc : Scene) (cs : List (Instance × Component))
    (update : Mounted → Node → Engine Mounted) : Prop :=
  ∀ s m n ms, Reconcile.Fits m n → Ready s host i root sc →
    Held s i sc.transport root cs (m.components host ++ ms) →
    n.Placed (Within s.store i sc.transport root) →
    Ensures (update m n) s fun m' s' =>
      Laid host i root sc cs (fun e => e.2.Fetches) ms s [n.sketch s.store] [m'] s'

theorem mount_ensures (depth : Nat) (n : Node) (hs : Ready s host i root sc)
    (h : Held s i sc.transport root cs ms) (hn : n.Placed (Within s.store i sc.transport root)) :
    Ensures (mount host depth n) s fun m s' =>
      Laid host i root sc cs (fun e => e.2.Fetches) ms s [n.sketch s.store] [m] s' :=
  (mount_mounts depth s n ms hs h hn).ensures.mono fun _ _ ⟨_, _, hl, _⟩ => hl.mono fun _ => False.elim

theorem reconcile_ensures {update : Mounted → Node → Engine Mounted}
    (hupdate : Updates host i root sc cs update) (depth : Nat) (old : List Mounted) (new : List Node)
    (hs : Ready s host i root sc)
    (h : Held s i sc.transport root cs (componentsAll host old ++ ms))
    (hn : ∀ n ∈ new, n.Placed (Within s.store i sc.transport root)) :
    Ensures (reconcile host depth update old new) s fun next s' =>
      Laid host i root sc cs (fun e => e.2.Fetches) ms s (new.map (Node.sketch s.store)) next s' := by
  have hperm := Reconcile.perm_assign (old.map some) 0 new
  have hmap := Reconcile.map_snd_assign (old.map some) 0 new
  have hfits := @Reconcile.fits_of_mem_assign (old.map some) 0 new
  unfold reconcile
  generalize Reconcile.assign (old.map some) 0 new = assigned at hperm hmap hfits
  obtain ⟨pairs, left⟩ := assigned
  rw [List.filterMap_map, Function.id_comp, List.filterMap_some] at hperm
  subst hmap
  have hpairs : ∀ e ∈ pairs, (∀ m, e.1 = some m → Reconcile.Fits m e.2) ∧
      e.2.Placed (Within s.store i sc.transport root) := fun e he =>
    ⟨fun m hm => hfits (by rw [← hm]; exact he), hn e.2 (List.mem_map_of_mem he)⟩
  have h₀ : Held s i sc.transport root cs
      (componentsAll host (pairs.filterMap (·.1) ++ left) ++ ms) :=
    h.perm ((componentsAll_perm host hperm).append_right ms)
  -- What has been updated, what is still to be matched and what is left are held together.
  refine .bind (Ensures.mapM (I := fun rest done t =>
    (∃ ks, ks ++ (rest.map (·.2)).map (Node.sketch s.store) =
        (pairs.map (·.2)).map (Node.sketch s.store) ∧
      Laid host i root sc cs (fun e => e.2.Fetches)
        (componentsAll host (rest.filterMap (·.1) ++ left) ++ ms) s ks done t) ∧
    ∀ e ∈ rest, (∀ m, e.1 = some m → Reconcile.Fits m e.2) ∧
      e.2.Placed (Within s.store i sc.transport root))
    (fun e rest done t hI => ?_) pairs [] ⟨⟨[], rfl, .nil h₀⟩, hpairs⟩) fun next s₁ hI => ?_
  · obtain ⟨⟨ks, hks, hl⟩, hp⟩ := hI
    rw [List.forall_mem_cons] at hp
    have ht := hs.keep hl.keeps
    have hkeep := hl.keeps.values
    have hplaced := hp.1.2.mono fun _ hw => hw.keep hkeep.keepsScopes
    have hsketch := hp.1.2.sketch_congr fun c hw => hw.layers_eq hkeep.keepsForks
    refine .mono (Q := fun m t' => Laid host i root sc cs (fun e => e.2.Fetches)
      (componentsAll host done ++ (componentsAll host (rest.filterMap (·.1) ++ left) ++ ms)) t
      [e.2.sketch t.store] [m] t') ?_ fun m t' hm => ⟨⟨ks ++ [e.2.sketch s.store], ?_, ?_⟩, hp.2⟩
    · obtain ⟨m, n⟩ := e
      cases m with
      | none => exact mount_ensures depth n ht hl.held hplaced
      | some m =>
        refine hupdate t m n _ (hp.1.1 m rfl) ht (hl.held.perm ?_) hplaced
        simp only [List.filterMap_cons, List.cons_append, componentsAll, ← List.append_assoc]
        exact (List.perm_append_comm.append_right _).append_right _
    · rw [← hks, List.map_cons, List.map_cons, List.append_assoc, List.singleton_append]
    · rw [hsketch] at hm
      exact hl.append hm
  · obtain ⟨⟨ks, hks, hl⟩, -⟩ := hI
    rw [List.map_nil, List.map_nil, List.append_nil] at hks
    subst hks
    have hleft : Held s₁ i sc.transport root cs
        (componentsAll host left ++ (componentsAll host next ++ ms)) := by
      refine hl.held.perm ?_
      simp only [List.nil_append, List.filterMap_nil, ← List.append_assoc]
      exact List.perm_append_comm.append_right ms
    refine .bind (unmountAll_ensures left s₁ _ hleft) fun _ s₂ h₂ => .pure ?_
    have hnone : Laid host i root sc cs (fun e => e.2.Fetches) (componentsAll host next ++ ms) s₁ [] [] s₂ :=
      ⟨h₂.1, h₂.2, rfl, .nil⟩
    simpa using hl.append hnone

theorem rerender_ensures {update : Mounted → Node → Engine Mounted}
    (hupdate : Updates host i root sc cs update) (depth : Nat) {id : Nat} (key : Option String)
    {c : Component} (renders : Nat) {children : List Mounted} (hs : Ready s host i root sc)
    (h : Held s i sc.transport root cs ((⟨host, id⟩, c) :: (componentsAll host children ++ ms))) :
    Ensures (rerender host depth update id key c renders children) s fun m s' =>
      Laid host i root sc cs (fun e => e.2.Fetches) ms s [.component key (c.layers s.store) c.bare] [m] s' ∧
        ∃ next, m = .component id key c (renders + 1) next := by
  obtain ⟨scope, hscope, hroot, hat⟩ := h.within _ (List.mem_cons_self ..)
  refine .bind (component_ensures hs.onStage hscope hroot hat _ depth) fun nodes s₁ ⟨hf, hp, hcurrent⟩ => ?_
  obtain ⟨_, s₂, htrace, hq⟩ := silent_trace (.rerendered c.name key (renders + 1)) s₁
  refine .bind_run htrace ?_
  have hf₂ := hf.trans hq.forked
  have h₂ := (h.forked hf₂).perm List.perm_middle.symm
  rw [← hq.store] at hp hcurrent
  refine .bind (reconcile_ensures hupdate depth children nodes (hs.keep hf₂.keeps) h₂ hp)
    fun next s₃ hl => .pure ⟨?_, next, rfl⟩
  exact (hl.after hf₂.keeps).component key (renders + 1) ⟨scope, hscope, hroot, hat⟩
    (hcurrent.imp_right fun hd => ⟨depth, hd⟩)

theorem update_updates (depth : Nat) : Updates host i root sc cs (update host depth) := by
  induction depth with
  | zero => exact fun _ _ _ _ _ _ _ _ => .endless
  | succ depth ih =>
    intro s m n ms hfits hs h hn
    -- A node of another kind, or one that is refused, takes the place of the old one.
    have replace : Ensures (do m.unmount host; mount host (depth + 1) n) s fun m' s' =>
        Laid host i root sc cs (fun e => e.2.Fetches) ms s [n.sketch s.store] [m'] s' := by
      refine .bind (unmount_ensures m s ms h) fun _ s₁ ⟨hk, h₁⟩ => ?_
      have hn₁ := hn.mono fun _ hw => hw.keep hk.values.keepsScopes
      rw [← hn.sketch_congr fun c hw => hw.layers_eq hk.values.keepsForks]
      exact (mount_ensures (depth + 1) n (hs.keep hk) h₁ hn₁).mono fun m' s₂ hl => hl.after hk
    cases m with
    | primitive v =>
      cases n with
      | primitive v' => exact .pure (.primitive h v')
      | _ => exact replace
    | element tag key props old =>
      cases n with
      | element tag' key' props' new =>
        obtain rfl : tag = tag' := beq_iff_eq.1 hfits.2
        rw [Node.sketch, Node.sketchAll_eq]
        exact .bind (reconcile_ensures ih depth old new hs h (Node.placed_element.1 hn)) fun _ _ hl =>
          .pure (hl.element tag key' props')
      | _ => exact replace
    | fragment key old =>
      cases n with
      | fragment key' new =>
        rw [Node.sketch, Node.sketchAll_eq]
        exact .bind (reconcile_ensures ih depth old new hs h (Node.placed_fragment.1 hn)) fun _ _ hl =>
          .pure (hl.fragment key')
      | _ => exact replace
    | component id key c renders children =>
      cases n with
      | component newKey next =>
        obtain rfl : key = newKey := hfits.1
        obtain ⟨_, _, _, hat⟩ := h.within _ (List.mem_cons_self ..)
        obtain ⟨scope, hscope, hroot, hnext⟩ := Node.placed_component.1 hn
        refine .bind (Component.receive?_ensures h.ledger hscope hat hnext) fun r s₁ hr => ?_
        cases r with
        | none =>
          subst hr
          exact replace
        | some c' =>
          obtain ⟨hat', hbare, hlayers, hk, hl⟩ := hr
          have hkeep := hk.values.keepsForks
          have h₁ : Held s₁ i sc.transport root cs
              ((⟨host, id⟩, c') :: (componentsAll host children ++ ms)) := by
            refine h.step hk hl fun e he => ?_
            rcases List.mem_cons.1 he with rfl | he
            · refine .inr ⟨?_, Within.keep ⟨scope, hscope, hroot, hat'⟩ hkeep.keepsScopes⟩
              intro j hj
              rw [List.mem_singleton.1 hj]
              exact h.numbered.keep hk _ (List.mem_cons_self ..)
            · exact .inl (List.mem_cons_of_mem _ he)
          refine (rerender_ensures ih depth key renders (hs.keep hk) h₁).mono fun m' s₂ ⟨hl, _⟩ => ?_
          rw [hbare, hlayers, hnext.layers_congr (hkeep.layers_eq hscope)] at hl
          exact hl.after hk
      | _ => exact replace

end Mounted
end LiveLayout
