import LiveLayout.Proofs.Mounting.Depicted
import LiveLayout.Proofs.Refreshing.Recalls
import LiveLayout.Proofs.Running.Steady
/-!
Trees in which every component shows what it would render now. Mounting and updating makes such trees, whatever
has been there before.
-/
namespace LiveLayout

open Engine

namespace Scene

variable (sc : Scene)

/-- What a component renders while its request, if it has made one, is in the state. -/
def again (render : Artist) (layers : Layers) (state : FetchState) : Component → Option (List Sketch)
  | .fetch f => fetch render layers f.props state
  | c => sc.component render layers c

variable {sc}

theorem again_le {depth depth' : Nat} (h : depth ≤ depth') (layers : Layers) (state : FetchState)
    (c : Component) :
    Defines (sc.again (sc.upTo depth) layers state c) (sc.again (sc.upTo depth') layers state c) := by
  have hartist : ArtistLe (sc.upTo depth) (sc.upTo depth') := upTo_le (.refl sc) h
  cases c with
  | fetch f => exact fetch_le hartist layers _ _
  | _ =>
    unfold again
    exact component_le (.refl sc) hartist fun _ _ _ _ => rfl

/-- What requests are answered at once does not matter to what is rendered. -/
theorem upTo_answering (answer : Option Outcome) (depth : Nat) :
    { sc with answer }.upTo depth = sc.upTo depth := by
  induction depth with
  | zero => rfl
  | succ depth ih =>
    funext layers v
    rw [upTo, upTo, ih]
    rfl

theorem again_answering (answer : Option Outcome) : { sc with answer }.again = sc.again := by
  funext render layers state c
  cases c <;> rfl

end Scene

namespace Component

variable {s : State} {i root scope scope' : Nat} {sc : Scene} {c next : Component} {tr : Bool}

/-- Whatever has become of its request, a component renders what the scene draws for that. -/
theorem again_yields (hs : OnStage s i root sc) (hscope : scope < s.store.levels.size)
    (hroot : s.store.root scope = root) (hc : c.At i sc.transport scope) (self : Instance) (depth : Nat) :
    Yields (c.render (Renderer.upTo depth) self) s
      (sc.again (sc.upTo depth) (c.layers s.store) (s.fetchState self) c.bare)
      (Rendered s i sc.transport root) := by
  cases c with
  | fetch f =>
    obtain ⟨rfl, -, hp⟩ := hc
    exact fetch_yields hs hscope hroot hp self depth
  | probe | plain => exact hc.elim
  | _ => exact component_yields hs hscope hroot hc (fun _ h => nomatch h) depth

/-- A component becomes what the next one describes, or refuses. -/
theorem receive?_takes (hc : c.At i tr scope) (hnext : next.At i tr scope') (s : State) :
    ∃ r s', c.receive? next s = some (r, s') ∧ Keeps s s' ∧ ∀ c', r = some c' →
      c'.At i tr scope' ∧ c'.bare = next.bare ∧ ∀ σ, c'.layers σ = next.layers σ := by
  by_cases hfetches : next.Fetches
  · obtain ⟨g, rfl⟩ := hfetches
    cases c with
    | fetch f =>
      obtain ⟨-, htr, -⟩ := hc
      obtain ⟨hs, htr', hp⟩ := hnext
      refine ⟨some (.fetch { g with transport := f.transport }), s, rfl, .refl s, ?_⟩
      rintro _ ⟨⟩
      refine ⟨⟨hs, htr, hp⟩, ?_, fun _ => rfl⟩
      simp only [bare, htr, htr']
    | probe | plain => exact hc.elim
    | _ => exact ⟨none, s, rfl, .refl s, by simp⟩
  · obtain ⟨r, s', hrun, hk, hbecomes⟩ := receive?_run ⟨i, tr, scope, hc⟩ hnext s
    refine ⟨r, s', hrun, hk, fun c' hc' => ?_⟩
    obtain ⟨⟨tr', hat⟩, hkind, hlayers, hbare⟩ := hbecomes c' hc'
    exact ⟨hat.of_not_fetches (mt hkind.1 hfetches), hbare hfetches, hlayers⟩

end Component

namespace Mounted

variable {host i root depth : Nat} {sc : Scene} {s s' s₁ t : State}

/-- Every component of a tree shows what it would render now, where layouts and trees are at most so deep. -/
def UpToDate (sc : Scene) (s : State) (host : Nat) : Nat → Mounted → Prop
  | 0, _ => False
  | _ + 1, .primitive _ => True
  | depth + 1, .element _ _ _ children => ∀ m ∈ children, UpToDate sc s host depth m
  | depth + 1, .fragment _ children => ∀ m ∈ children, UpToDate sc s host depth m
  | depth + 1, .component id _ c _ children =>
    sc.again (sc.upTo depth) (c.layers s.store) (s.fetchState ⟨host, id⟩) c.bare =
      some (sketchAll s.store children) ∧ ∀ m ∈ children, UpToDate sc s host depth m

/-- The component stands in its scope as it did, and its request is in the same state. -/
def Untouched (s t : State) (e : Instance × Component) : Prop :=
  e.2.layers t.store = e.2.layers s.store ∧ t.fetchState e.1 = s.fetchState e.1

theorem UpToDate.congr {m : Mounted} (h : UpToDate sc s host depth m)
    (hm : ∀ e ∈ m.components host, Untouched s t e) : UpToDate sc t host depth m := by
  induction depth generalizing m with
  | zero => exact h
  | succ depth ih =>
    have all {children : List Mounted} (hc : ∀ e ∈ componentsAll host children, Untouched s t e)
        (h : ∀ m ∈ children, UpToDate sc s host depth m) : ∀ m ∈ children, UpToDate sc t host depth m :=
      fun m hm => ih (h m hm) fun e he => hc e (mem_componentsAll.2 ⟨m, hm, he⟩)
    cases m with
    | primitive v => trivial
    | element tag key props children => exact all hm h
    | fragment key children => exact all hm h
    | component id key c renders children =>
      obtain ⟨hlayers, hstate⟩ := hm (⟨host, id⟩, c) (List.mem_cons_self ..)
      have hchildren := fun e he => hm e (List.mem_cons_of_mem _ he)
      refine ⟨?_, all hchildren h.2⟩
      rw [sketchAll_congr children fun e he => (hchildren e he).1, hlayers, hstate]
      exact h.1

/-- The component renders by the interpreter, over the root, and has a number of its host. -/
def Stationed (s : State) (i : Nat) (tr : Bool) (root : Scope) (e : Instance × Component) : Prop :=
  Within s.store i tr root e.2 ∧ Numbered s [e.1]

theorem Stationed.keep {waits : Nat → Prop} {tr : Bool} {e : Instance × Component}
    (h : Stationed s i tr root e) (hk : KeepsFor waits s s') : Stationed s' i tr root e :=
  ⟨h.1.keep hk.values.keepsScopes, h.2.keep hk⟩

theorem Stationed.untouched {waits : Nat → Prop} {tr : Bool} {e : Instance × Component}
    (h : Stationed s i tr root e) (hk : KeepsFor waits s s') (hr : Recalls e.1.host s s') : Untouched s s' e :=
  ⟨h.1.layers_eq hk.values.keepsForks, hr.fetchState_eq h.2⟩

/-- The components of a host that are held are in their stations. -/
theorem Stationed.of_held {tr : Bool} {cs ms ns : List (Instance × Component)} (h : Held s i tr root cs (ms ++ ns)) :
    ∀ e ∈ ms, Stationed s i tr root e := by
  intro e he
  refine ⟨h.within e (List.mem_append_left _ he), fun j hj => ?_⟩
  rw [List.mem_singleton.1 hj]
  exact h.numbered e.1 (List.mem_map_of_mem (List.mem_append_left _ (List.mem_append_left _ he)))

/-- Nodes have been mounted or updated for sketches, and all that is in them is up to date. -/
structure Raised (host i : Nat) (root : Scope) (sc : Scene) (depth : Nat) (s : State) (ks : List Sketch)
    (new : List Mounted) (s' : State) : Prop where
  keeps : Keeps s s'
  recalls : Recalls host s s'
  stationed : ∀ e ∈ componentsAll host new, Stationed s' i sc.transport root e
  sketch : sketchAll s'.store new = ks
  upToDate : ∀ m ∈ new, UpToDate sc s' host depth m

namespace Raised

variable {ks ls : List Sketch} {new done children : List Mounted}

theorem nil (s : State) : Raised host i root sc depth s [] [] s := ⟨.refl s, .refl s, nofun, rfl, nofun⟩

theorem after (h : Raised host i root sc depth s₁ ks new s') (hk : Keeps s s₁) (hr : Recalls host s s₁) :
    Raised host i root sc depth s ks new s' :=
  ⟨hk.trans h.keeps, hr.trans h.recalls, h.stationed, h.sketch, h.upToDate⟩

theorem untouched (h : Raised host i root sc depth s ks new s₁) (hk : Keeps s₁ s') (hr : Recalls host s₁ s') :
    ∀ e ∈ componentsAll host new, Untouched s₁ s' e := fun e he =>
  (h.stationed e he).untouched hk (host_of_mem_all new e he ▸ hr)

/-- What follows leaves nodes as they are. -/
theorem before (h : Raised host i root sc depth s ks new s₁) (hk : Keeps s₁ s') (hr : Recalls host s₁ s') :
    Raised host i root sc depth s ks new s' := by
  have hstill := h.untouched hk hr
  refine ⟨h.keeps.trans hk, h.recalls.trans hr, fun e he => (h.stationed e he).keep hk, ?_, fun m hm => ?_⟩
  · rw [sketchAll_congr new fun e he => (hstill e he).1, h.sketch]
  · exact (h.upToDate m hm).congr fun e he => hstill e (mem_componentsAll.2 ⟨m, hm, he⟩)

theorem append (h : Raised host i root sc depth s ks done s₁) (h' : Raised host i root sc depth s₁ ls new s') :
    Raised host i root sc depth s (ks ++ ls) (done ++ new) s' := by
  have hdone := h.before h'.keeps h'.recalls
  refine ⟨hdone.keeps, hdone.recalls, fun e he => ?_, ?_, fun m hm => ?_⟩
  · rw [componentsAll_append] at he
    exact (List.mem_append.1 he).elim (hdone.stationed e) (h'.stationed e)
  · rw [sketchAll_append, hdone.sketch, h'.sketch]
  · exact (List.mem_append.1 hm).elim (hdone.upToDate m) (h'.upToDate m)

theorem primitive (s : State) (v : Json) :
    Raised host i root sc (depth + 1) s [.primitive v] [.primitive v] s := by
  refine ⟨.refl s, .refl s, nofun, rfl, fun m hm => ?_⟩
  rw [List.mem_singleton.1 hm]
  trivial

theorem element (h : Raised host i root sc depth s ks children s') (tag : String) (key : Option String)
    (props : Props) : Raised host i root sc (depth + 1) s [.element tag key props.bare ks]
      [.element tag key props children] s' := by
  refine ⟨h.keeps, h.recalls, ?_, ?_, fun m hm => ?_⟩
  · rw [componentsAll_singleton]
    exact h.stationed
  · rw [sketchAll, Mounted.sketch, h.sketch, sketchAll]
  · rw [List.mem_singleton.1 hm]
    exact h.upToDate

theorem fragment (h : Raised host i root sc depth s ks children s') (key : Option String) :
    Raised host i root sc (depth + 1) s [.fragment key ks] [.fragment key children] s' := by
  refine ⟨h.keeps, h.recalls, ?_, ?_, fun m hm => ?_⟩
  · rw [componentsAll_singleton]
    exact h.stationed
  · rw [sketchAll, Mounted.sketch, h.sketch, sketchAll]
  · rw [List.mem_singleton.1 hm]
    exact h.upToDate

/-- A component with what it has rendered. -/
theorem component {id : Nat} {c : Component} (key : Option String) (renders : Nat)
    (h : Raised host i root sc depth s ks children s') (hc : Stationed s i sc.transport root (⟨host, id⟩, c))
    (hks : sc.again (sc.upTo depth) (c.layers s.store) (s.fetchState ⟨host, id⟩) c.bare = some ks) :
    Raised host i root sc (depth + 1) s [.component key (c.layers s.store) c.bare]
      [.component id key c renders children] s' := by
  obtain ⟨hlayers, hstate⟩ := hc.untouched h.keeps h.recalls
  refine ⟨h.keeps, h.recalls, ?_, ?_, fun m hm => ?_⟩
  · rw [componentsAll_singleton, components, List.forall_mem_cons]
    exact ⟨hc.keep h.keeps, h.stationed⟩
  · rw [sketchAll, Mounted.sketch, hlayers, sketchAll]
  · rw [List.mem_singleton.1 hm]
    refine ⟨?_, h.upToDate⟩
    rw [hlayers, hstate, h.sketch]
    exact hks

end Raised

/-- Nodes that are mounted or updated one after the other. -/
theorem mapM_raised {α : Type} {f : α → Engine Mounted} {g : α → Sketch} (xs : List α)
    (step : ∀ a ∈ xs, ∀ t, Keeps s t → Recalls host s t →
      Ensures (f a) t fun m t' => Raised host i root sc depth t [g a] [m] t') :
    Ensures (xs.mapM f) s fun new s' => Raised host i root sc depth s (xs.map g) new s' := by
  induction xs generalizing s with
  | nil =>
    rw [List.mapM_nil]
    exact .pure (.nil s)
  | cons a rest ih =>
    rw [List.mapM_cons]
    refine (step a (List.mem_cons_self ..) s (.refl s) (.refl s)).bind fun m t hm => ?_
    have hrest := ih (s := t) fun b hb u hk hr =>
      step b (List.mem_cons_of_mem _ hb) u (hm.keeps.trans hk) (hm.recalls.trans hr)
    exact hrest.bind fun new s' hnew => .pure (hm.append hnew)

theorem mount_raised (depth : Nat) (n : Node) (hs : Ready s host i root sc)
    (hn : n.Placed (Within s.store i sc.transport root)) :
    Ensures (mount host depth n) s fun m s' =>
      Raised host i root sc depth s [n.sketch s.store] [m] s' := by
  induction depth generalizing s n with
  | zero => exact .endless
  | succ depth ih =>
    have all {s : State} (nodes : List Node) (hs : Ready s host i root sc)
        (hn : ∀ n ∈ nodes, n.Placed (Within s.store i sc.transport root)) :
        Ensures (nodes.mapM (mount host depth)) s fun new s' =>
          Raised host i root sc depth s (nodes.map (Node.sketch s.store)) new s' := by
      refine mapM_raised nodes fun n hmem t hk _ => ?_
      have hkeep := hk.values
      rw [← (hn n hmem).sketch_congr fun c hw => hw.layers_eq hkeep.keepsForks]
      exact ih n (hs.keep hk) ((hn n hmem).mono fun _ hw => hw.keep hkeep.keepsScopes)
    cases n with
    | primitive v => exact .pure (.primitive s v)
    | element tag key props children =>
      rw [Node.sketch, Node.sketchAll_eq]
      exact (all children hs (Node.placed_element.1 hn)).bind fun _ _ h => .pure (h.element tag key props)
    | fragment key children =>
      rw [Node.sketch, Node.sketchAll_eq]
      exact (all children hs (Node.placed_fragment.1 hn)).bind fun _ _ h => .pure (h.fragment key)
    | component key c =>
      obtain ⟨id, c', s₁, s₂, s₃, hnext, htrace, hmount, he⟩ := enter hs (Node.placed_component.1 hn) key
      have hentered : Recalls host s s₃ := by
        refine @enter_recalls host host _ key c (fun _ c => pure c) (fun _ c => .pure c) s c' s₃ ?_
        simp [bind_run, hnext, htrace, hmount]
      have hstation : Stationed s₃ i sc.transport root (⟨host, id⟩, c') := ⟨he.within, he.numbered⟩
      have hs₃ := hs.keep he.keeps
      refine .bind_run hnext (.bind_run htrace (.bind_run hmount ?_))
      obtain ⟨scope, hscope, hroot, hat⟩ := he.within
      have hrender := (Component.again_yields hs₃.onStage hscope hroot hat ⟨host, id⟩ depth).ensures
      refine hrender.bind fun nodes s₄ ⟨ks, hks, hf, hd⟩ => ?_
      have hrecalls : Recalls host s₃ s₄ :=
        .of_hosts hf.hosts fun _ => State.fetchState_congr (by simp [State.record?, hf.fetches])
      refine (all nodes (hs₃.keep hf.keeps) hd.placed).bind fun next s₅ hl => .pure ?_
      rw [hd.sketch] at hl
      have hc := (hl.after hf.keeps hrecalls).component key 1 hstation hks
      rw [he.layers, he.bare] at hc
      exact hc.after he.keeps hentered

/-- How one node is updated to another, so that all in it is up to date. -/
def Raises (host i : Nat) (root : Scope) (sc : Scene) (depth : Nat)
    (update : Mounted → Node → Engine Mounted) : Prop :=
  ∀ s m n, Reconcile.Fits m n → Ready s host i root sc →
    (∀ e ∈ m.components host, Stationed s i sc.transport root e) →
    n.Placed (Within s.store i sc.transport root) →
    Ensures (update m n) s fun m' s' => Raised host i root sc depth s [n.sketch s.store] [m'] s'

theorem Stationed.ofLayout {tr : Bool} {e : Instance × Component} (h : Stationed s i tr root e) :
    e.2.OfLayout := by
  obtain ⟨⟨scope, -, -, hat⟩, -⟩ := h
  exact ⟨i, tr, scope, hat⟩

theorem reconcile_raised {update : Mounted → Node → Engine Mounted}
    (hupdate : Raises host i root sc depth update) (old : List Mounted) (new : List Node)
    (hs : Ready s host i root sc)
    (h : ∀ e ∈ componentsAll host old, Stationed s i sc.transport root e)
    (hn : ∀ n ∈ new, n.Placed (Within s.store i sc.transport root)) :
    Ensures (reconcile host depth update old new) s fun next s' =>
      Raised host i root sc depth s (new.map (Node.sketch s.store)) next s' := by
  have hperm := Reconcile.perm_assign (old.map some) 0 new
  have hmap := Reconcile.map_snd_assign (old.map some) 0 new
  have hfits := @Reconcile.fits_of_mem_assign (old.map some) 0 new
  unfold reconcile
  generalize Reconcile.assign (old.map some) 0 new = assigned at hperm hmap hfits
  obtain ⟨pairs, left⟩ := assigned
  rw [List.filterMap_map, Function.id_comp, List.filterMap_some] at hperm
  subst hmap
  have hold : ∀ m, m ∈ pairs.filterMap (·.1) ∨ m ∈ left → ∀ e ∈ m.components host,
      Stationed s i sc.transport root e := fun m hm e he =>
    h e (mem_componentsAll.2 ⟨m, hperm.mem_iff.2 (List.mem_append.2 hm), he⟩)
  dsimp only
  refine .bind (Q := fun next s₁ => Raised host i root sc depth s (pairs.map fun e => e.2.sketch s.store) next s₁)
    (mapM_raised pairs fun e he t hk _ => ?_) fun next s₁ h₁ => ?_
  · have hplaced := hn e.2 (List.mem_map_of_mem he)
    rw [← hplaced.sketch_congr fun c hw => hw.layers_eq hk.values.keepsForks]
    have hplaced' := hplaced.mono fun _ hw => hw.keep hk.values.keepsScopes
    obtain ⟨m, n⟩ := e
    cases m with
    | none => exact mount_raised depth n (hs.keep hk) hplaced'
    | some m =>
      exact hupdate t m n (hfits he) (hs.keep hk)
        (fun e' he' => (hold m (.inl (List.mem_filterMap.2 ⟨_, he, rfl⟩)) e' he').keep hk) hplaced'
  have hleft : ∀ e ∈ componentsAll host left, e.2.OfLayout := fun e he => by
    obtain ⟨m, hm, he⟩ := mem_componentsAll.1 he
    exact (hold m (.inr hm) e he).ofLayout
  obtain ⟨s₂, hrun, hk⟩ := unmountAll_run left s₁ hleft
  have hr : Recalls host s₁ s₂ := unmountAll_recalls left s₁ _ _ hrun
  refine .bind_run hrun (.pure ?_)
  rw [List.map_map]
  exact h₁.before hk hr

theorem rerender_raised {update : Mounted → Node → Engine Mounted}
    (hupdate : Raises host i root sc depth update) {id : Nat} (key : Option String)
    {c : Component} (renders : Nat) {children : List Mounted} (hs : Ready s host i root sc)
    (hc : Stationed s i sc.transport root (⟨host, id⟩, c))
    (h : ∀ e ∈ componentsAll host children, Stationed s i sc.transport root e) :
    Ensures (rerender host depth update id key c renders children) s fun m s' =>
      Raised host i root sc (depth + 1) s [.component key (c.layers s.store) c.bare] [m] s' := by
  obtain ⟨scope, hscope, hroot, hat⟩ := hc.1
  have hrender := (Component.again_yields hs.onStage hscope hroot hat ⟨host, id⟩ depth).ensures
  refine hrender.bind fun nodes s₁ ⟨ks, hks, hf, hd⟩ => ?_
  obtain ⟨_, s₂, htrace, hq⟩ := silent_trace (.rerendered c.name key (renders + 1)) s₁
  have hf₂ := hf.trans hq.forked
  have hrecalls : Recalls host s s₂ :=
    .of_hosts hf₂.hosts fun _ => State.fetchState_congr (by simp [State.record?, hf₂.fetches])
  have hd₂ := hd.keep (by rw [hq.store]; exact Store.KeepsForks.refl _ : s₁.store.KeepsForks s₂.store)
  refine .bind_run htrace ?_
  refine .bind (reconcile_raised hupdate children nodes (hs.keep hf₂.keeps)
    (fun e he => (h e he).keep hf₂.keeps) hd₂.placed) fun next s₃ hl => .pure ?_
  rw [hd₂.sketch] at hl
  exact (hl.after hf₂.keeps hrecalls).component key (renders + 1) hc hks

theorem update_raises (depth : Nat) : Raises host i root sc depth (update host depth) := by
  induction depth with
  | zero => exact fun _ _ _ _ _ _ _ => .endless
  | succ depth ih =>
    intro s m n hfits hs h hn
    -- A node of another kind, or one that is refused, takes the place of the old one.
    have replace {s : State} (hs : Ready s host i root sc)
        (h : ∀ e ∈ m.components host, Stationed s i sc.transport root e)
        (hn : n.Placed (Within s.store i sc.transport root)) :
        Ensures (do m.unmount host; mount host (depth + 1) n) s fun m' s' =>
          Raised host i root sc (depth + 1) s [n.sketch s.store] [m'] s' := by
      obtain ⟨s₁, hrun, hk⟩ := unmount_run m s fun e he => (h e he).ofLayout
      have hr : Recalls host s s₁ := unmount_recalls m s _ _ hrun
      refine .bind_run hrun ?_
      rw [← hn.sketch_congr fun c hw => hw.layers_eq hk.values.keepsForks]
      exact (mount_raised (depth + 1) n (hs.keep hk) (hn.mono fun _ hw => hw.keep hk.values.keepsScopes)).mono
        fun m' s₂ hl => hl.after hk hr
    cases m with
    | primitive v =>
      cases n with
      | primitive v' => exact .pure (.primitive s v')
      | _ => exact replace hs h hn
    | element tag key props old =>
      cases n with
      | element tag' key' props' new =>
        obtain rfl : tag = tag' := beq_iff_eq.1 hfits.2
        rw [Node.sketch, Node.sketchAll_eq]
        exact .bind (reconcile_raised ih old new hs h (Node.placed_element.1 hn)) fun _ _ hl =>
          .pure (hl.element tag key' props')
      | _ => exact replace hs h hn
    | fragment key old =>
      cases n with
      | fragment key' new =>
        rw [Node.sketch, Node.sketchAll_eq]
        exact .bind (reconcile_raised ih old new hs h (Node.placed_fragment.1 hn)) fun _ _ hl =>
          .pure (hl.fragment key')
      | _ => exact replace hs h hn
    | component id key c renders children =>
      cases n with
      | component newKey next =>
        obtain rfl : key = newKey := hfits.1
        have hc := h (⟨host, id⟩, c) (List.mem_cons_self ..)
        obtain ⟨_, -, -, hat⟩ := hc.1
        obtain ⟨scope, hscope, hroot, hnext⟩ := Node.placed_component.1 hn
        obtain ⟨r, s₁, hrun, hk, hr⟩ := Component.receive?_takes hat hnext s
        have hrecalls : Recalls host s s₁ :=
          Lenient.of_undisturbed (Component.receive?_calm _ _ s _ _ hrun)
        have h₁ := fun e he => (h e he).keep hk
        refine .bind_run hrun ?_
        cases r with
        | none =>
          refine (replace (hs.keep hk) h₁ (hn.mono fun _ hw => hw.keep hk.values.keepsScopes)).mono
            fun m' s₂ hl => ?_
          rw [hn.sketch_congr fun c hw => hw.layers_eq hk.values.keepsForks] at hl
          exact hl.after hk hrecalls
        | some c' =>
          obtain ⟨hat', hbare, hlayers⟩ := hr c' rfl
          have hkeep := hk.values.keepsForks
          have hc' : Stationed s₁ i sc.transport root (⟨host, id⟩, c') :=
            ⟨Within.keep ⟨scope, hscope, hroot, hat'⟩ hkeep.keepsScopes, hc.2.keep hk⟩
          refine (rerender_raised ih key renders (hs.keep hk) hc'
            fun e he => h₁ e (List.mem_cons_of_mem _ he)).mono fun m' s₂ hl => ?_
          rw [hbare, hlayers, hnext.layers_congr (hkeep.layers_eq hscope)] at hl
          exact hl.after hk hrecalls
      | _ => exact replace hs h hn

end Mounted
end LiveLayout
