import LiveLayout.Proofs.Refreshing.Rounds
import LiveLayout.Proofs.Running.Steps
/-!
Layouts that are up to date. A layout is so once it has been rendered from the top, and stays so as long as
nothing changes that it is drawn from; rendering it again then refreshes it.
-/
namespace LiveLayout

open Engine Mounted

/-- Nothing has changed that a layout on the host is drawn from, and its components have their requests in the
states that they were in. -/
structure Spares (host : Nat) (s s' : State) : Prop where
  values : s.store.KeepsValues s'.store
  registry : s'.registry = s.registry
  interpreters : Interpreter.Keep s.interpreters s'.interpreters
  recalls : Recalls host s s'

namespace Spares

variable {host : Nat} {s s' s'' : State}

theorem refl (host : Nat) (s : State) : Spares host s s := ⟨.refl _, rfl, .refl _, .refl s⟩

theorem trans (h : Spares host s s') (h' : Spares host s' s'') : Spares host s s'' :=
  ⟨h.values.trans h'.values, h'.registry.trans h.registry, h.interpreters.trans h'.interpreters,
    h.recalls.trans h'.recalls⟩

theorem of_keeps {waits : Nat → Prop} (hk : KeepsFor waits s s') (hr : Recalls host s s') : Spares host s s' :=
  ⟨hk.values, hk.registry, hk.interpreters, hr⟩

end Spares

theorem Mounted.UpToDate.answering {sc : Scene} {s : State} {host depth : Nat} {m : Mounted}
    (h : UpToDate sc s host depth m) (answer : Option Outcome) :
    UpToDate { sc with answer } s host depth m := by
  induction depth generalizing m with
  | zero => exact h
  | succ depth ih =>
    cases m with
    | primitive v => trivial
    | element tag key props children => exact fun m hm => ih (h m hm)
    | fragment key children => exact fun m hm => ih (h m hm)
    | component id key c renders children =>
      refine ⟨?_, fun m hm => ih (h.2 m hm)⟩
      rw [Scene.again_answering, Scene.upTo_answering]
      exact h.1

/-- Rendering into a host brings its tree up to date. -/
theorem Host.render_raised {i : Nat} {root : Scope} {sc : Scene} {s : State} (h : Host) {nodes : List Node}
    (hs : Ready s h.id i root sc)
    (hc : ∀ e ∈ componentsAll h.id h.roots, Stationed s i sc.transport root e)
    (hn : ∀ n ∈ nodes, n.Placed (Within s.store i sc.transport root)) :
    Ensures (h.render nodes) s fun h' s' => h'.id = h.id ∧
      Raised h.id i root sc depthLimit s (nodes.map (Node.sketch s.store)) h'.roots s' :=
  .bind (reconcile_raised (update_raises depthLimit) h.roots nodes hs hc hn) fun _ _ hl => .pure ⟨rfl, hl⟩

/-- Refreshes the tree of a host with nodes like its own. -/
def Host.refresh (h : Host) (nodes : List Node) : Engine Host :=
  return { h with roots := ← refreshAll (Mounted.refresh h.id depthLimit) h.roots nodes }

theorem Host.render_refreshes {i : Nat} {root : Scope} {sc : Scene} {s : State} (h : Host) {nodes : List Node}
    (halike : Alike h.id i root sc depthLimit s h.roots nodes) :
    Together (h.render nodes) (h.refresh nodes) s fun h' s' =>
      h'.id = h.id ∧ Refreshed h.id i root sc depthLimit s h.roots h'.roots s' :=
  .bind (reconcile_refreshes (update_refreshes depthLimit depthLimit (Nat.le_refl _)) halike) fun _ _ hl =>
    .pure ⟨rfl, hl⟩

namespace Mount

variable {m m' : Mount} {ms : List Mount} {s s' : State} {r : Interpreter}

/-- The layout is mounted as it would be rendered now, and all its components show what they would. -/
structure UpToDate (m : Mount) (s : State) (r : Interpreter) : Prop where
  interpreter : s.interpreters[m.interpreter]? = some r
  tree : Scene.tree ((m.scene s r).upTo Host.depthLimit) (s.store.layers m.scope) m.layout =
    some (sketchAll s.store m.host.roots)
  roots : ∀ n ∈ m.host.roots, Mounted.UpToDate (m.scene s r) s m.host.id Host.depthLimit n

/-- The components of a layout beside others are mounted in their places. -/
theorem enrolled (hs : Steady (m :: ms) s) (hr : s.interpreters[m.interpreter]? = some r) :
    ∀ e ∈ m.components, Enrolled s m.interpreter r.transport (s.store.root m.scope) e := by
  obtain ⟨r', hr', -, hheld⟩ := hs.focus
  cases hr.symm.trans hr'
  refine fun e he => ⟨⟨hheld.within e he, fun i hi => ?_⟩, ?_⟩
  · obtain rfl := List.mem_singleton.1 hi
    exact hheld.numbered _ (List.mem_map_of_mem (List.mem_append_left _ he))
  · exact hheld.ledger.follows e (List.mem_append_left _ he)

/-- A layout that is up to date beside others has a sound host. -/
theorem UpToDate.sound (h : m.UpToDate s r) (hs : Steady (m :: ms) s) :
    m.host.UpToDate m.interpreter (s.store.root m.scope) (m.scene s r) s := by
  obtain ⟨r', hr', hready, hheld⟩ := hs.focus
  cases h.interpreter.symm.trans hr'
  refine ⟨⟨hready, hheld.ledger.tidy, enrolled hs hr', h.roots⟩, ?_⟩
  have hnodup := hheld.ledger.nodup
  rw [List.map_append] at hnodup
  exact (List.nodup_append.1 hnodup).1

/-- A layout stays up to date as long as it is spared. -/
theorem UpToDate.spared (h : m.UpToDate s r) (hsteady : Steady (m :: ms) s)
    (hs : Spares m.host.id s s') : ∃ r', m.UpToDate s' r' := by
  have hsound := h.sound hsteady
  have hscope := (hsteady.stands m (List.mem_cons_self ..)).scope
  have hkeep := hs.values.keepsForks
  obtain ⟨r', hr', hlike⟩ := hs.interpreters _ r h.interpreter
  have hscene : m.scene s' r' = { m.scene s r with answer := s'.network.immediate } := by
    have hlt : s.store.root m.scope < s.store.levels.size := hsound.tree.ready.root
    unfold Mount.scene
    rw [hs.registry, hs.values.keepsScopes.root_eq hscope, hs.values.valueAt?_eq hlt, hlike.config,
      hlike.source, hlike.transport]
  have hstill : ∀ e ∈ m.components, Untouched s s' e := fun e he => by
    obtain ⟨⟨hwithin, hnumbered⟩, -⟩ := hsound.tree.enrolled e he
    have hhost := host_of_mem_all _ e he
    exact ⟨hwithin.layers_eq hkeep, Recalls.fetchState_eq (hhost ▸ hs.recalls) hnumbered⟩
  refine ⟨r', hr', ?_, fun n hn => ?_⟩
  · rw [hscene, Scene.upTo_answering, hkeep.layers_eq hscope, sketchAll_congr _ fun e he => (hstill e he).1]
    exact h.tree
  · rw [hscene]
    exact ((h.roots n hn).congr fun e he => hstill e (mem_componentsAll.2 ⟨n, hn, he⟩)).answering _

end Mount

/-! ### Flushing -/

section

variable {m : Mount} {ms : List Mount} {s : State} {r : Interpreter}

theorem Steady.flush_spares (h : Steady (m :: ms) s) (host : Nat) :
    Ensures m.host.flush s fun _ s' => Spares host s s' := fun res s' hrun =>
  .of_keeps (h.flush res s' hrun).2.1 (m.host.flush_recalls s res s' hrun)

/-- The flush of a layout that is up to date leaves it so. -/
theorem Steady.flush_upToDate (h : Steady (m :: ms) s) (hup : m.UpToDate s r) :
    Ensures m.host.flush s fun res s' => ∃ r', ({ m with host := res.1 } : Mount).UpToDate s' r' := by
  intro res s' hrun
  obtain ⟨hid, ⟨hsound, -⟩, hsketch⟩ := Host.flush_flushed (hup.sound h) res s' hrun
  obtain ⟨-, hk, -⟩ := h.flush res s' hrun
  have hscope := (h.stands m (List.mem_cons_self ..)).scope
  obtain ⟨r', hr', hlike⟩ := hk.interpreters _ r hup.interpreter
  have hscene : Mount.scene { m with host := res.1 } s' r' = m.scene s r := Mount.scene_keep hk hlike hscope
  refine ⟨r', hr', ?_, ?_⟩
  · rw [hscene, hk.values.keepsForks.layers_eq hscope, hsketch]
    exact hup.tree
  · rw [hscene]
    exact hsound.upToDate

/-- Any of the layouts, with all others beside it. -/
theorem Steady.exists_perm (h : Steady ms s) (hm : m ∈ ms) : ∃ ns, Steady (m :: ns) s := by
  obtain ⟨before, after, rfl⟩ := List.append_of_mem hm
  exact ⟨before ++ after, h.perm List.perm_middle⟩

end

namespace App

variable {m m' : Mount} {ms : List Mount} {s s' : State} {r : Interpreter}

/-- Rendering a layout from the top brings it up to date, and spares the layouts on other hosts. -/
theorem renderMount_upToDate (h : Steady (m :: ms) s) : Ensures (renderMount m) s fun m' s' =>
    m' = { m with host := m'.host } ∧ m'.host.id = m.host.id ∧ (∃ r, m'.UpToDate s' r) ∧
      ∀ host, Spares host s s' := by
  obtain ⟨r, hr, hready, hheld⟩ := h.focus
  have hscope := (h.stands m (List.mem_cons_self ..)).scope
  have hrecalls (host : Nat) : Always (Recalls host) (renderMount m) :=
    (Renderer.tree_calm (Renderer.upTo_calm Host.depthLimit) m.interpreter m.layout m.scope).always.bind
      fun nodes => (m.host.render_recalls nodes).bind fun _ => .pure _
  have step : Ensures (renderMount m) s fun m' s' => m' = { m with host := m'.host } ∧
      m'.host.id = m.host.id ∧ (∃ r, m'.UpToDate s' r) ∧ Keeps s s' := by
    refine .bind (tree_yields hready.onStage hscope rfl Host.depthLimit m.layout).ensures fun nodes s₁ h₁ => ?_
    obtain ⟨ks, hks, hf, hd⟩ := h₁
    have hstationed : ∀ e ∈ m.components, Stationed s₁ m.interpreter r.transport (s.store.root m.scope) e :=
      fun e he => (Mount.enrolled h hr e he).1.keep hf.keeps
    refine .bind (m.host.render_raised (hready.keep hf.keeps) hstationed hd.placed) fun h' s₂ ⟨hid, hl⟩ => .pure ?_
    have hk : Keeps s s₂ := hf.keeps.trans hl.keeps
    obtain ⟨r', hr', hlike⟩ := hk.interpreters _ r hr
    have hscene : Mount.scene { m with host := h' } s₂ r' = m.scene s r := Mount.scene_keep hk hlike hscope
    refine ⟨rfl, hid, ⟨r', hr', ?_, ?_⟩, hk⟩
    · rw [hscene, hk.values.keepsForks.layers_eq hscope, hl.sketch, hd.sketch]
      exact hks
    · rw [hscene]
      exact hid ▸ hl.upToDate
  intro m' s' hrun
  obtain ⟨hm', hid, hup, hk⟩ := step m' s' hrun
  exact ⟨hm', hid, hup, fun host => .of_keeps hk (hrecalls host s _ _ hrun)⟩

/-- Renders the layout of a target again and refreshes what is mounted. -/
def refreshMount (m : Mount) : Engine Mount :=
  return { m with host := ← m.host.refresh (← renderTree m.interpreter m.layout m.scope) }

/-- A layout that is up to date is refreshed when it is rendered again. -/
theorem renderMount_refreshes (h : Steady (m :: ms) s) (hup : m.UpToDate s r) :
    Together (renderMount m) (refreshMount m) s fun m' s' =>
      m' = { m with host := m'.host } ∧ m'.host.id = m.host.id ∧
        Refreshed m.host.id m.interpreter (s.store.root m.scope) (m.scene s r) Host.depthLimit s m.host.roots
          m'.host.roots s' := by
  have hsound := (hup.sound h).tree
  have hscope := (h.stands m (List.mem_cons_self ..)).scope
  have htree := tree_yields hsound.ready.onStage hscope rfl Host.depthLimit m.layout
  rw [hup.tree] at htree
  obtain ⟨nodes, _, s₁, hrun, hdrawn, hf, hd⟩ := htree.cases.resolve_left (by simp)
  obtain rfl := Option.some.inj hdrawn
  have hu := Unshaken.of_forked hf hsound.tidy
  have hstill : ∀ e ∈ m.components, Untouched s s₁ e := fun e he =>
    (hsound.enrolled e he).1.untouched hu.keeps hu.recalls
  have halike : Alike m.host.id m.interpreter (s.store.root m.scope) (m.scene s r) Host.depthLimit s₁
      m.host.roots nodes := by
    refine ⟨hsound.keep hu.keeps hu.recalls hu.tidy, hd.placed, ?_⟩
    rw [sketchAll_congr _ fun e he => (hstill e he).1]
    exact hd.sketch
  exact .bind_run hrun ((m.host.render_refreshes halike).bind fun h' s₂ ⟨hid, hl⟩ =>
    .pure ⟨rfl, hid, hl.after hu hstill⟩)

/-! ### The layouts on other targets -/

theorem log_spares (host : Nat) (n : Notice) (s : State) :
    Spares host s { s with notices := n :: s.notices } := by
  have hq : Quiet s { s with notices := n :: s.notices } := ⟨rfl, .refl _⟩
  have hrecalls : Always (Recalls host) (log n) := .log n
  exact .of_keeps hq.keeps (hrecalls s _ _ (log_run n s))

theorem drop_spares (h : Steady (m :: ms) s) {host : Nat} (hne : m.host.id ≠ host) :
    Ensures m.host.drop s fun _ s' => Spares host s s' := by
  obtain ⟨r, hr, hready, hheld⟩ := h.focus
  have hheld' : Held s m.interpreter r.transport (s.store.root m.scope) (mountedComponents ms)
      (m.components ++ []) := by rwa [List.append_nil]
  intro _ s' hrun
  have hrecalls := m.host.drop_recalls hne s _ s' hrun
  obtain ⟨t, hk, -, rfl⟩ := Host.drop_ensures hheld' _ s' hrun
  exact ⟨hk.values, hk.registry, hk.interpreters, hrecalls⟩

theorem furnish_spares (hissued : s.Issued) (r : Interpreter) (host : Nat) : Spares host s (furnish s r) := by
  refine ⟨.refl _, rfl, fun i r' hr' => ⟨r', ?_, .refl r'⟩, fun record hrecord => ?_⟩
  · exact (List.getElem?_append_left (List.getElem?_eq_some_iff.1 hr').1).trans hr'
  · refine ⟨record, ?_, Nat.le_refl _, fun _ _ => rfl⟩
    rw [furnish, State.host?, List.find?_cons_of_neg (by simpa using Nat.ne_of_gt (hissued.lt hrecord))]
    exact hrecord

/-- A layout is up to date once it has been mounted on a free target, and the layouts on other hosts are spared. -/
theorem place_upToDate (a : App) (h : Steady ms s) (hissued : s.Issued) (layout : Json) (target : String)
    {scope : Scope} (source : HandlerSource) (hscope : scope < s.store.levels.size) :
    Ensures (a.place layout target scope source) s fun res s' =>
      (∃ m r, res = (a.put target m, .ok ()) ∧ m.UpToDate s' r) ∧ ∀ host, Spares host s s' := by
  let r : Interpreter := { config := a.config, transport := a.transport, source := some source }
  have hfurnish := steady_furnish h hissued (annotate s.registry { keyPrefix := a.config.keyPrefix } layout)
    hscope (r := r) nofun
  have hrender := (renderMount_upToDate hfurnish).and (renderMount_steady hfurnish (furnish_issued hissued r))
  refine .bind_run (get_run s) (.bind_run (t := { s with interpreters := s.interpreters ++ [r] }) rfl
    (.bind_run (t := furnish s r) rfl ?_))
  refine hrender.bind fun m s₁ hm => ?_
  obtain ⟨⟨-, -, ⟨r', hup⟩, hspares⟩, hsteady, -⟩ := hm
  have hlog (host : Nat) := log_spares host (.layoutMounted target (Mounted.countAll m.host.roots)) s₁
  obtain ⟨r'', hup'⟩ := hup.spared hsteady (hlog m.host.id)
  exact .bind_run (log_run _ s₁) (.pure ⟨⟨m, r'', rfl, hup'⟩, fun host =>
    (furnish_spares hissued r host).trans ((hspares host).trans (hlog host))⟩)

/-- A flush of all targets leaves a layout that is up to date so. -/
theorem flush_upToDate {a : App} {target : String} (h : a.Consistent s)
    (hm : Fields.get? a.mounts target = some m) (hup : m.UpToDate s r) :
    Ensures a.flush s fun res s' => ∃ m' r', Fields.get? res.1.mounts target = some m' ∧ m'.UpToDate s' r' := by
  have hmem := Fields.mem_of_get? hm
  refine .bind (Ensures.foldlM (I := fun rest b t => Steady ((b.1 ++ rest).map (·.2)) t ∧
    (b.1 ++ rest).map (·.1) = a.mounts.map (·.1) ∧
      ∃ m r, (target, m) ∈ b.1 ++ rest ∧ m.UpToDate t r)
    (fun e rest b t hI => ?_) a.mounts ([], 0) 
      ⟨h.steady, rfl, m, r, hmem, hup⟩) fun res s' hI => ?_
  · obtain ⟨hsteady, hnames, n, r, hn, hup⟩ := hI
    obtain ⟨other, k⟩ := e
    have hperm : ((b.1 ++ (other, k) :: rest).map (·.2)).Perm (k :: (b.1 ++ rest).map (·.2)) := by
      simp only [List.map_append, List.map_cons]
      exact List.perm_middle
    have hfocus := hsteady.perm hperm
    have hkeep : Ensures k.host.flush t fun res t' => ∃ m r, (target, m) ∈
        (b.1 ++ [(other, { k with host := res.1 })]) ++ rest ∧ m.UpToDate t' r := by
      intro res t' hrun
      by_cases hmem : (target, n) ∈ b.1 ++ rest
      · -- A layout that is not flushed now is spared.
        obtain ⟨ns, hs⟩ := hsteady.exists_perm (List.mem_map_of_mem (f := (·.2)) hn)
        obtain ⟨r', hup'⟩ := hup.spared hs (hfocus.flush_spares n.host.id res t' hrun)
        refine ⟨n, r', ?_, hup'⟩
        rw [List.append_assoc, List.mem_append]
        exact (List.mem_append.1 hmem).imp_right (List.mem_append_right _)
      · have heq : (target, n) = (other, k) := by
          rw [List.mem_append, not_or] at hmem
          exact (List.mem_cons.1 ((List.mem_append.1 hn).resolve_left hmem.1)).resolve_right hmem.2
        cases heq
        obtain ⟨r', hup'⟩ := hfocus.flush_upToDate hup res t' hrun
        exact ⟨_, r', List.mem_append_left _ (List.mem_append_right _ (List.mem_singleton_self _)), hup'⟩
    refine .bind (hfocus.flush.and hkeep) fun res t' ⟨hfl, hup'⟩ => .pure ⟨hfl.1.perm ?_, ?_, hup'⟩
    · simp only [List.append_assoc, List.map_append, List.map_cons, List.singleton_append]
      exact List.perm_middle.symm
    · rw [← hnames]
      simp
  · obtain ⟨-, hnames, n, r, hn, hup⟩ := hI
    rw [List.append_nil] at hnames hn
    refine .pure ⟨n, r, Fields.get?_of_mem ?_ hn, hup⟩
    rw [hnames]
    exact h.sorted.nodup

end App
end LiveLayout
