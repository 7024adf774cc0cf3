import LiveLayout.Proofs.Refreshing.Mounts
import LiveLayout.Proofs.Rows.Calls
import LiveLayout.Proofs.Rows.Rounds
/-!
Mounted layouts, flushed and rendered again from the top: the rows of their lists are kept through every single
rendering, and the calls of hooks by which that happens leave alone whatever stays.
-/
namespace LiveLayout

open Engine Mounted

/-! ### Scenes with the same brick types -/

namespace Scene

variable {sc sc' : Scene}

/-- The scenes have the same brick types and settings. -/
structure Kindred (sc sc' : Scene) : Prop where
  registry : sc'.registry = sc.registry
  config : sc'.config = sc.config

namespace Kindred

theorem outlines_eq (h : sc.Kindred sc') : sc'.outlines = sc.outlines := funext (outlines_congr h.registry h.config)

theorem yields_eq (h : sc.Kindred sc') : sc'.yields = sc.yields := by
  funext c
  cases c <;> simp only [yields, inside, rows, h.outlines_eq]

theorem componentOutline?_eq (h : sc.Kindred sc') : sc'.componentOutline? = sc.componentOutline? := by
  funext key c
  cases c <;> simp only [componentOutline?, inside, h.outlines_eq]

mutual

theorem outlined (h : sc.Kindred sc') : (k : Sketch) → ∀ o, sc.Outlined o k → sc'.Outlined o k
  | .primitive _, _, .leaf hk => .leaf hk
  | .primitive _, _, .node hk hinner => .node hk (h.outlinedAll [] _ hinner)
  | .element _ _ _ _, _, .leaf hk => .leaf hk
  | .element _ _ _ children, _, .node hk hinner => .node hk (h.outlinedAll children _ hinner)
  | .component _ _ _, _, .leaf hk => .leaf hk
  | .component _ _ _, _, .node hk hinner => .node hk (h.outlinedAll [] _ hinner)
  | .component _ _ _, _, .component ho => .component (h.componentOutline?_eq ▸ ho)
  | .fragment _ _, _, .leaf hk => .leaf hk
  | .fragment _ children, _, .node hk hinner => .node hk (h.outlinedAll children _ hinner)

theorem outlinedAll (h : sc.Kindred sc') : (ks : List Sketch) → ∀ os, sc.OutlinedAll os ks → sc'.OutlinedAll os ks
  | [], _, .nil => .nil
  | k :: ks, _, .cons hk hks => .cons (h.outlined k _ hk) (h.outlinedAll ks _ hks)

end

theorem shaped (h : sc.Kindred sc') {os : List Outline} {host : Host} (hs : host.Shaped sc os) : host.Shaped sc' os := by
  refine ⟨fun e he inner hinner σ => ?_, fun σ => h.outlinedAll _ _ (hs.layout σ)⟩
  rw [h.yields_eq] at hinner
  exact h.outlinedAll _ _ (hs.formed e he inner hinner σ)

end Kindred
end Scene

/-- Whatever has happened, the host and the requests of its components have been left alone. -/
structure Bypasses (host : Nat) (s s' : State) : Prop where
  spares : Spares host s s'
  waiting : s.network.waiting <+: s'.network.waiting
  records : ∀ id, s'.record? ⟨host, id⟩ = s.record? ⟨host, id⟩

namespace Bypasses

variable {host : Nat} {s s' s'' : State}

theorem refl (host : Nat) (s : State) : Bypasses host s s := ⟨.refl host s, List.prefix_rfl, fun _ => rfl⟩

theorem trans (h : Bypasses host s s') (h' : Bypasses host s' s'') : Bypasses host s s'' :=
  ⟨h.spares.trans h'.spares, h.waiting.trans h'.waiting, fun id => (h'.records id).trans (h.records id)⟩

theorem of_unsent (hs : Spares host s s') (hu : Unsent s s') : Bypasses host s s' :=
  ⟨hs, hu.network ▸ List.prefix_rfl, fun id => by rw [State.record?, hu.fetches, State.record?]⟩

/-- Operations on other hosts. -/
theorem of_operated {other : Nat} {op : Lifecycle.Family.Operation State Node} {roots roots' : List Mounted}
    {calls : List (Nat × Lifecycle.Call)} (hs : Spares host s s')
    (h : Host.Operated other op (s, roots) (s', roots') calls) (hne : host ≠ other) : Bypasses host s s' :=
  ⟨hs, h.waiting, fun id => h.others ⟨host, id⟩ hne⟩

end Bypasses

theorem KeepsFor.distinct {waits : Nat → Prop} {s s' : State} (h : KeepsFor waits s s') (hs : s.Distinct) :
    s'.Distinct := by
  unfold State.Distinct
  rw [h.hostIds]
  exact hs

namespace Mount

variable {m m' : Mount} {ms : List Mount} {s s' : State} {r : Interpreter}

/-- What the layout always comes to. -/
def outlines (m : Mount) (s : State) (r : Interpreter) : List Outline := (m.scene s r).outlines m.layout

/-- The components of the layout are mounted where its outline leads. -/
def Shaped (m : Mount) (s : State) : Prop :=
  ∃ r, s.interpreters[m.interpreter]? = some r ∧ m.host.Shaped (m.scene s r) (m.outlines s r)

theorem UpToDate.shaped (h : m.UpToDate s r) : m.Shaped s := by
  refine ⟨r, h.interpreter, UpToDate.formed_all h.roots, fun σ => ?_⟩
  exact .move m.host.roots (Scene.tree_outlined (Scene.upTo_outlined Host.depthLimit) h.tree)

theorem Shaped.keep (h : m.Shaped s) (hregistry : s'.registry = s.registry)
    (hconfigs : ∀ (i : Nat) r, s.interpreters[i]? = some r → ∃ r', s'.interpreters[i]? = some r' ∧ r'.config = r.config) :
    m.Shaped s' := by
  obtain ⟨r, hr, hshaped⟩ := h
  obtain ⟨r', hr', hconfig⟩ := hconfigs _ r hr
  have hkindred : (m.scene s r).Kindred (m.scene s' r') := ⟨hregistry, hconfig⟩
  refine ⟨r', hr', hkindred.shaped ?_⟩
  rw [outlines, hkindred.outlines_eq]
  exact hshaped

/-- The layout on a host has been rendered, once or several times, and this is how. -/
structure Redrawn (m : Mount) (s : State) (m' : Mount) (s' : State) : Prop where
  same : m' = { m with host := m'.host }
  id : m'.host.id = m.host.id
  steps : ∃ r, s.interpreters[m.interpreter]? = some r ∧
    Relation.ReflTransGen (Redraw (m.scene s r) (m.outlines s r) m.host.id m.interpreter) (s, m.host.roots)
      (s', m'.host.roots)
  calls : ∃ op calls, Host.Operated m.host.id op (s, m.host.roots) (s', m'.host.roots) calls

/-- A shaped layout is ready to be rendered again. -/
theorem Shaped.framed (hm : m.Shaped s) (h : Steady (m :: ms) s) : ∃ r, s.interpreters[m.interpreter]? = some r ∧
    Host.Framed m.interpreter (s.store.root m.scope) (m.scene s r) (m.outlines s r) (mountedComponents ms) s m.host := by
  obtain ⟨r, hr, hready, hheld⟩ := h.focus
  obtain ⟨r', hr', hshaped⟩ := hm
  cases hr.symm.trans hr'
  refine ⟨r, hr, hready, ?_, hshaped⟩
  rw [List.append_nil]
  exact hheld

end Mount

namespace Steady

open Lifecycle

variable {m : Mount} {ms : List Mount} {s s' : State}

/-- An operation on the host of a layout beside others. -/
theorem operated {α : Type} {op : Family.Operation State Node} {f : α → List Mounted} {x : Engine α} {a : α}
    (h : Steady (m :: ms) s) (hs : s.Distinct) (hop : ∀ change ids, op ≠ .meanwhile change ids)
    (hfollows : Follows m.host.id (fun a => trees (f a)) x ((Host.family m.host.id).perform (trees m.host.roots) op))
    (hrun : x s = some (a, s')) :
    ∃ calls, Host.Operated m.host.id op (s, m.host.roots) (s', f a) calls := by
  obtain ⟨r, -, hready, hheld⟩ := h.focus
  obtain ⟨record, hrecord⟩ := hready.host
  have hheld' : Held s m.interpreter r.transport (s.store.root m.scope) (mountedComponents ms)
      (componentsAll m.host.id m.host.roots ++ []) := by
    rw [List.append_nil]
    exact hheld
  exact Host.operated hop hfollows hs hrecord hheld'.nodup_numbers (hheld'.le_lastId hrecord) hrun rfl

theorem configs_of_keep {waits : Nat → Prop} (hk : KeepsFor waits s s') (i : Nat) (r : Interpreter)
    (hr : s.interpreters[i]? = some r) : ∃ r', s'.interpreters[i]? = some r' ∧ r'.config = r.config := by
  obtain ⟨r', hr', hlike⟩ := hk.interpreters i r hr
  exact ⟨r', hr', hlike.config⟩

/-- Flushing the host of a layout. -/
theorem flush_redrawn (h : Steady (m :: ms) s) (hs : s.Distinct) (hm : m.Shaped s) :
    Ensures m.host.flush s fun res s' =>
      m.Redrawn s { m with host := res.1 } s' ∧ ({ m with host := res.1 } : Mount).Shaped s' := by
  obtain ⟨r, hr, hframed⟩ := hm.framed h
  intro res s' hrun
  have hredrawn := Host.flush_redrawn hframed res s' hrun
  obtain ⟨calls, hcalls⟩ := h.operated hs (by nofun) (Host.flush_follows m.host.roots) hrun
  have hshaped : ({ m with host := res.1 } : Mount).Shaped s := ⟨r, hr, hredrawn.framed.shaped⟩
  exact ⟨⟨rfl, hredrawn.id, ⟨r, hr, hredrawn.steps⟩, _, calls, hcalls⟩,
    hshaped.keep hredrawn.keeps.registry (configs_of_keep hredrawn.keeps)⟩

/-- Rendering a layout from the top. -/
theorem renderMount_redrawn (h : Steady (m :: ms) s) (hs : s.Distinct) (hm : m.Shaped s) :
    Ensures (App.renderMount m) s fun m' s' => (∃ t, Bypasses m.host.id s t ∧ m.Redrawn t m' s') ∧ m'.Shaped s' := by
  obtain ⟨r, hr, hframed⟩ := hm.framed h
  have hscope := (h.stands m (List.mem_cons_self ..)).scope
  have hcalm : Calm (renderTree m.interpreter m.layout m.scope) :=
    Renderer.tree_calm (Renderer.upTo_calm Host.depthLimit) m.interpreter m.layout m.scope
  have hrecalls : Always (Recalls m.host.id) (renderTree m.interpreter m.layout m.scope) := hcalm.always
  have htree := (tree_yields hframed.ready.onStage hscope rfl Host.depthLimit m.layout).ensures
  refine .bind ((htree.and (hcalm s)).and (hrecalls s)) fun nodes t ht => ?_
  obtain ⟨⟨⟨ks, hks, hforked, hdrawn⟩, hquiet⟩, hrecalls⟩ := ht
  have hk := hforked.keeps
  have hbypasses : Bypasses m.host.id s t := .of_unsent (.of_keeps hk hrecalls) ⟨hquiet.fetches, hquiet.network⟩
  have hsteady : Steady (m :: ms) t :=
    h.carry (hk.carries fun _ => True) (fun _ _ => trivial) (h.ledger.extend hforked.store)
  obtain ⟨r', hr', hlike⟩ := hk.interpreters _ r hr
  have hscene : m.scene t r' = m.scene s r := m.scene_keep hk hlike hscope
  have hframed' : Host.Framed m.interpreter (s.store.root m.scope) (m.scene s r) (m.outlines s r) (mountedComponents ms) t
      m.host := ⟨hframed.ready.keep hk, hframed.held.forked hforked, hframed.shaped⟩
  have houtlined : (m.scene s r).OutlinedAll (m.outlines s r) (nodes.map (Node.sketch t.store)) := by
    rw [hdrawn.sketch]
    exact Scene.tree_outlined (Scene.upTo_outlined Host.depthLimit) hks
  have hdone : Ensures (m.host.render nodes) t fun h' s' =>
      m.Redrawn t { m with host := h' } s' ∧ ({ m with host := h' } : Mount).Shaped s' := by
    intro h' s' hrun
    obtain ⟨hid, hk', hframed'', hstep⟩ := Host.render_redraws hframed' hdrawn.placed houtlined h' s' hrun
    obtain ⟨calls, hcalls⟩ := hsteady.operated (hk.distinct hs) (by nofun) (Host.render_follows m.host.roots nodes) hrun
    have hshaped : ({ m with host := h' } : Mount).Shaped t := by
      refine ⟨r', hr', ?_⟩
      change h'.Shaped (m.scene t r') (m.outlines t r')
      rw [Mount.outlines, hscene]
      exact hframed''.shaped
    refine ⟨⟨rfl, hid, ⟨r', hr', ?_⟩, _, calls, hcalls⟩, hshaped.keep hk'.registry (configs_of_keep hk')⟩
    rw [Mount.outlines, hscene]
    exact .single hstep
  exact hdone.bind fun h' s' ⟨hredrawn, hshaped⟩ => .pure ⟨⟨t, hbypasses, hredrawn⟩, hshaped⟩

end Steady
end LiveLayout
