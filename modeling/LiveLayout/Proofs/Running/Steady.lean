import LiveLayout.App
import LiveLayout.Proofs.Mounting.Rounds
import LiveLayout.Proofs.Running.Cascade
/-!
Layouts that are mounted side by side. Each stands on a host of its own, and together they own the
subscriptions of proxies.
-/
namespace LiveLayout

open Engine

/-- All that mounted layouts rely on goes on, for the hosts that stay. -/
structure Carries (stays : Nat → Prop) (s s' : State) : Prop where
  scopes : s.store.KeepsScopes s'.store
  interpreters : ∀ (i : Nat) (r : Interpreter), s.interpreters[i]? = some r →
    ∃ r', s'.interpreters[i]? = some r' ∧ r'.transport = r.transport ∧ (r.Faithful → r'.Faithful)
  hosts : ∀ id r, stays id → s.host? id = some r → ∃ r', s'.host? id = some r' ∧ r.lastId ≤ r'.lastId

theorem KeepsFor.carries {waits : Nat → Prop} {s s' : State} (h : KeepsFor waits s s')
    (stays : Nat → Prop) : Carries stays s s' := by
  refine ⟨h.values.keepsScopes, fun i r hr => ?_, fun id r _ hr => ?_⟩
  · obtain ⟨r', hr', hl⟩ := h.interpreters i r hr
    exact ⟨r', hr', hl.transport, hl.faithful⟩
  · obtain ⟨r', hr', hg⟩ := h.hosts id r hr
    exact ⟨r', hr', hg.lastId⟩

theorem Wrote.carries {s s' : State} (h : Wrote s s') (stays : Nat → Prop) : Carries stays s s' := by
  refine ⟨h.scopes, fun i r hr => ⟨r, by rw [h.interpreters, hr], rfl, fun hf => hf⟩, fun id r _ hr => ?_⟩
  obtain ⟨r', hr', hg⟩ := h.stay id r hr
  exact ⟨r', hr', hg.lastId⟩

/-- No host has a number that is still to be given out. -/
def State.Issued (s : State) : Prop := ∀ id ∈ s.hosts.map (·.id), id < s.hostCount

theorem KeepsFor.issued {waits : Nat → Prop} {s s' : State} (h : KeepsFor waits s s') (hs : s.Issued) :
    s'.Issued := by
  unfold State.Issued
  rw [h.hostIds, h.hostCount]
  exact hs

theorem Wrote.issued {s s' : State} (h : Wrote s s') (hs : s.Issued) : s'.Issued := by
  unfold State.Issued
  rw [h.hostIds, h.hostCount]
  exact hs

theorem State.Issued.lt {s : State} (hs : s.Issued) {id : Nat} {r : HostRecord}
    (hr : s.host? id = some r) : id < s.hostCount := by
  have hid : r.id = id := by simpa using List.find?_some hr
  exact hs id (hid ▸ List.mem_map_of_mem (List.mem_of_find?_eq_some hr))

/-! ### Mounted layouts -/

namespace Mount

variable {m : Mount} {s s' : State}

/-- The components of a mounted layout. -/
def components (m : Mount) : List (Instance × Component) :=
  Mounted.componentsAll m.host.id m.host.roots

/-- A mounted layout has a host, a scope and an interpreter, by which its components render. -/
structure Stands (m : Mount) (s : State) : Prop where
  host : ∃ r, s.host? m.host.id = some r
  scope : m.scope < s.store.levels.size
  interpreter : ∃ r, s.interpreters[m.interpreter]? = some r ∧ r.Faithful ∧
    ∀ e ∈ m.components, Within s.store m.interpreter r.transport (s.store.root m.scope) e.2

theorem Stands.carry {stays : Nat → Prop} (h : m.Stands s) (hc : Carries stays s s')
    (hstays : stays m.host.id) : m.Stands s' := by
  refine ⟨?_, hc.scopes.lt_size h.scope, ?_⟩
  · obtain ⟨r, hr⟩ := h.host
    obtain ⟨r', hr', -⟩ := hc.hosts _ r hstays hr
    exact ⟨r', hr'⟩
  · obtain ⟨r, hr, hf, hw⟩ := h.interpreter
    obtain ⟨r', hr', ht, hf'⟩ := hc.interpreters _ r hr
    refine ⟨r', hr', hf' hf, fun e he => ?_⟩
    rw [ht, hc.scopes.root_eq h.scope]
    exact (hw e he).keep hc.scopes

/-- What the layout is drawn from now. -/
def scene (m : Mount) (s : State) (r : Interpreter) : Scene where
  registry := s.registry
  config := r.config
  source := r.source
  transport := r.transport
  answer := s.network.immediate
  root := s.store.valueAt? (s.store.root m.scope)

end Mount

mutual

/-- All components of a tree belong to its host. -/
theorem Mounted.host_of_mem {host : Nat} : (m : Mounted) → ∀ e ∈ m.components host, e.1.host = host
  | .primitive _, _, he => nomatch he
  | .element _ _ _ children, e, he => host_of_mem_all children e he
  | .component _ _ _ _ children, e, he => by
    rcases List.mem_cons.1 he with rfl | he
    · rfl
    · exact host_of_mem_all children e he
  | .fragment _ children, e, he => host_of_mem_all children e he

theorem Mounted.host_of_mem_all {host : Nat} : (ms : List Mounted) →
    ∀ e ∈ Mounted.componentsAll host ms, e.1.host = host
  | [], _, he => nomatch he
  | m :: rest, e, he => by
    rcases List.mem_append.1 he with he | he
    · exact host_of_mem m e he
    · exact host_of_mem_all rest e he

end

/-- The components of layouts mounted side by side. -/
def mountedComponents (ms : List Mount) : List (Instance × Component) := ms.flatMap Mount.components

/-- Layouts are mounted side by side, each on a host of its own, and the ledger is that of all their
components. -/
structure Steady (ms : List Mount) (s : State) : Prop where
  ledger : Ledger s.store (mountedComponents ms)
  numbered : Numbered s ((mountedComponents ms).map (·.1))
  stands : ∀ m ∈ ms, m.Stands s
  hosts : (ms.map (·.host.id)).Nodup

namespace Steady

variable {m m' : Mount} {ms ns : List Mount} {s s' : State}

theorem perm (h : Steady ms s) (hp : ms.Perm ns) : Steady ns s := by
  have hcs : (mountedComponents ms).Perm (mountedComponents ns) := hp.flatMap_right _
  exact ⟨h.ledger.perm hcs, fun i hi => h.numbered i ((hcs.map _).mem_iff.2 hi),
    fun m hm => h.stands m (hp.mem_iff.2 hm), (hp.map _).nodup_iff.1 h.hosts⟩

/-- A state that carries on, with the same subscriptions of proxies. -/
theorem carry {stays : Nat → Prop} (h : Steady ms s) (hc : Carries stays s s')
    (hstays : ∀ m ∈ ms, stays m.host.id) (hl : Ledger s'.store (mountedComponents ms)) : Steady ms s' := by
  refine ⟨hl, fun i hi => ?_, fun m hm => (h.stands m hm).carry hc (hstays m hm), h.hosts⟩
  obtain ⟨r, hr, hle⟩ := h.numbered i hi
  obtain ⟨e, he, rfl⟩ := List.mem_map.1 hi
  obtain ⟨m, hm, he⟩ := List.mem_flatMap.1 he
  have hhost := Mounted.host_of_mem_all _ e he
  obtain ⟨r', hr', hle'⟩ := hc.hosts _ r (hhost ▸ hstays m hm) hr
  exact ⟨r', hr', Nat.le_trans hle hle'⟩

theorem wrote (h : Steady ms s) (hw : Wrote s s') : Steady ms s' :=
  h.carry (hw.carries fun _ => True) (fun _ _ => trivial) (h.ledger.frame hw.scopes hw.tidy hw.proxies)

/-- One of the layouts, with all others beside it. -/
theorem focus (h : Steady (m :: ms) s) : ∃ r, s.interpreters[m.interpreter]? = some r ∧
    Ready s m.host.id m.interpreter (s.store.root m.scope) (m.scene s r) ∧
    Held s m.interpreter r.transport (s.store.root m.scope) (mountedComponents ms) m.components := by
  have hm := h.stands m (List.mem_cons_self ..)
  obtain ⟨r, hr, hf, hw⟩ := hm.interpreter
  refine ⟨r, hr, ⟨⟨rfl, ⟨r, hr, rfl, rfl, rfl, hf⟩, rfl, rfl, rfl, rfl⟩, ?_, hm.host⟩, ?_⟩
  · exact Nat.lt_of_le_of_lt (s.store.root_le _) hm.scope
  · exact ⟨h.ledger, h.numbered, hw⟩

/-- The layout in focus has changed, and the others go on beside it. -/
theorem refocus {waits : Nat → Prop} {r : Interpreter} (h : Steady (m :: ms) s)
    (hr : s.interpreters[m.interpreter]? = some r) (hk : KeepsFor waits s s')
    (hheld : Held s' m.interpreter r.transport (s.store.root m.scope) (mountedComponents ms) m'.components)
    (hm' : m' = { m with host := m'.host }) (hid : m'.host.id = m.host.id) : Steady (m' :: ms) s' := by
  have hc := hk.carries fun _ => True
  have hm := h.stands m (List.mem_cons_self ..)
  refine ⟨hheld.ledger, hheld.numbered, ?_, ?_⟩
  · rw [List.forall_mem_cons]
    refine ⟨⟨hid ▸ (hm.carry hc trivial).host, ?_, ?_⟩, fun n hn =>
      (h.stands n (List.mem_cons_of_mem _ hn)).carry hc trivial⟩
    · rw [hm']
      exact hc.scopes.lt_size hm.scope
    · obtain ⟨r₀, hr₀, hf, -⟩ := hm.interpreter
      obtain ⟨r', hr', hl⟩ := hk.interpreters _ r hr
      cases hr.symm.trans hr₀
      refine ⟨r', by rw [hm']; exact hr', hl.faithful hf, fun e he => ?_⟩
      have hw := hheld.within e he
      rw [hm', hl.transport, hc.scopes.root_eq hm.scope]
      exact hw
  · have hhosts := h.hosts
    rwa [List.map_cons, ← hid, ← List.map_cons (f := fun m : Mount => m.host.id)] at hhosts

end Steady

/-! ### Rendering layouts -/

section

variable {m : Mount} {s : State} {sc : Scene} {cs ms : List (Instance × Component)}

/-- Rendering a layout again from the top. -/
theorem renderMount_ensures (hs : Ready s m.host.id m.interpreter (s.store.root m.scope) sc)
    (hscope : m.scope < s.store.levels.size)
    (hh : Held s m.interpreter sc.transport (s.store.root m.scope) cs (m.components ++ ms)) :
    Ensures (App.renderMount m) s fun m' s' => m' = { m with host := m'.host } ∧ m'.host.id = m.host.id ∧
      ∃ ks, Scene.tree (sc.upTo Host.depthLimit) (s.store.layers m.scope) m.layout = some ks ∧
        Laid m.host.id m.interpreter (s.store.root m.scope) sc cs (fun e => e.2.Fetches) ms s ks
          m'.host.roots s' := by
  refine .bind (tree_yields hs.onStage hscope rfl Host.depthLimit m.layout).ensures fun nodes s₁ h₁ => ?_
  obtain ⟨ks, hks, hf, hd⟩ := h₁
  refine .bind (Host.render_ensures (hs.keep hf.keeps) (hh.forked hf) hd.placed) fun h s₂ ⟨hid, hl⟩ => ?_
  rw [hd.sketch] at hl
  exact .pure ⟨rfl, hid, ks, hks, hl.after hf.keeps⟩

/-- Rendering a layout for the first time gives a result just when the scene has pictures of it. -/
theorem renderMount_yields (hempty : m.host.roots = [])
    (hs : Ready s m.host.id m.interpreter (s.store.root m.scope) sc)
    (hscope : m.scope < s.store.levels.size)
    (hh : Held s m.interpreter sc.transport (s.store.root m.scope) cs ms) :
    Yields (App.renderMount m) s (sc.pictures Host.depthLimit (s.store.layers m.scope) m.layout)
      fun m' ps s' => m' = { m with host := m'.host } ∧ m'.host.id = m.host.id ∧
        (∃ ks, Scene.tree (sc.upTo Host.depthLimit) (s.store.layers m.scope) m.layout = some ks ∧
          Laid m.host.id m.interpreter (s.store.root m.scope) sc cs (fun _ => False) ms s ks
            m'.host.roots s') ∧
        s'.network.requests = s.network.requests ++ Picture.sentAll ps := by
  have htree := (tree_yields hs.onStage hscope rfl Host.depthLimit m.layout).with_result
  refine htree.bind fun nodes ks s₁ ⟨hks, hf, hd⟩ => ?_
  have step := Host.render_yields hempty (hs.keep hf.keeps) (hh.forked hf) hd.placed
  rw [hd.sketch] at step
  refine step.map fun h ps s₂ ⟨hid, hl, hreq⟩ => ⟨rfl, hid, ⟨ks, hks, hl.after hf.keeps⟩, ?_⟩
  rw [hreq, hf.network]

end
end LiveLayout
