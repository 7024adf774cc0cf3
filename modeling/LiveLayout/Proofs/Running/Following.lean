import LiveLayout.Proofs.Drawing.Reads
import LiveLayout.Proofs.Running.Roots
import LiveLayout.Proofs.Running.Steps
/-!
A mounted layout follows the variables at its root. After a write, whatever is no longer as the scene draws
it waits; after a flush, nothing waits, and the layout shows the pictures that the scene has of it.
-/
namespace LiveLayout

open Engine Mounted

section

variable {s s' : State} {m : Mount} {ms : List Mount} {bricks : List (String × Json) → Bool}

/-- A mounted proxy waits after a write, or all that it depends on has the value that it had. -/
theorem Ledger.told {cs : List (Instance × Component)} {i : Instance} {p : Proxy} (h : Ledger s.store cs)
    (hw : Wrote s s') (he : (i, .proxy p) ∈ cs) :
    s'.Waits i ∨ ∀ x ∈ p.depends, s'.store.lookup? p.scope x = s.store.lookup? p.scope x := by
  rw [or_iff_not_imp_left]
  intro hwaits x hx
  by_contra hne
  obtain ⟨⟨key, hkey⟩, hscope⟩ := h.follows _ he
  have howner : s'.store.owner p.scope x = s.store.owner p.scope x := hw.scopes.owner_eq hscope
  have hmem : Subscriber.proxy i key ∈
      cs.filterMap fun e => e.2.subscriberAt? s.store (s.store.owner p.scope x) x := by
    refine List.mem_filterMap.2 ⟨_, he, ?_⟩
    rw [Component.subscriberAt?_proxy, if_pos ⟨hx, rfl⟩, hkey]
  have hsub := (List.mem_filter.1 ((h.entries (s.store.owner p.scope x) x).mem_iff.2 hmem)).1
  apply hwaits
  apply hw.told _ x i key hsub
  intro heq
  apply hne
  rw [Store.lookup?, Store.lookup?, howner, heq]

namespace Mount

theorem waits_iff (hhost : ∃ r, s.host? m.host.id = some r) {e : Instance × Component}
    (he : e.1.host = m.host.id) : m.Waits s e ↔ s.Waits e.1 := by
  obtain ⟨r, hr⟩ := hhost
  obtain ⟨⟨host, id⟩, c⟩ := e
  dsimp only at he
  subst he
  unfold Mount.Waits State.Waits State.queue
  rw [hr]
  constructor
  · intro h r' hr'
    cases hr'
    obtain ⟨q, hq, heq⟩ := List.mem_map.1 h
    cases heq
    exact hq
  · exact fun h => List.mem_map.2 ⟨id, h r rfl, rfl⟩

/-- What a proxy depends on has the same values in two scenes, if it has in two stores. -/
theorem current_congr_of_lookup {r r' : Interpreter} {p : Proxy} (hparsed : p.Parsed)
    (hroot : s.store.root p.scope = s.store.root m.scope)
    (hroot' : s'.store.root p.scope = s'.store.root m.scope)
    (hlayers : s'.store.layers p.scope = s.store.layers p.scope)
    (h : ∀ x ∈ p.depends, s'.store.lookup? p.scope x = s.store.lookup? p.scope x) :
    ∀ d ∈ p.dynamic, (m.scene s' r').current? (s.store.layers p.scope) d =
      (m.scene s r).current? (s.store.layers p.scope) d := by
  intro d hd
  refine Scene.current_congr (hparsed.readsWithin d hd) fun x hx => ?_
  have heq := h x hx
  rw [Store.lookup?_eq_layers, Store.lookup?_eq_layers, hlayers, hroot, hroot'] at heq
  exact heq

/-- Components that do not wait are as current after a write as they were before. -/
theorem fresh_wrote {r : Interpreter} (h : Steady (m :: ms) s) (hw : Wrote s s')
    (hforks : s.store.KeepsForks s'.store)
    (hmarked : ∀ fields, bricks fields = true → (Brick.mk fields).Marked)
    (hf : ((m.scene s r).confine bricks).Fresh s.store (m.Waits s)
      (renderedAll s.store m.host.id m.host.roots)) :
    ((m.scene s' r).confine bricks).Fresh s'.store (m.Waits s')
      (renderedAll s'.store m.host.id m.host.roots) := by
  have hstands := h.stands m (List.mem_cons_self ..)
  have hstands' := (h.wrote hw).stands m (List.mem_cons_self ..)
  have hlayers := hstands.layers_eq hforks
  rw [renderedAll_congr _ hlayers]
  intro e he
  have hmem := List.mem_map_of_mem (f := (·.1)) he
  rw [map_renderedAll] at hmem
  have hhost := host_of_mem_all _ _ hmem
  rw [waits_iff hstands'.host hhost]
  rcases hf e he with hwait | ⟨depth, hd⟩
  · rw [waits_iff hstands.host hhost] at hwait
    exact .inl (hw.waits hwait)
  -- What was current still is, unless a proxy has been told.
  obtain ⟨⟨i, c⟩, children⟩ := e
  have hle : ((m.scene s r).confine bricks).Le ((m.scene s' r).confine bricks) :=
    Scene.confine_le_confine hmarked hw.registry rfl rfl rfl
  have still : (∀ p, c.bare = .proxy p → ∀ d ∈ p.dynamic,
      (m.scene s' r).current? (c.layers s.store) d = (m.scene s r).current? (c.layers s.store) d) →
      ((m.scene s' r).confine bricks).Current s'.store ((i, c), children) := by
    intro hc
    refine ⟨depth, ?_⟩
    have hdrawn := Scene.component_le hle (Scene.upTo_le hle (Nat.le_refl depth)) hc children hd
    rw [hlayers _ hmem]
    exact hdrawn
  cases c with
  | proxy p =>
    rcases h.ledger.told hw (List.mem_flatMap.2 ⟨m, List.mem_cons_self .., hmem⟩) with hwait | hsame
    · exact .inl hwait
    · refine .inr (still fun q hq d hd => ?_)
      obtain ⟨_, _, _, hwithin⟩ := hstands.interpreter
      obtain ⟨scope, hscope, hroot, hat⟩ := hwithin _ hmem
      obtain ⟨-, rfl, -, hparsed⟩ := hat
      cases hq
      refine current_congr_of_lookup hparsed hroot ?_ (hlayers _ hmem) hsame d hd
      rw [hforks.keepsScopes.root_eq hscope, hforks.keepsScopes.root_eq hstands.scope, hroot]
  | _ => exact .inr (still fun _ h => nomatch h)

/-! ### Layouts that keep up -/

/-- The tree stands for the layout as it is drawn from the given bricks alone, and all its components but
those that wait are current. -/
structure Abreast (bricks : List (String × Json) → Bool) (m : Mount) (s : State) (r : Interpreter) : Prop where
  interpreter : s.interpreters[m.interpreter]? = some r
  tree : Scene.tree (((m.scene s r).confine bricks).upTo Host.depthLimit) (s.store.layers m.scope) m.layout =
    some (sketchAll s.store m.host.roots)
  fresh : ((m.scene s r).confine bricks).Fresh s.store (m.Waits s)
    (renderedAll s.store m.host.id m.host.roots)

theorem confine_fetches {r : Interpreter} (e : Instance × Component) (he : e.2.Fetches) (render : Artist)
    (layers : Layers) : ((m.scene s r).confine bricks).component render layers e.2.bare = none := by
  obtain ⟨f, hf⟩ := he
  rw [hf]
  rfl

/-- A layout with current components shows its pictures, if these are drawn from the given bricks. -/
theorem abreast_of_fresh {r : Interpreter} {ps : List Picture}
    (hr : s.interpreters[m.interpreter]? = some r)
    (htree : Scene.tree ((m.scene s r).upTo Host.depthLimit) (s.store.layers m.scope) m.layout =
      some (sketchAll s.store m.host.roots))
    (hf : (m.scene s r).Fresh s.store (fun e => e.2.Fetches)
      (renderedAll s.store m.host.id m.host.roots))
    (hps : ((m.scene s r).confine bricks).pictures Host.depthLimit (s.store.layers m.scope) m.layout =
      some ps) : m.Abreast bricks s r ∧ List.Forall₂ Shows m.host.roots ps := by
  have hle : ((m.scene s r).confine bricks).Le (m.scene s r) := Scene.confine_le bricks fun _ => rfl
  obtain ⟨hshows, htree', hfresh⟩ := hf.shows_layout hle rfl confine_fetches hps htree
  exact ⟨⟨hr, htree', hfresh.mono fun _ _ h => h.elim⟩, hshows⟩

/-- A write leaves a layout abreast. -/
theorem Abreast.wrote {r : Interpreter} (h : m.Abreast bricks s r) (hsteady : Steady (m :: ms) s)
    (hw : Wrote s s') (hforks : s.store.KeepsForks s'.store)
    (hmarked : ∀ fields, bricks fields = true → (Brick.mk fields).Marked) : m.Abreast bricks s' r := by
  have hstands := hsteady.stands m (List.mem_cons_self ..)
  have hle : ((m.scene s r).confine bricks).Le ((m.scene s' r).confine bricks) :=
    Scene.confine_le_confine hmarked hw.registry rfl rfl rfl
  refine ⟨?_, ?_, fresh_wrote hsteady hw hforks hmarked h.fresh⟩
  · rw [hw.interpreters, h.interpreter]
  · have hdrawn := Scene.tree_le (Scene.upTo_le hle (Nat.le_refl Host.depthLimit)) _ _ _ h.tree
    rw [hforks.layers_eq hstands.scope, sketchAll_congr _ (hstands.layers_eq hforks)]
    exact hdrawn

/-- After a flush, a layout that was abreast shows its pictures. -/
theorem Abreast.flushed {r : Interpreter} {m' : Mount} {target target' : String} {ps : List Picture}
    (h : m.Abreast bricks s r) (hstands : m.Stands s) (hk : KeepsFor (fun _ => False) s s')
    (hfl : Flushed s (target, m) (target', m') s')
    (hps : ((m.scene s r).confine bricks).pictures Host.depthLimit (s.store.layers m.scope) m.layout =
      some ps) :
    ∃ r', r.Like r' ∧ m'.Abreast bricks s' r' ∧ List.Forall₂ Shows m'.host.roots ps := by
  have hle : ((m.scene s r).confine bricks).Le (m.scene s r) := Scene.confine_le bricks fun _ => rfl
  have hcurrent : (m.scene s r).Fresh s.store (fun e => m.Waits s e ∨ e.2.Fetches)
      (renderedAll s.store m.host.id m.host.roots) := by
    intro e he
    rcases h.fresh e he with hwait | ⟨depth, hd⟩
    · exact .inl (.inl hwait)
    · have hdeep := Scene.upTo_le hle (Nat.le_refl depth)
      exact .inr ⟨depth, Scene.component_le hle hdeep (fun _ _ _ _ => rfl) _ hd⟩
  obtain ⟨hsketch, hfresh⟩ := hfl.renews r (fun e => e.2.Fetches) h.interpreter (fun _ he => he) hcurrent
  obtain ⟨r', hr', hlike⟩ := hk.interpreters _ r h.interpreter
  have hlayers := hk.values.keepsForks.layers_eq hstands.scope
  have hscene : m'.scene s' r' = m.scene s r := by
    rw [show m' = { m with host := m'.host } from hfl.mount]
    exact scene_keep hk hlike hstands.scope
  have hmount : m'.interpreter = m.interpreter ∧ m'.scope = m.scope ∧ m'.layout = m.layout := by
    rw [show m' = { m with host := m'.host } from hfl.mount]
    exact ⟨rfl, rfl, rfl⟩
  obtain ⟨hinterpreter, hscope, hlayout⟩ := hmount
  refine ⟨r', hlike, abreast_of_fresh ?_ ?_ ?_ ?_⟩
  · rw [hinterpreter, hr']
  · rw [hscene, hscope, hlayout, hlayers, hsketch]
    exact Scene.tree_le (Scene.upTo_le hle (Nat.le_refl Host.depthLimit)) _ _ _ h.tree
  · rw [hscene]
    exact hfresh
  · rw [hscene, hscope, hlayout, hlayers]
    exact hps

end Mount
end
end LiveLayout
