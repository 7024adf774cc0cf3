import LiveLayout.Proofs.Rows.Turns
import Mathlib.Logic.Relation
/-!
Rendering a layout again, from the top or where components wait for it. In every single rendering the rows of lists are
kept by the ids of their elements.
-/
namespace LiveLayout

open Engine Mounted

/-- A proxy among the components of a host follows just the variables that it depends on, as the scope has them. -/
def Store.Listens (σ : Store) (host : Nat) (scope : Scope) (x : Nat × Component) : Prop :=
  ∀ p, x.2 = .proxy p → ∀ k name, (∃ key, .proxy ⟨host, x.1⟩ key ∈ σ.subscribersAt k name) ↔
    name ∈ p.depends ∧ σ.owner scope name = k

/-- The rows of a list are in new forks, each of which binds its element over the scope of the list. The components in
a row stand in its fork, and its proxies follow what they read there. -/
def Part.Rebound (host i : Nat) (tr : Bool) (s s' : State) (e : Part) : Prop :=
  ∀ p, e.component = .forEach p → ForEach.Spreads s.store.levels.size s'.store i p
    (fun f row => ∀ x ∈ row.near, x.2.At i tr f ∧ s'.store.Listens host f x) e.children

/-- One rendering has led from one forest of a host to another. The outlines say what the layout of the host always
comes to. -/
structure Redraw (sc : Scene) (os : List Outline) (host i : Nat) (x y : State × List Mounted) : Prop where
  /-- Where the outlines lead, the components are the same. -/
  layout : (Outline.anchorsAll os y.2).map Prod.fst = (Outline.anchorsAll os x.2).map Prod.fst
  /-- What is new has a new number. -/
  entering : ∀ j ∈ numbers y.2, j ∈ numbers x.2 ∨ ∀ r, x.1.host? host = some r → r.lastId < j
  rows : ∀ d ∈ partsAll x.2, ∀ e ∈ partsAll y.2, d.id = e.id → ∀ ids ids' template, d.IsList ids template →
    e.IsList ids' template → Part.KeepsRows (sc.outlines template) x.2 y.2 ids ids' d e
  /-- A list that has been rendered has put its rows into new forks. -/
  forks : ∀ d ∈ partsAll x.2, ∀ e ∈ partsAll y.2, d.id = e.id → e.component = d.component ∨
    e.Rebound host i sc.transport x.1 y.1

theorem Ledger.mem_subscribersAt {σ : Store} {cs : List (Instance × Component)} {i : Instance} {p : Proxy} (h : Ledger σ cs)
    (hmem : (i, .proxy p) ∈ cs) (k : Nat) (name : String) :
    (∃ key, .proxy i key ∈ σ.subscribersAt k name) ↔ name ∈ p.depends ∧ σ.owner p.scope name = k := by
  obtain ⟨⟨own, hown⟩, -⟩ := h.follows _ hmem
  have hentries (key : Option String) : .proxy i key ∈ σ.subscribersAt k name ↔
      ∃ e ∈ cs, e.2.subscriberAt? σ k name = some (.proxy i key) := by
    rw [← List.mem_filterMap, ← (h.entries k name).mem_iff, List.mem_filter]
    simp [Subscriber.isProxy]
  constructor
  · rintro ⟨key, hkey⟩
    obtain ⟨e, he, hsub⟩ := (hentries key).1 hkey
    obtain ⟨key', heq⟩ := (h.follows e he).instance_eq hsub
    have hsame := List.inj_on_of_nodup_map h.nodup he hmem (Subscriber.proxy.inj heq).1.symm
    rw [hsame, Component.subscriberAt?_proxy] at hsub
    by_contra hnot
    rw [if_neg hnot] at hsub
    cases hsub
  · intro hdepends
    refine ⟨own, (hentries own).2 ⟨_, hmem, ?_⟩⟩
    rw [Component.subscriberAt?_proxy, if_pos hdepends]
    exact hown

namespace Mounted

variable {host : Nat}

mutual

theorem mem_components_of_near {x : Nat × Component} : (m : Mounted) → x ∈ m.near →
    (⟨host, x.1⟩, x.2) ∈ m.components host
  | .primitive _, hx => nomatch hx
  | .element _ _ _ children, hx => mem_componentsAll_of_near children hx
  | .component id _ c _ children, hx => by
    cases c with
    | proxy p =>
      rcases List.mem_cons.1 hx with rfl | hx
      · exact List.mem_cons_self ..
      · exact List.mem_cons_of_mem _ (mem_componentsAll_of_near children hx)
    | _ =>
      obtain rfl := List.mem_singleton.1 hx
      exact List.mem_cons_self ..
  | .fragment _ children, hx => mem_componentsAll_of_near children hx

theorem mem_componentsAll_of_near {x : Nat × Component} : (ms : List Mounted) → x ∈ nearAll ms →
    (⟨host, x.1⟩, x.2) ∈ componentsAll host ms
  | [], hx => nomatch hx
  | m :: rest, hx => by
    rw [nearAll, List.mem_append] at hx
    rw [componentsAll, List.mem_append]
    exact hx.imp (mem_components_of_near m) (mem_componentsAll_of_near rest)

end

theorem map_numbers (host : Nat) (ms : List Mounted) :
    (numbers ms).map (Instance.mk host) = (componentsAll host ms).map (·.1) := by
  rw [numbers, ← map_partsAll, List.map_map, List.map_map]
  rfl

end Mounted

namespace Part

variable {host i lo : Nat} {tr : Bool} {s s' : State} {ms : List Mounted} {cs : List (Instance × Component)} {e : Part}

theorem Forked.rebound (h : e.Forked i tr s.store.levels.size s'.store) (he : e ∈ partsAll ms)
    (hl : Ledger s'.store (componentsAll host ms ++ cs)) : e.Rebound host i tr s s' := by
  intro p hp items binding template hlists
  obtain ⟨parent, hparent, hrows⟩ := h.forEach p hp items binding template hlists
  refine ⟨parent, hparent, ?_⟩
  have hin : ∀ row ∈ e.children, ∀ x ∈ row.near, (⟨host, x.1⟩, x.2) ∈ componentsAll host ms ++ cs := by
    intro row hrow x hx
    have hmem : (⟨host, x.1⟩, x.2) ∈ componentsAll host e.children :=
      mem_componentsAll_of_near e.children (mem_nearAll.2 ⟨row, hrow, hx⟩)
    rw [← map_partsAll] at hmem
    refine List.mem_append_left _ ?_
    rw [← map_partsAll]
    exact ((sublist_partsAll ms he).map _).subset hmem
  generalize e.children = rows at hrows hin
  clear hlists hparent hp he h
  induction hrows with
  | nil => exact .nil
  | cons hrow _ ih =>
    rw [List.forall_mem_cons] at hin
    obtain ⟨f, hlo, hf, hinside⟩ := hrow
    refine .cons ⟨f, hlo, hf, fun x hx => ⟨hinside x hx, ?_⟩⟩ (ih hin.2)
    rintro p hp k name
    have hat := hinside x hx
    have hmem := hin.1 x hx
    rw [hp] at hat hmem
    rw [hl.mem_subscribersAt hmem, hat.2.1]

end Part

/-- Whatever has come of a forest, it is one rendering that has led there. -/
theorem Turn.redraw {sc : Scene} {os : List Outline} {host i last : Nat} {x y : State × List Mounted}
    {cs : List (Instance × Component)} (h : Turn sc last x.2 y.2)
    (hlast : ∀ r, x.1.host? host = some r → r.lastId = last)
    (layout : (Outline.anchorsAll os y.2).map Prod.fst = (Outline.anchorsAll os x.2).map Prod.fst)
    (forks : ∀ e ∈ partsAll y.2, e.Forked i sc.transport x.1.store.levels.size y.1.store ∨
      ∃ d ∈ partsAll x.2, d.id = e.id ∧ d.component = e.component)
    (hl : Ledger y.1.store (componentsAll host y.2 ++ cs)) : Redraw sc os host i x y := by
  refine ⟨layout, fun j hj => ?_, fun d hd e he hid ids ids' template hlist hlist' =>
    h.keepsRows hd he hid hlist hlist', fun d hd e he hid => ?_⟩
  · obtain ⟨e, he, rfl⟩ := List.mem_map.1 hj
    rcases h.parts e he with hlt | ⟨d, hd, hid, -⟩
    · exact .inr fun r hr => hlast r hr ▸ hlt
    · exact .inl (hid ▸ List.mem_map_of_mem hd)
  · rcases forks e he with hforked | ⟨d', hd', hid', hc⟩
    · exact .inr (hforked.rebound he hl)
    · rw [Turn.eq_of_id h.nodup hd' hd (hid'.trans hid.symm)] at hc
      exact .inl hc.symm

namespace Held

variable {s : State} {i host : Nat} {tr : Bool} {root : Scope} {cs : List (Instance × Component)} {ms : List Mounted}

theorem nodup_numbers (h : Held s i tr root cs (componentsAll host ms ++ [])) : (numbers ms).Nodup := by
  have hn := h.nodup
  rw [← map_numbers] at hn
  exact hn.of_map _

theorem le_lastId (h : Held s i tr root cs (componentsAll host ms ++ [])) {r : HostRecord} (hr : s.host? host = some r) :
    ∀ j ∈ numbers ms, j ≤ r.lastId := by
  intro j hj
  have hmem : (⟨host, j⟩ : Instance) ∈ (componentsAll host ms).map (·.1) := by
    rw [← map_numbers]
    exact List.mem_map_of_mem hj
  obtain ⟨r', hr', hle⟩ := h.numbered ⟨host, j⟩ (by
    simp only [List.append_nil, List.map_append, List.mem_append, hmem, true_or])
  cases hr.symm.trans hr'
  exact hle

end Held

namespace Host

variable {sc : Scene} {os : List Outline} {i root : Nat} {cs : List (Instance × Component)} {s s' : State} {h h' : Host}

/-- The host's tree has the outlines, and all components in it show what has the outline that is known of them. -/
structure Shaped (sc : Scene) (os : List Outline) (h : Host) : Prop where
  formed : Formed sc h.roots
  layout : ∀ σ, sc.OutlinedAll os (sketchAll σ h.roots)

/-- A host with a tree that is ready to be rendered again. -/
structure Framed (i : Nat) (root : Scope) (sc : Scene) (os : List Outline) (cs : List (Instance × Component)) (s : State)
    (h : Host) : Prop where
  ready : Ready s h.id i root sc
  held : Held s i sc.transport root cs (componentsAll h.id h.roots ++ [])
  shaped : Shaped sc os h

namespace Framed

theorem ledger (hf : Framed i root sc os cs s h) : Ledger s.store (componentsAll h.id h.roots ++ cs) := by
  have hl := hf.held.ledger
  rwa [List.append_nil] at hl

theorem stationed (hf : Framed i root sc os cs s h) :
    ∀ e ∈ componentsAll h.id h.roots, Stationed s i sc.transport root e := .of_held hf.held

/-- What happens elsewhere and leaves all values as they are. -/
theorem keep {waits : Nat → Prop} (hf : Framed i root sc os cs s h) (hk : KeepsFor waits s s')
    (hstore : s'.store = s.store) : Framed i root sc os cs s' h :=
  ⟨hf.ready.keep hk, hf.held.of_store hk hstore, hf.shaped⟩

/-- Where nothing is rendered, all stays. -/
theorem still (hf : Framed i root sc os cs s h) (hl : Ledger s'.store (componentsAll h.id h.roots ++ cs)) :
    Redraw sc os h.id i (s, h.roots) (s', h.roots) := by
  obtain ⟨r, hr⟩ := hf.ready.host
  have hturn : Turn sc r.lastId h.roots h.roots :=
    ⟨.refl .refl _, ⟨fun _ => 0, .of_eq_zero fun _ _ => rfl⟩, hf.shaped.formed, hf.shaped.formed, hf.held.le_lastId hr,
      hf.held.nodup_numbers, hf.held.nodup_numbers⟩
  refine hturn.redraw (fun r' hr' => ?_) rfl (fun e he => .inr ⟨e, he, rfl, rfl⟩) hl
  cases hr.symm.trans hr'
  rfl

end Framed

/-- Rendering a component again where it stands. -/
theorem rerender_redraws {id : Nat} {key : Option String} {c : Component} {renders : Nat} {children : List Mounted}
    (hf : Framed i root sc os cs s h) (hfind : findAll? id h.roots = some (.component id key c renders children)) :
    Ensures (rerender h.id depthLimit (update h.id depthLimit) id key c renders children) s fun m s' =>
      Keeps s s' ∧ Framed i root sc os cs s' { h with roots := replaceAll id m h.roots } ∧
        Redraw sc os h.id i (s, h.roots) (s', replaceAll id m h.roots) := by
  obtain ⟨r, hr⟩ := hf.ready.host
  have hlast : GivenOut h.id r.lastId s := ⟨r, hr, Nat.le_refl _⟩
  have hstationed := fun e he => hf.stationed e (components_findAll? h.roots hfind he)
  rw [components, List.forall_mem_cons] at hstationed
  obtain ⟨hc, hchildren⟩ := hstationed
  have hformed : Formed sc [.component id key c renders children] := fun e he =>
    hf.shaped.formed e (partsAll_findAll? h.roots hfind (by rwa [partsAll_singleton] at he))
  have hraises : Raises h.id i root sc depthLimit (update h.id depthLimit) := update_raises depthLimit
  have hexcused : sc.Fresh s.store (fun e => e.1 = ⟨h.id, id⟩ ∨ True) (renderedAll s.store h.id h.roots) :=
    fun _ _ => .inl (.inr trivial)
  have hrenewed := rerender_renewed hf.ready hf.held hfind (fun _ _ => trivial) hexcused
  have hregrown := rerender_regrown hf.ready hlast hf.held hfind
  have hraised := rerender_raised hraises key renders hf.ready hc hchildren
  have htakes := rerender_takes hraises (update_succeeds r.lastId depthLimit) key renders hf.ready hlast hc
    hchildren fun e he => hformed e (by rw [partsAll_singleton]; exact List.mem_cons_of_mem _ he)
  have hstands := rerender_stands hraises (update_stands s.store.levels.size depthLimit) key renders hf.ready
    (Nat.le_refl _) hc hchildren
  refine (((hrenewed.and hregrown).and (hraised.and htakes)).and hstands).mono fun m s' hm => ?_
  obtain ⟨⟨⟨hrenewed, -, hlines⟩, hraised, nodes, new, σ, rfl, htakes, hyields⟩, hstands⟩ := hm
  have hm' : Formed sc [.component id key c (renders + 1) new] :=
    (hraised.upToDate _ (List.mem_singleton_self _)).formed
  have hcomes : Comes sc r.lastId (.component id key c renders children) (.component id key c (renders + 1) new) :=
    .of_takes (σ := σ) (.component htakes hformed hyields rfl rfl σ) rfl hm'
  have hall := replaceAll_comes hcomes h.roots hf.shaped.formed hf.held.nodup hfind
  have hframed : Framed i root sc os cs s' { h with roots := replaceAll id (.component id key c (renders + 1) new) h.roots } :=
    ⟨hf.ready.keep hrenewed.keeps, hrenewed.held, hall.formed, fun σ => hall.outlined (hf.shaped.layout σ)⟩
  have hturn : Turn sc r.lastId h.roots (replaceAll id (.component id key c (renders + 1) new) h.roots) :=
    ⟨hall.passes, ⟨_, hlines⟩, hf.shaped.formed, hall.formed, hf.held.le_lastId hr, hf.held.nodup_numbers, hframed.held.nodup_numbers⟩
  refine ⟨hrenewed.keeps, hframed, hturn.redraw (fun r' hr' => ?_) (hall.anchors (hf.shaped.layout {})) (fun e he => ?_)
    hframed.ledger⟩
  · cases hr.symm.trans hr'
    rfl
  · exact (mem_partsAll_replaceAll h.roots he).imp_left ((hstands c fun _ h => h).parts e)

/-- One rendering after another has led from one tree of the host to another. -/
structure Redrawn (waits : Nat → Prop) (i : Nat) (root : Scope) (sc : Scene) (os : List Outline)
    (cs : List (Instance × Component)) (s : State) (h h' : Host) (s' : State) : Prop where
  id : h'.id = h.id
  keeps : KeepsFor waits s s'
  framed : Framed i root sc os cs s' h'
  steps : Relation.ReflTransGen (Redraw sc os h.id i) (s, h.roots) (s', h'.roots)

namespace Redrawn

variable {waits waits' : Nat → Prop} {s₁ : State} {h₁ : Host}

theorem refl (hf : Framed i root sc os cs s h) : Redrawn waits i root sc os cs s h h s := ⟨rfl, .refl s, hf, .refl⟩

theorem trans (h₀ : Redrawn waits i root sc os cs s h h₁ s₁) (h₂ : Redrawn waits i root sc os cs s₁ h₁ h' s') :
    Redrawn waits i root sc os cs s h h' s' := by
  refine ⟨h₂.id.trans h₀.id, h₀.keeps.trans h₂.keeps, h₂.framed, h₀.steps.trans ?_⟩
  rw [← h₀.id]
  exact h₂.steps

theorem mono (h₀ : Redrawn waits i root sc os cs s h h' s') (hw : ∀ id, waits' id → waits id) :
    Redrawn waits' i root sc os cs s h h' s' := ⟨h₀.id, h₀.keeps.mono hw, h₀.framed, h₀.steps⟩

/-- Between renderings, the values stay as they are. -/
theorem still (hf : Framed i root sc os cs s h) (hk : KeepsFor waits s s') (hstore : s'.store = s.store) :
    Redrawn waits i root sc os cs s h h s' :=
  ⟨rfl, hk, hf.keep hk hstore, .single (hf.still (hstore ▸ hf.ledger))⟩

end Redrawn

theorem rerenderAll_redrawn (ids : List Nat) : ∀ s h count, Framed i root sc os cs s h →
    Ensures (h.rerenderAll count ids) s fun r s' => Redrawn (fun _ => True) i root sc os cs s h r.1 s' := by
  induction ids with
  | nil => exact fun s h count hf => .pure (.refl hf)
  | cons id rest ih =>
    intro s h count hf
    cases hfind : findAll? id h.roots with
    | none =>
      obtain ⟨_, s₁, htrace, hq⟩ := silent_trace (.notMounted id) s
      have hstill := Redrawn.still hf hq.keeps hq.store
      rw [rerenderAll, hfind]
      exact .bind_run htrace ((ih s₁ h count hstill.framed).mono fun r s' h₂ => hstill.trans h₂)
    | some old =>
      obtain ⟨key, c, renders, children, rfl⟩ := exists_of_findAll? h.roots hfind
      rw [rerenderAll, hfind]
      refine (rerender_redraws hf hfind).bind fun m s₁ h₁ => ?_
      obtain ⟨hk, hframed, hstep⟩ := h₁
      have hone : Redrawn (fun _ => True) i root sc os cs s h { h with roots := replaceAll id m h.roots } s₁ :=
        ⟨rfl, hk, hframed, .single hstep⟩
      exact (ih s₁ _ (count + 1) hframed).mono fun r s' h₂ => hone.trans h₂

theorem flushRounds_redrawn (rounds : Nat) : ∀ s h count, Framed i root sc os cs s h →
    Ensures (h.flushRounds count rounds) s fun r s' => Redrawn (· ≠ h.id) i root sc os cs s h r.1 s' := by
  induction rounds with
  | zero =>
    intro s h count hf
    obtain ⟨s₁, hclear, hk, hstore⟩ := h.clearQueue_run s
    have hdone := Redrawn.still hf hk hstore
    refine .bind_run (h.queue_run s) (.bind_run hclear ?_)
    split
    · refine .bind_run (t := { s₁ with notices := .endlessFlush roundLimit :: s₁.notices }) rfl (.pure ?_)
      have hq : Quiet s₁ { s₁ with notices := .endlessFlush roundLimit :: s₁.notices } := ⟨rfl, .refl _⟩
      exact hdone.trans (.still hdone.framed (hq.keeps.mono fun _ _ => trivial) rfl)
    · exact .pure hdone
  | succ rounds ih =>
    intro s h count hf
    obtain ⟨s₁, hclear, hk, hstore⟩ := h.clearQueue_run s
    have hdone := Redrawn.still hf hk hstore
    refine .bind_run (h.queue_run s) (.bind_run hclear ?_)
    split
    · exact .pure hdone
    · refine (rerenderAll_redrawn _ s₁ h count hdone.framed).bind fun r s₂ h₂ => ?_
      refine (ih s₂ r.1 r.2 h₂.framed).mono fun r' s' h₃ => ?_
      rw [h₂.id] at h₃
      exact (hdone.trans (h₂.mono fun _ _ => trivial)).trans h₃

/-- Flushing a host renders it here and there, one time after another. -/
theorem flush_redrawn (hf : Framed i root sc os cs s h) :
    Ensures h.flush s fun r s' => Redrawn (· ≠ h.id) i root sc os cs s h r.1 s' :=
  flushRounds_redrawn roundLimit s h 0 hf

/-- Rendering a host from the top, with nodes that have the outlines of its layout. -/
theorem render_redraws {nodes : List Node} (hf : Framed i root sc os cs s h)
    (hn : ∀ n ∈ nodes, n.Placed (Within s.store i sc.transport root))
    (hos : sc.OutlinedAll os (nodes.map (Node.sketch s.store))) :
    Ensures (h.render nodes) s fun h' s' => h'.id = h.id ∧ Keeps s s' ∧ Framed i root sc os cs s' h' ∧
      Redraw sc os h.id i (s, h.roots) (s', h'.roots) := by
  obtain ⟨r, hr⟩ := hf.ready.host
  have hlast : GivenOut h.id r.lastId s := ⟨r, hr, Nat.le_refl _⟩
  have hraises : Raises h.id i root sc depthLimit (update h.id depthLimit) := update_raises depthLimit
  have hrenews : Renews h.id i root sc r.lastId (update h.id depthLimit) := update_renews depthLimit
  have hlaid := reconcile_ensures (update_updates depthLimit) depthLimit h.roots nodes hf.ready hf.held hn
  have hlines := hrenews.reconcile depthLimit (fun e he => (hf.stationed e he).ofLayout) hf.ready hlast hn
  have hraised := reconcile_raised hraises h.roots nodes hf.ready hf.stationed hn
  have htakes := reconcile_takes hraises (update_succeeds r.lastId depthLimit) h.roots nodes hf.ready hlast hf.stationed
    hf.shaped.formed hn
  have hstands := reconcile_stands hraises (update_stands s.store.levels.size depthLimit) h.roots nodes
    hf.ready (Nat.le_refl _) hf.stationed hn
  refine .bind ((((hlaid.and hlines).and hraised).and htakes).and hstands) fun new s' hm => .pure ?_
  obtain ⟨⟨⟨⟨hlaid, -, hlines⟩, hraised⟩, htakes⟩, hstands⟩ := hm
  have hformed : Formed sc new := UpToDate.formed_all hraised.upToDate
  have hnew : sc.OutlinedAll os (sketchAll s'.store new) := by
    rw [hraised.sketch]
    exact hos
  have hframed : Framed i root sc os cs s' { h with roots := new } :=
    ⟨hf.ready.keep hlaid.keeps, hlaid.held, hformed, fun σ => .move new hnew⟩
  have hturn : Turn sc r.lastId h.roots new :=
    ⟨htakes.passes, ⟨_, hlines []⟩, hf.shaped.formed, hformed, hf.held.le_lastId hr, hf.held.nodup_numbers, hframed.held.nodup_numbers⟩
  refine ⟨rfl, hlaid.keeps, hframed, hturn.redraw (fun r' hr' => ?_) (htakes.anchors (hf.shaped.layout s.store) hos)
    (fun e he => .inl (StandsAll.parts hstands e he)) hframed.ledger⟩
  cases hr.symm.trans hr'
  rfl

end Host
end LiveLayout
