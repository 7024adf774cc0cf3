import LiveLayout.Proofs.Mounting.Turns
import LiveLayout.Proofs.Staying.Tenants
/-!
Hosts whose trees are rendered again here and there. What is not rendered stays where it is, and what is rendered shows
what it should.
-/
namespace LiveLayout

open Engine

theorem Store.KeepsValues.lookup?_eq {σ τ : Store} (h : σ.KeepsValues τ) {scope : Scope}
    (hscope : scope < σ.levels.size) (x : String) : τ.lookup? scope x = σ.lookup? scope x := by
  rw [lookup?_eq_layers, lookup?_eq_layers, h.keepsForks.layers_eq hscope, h.keepsScopes.root_eq hscope,
    h.valueAt?_eq (Nat.lt_of_le_of_lt (σ.root_le scope) hscope)]

/-- What a proxy shows stays right while the values of variables stay. -/
theorem Tenant.Shown.keep {e : Tenant} {i : Nat} {tr : Bool} {root : Scope} {σ τ : Store} (h : e.Shown tr σ)
    (hwithin : Within σ i tr root e.component) (hk : σ.KeepsValues τ) : e.Shown tr τ := by
  refine h.congr fun p hp => ?_
  rw [hp] at hwithin
  obtain ⟨_, hscope, -, -, rfl, -, hparsed⟩ := hwithin
  exact ⟨hparsed, fun x _ => hk.lookup?_eq hscope x⟩

theorem Tenant.Drawn.keep {e : Tenant} {i : Nat} {tr : Bool} {root : Scope} {σ τ : Store} (h : e.Drawn i tr σ)
    (hwithin : Within σ i tr root e.component) (hk : σ.KeepsValues τ) : e.Drawn i tr τ :=
  ⟨h.shown.keep hwithin hk, h.housed.keep hk.keepsScopes⟩

namespace Host

open Mounted

variable {s s' : State} {last i root : Nat} {sc : Scene} {cs ms : List (Instance × Component)} {h h' : Host}

/-- The components in the host's tree. -/
def tenants (h : Host) : List Tenant := tenantsAll [] h.roots

theorem within_tenants (hh : Held s i sc.transport root cs (componentsAll h.id h.roots ++ ms)) :
    ∀ e ∈ h.tenants, Within s.store i sc.transport root e.component := fun _ he =>
  hh.within _ (List.mem_append_left _ (component_mem_of_mem h.id he))

/-- Rendering a component again leaves all that is not in it as it is. -/
theorem rerender_outlasts {id renders : Nat} {key : Option String} {c : Component} {children : List Mounted}
    (hs : Ready s h.id i root sc) (hlast : GivenOut h.id last s)
    (hh : Held s i sc.transport root cs (componentsAll h.id h.roots ++ ms))
    (hfind : findAll? id h.roots = some (.component id key c renders children)) :
    Ensures (rerender h.id depthLimit (update h.id depthLimit) id key c renders children) s fun m s' =>
      Outlasts last i sc.transport s'.store h.tenants { h with roots := replaceAll id m h.roots }.tenants := by
  have hstationed := fun e he => Stationed.of_held hh e (components_findAll? h.roots hfind he)
  rw [components, List.forall_mem_cons] at hstationed
  obtain ⟨hc, hchildren⟩ := hstationed
  obtain ⟨scope, hscope, hroot, hat⟩ := hc.1
  have hraises : Raises h.id i root sc depthLimit (update h.id depthLimit) := update_raises depthLimit
  have hrenews : Renews h.id i root sc last (update h.id depthLimit) := update_renews depthLimit
  have hlayouts := fun e he => (hchildren e he).ofLayout
  have hform := hrenews.rerender depthLimit id key renders hlayouts hs hlast hscope hroot hat
  have hlines := rerender_regrown hs hlast hh hfind
  have hraised := rerender_raised hraises key renders hs hc hchildren
  have hstands := rerender_stands hraises (update_stands s.store.levels.size depthLimit) key renders hs
    (Nat.le_refl _) hc hchildren
  refine ((hform.and hlines).and (hraised.and hstands)).mono fun m s' hm => ?_
  obtain ⟨⟨⟨hstirs, next, rfl, -⟩, -, hlines⟩, hraised, hstands⟩ := hm
  have hnext : ∀ scope, c.At i sc.transport scope →
      (component id key c (renders + 1) next).Inside i sc.transport scope :=
    fun scope hat => (hstands c fun _ h => h).inside scope (Node.placed_component.2 hat)
  have hsame : ∀ d ∈ h.tenants, d.id = id → d.key = key ∧ d.component = c := by
    intro d hd hid
    obtain ⟨above, hmem⟩ := exists_tenant_of_findAll? [] h.roots hfind
    obtain rfl := eq_of_mem_tenants hh.nodup hd hmem hid
    exact ⟨rfl, rfl⟩
  intro e he
  refine (tenantsAll_replaceAll hnext [] h.roots hsame e he).symm.imp_right ?_
  rintro ⟨above, hmem⟩
  have hpath : id ∈ e.path := mem_path_of_component (map_tenants above _ ▸ List.mem_map_of_mem hmem)
  have hwithin : ∀ e ∈ (component id key c (renders + 1) next).components h.id,
      Within s'.store i sc.transport root e.2 := fun e he =>
    (hraised.stationed e (by rwa [componentsAll_singleton])).1
  have hroot' := (hs.keep hstirs.keeps).onStage.root
  have hpart : e.toPart ∈ (component id key c (renders + 1) next).parts := map_toPart above _ ▸ List.mem_map_of_mem hmem
  refine ⟨⟨?_, .of_forked ((hstands c fun _ h => h).parts _ hpart)⟩, ?_⟩
  · exact (hraised.upToDate _ (List.mem_singleton_self _)).shown_tenants hroot' hwithin above e hmem
  · refine (hlines e.toLine (line_mem_of_mem he)).imp_right fun ⟨r, hr, heq⟩ => ?_
    rw [← map_tenantsAll] at hr
    obtain ⟨d, hd, hline⟩ := List.mem_map.1 hr
    refine ⟨d, hd, by rw [hline], ?_⟩
    rw [hline, heq]
    simp [turns, hpath]

/-- The host's tree has come out of another one: whatever has not been rendered has stayed. -/
structure Endures (last i : Nat) (root : Scope) (tr : Bool) (cs ms : List (Instance × Component)) (s : State)
    (h h' : Host) (s' : State) : Prop where
  id : h'.id = h.id
  keeps : KeepsFor (fun _ => False) s s'
  held : Held s' i tr root cs (componentsAll h'.id h'.roots ++ ms)
  outlasts : Outlasts last i tr s'.store h.tenants h'.tenants

namespace Endures

variable {s₁ : State} {h₁ : Host} {waits : Nat → Prop}

/-- Where nothing is rendered, all stays. -/
theorem still (hh : Held s i sc.transport root cs (componentsAll h.id h.roots ++ ms)) (hk : KeepsFor waits s s')
    (hstore : s'.store = s.store) : Endures last i root sc.transport cs ms s h h s' :=
  ⟨rfl, hk.mono fun _ => False.elim, hh.of_store hk hstore, .refl _⟩

theorem refl (hh : Held s i sc.transport root cs (componentsAll h.id h.roots ++ ms)) :
    Endures last i root sc.transport cs ms s h h s := ⟨rfl, .refl s, hh, .refl _⟩

theorem trans (h₀ : Endures last i root sc.transport cs ms s h h₁ s₁)
    (h₂ : Endures last i root sc.transport cs ms s₁ h₁ h' s') : Endures last i root sc.transport cs ms s h h' s' := by
  refine ⟨h₂.id.trans h₀.id, h₀.keeps.trans h₂.keeps, h₂.held, h₀.outlasts.trans h₂.outlasts fun d hd hdrawn => ?_⟩
  exact hdrawn.keep (within_tenants h₀.held d hd) h₂.keeps.values

end Endures

theorem rerenderAll_endures (ids : List Nat) : ∀ s h count, Ready s h.id i root sc → GivenOut h.id last s →
    Held s i sc.transport root cs (componentsAll h.id h.roots ++ ms) →
    Ensures (h.rerenderAll count ids) s fun r s' => Endures last i root sc.transport cs ms s h r.1 s' := by
  induction ids with
  | nil => exact fun s h count _ _ hh => .pure (.refl hh)
  | cons id rest ih =>
    intro s h count hs hlast hh
    cases hfind : findAll? id h.roots with
    | none =>
      obtain ⟨_, s₁, htrace, hq⟩ := silent_trace (.notMounted id) s
      have hstill : Endures last i root sc.transport cs ms s h h s₁ := .still hh hq.keeps hq.store
      rw [rerenderAll, hfind]
      exact .bind_run htrace ((ih s₁ h count (hs.keep hq.keeps) (hlast.keep hq.keeps) hstill.held).mono fun r s' h₂ =>
        hstill.trans h₂)
    | some old =>
      obtain ⟨key, c, renders, children, rfl⟩ := exists_of_findAll? h.roots hfind
      have hexcused : sc.Fresh s.store (fun e => e.1 = ⟨h.id, id⟩ ∨ True) (renderedAll s.store h.id h.roots) :=
        fun _ _ => .inl (.inr trivial)
      have hrenewed := rerender_renewed hs hh hfind (fun _ _ => trivial) hexcused
      rw [rerenderAll, hfind]
      refine .bind (hrenewed.and (rerender_outlasts hs hlast hh hfind)) fun m s₁ h₁ => ?_
      obtain ⟨hrenewed, houtlasts⟩ := h₁
      have hk := hrenewed.keeps
      have hone : Endures last i root sc.transport cs ms s h { h with roots := replaceAll id m h.roots } s₁ :=
        ⟨rfl, hk.mono fun _ => False.elim, hrenewed.held, houtlasts⟩
      refine (ih s₁ { h with roots := replaceAll id m h.roots } (count + 1) (hs.keep hk) (hlast.keep hk)
        hrenewed.held).mono fun r s' h₂ => hone.trans h₂

/-- In the rounds of a flush, whatever is not rendered stays. In the end nothing waits. -/
theorem flushRounds_endures (rounds : Nat) : ∀ s h count, Ready s h.id i root sc → GivenOut h.id last s →
    Held s i sc.transport root cs (componentsAll h.id h.roots ++ ms) →
    Ensures (h.flushRounds count rounds) s fun r s' =>
      Endures last i root sc.transport cs ms s h r.1 s' ∧ s'.queue h.id = [] := by
  induction rounds with
  | zero =>
    intro s h count hs hlast hh
    obtain ⟨s₁, hclear, hk, hstore⟩ := h.clearQueue_run s
    have hstill : Endures last i root sc.transport cs ms s h h s₁ := .still hh hk hstore
    have hempty : s₁.queue h.id = [] := by rw [queue_clearQueue hclear, if_pos rfl]
    refine .bind_run (h.queue_run s) (.bind_run hclear ?_)
    split
    · have hq : Quiet s₁ { s₁ with notices := .endlessFlush roundLimit :: s₁.notices } := ⟨rfl, .refl _⟩
      exact .bind_run (log_run _ s₁) (.pure ⟨hstill.trans (.still hstill.held hq.keeps rfl), hempty⟩)
    · exact .pure ⟨hstill, hempty⟩
  | succ rounds ih =>
    intro s h count hs hlast hh
    obtain ⟨s₁, hclear, hk, hstore⟩ := h.clearQueue_run s
    have hstill : Endures last i root sc.transport cs ms s h h s₁ := .still hh hk hstore
    refine .bind_run (h.queue_run s) (.bind_run hclear ?_)
    split
    · exact .pure ⟨hstill, by rw [queue_clearQueue hclear, if_pos rfl]⟩
    · refine (rerenderAll_endures _ s₁ h count (hs.keep hk) (hlast.keep hk) hstill.held).bind fun r s₂ h₂ => ?_
      have hdone := hstill.trans h₂
      have hs₂ := hs.keep hdone.keeps
      have hlast₂ := hlast.keep hdone.keeps
      rw [← h₂.id] at hs₂ hlast₂
      refine (ih s₂ r.1 r.2 hs₂ hlast₂ h₂.held).mono fun r' s' h₃ => ?_
      rw [h₂.id] at h₃
      exact ⟨hdone.trans h₃.1, h₃.2⟩

theorem flush_endures (hs : Ready s h.id i root sc) (hlast : GivenOut h.id last s)
    (hh : Held s i sc.transport root cs (componentsAll h.id h.roots ++ ms)) :
    Ensures h.flush s fun r s' => Endures last i root sc.transport cs ms s h r.1 s' ∧ s'.queue h.id = [] :=
  flushRounds_endures roundLimit s h 0 hs hlast hh

/-- Rendering a host from the top renders all that is in it, and puts the rows of all lists, and what fetches show, into
forks. -/
theorem render_regrown {nodes : List Node} (hs : Ready s h.id i root sc) (hlast : GivenOut h.id last s)
    (hh : Held s i sc.transport root cs (componentsAll h.id h.roots ++ ms))
    (hn : ∀ n ∈ nodes, n.Placed (Within s.store i sc.transport root)) : Ensures (h.render nodes) s fun h' s' =>
      Keeps s s' ∧ Regrown last (fun _ => 1) (linesAll [] h.roots) (linesAll [] h'.roots) ∧
        ∀ e ∈ h'.tenants, e.Housed i sc.transport s'.store := by
  have hstationed := Stationed.of_held hh
  have hraises : Raises h.id i root sc depthLimit (update h.id depthLimit) := update_raises depthLimit
  have hrenews : Renews h.id i root sc last (update h.id depthLimit) := update_renews depthLimit
  have hlines := hrenews.reconcile depthLimit (fun e he => (hstationed e he).ofLayout) hs hlast hn
  have hstands := reconcile_stands hraises (update_stands s.store.levels.size depthLimit) h.roots nodes hs
    (Nat.le_refl _) hstationed hn
  refine (hlines.and hstands).bind fun new s' hnew => .pure ?_
  obtain ⟨⟨hstirs, hregrown⟩, hstands⟩ := hnew
  exact ⟨hstirs.keeps, hregrown [], fun e he => .of_forked (hstands.parts _ (part_mem_of_mem he))⟩

end Host
end LiveLayout
