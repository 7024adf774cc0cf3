import LiveLayout.Proofs.Rows.Mounts
import LiveLayout.Proofs.Refreshing.Targets
/-!
What stays as it is through everything that an app does: interpreters keep their settings, hosts their numbers, and a
mounted layout its components where the outline leads.
-/
namespace LiveLayout

open Engine Mounted

/-- The interpreters are still there with their settings, and no two hosts have got the same number. -/
structure Lasts (s s' : State) : Prop where
  configs : ∀ (i : Nat) r, s.interpreters[i]? = some r → ∃ r', s'.interpreters[i]? = some r' ∧ r'.config = r.config
  distinct : s.Distinct → s'.Distinct

namespace Lasts

variable {s s' s'' : State}

theorem of_same (hinterpreters : s'.interpreters = s.interpreters)
    (hids : s'.hosts.map (·.id) = s.hosts.map (·.id)) : Lasts s s' := by
  refine ⟨fun i r hr => ⟨r, hinterpreters ▸ hr, rfl⟩, fun hs => ?_⟩
  unfold State.Distinct
  rw [hids]
  exact hs

theorem refl (s : State) : Lasts s s := .of_same rfl rfl

theorem trans (h : Lasts s s') (h' : Lasts s' s'') : Lasts s s'' := by
  refine ⟨fun i r hr => ?_, fun hs => h'.distinct (h.distinct hs)⟩
  obtain ⟨r', hr', hconfig⟩ := h.configs i r hr
  obtain ⟨r'', hr'', hconfig'⟩ := h'.configs i r' hr'
  exact ⟨r'', hr'', hconfig'.trans hconfig⟩

theorem of_keeps {waits : Nat → Prop} (hk : KeepsFor waits s s') : Lasts s s' :=
  ⟨Steady.configs_of_keep hk, hk.distinct⟩

theorem of_wrote (hw : Wrote s s') : Lasts s s' := .of_same hw.interpreters hw.hostIds

end Lasts

namespace App

variable {a a' : App} {m : Mount} {ms : List Mount} {s s' : State} {c c' : App × State} {target : String}

theorem log_lasts (n : Notice) (s : State) : Lasts s { s with notices := n :: s.notices } := .of_same rfl rfl

theorem drop_lasts (h : Steady (m :: ms) s) : Ensures m.host.drop s fun _ s' => Lasts s s' := by
  obtain ⟨r, hr, hready, hheld⟩ := h.focus
  have hheld' : Held s m.interpreter r.transport (s.store.root m.scope) (mountedComponents ms)
      (componentsAll m.host.id m.host.roots ++ []) := by
    rw [List.append_nil]
    exact hheld
  intro _ s' hrun
  obtain ⟨t, hk, -, rfl⟩ := Host.drop_ensures hheld' _ s' hrun
  have hdropped : Lasts t { t with hosts := t.hosts.filter (·.id ≠ m.host.id) } := by
    refine ⟨fun i r hr => ⟨r, hr, rfl⟩, fun ht => ?_⟩
    exact ht.sublist (List.filter_sublist.map _)
  exact (Lasts.of_keeps hk).trans hdropped

theorem free_lasts (h : a.Consistent s) (name : String) : Ensures (a.free name) s fun _ s' => Lasts s s' := by
  unfold free
  cases hm : Fields.get? a.mounts name with
  | none => exact .pure (.refl s)
  | some m =>
    obtain ⟨ms, hsteady⟩ := steady_of_get? h hm
    have hq : Quiet s { s with notices := .replacing name :: s.notices } := ⟨rfl, .refl _⟩
    have hsteady' := hsteady.carry (hq.keeps.carries fun _ => True) (fun _ _ => trivial) hsteady.ledger
    exact .bind_run (log_run _ s) ((drop_lasts hsteady').mono fun _ _ hs => (log_lasts _ s).trans hs)

theorem renderMount_lasts (h : Steady (m :: ms) s) : Ensures (renderMount m) s fun _ s' => Lasts s s' := by
  obtain ⟨r, hr, hready, hheld⟩ := h.focus
  have hheld' : Held s m.interpreter (m.scene s r).transport (s.store.root m.scope) (mountedComponents ms)
      (m.components ++ []) := by rwa [List.append_nil]
  refine (renderMount_ensures hready (h.stands m (List.mem_cons_self ..)).scope hheld').mono ?_
  rintro m' s' ⟨-, -, ks, -, hl⟩
  exact .of_keeps hl.keeps

theorem furnish_lasts (hissued : s.Issued) (r : Interpreter) : Lasts s (furnish s r) := by
  refine ⟨fun i r' hr' => ⟨r', ?_, rfl⟩, fun hs => ?_⟩
  · exact (List.getElem?_append_left (List.getElem?_eq_some_iff.1 hr').1).trans hr'
  · refine List.nodup_cons.2 ⟨fun hmem => ?_, hs⟩
    exact absurd (hissued _ hmem) (Nat.lt_irrefl _)

theorem place_lasts (a : App) (h : Steady ms s) (hissued : s.Issued) (layout : Json) (target : String) {scope : Scope}
    (source : HandlerSource) (hscope : scope < s.store.levels.size) :
    Ensures (a.place layout target scope source) s fun _ s' => Lasts s s' := by
  let r : Interpreter := { config := a.config, transport := a.transport, source := some source }
  have hfurnish := steady_furnish h hissued (annotate s.registry { keyPrefix := a.config.keyPrefix } layout)
    hscope (r := r) nofun
  refine .bind_run (get_run s) (.bind_run (t := { s with interpreters := s.interpreters ++ [r] }) rfl
    (.bind_run (t := furnish s r) rfl ?_))
  refine (renderMount_lasts hfurnish).bind fun m s₁ hs₁ => .bind_run (log_run _ s₁) (.pure ?_)
  exact ((furnish_lasts hissued r).trans hs₁).trans (log_lasts _ s₁)

theorem mount_lasts (h : a.Consistent s) (layout : Json) (target : String) {scope : Scope} (source : HandlerSource)
    (hscope : scope < s.store.levels.size) : Ensures (a.mount layout target scope source) s fun _ s' => Lasts s s' := by
  rw [mount_eq]
  split
  · exact .pure (.refl s)
  · split
    · exact .pure (.refl s)
    · refine ((free_ensures h (Text.trim_trim target)).and (free_lasts h _)).bind fun _ s₁ hs₁ => ?_
      obtain ⟨⟨ms, hms, hissued, hun, -⟩, hlasts⟩ := hs₁
      have hscope₁ := hun.values.keepsScopes.lt_size hscope
      exact (place_lasts a hms hissued layout _ source hscope₁).mono fun _ _ hs => hlasts.trans hs

theorem unmount_lasts (h : a.Consistent s) (target : String) : Ensures (a.unmount target) s fun _ s' => Lasts s s' := by
  unfold unmount
  cases hm : a.find? target with
  | error e => exact .pure (.refl s)
  | ok m =>
    obtain ⟨ms, hsteady⟩ := steady_of_get? h (get?_of_find? hm)
    exact (drop_lasts hsteady).bind fun _ s₁ hs₁ => .bind_run (log_run _ s₁) (.pure (hs₁.trans (log_lasts _ s₁)))

theorem rerender_lasts (h : a.Consistent s) (target : String) : Ensures (a.rerender target) s fun _ s' => Lasts s s' := by
  unfold rerender
  cases hm : a.find? target with
  | error e => exact .pure (.refl s)
  | ok m =>
    obtain ⟨ms, hsteady⟩ := steady_of_get? h (get?_of_find? hm)
    exact (renderMount_lasts hsteady).bind fun _ _ hs => .pure hs

theorem setHandlers_lasts (h : a.Consistent s) (target : String) (source : HandlerSource) :
    Ensures (a.setHandlers target source) s fun _ s' => Lasts s s' := by
  unfold App.setHandlers
  cases hm : a.find? target with
  | error e => exact .pure (.refl s)
  | ok m =>
    obtain ⟨ms, hsteady⟩ := steady_of_get? h (get?_of_find? hm)
    have hsteady₁ := hsteady.carry (carries_source s m.interpreter (some source)) (fun _ _ => trivial) hsteady.ledger
    have hsource : Lasts s { s with interpreters := s.interpreters.modify m.interpreter fun r =>
        { r with source := some source, bound := [] } } := by
      refine ⟨fun i r hr => ?_, fun hs => hs⟩
      rw [List.getElem?_modify, hr]
      exact ⟨_, rfl, by split <;> rfl⟩
    refine .bind_run rfl ((renderMount_lasts hsteady₁).bind fun _ _ hs => .pure (hsource.trans hs))

theorem dispatch_lasts (h : a.Consistent s) (target key property : String) (args : List Json) :
    Ensures (a.dispatch target key property args) s fun _ s' => Lasts s s' :=
  (dispatch_wrote h target key property args).mono fun _ _ hw => .of_wrote hw

/-- What all steps of an app leave alone. -/
theorem Step.lasts (h : Step c c') (hc : c.1.Consistent c.2) : Lasts c.2 c'.2 := by
  cases h with
  | mount valid run => exact mount_lasts hc _ _ _ valid _ _ run
  | unmount run => exact unmount_lasts hc _ _ _ run
  | rerender run => exact rerender_lasts hc _ _ _ run
  | setHandlers run => exact setHandlers_lasts hc _ _ _ _ run
  | flush run =>
    obtain ⟨-, -, hk, -⟩ := flush_ensures hc.steady _ _ run
    exact .of_keeps hk
  | write run => exact .of_wrote (set_writes _ _ _ _ hc.steady.ledger.tidy _ _ run)
  | dispatch run => exact dispatch_lasts hc _ _ _ _ _ _ run
  | deliver run => exact .of_keeps (deliver_settles _ _ _ _ _ run).keeps
  | addRoot values => exact .of_same rfl rfl
  | fork label bindings valid => exact .of_same rfl rfl
  | configure config transport registry immediate tracing scopes listeners => exact .of_same rfl rfl

theorem Reachable.distinct (h : Reachable c) : c.2.Distinct := by
  induction h with
  | start config transport => exact .nil
  | step before step ih => exact (step.lasts before.consistent).distinct ih

end App
end LiveLayout
