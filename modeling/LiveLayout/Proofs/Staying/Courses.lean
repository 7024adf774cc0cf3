import LiveLayout.Proofs.Staying.Mounts
/-!
What one step of an app makes of the layout on a target: it draws it anew, flushes it, or leaves it alone, and writing
does no more than to let proxies wait.
-/
namespace LiveLayout

open Engine Mounted

/-- The layout has been rendered from the top: nothing in it has rendered as often as before, and the layouts on other
hosts are left alone. -/
structure Mount.Anew (m : Mount) (s : State) (m' : Mount) (s' : State) : Prop where
  id : m'.host.id = m.host.id
  upToDate : ∃ r, m'.UpToDate s' r
  housed : m'.Housed s'
  lines : ∀ l ∈ m.lines, l ∉ m'.lines
  leaves : ∀ host, Leaves host s s'

namespace App

variable {a a' : App} {m m' : Mount} {ms : List Mount} {s s' : State} {c c' : App × State} {target : String}

theorem log_leaves (host : Nat) (n : Notice) (s : State) : Leaves host s { s with notices := n :: s.notices } :=
  .of_hosts (.refl _) rfl rfl

/-- Where a host's record stays, so does what waits there. -/
theorem queue_of_host? {id : Nat} (h : s'.host? id = s.host? id) : s'.queue id = s.queue id := by
  rw [State.queue, h, State.queue]

theorem drop_leaves (h : Steady (m :: ms) s) : Ensures m.host.drop s fun _ s' =>
    s'.hostCount = s.hostCount ∧ ∀ host, m.host.id ≠ host → Leaves host s s' := by
  obtain ⟨r, hr, hready, hheld⟩ := h.focus
  have hheld' : Held s m.interpreter r.transport (s.store.root m.scope) (mountedComponents ms)
      (m.components ++ []) := by rwa [List.append_nil]
  intro _ s' hrun
  obtain ⟨t, hk, -, rfl⟩ := Host.drop_ensures hheld' _ s' hrun
  refine ⟨hk.hostCount, fun host hne => ?_⟩
  have hleaves : Leaves host s t := .of_keeps hk hne.symm
  refine hleaves.trans ⟨.refl _, fun i r hr => ⟨r, hr, rfl⟩, fun q hq => ?_⟩
  rwa [queue_of_host? (host?_forget t hne.symm)]

theorem furnish_leaves (hissued : s.Issued) (r : Interpreter) (host : Nat) : Leaves host s (furnish s r) := by
  refine ⟨.refl _, fun i r' hr' => ⟨r', ?_, rfl⟩, fun q hq => ?_⟩
  · exact (List.getElem?_append_left (List.getElem?_eq_some_iff.1 hr').1).trans hr'
  · cases hrecord : s.host? host with
    | none => simp [State.queue, hrecord] at hq
    | some record =>
      have hsame : (furnish s r).host? host = s.host? host := by
        rw [furnish, State.host?, List.find?_cons_of_neg (by simpa using Nat.ne_of_gt (hissued.lt hrecord))]
        rfl
      rwa [queue_of_host? hsame]

/-- Rendering a layout from the top renders all of it, and leaves the others alone. -/
theorem renderMount_anew (h : Steady (m :: ms) s) : Ensures (renderMount m) s fun m' s' => m.Anew s m' s' := by
  obtain ⟨r, hr, hready, hheld⟩ := h.focus
  obtain ⟨record, hrecord⟩ := hready.host
  have hscope := (h.stands m (List.mem_cons_self ..)).scope
  have hheld' : Held s m.interpreter (m.scene s r).transport (s.store.root m.scope) (mountedComponents ms)
      (m.components ++ []) := by rwa [List.append_nil]
  have step : Ensures (renderMount m) s fun m' s' => (∀ host, Leaves host s s') ∧ m'.Housed s' ∧
      ∀ l ∈ m.lines, l ∉ m'.lines := by
    refine .bind (tree_yields hready.onStage hscope rfl Host.depthLimit m.layout).ensures fun nodes s₁ h₁ => ?_
    obtain ⟨ks, -, hf, hd⟩ := h₁
    have hlast : GivenOut m.host.id record.lastId s₁ := GivenOut.keep ⟨record, hrecord, Nat.le_refl _⟩ hf.keeps
    have hrender := Host.render_regrown (hready.keep hf.keeps) hlast (hheld'.forked hf) hd.placed
    refine hrender.bind fun h' s' hnew => .pure ?_
    obtain ⟨hk, hregrown, hhoused⟩ := hnew
    have hkeeps := hf.keeps.trans hk
    obtain ⟨r', hr', hlike⟩ := hkeeps.interpreters _ r hr
    refine ⟨fun host => .of_keeps hkeeps trivial, ⟨r', hr', fun e he => hlike.transport ▸ hhoused e he⟩,
      fun l hl hl' => ?_⟩
    rcases hregrown l hl' with hlt | ⟨n, hn, hrenders⟩
    · exact absurd (h.le_lastId hrecord l hl) (Nat.not_le.2 hlt)
    · have hids : (m.lines.map Line.id).Nodup := nodup_ids m.host.id hheld'.nodup
      have hsame : n = l.renders := congrArg Line.renders (List.inj_on_of_nodup_map hids hn hl rfl)
      exact absurd hrenders (hsame ▸ Nat.ne_of_lt (Nat.lt_succ_self n))
  refine ((renderMount_upToDate h).and step).mono fun m' s' hm' => ?_
  obtain ⟨⟨-, hid, hup, -⟩, hleaves, hhoused, hlines⟩ := hm'
  exact ⟨hid, hup, hhoused, hlines, hleaves⟩

/-! ### Targets -/

theorem free_leaves (h : a.Consistent s) (name : String) : Ensures (a.free name) s fun _ s' =>
    s'.hostCount = s.hostCount ∧ ∀ host,
      (∀ n, Fields.get? a.mounts name = some n → n.host.id ≠ host) → Leaves host s s' := by
  unfold free
  cases hn : Fields.get? a.mounts name with
  | none => exact .pure ⟨rfl, fun host _ => .refl host s⟩
  | some n =>
    obtain ⟨ms, hsteady⟩ := steady_of_get? h hn
    have hq : Quiet s { s with notices := .replacing name :: s.notices } := ⟨rfl, .refl _⟩
    have hsteady' := hsteady.carry (hq.keeps.carries fun _ => True) (fun _ _ => trivial) hsteady.ledger
    refine .bind_run (log_run _ s) ((drop_leaves hsteady').mono fun _ s' hs' => ⟨hs'.1, fun host hne => ?_⟩)
    exact (log_leaves host _ s).trans (hs'.2 host (hne n rfl))

/-- A layout is mounted on a new host. -/
theorem place_leaves (a : App) (h : Steady ms s) (hissued : s.Issued) (layout : Json) (target : String) {scope : Scope}
    (source : HandlerSource) (hscope : scope < s.store.levels.size) :
    Ensures (a.place layout target scope source) s fun res s' =>
      (∃ m, res = (a.put target m, .ok ()) ∧ m.host.id = s.hostCount ∧ m.Housed s') ∧ ∀ host, Leaves host s s' := by
  let r : Interpreter := { config := a.config, transport := a.transport, source := some source }
  have hfurnish := steady_furnish h hissued (annotate s.registry { keyPrefix := a.config.keyPrefix } layout)
    hscope (r := r) nofun
  refine .bind_run (get_run s) (.bind_run (t := { s with interpreters := s.interpreters ++ [r] }) rfl
    (.bind_run (t := furnish s r) rfl ?_))
  refine (renderMount_anew hfurnish).bind fun m s₁ hm => .bind_run (log_run _ s₁) (.pure ?_)
  refine ⟨⟨m, rfl, hm.id, hm.housed.leaves (log_leaves _ _ s₁)⟩, fun host => ?_⟩
  exact ((furnish_leaves hissued r host).trans (hm.leaves host)).trans (log_leaves host _ s₁)

theorem mount_leaves (h : a.Consistent s) (layout : Json) (target : String) {scope : Scope}
    (source : HandlerSource) (hscope : scope < s.store.levels.size) :
    Ensures (a.mount layout target scope source) s fun res s' => (∃ e, res = (a, .error e)) ∨
      (∃ m, res = (a.put target m, .ok ()) ∧ s.hostCount ≤ m.host.id ∧ m.Housed s') ∧ ∀ host,
        (∀ n, Fields.get? a.mounts (Text.trim target) = some n → n.host.id ≠ host) → Leaves host s s' := by
  rw [mount_eq]
  split
  · exact .pure (.inl ⟨_, rfl⟩)
  · split
    · exact .pure (.inl ⟨_, rfl⟩)
    · have hfree := (free_ensures h (Text.trim_trim target)).and (free_leaves h (Text.trim target))
      refine hfree.bind fun _ s₁ hs₁ => ?_
      obtain ⟨⟨ms, hms, hissued, hun, -⟩, hcount, hleaves⟩ := hs₁
      have hscope₁ := hun.values.keepsScopes.lt_size hscope
      refine (place_leaves a hms hissued layout _ source hscope₁).mono fun res s' hplaced => .inr ?_
      obtain ⟨⟨m, hres, hid, hhoused⟩, hleaves'⟩ := hplaced
      refine ⟨⟨m, by rw [hres, put_trim], ?_, hhoused⟩, fun host hne => (hleaves host hne).trans (hleaves' host)⟩
      exact Nat.le_of_eq (hid.trans hcount).symm

theorem unmount_leaves (h : a.Consistent s) (target : String) : Ensures (a.unmount target) s fun res s' =>
    (∃ e, res = (a, .error e) ∧ s' = s) ∨ res.1.mounts = Fields.erase a.mounts (Text.trim target) ∧ ∀ host,
      (∀ n, Fields.get? a.mounts (Text.trim target) = some n → n.host.id ≠ host) → Leaves host s s' := by
  unfold unmount
  cases hm : a.find? target with
  | error e => exact .pure (.inl ⟨e, rfl, rfl⟩)
  | ok m =>
    have hget := get?_of_find? hm
    obtain ⟨ms, hsteady⟩ := steady_of_get? h hget
    refine (drop_leaves hsteady).bind fun _ s₁ hs₁ => .bind_run (log_run _ s₁) (.pure (.inr ⟨rfl, fun host hne => ?_⟩))
    exact (hs₁.2 host (hne m hget)).trans (log_leaves host _ s₁)

/-- Rendering a target again renders all of it. -/
theorem rerender_anew (h : a.Consistent s) (target : String) : Ensures (a.rerender target) s fun res s' =>
    (∃ e, res = (a, .error e) ∧ s' = s) ∨ ∃ m m', Fields.get? a.mounts (Text.trim target) = some m ∧
      res = (a.put target m', .ok ()) ∧ m.Anew s m' s' := by
  unfold rerender
  cases hm : a.find? target with
  | error e => exact .pure (.inl ⟨e, rfl, rfl⟩)
  | ok m =>
    obtain ⟨ms, hsteady⟩ := steady_of_get? h (get?_of_find? hm)
    exact (renderMount_anew hsteady).bind fun m' s' hm' => .pure (.inr ⟨m, m', get?_of_find? hm, rfl, hm'⟩)

/-- Another source of handlers has a target rendered again. -/
theorem setHandlers_anew (h : a.Consistent s) (target : String) (source : HandlerSource) :
    Ensures (a.setHandlers target source) s fun res s' => (∃ e, res = (a, .error e) ∧ s' = s) ∨
      ∃ m m', Fields.get? a.mounts (Text.trim target) = some m ∧ res = (a.put target m', .ok ()) ∧ m.Anew s m' s' := by
  unfold App.setHandlers
  cases hm : a.find? target with
  | error e => exact .pure (.inl ⟨e, rfl, rfl⟩)
  | ok m =>
    obtain ⟨ms, hsteady⟩ := steady_of_get? h (get?_of_find? hm)
    let t : State := { s with interpreters := s.interpreters.modify m.interpreter fun r =>
      { r with source := some source, bound := [] } }
    have hcarries : Carries (fun _ => True) s t := carries_source s m.interpreter (some source)
    have hsteady₁ := hsteady.carry hcarries (fun _ _ => trivial) hsteady.ledger
    have hleaves (host : Nat) : Leaves host s t := by
      refine ⟨.refl _, fun i r hr => ?_, fun q hq => hq⟩
      obtain ⟨r', hr', htransport, -⟩ := hcarries.interpreters i r hr
      exact ⟨r', hr', htransport⟩
    refine .bind_run (t := t) rfl ((renderMount_anew hsteady₁).bind fun m' s' hm' => .pure (.inr ?_))
    refine ⟨m, m', get?_of_find? hm, rfl, hm'.id, hm'.upToDate, hm'.housed, hm'.lines, fun host => ?_⟩
    exact (hleaves host).trans (hm'.leaves host)

/-! ### Steps -/

/-- What one step has made of the layout on the target. -/
inductive Course (target : String) (c : App × State) (m' : Mount) (s' : State) : Prop where
  | left (before : Fields.get? c.1.mounts (Text.trim target) = some m') (leaves : Leaves m'.host.id c.2 s')
  | wrote (before : Fields.get? c.1.mounts (Text.trim target) = some m') (wrote : Wrote c.2 s')
  | flushed {m : Mount} (before : Fields.get? c.1.mounts (Text.trim target) = some m) (id : m'.host.id = m.host.id)
    (endures : m.Endures c.2 m' s') (keeps : KeepsFor (fun _ => False) c.2 s')
  | drawn {r : Interpreter} (upToDate : m'.UpToDate s' r) (housed : m'.Housed s')
    (anew : ∀ m, Fields.get? c.1.mounts (Text.trim target) = some m → m'.host.id = m.host.id →
      ∀ l ∈ m.lines, l ∉ m'.lines)

theorem get?_put_cases {other : String} {n : Mount}
    (h : Fields.get? (a.put other n).mounts (Text.trim target) = some m) :
    (Text.trim other = Text.trim target ∧ n = m) ∨
      Text.trim other ≠ Text.trim target ∧ Fields.get? a.mounts (Text.trim target) = some m := by
  by_cases heq : Text.trim other = Text.trim target
  · rw [← heq, get?_put] at h
    exact .inl ⟨heq, Option.some.inj h⟩
  · rw [get?_put_of_ne a heq] at h
    exact .inr ⟨heq, h⟩

theorem put_inj {n : Mount} {r r' : Except AppError Unit} (h : (a.put target n, r) = (a.put target m, r')) : n = m := by
  have hget := congrArg (fun res => Fields.get? res.1.mounts (Text.trim target)) h
  simpa only [get?_put, Option.some.injEq] using hget

/-- A layout has been rendered from the top on the target or on another one. -/
theorem Course.of_anew {other : String} {k n : Mount} (hk : Fields.get? a.mounts (Text.trim other) = some k)
    (hanew : k.Anew s n s') (hm' : Fields.get? (a.put other n).mounts (Text.trim target) = some m') :
    Course target (a, s) m' s' := by
  rcases get?_put_cases hm' with ⟨hsame, rfl⟩ | ⟨-, hm⟩
  · obtain ⟨r, hup⟩ := hanew.upToDate
    refine .drawn hup hanew.housed fun m hm _ => ?_
    rw [← hsame, hk] at hm
    cases hm
    exact hanew.lines
  · exact .left hm (hanew.leaves _)

theorem Step.course (h : Step c c') (hc : c.1.Consistent c.2)
    (hm' : Fields.get? c'.1.mounts (Text.trim target) = some m') : Course target c m' c'.2 := by
  cases h with
  | mount valid run =>
    rcases mount_current hc _ _ _ valid _ _ run with ⟨e, heq, rfl⟩ | ⟨⟨n, r, heq, hup⟩, -⟩
    · cases heq
      exact .left hm' (.refl _ _)
    · rcases mount_leaves hc _ _ _ valid _ _ run with ⟨e, heq'⟩ | ⟨⟨n', heq', hcount, hhoused⟩, hleaves⟩
      · cases (Prod.mk.inj (heq.symm.trans heq')).2
      · obtain rfl := put_inj (heq.symm.trans heq')
        cases heq
        rcases get?_put_cases hm' with ⟨hsame, rfl⟩ | ⟨hne, hm⟩
        · refine .drawn hup hhoused fun m hm hid => ?_
          obtain ⟨_, hrecord⟩ := (hc.steady.stands m (List.mem_map_of_mem (f := (·.2)) (Fields.mem_of_get? hm))).host
          exact absurd (hc.issued.lt hrecord) (Nat.not_lt.2 (hid ▸ hcount))
        · exact .left hm (hleaves _ fun k hk => host_ne hc hm hk hne)
  | @unmount _ _ _ _ other _ run =>
    rcases unmount_leaves hc _ _ _ run with ⟨e, heq, rfl⟩ | ⟨heq, hleaves⟩
    · cases heq
      exact .left hm' (.refl _ _)
    · rw [show _ = Fields.erase _ _ from heq] at hm'
      by_cases hsame : Text.trim target = Text.trim other
      · rw [hsame, Fields.get?_erase_self hc.sorted.nodup] at hm'
        cases hm'
      · rw [Fields.get?_erase_of_ne _ hsame] at hm'
        exact .left hm' (hleaves _ fun k hk => host_ne hc hm' hk (Ne.symm hsame))
  | rerender run =>
    rcases rerender_anew hc _ _ _ run with ⟨e, heq, rfl⟩ | ⟨k, n, hk, heq, hanew⟩
    · cases heq
      exact .left hm' (.refl _ _)
    · cases heq
      exact .of_anew hk hanew hm'
  | setHandlers run =>
    rcases setHandlers_anew hc _ _ _ _ run with ⟨e, heq, rfl⟩ | ⟨k, n, hk, heq, hanew⟩
    · cases heq
      exact .left hm' (.refl _ _)
    · cases heq
      exact .of_anew hk hanew hm'
  | flush run =>
    obtain ⟨-, -, hk, hflushed⟩ := flush_ensures hc.steady _ _ run
    obtain ⟨⟨name, m⟩, hmem, hf⟩ := exists_of_mem_right hflushed (Fields.mem_of_get? hm')
    obtain rfl : Text.trim target = name := hf.target
    have hm := Fields.get?_of_mem hc.sorted.nodup hmem
    obtain ⟨m'', hm'', hid, hendures, -⟩ := flush_endures hc hm _ _ run
    cases hm'.symm.trans hm''
    exact .flushed hm hid hendures hk
  | write run => exact .wrote hm' (set_writes _ _ _ _ hc.steady.ledger.tidy _ _ run)
  | dispatch run => exact .wrote hm' (dispatch_wrote hc _ _ _ _ _ _ run)
  | deliver run => exact .left hm' (.of_keeps (deliver_settles _ _ _ _ _ run).keeps trivial)
  | addRoot values => exact .left hm' (.of_hosts (.push _ _) rfl rfl)
  | fork label bindings valid => exact .left hm' (.of_hosts (.push _ _) rfl rfl)
  | configure config transport registry immediate tracing scopes listeners =>
    exact .left hm' (.of_hosts (.refl _) rfl rfl)

end App
end LiveLayout
