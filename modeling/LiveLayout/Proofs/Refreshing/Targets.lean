import LiveLayout.Proofs.Refreshing.Subscribers
import LiveLayout.Proofs.Running.Subscriptions
import Mathlib.Logic.Relation
/-!
Rendering a target again when nothing has changed since it was rendered last. Every component receives its like
and renders what it shows, and nothing else happens.
-/
namespace LiveLayout

open Engine Mounted

namespace App

variable {a a' : App} {s s' : State} {target : String} {c c' : App × State}

/-- A target is mounted, rendered again from the top, or given another source of handlers. -/
inductive Walk (target : String) : App × State → App × State → Prop where
  | mount {a a' : App} {s s' : State} {layout : Json} {scope : Scope} {source : HandlerSource}
      (valid : scope < s.store.levels.size)
      (run : a.mount layout target scope source s = some ((a', .ok ()), s')) : Walk target (a, s) (a', s')
  | rerender {a a' : App} {s s' : State} (run : a.rerender target s = some ((a', .ok ()), s')) :
      Walk target (a, s) (a', s')
  | setHandlers {a a' : App} {s s' : State} {source : HandlerSource}
      (run : a.setHandlers target source s = some ((a', .ok ()), s')) : Walk target (a, s) (a', s')

/-- A step that changes no variable, brick type or handler source and brings no answer, and by which the target
itself is at most flushed. -/
inductive Idle (target : String) : App × State → App × State → Prop where
  | flush {a a' : App} {s s' : State} {n : Nat} (run : a.flush s = some ((a', n), s')) :
      Idle target (a, s) (a', s')
  | mount {a a' : App} {s s' : State} {layout : Json} {other : String} {scope : Scope} {source : HandlerSource}
      {r : Except AppError Unit} (ne : Text.trim other ≠ Text.trim target) (valid : scope < s.store.levels.size)
      (run : a.mount layout other scope source s = some ((a', r), s')) : Idle target (a, s) (a', s')
  | unmount {a a' : App} {s s' : State} {other : String} {r : Except AppError Unit}
      (ne : Text.trim other ≠ Text.trim target) (run : a.unmount other s = some ((a', r), s')) :
      Idle target (a, s) (a', s')
  | rerender {a a' : App} {s s' : State} {other : String} {r : Except AppError Unit}
      (ne : Text.trim other ≠ Text.trim target) (run : a.rerender other s = some ((a', r), s')) :
      Idle target (a, s) (a', s')
  | dispatch {a : App} {s s' : State} {other key property : String} {args : List Json}
      {r : Except AppError Unit} (run : a.dispatch other key property args s = some (r, s'))
      (values : s.store.KeepsValues s'.store) : Idle target (a, s) (a, s')
  | addRoot {a : App} {s : State} (values : List (String × Json)) :
      Idle target (a, s) (a, { s with store := (s.store.addRoot values).2 })
  | fork {a : App} {s : State} {parent : Scope} (label : String) (bindings : List (String × Json))
      (valid : parent < s.store.levels.size) :
      Idle target (a, s) (a, { s with store := (s.store.fork parent label bindings).2 })
  | configure {a : App} {s : State} (config : Config) (transport : Bool) (immediate : Option Outcome)
      (tracing : Bool) (scopes : List (String × Scope)) (listeners : List (String × List Action)) :
      Idle target (a, s) ({ a with config, transport }, { s with
        tracing, scopes, listeners, network := { s.network with immediate } })

theorem Idle.step (h : Idle target c c') : Step c c' := by
  cases h with
  | flush run => exact .flush run
  | mount _ valid run => exact .mount valid run
  | unmount _ run => exact .unmount run
  | rerender _ run => exact .rerender run
  | dispatch run _ => exact .dispatch run
  | addRoot values => exact .addRoot values
  | fork label bindings valid => exact .fork label bindings valid
  | configure config transport immediate tracing scopes listeners =>
    exact .configure config transport _ immediate tracing scopes listeners

theorem Walk.step (h : Walk target c c') : Step c c' := by
  cases h with
  | mount valid run => exact .mount valid run
  | rerender run => exact .rerender run
  | setHandlers run => exact .setHandlers run

/-! ### Targets that are up to date -/

/-- The layout of a target is up to date. -/
def Current (target : String) (c : App × State) : Prop :=
  ∃ m r, Fields.get? c.1.mounts (Text.trim target) = some m ∧ m.UpToDate c.2 r

theorem get?_of_find? {m : Mount} (h : a.find? target = .ok m) :
    Fields.get? a.mounts (Text.trim target) = some m := by
  unfold find? at h
  split at h
  · cases h
    assumption
  · cases h

theorem steady_of_get? (h : a.Consistent s) {name : String} {m : Mount}
    (hm : Fields.get? a.mounts name = some m) : ∃ ms, Steady (m :: ms) s :=
  h.steady.exists_perm (List.mem_map_of_mem (f := (·.2)) (Fields.mem_of_get? hm))

/-- Targets have different hosts. -/
theorem host_ne (h : a.Consistent s) {name other : String} {m n : Mount}
    (hm : Fields.get? a.mounts name = some m) (hn : Fields.get? a.mounts other = some n) (hne : other ≠ name) :
    n.host.id ≠ m.host.id := by
  intro hid
  have hnodup := h.steady.hosts
  rw [List.map_map] at hnodup
  have heq := List.inj_on_of_nodup_map hnodup (Fields.mem_of_get? hn) (Fields.mem_of_get? hm) hid
  exact hne (congrArg Prod.fst heq)

/-- A target stays current where it is spared. -/
theorem Current.spared (h : Current target (a, s)) (hc : a.Consistent s)
    (hmounts : Fields.get? a'.mounts (Text.trim target) = Fields.get? a.mounts (Text.trim target))
    (hs : ∀ m, Fields.get? a.mounts (Text.trim target) = some m → Spares m.host.id s s') :
    Current target (a', s') := by
  obtain ⟨m, r, hm, hup⟩ := h
  obtain ⟨ms, hsteady⟩ := steady_of_get? hc hm
  obtain ⟨r', hup'⟩ := hup.spared hsteady (hs m hm)
  exact ⟨m, r', hmounts.trans hm, hup'⟩

theorem get?_put_of_ne (a : App) {other : String} (hne : Text.trim other ≠ Text.trim target) (m : Mount) :
    Fields.get? (a.put other m).mounts (Text.trim target) = Fields.get? a.mounts (Text.trim target) := by
  unfold put
  rw [Fields.get?_insertSorted, if_neg (Ne.symm hne)]

/-! ### What the steps on one target do to others -/

theorem free_spares (h : a.Consistent s) (name : String) :
    Ensures (a.free name) s fun _ s' => ∀ host,
      (∀ n, Fields.get? a.mounts name = some n → n.host.id ≠ host) → Spares host s s' := by
  unfold free
  cases hn : Fields.get? a.mounts name with
  | none => exact .pure fun host _ => .refl host s
  | some n =>
    obtain ⟨ms, hsteady⟩ := steady_of_get? h hn
    have hlog (host : Nat) := log_spares host (.replacing name) s
    have hq : Quiet s { s with notices := .replacing name :: s.notices } := ⟨rfl, .refl _⟩
    have hsteady' := hsteady.carry (hq.keeps.carries fun _ => True) (fun _ _ => trivial) hsteady.ledger
    refine .bind_run (log_run _ s) fun _ s' hrun host hne => ?_
    exact (hlog host).trans (drop_spares hsteady' (hne n rfl) _ s' hrun)

/-- A target is current once a layout has been mounted on it, and the other targets are spared. -/
theorem mount_current (h : a.Consistent s) (layout : Json) (target : String) {scope : Scope}
    (source : HandlerSource) (hscope : scope < s.store.levels.size) :
    Ensures (a.mount layout target scope source) s fun res s' => (∃ e, res = (a, .error e) ∧ s' = s) ∨
      (∃ m r, res = (a.put target m, .ok ()) ∧ m.UpToDate s' r) ∧ ∀ host,
        (∀ n, Fields.get? a.mounts (Text.trim target) = some n → n.host.id ≠ host) → Spares host s s' := by
  rw [mount_eq]
  split
  · exact .pure (.inl ⟨_, rfl, rfl⟩)
  · split
    · exact .pure (.inl ⟨_, rfl, rfl⟩)
    · have hfree := (free_ensures h (Text.trim_trim target)).and (free_spares h (Text.trim target))
      refine hfree.bind fun _ s₁ hs₁ => ?_
      obtain ⟨⟨ms, hms, hissued, hun, -⟩, hspares⟩ := hs₁
      have hscope₁ := hun.values.keepsScopes.lt_size hscope
      refine (place_upToDate a hms hissued layout _ source hscope₁).mono fun res s' hplaced => .inr ?_
      obtain ⟨⟨m, r, hres, hup⟩, hspares'⟩ := hplaced
      exact ⟨⟨m, r, by rw [hres, put_trim], hup⟩, fun host hne => (hspares host hne).trans (hspares' host)⟩

/-- A target is current once it has been rendered again, and the other targets are spared. -/
theorem rerender_current (h : a.Consistent s) (target : String) :
    Ensures (a.rerender target) s fun res s' => (∃ e, res = (a, .error e) ∧ s' = s) ∨
      (∃ m r, res = (a.put target m, .ok ()) ∧ m.UpToDate s' r) ∧ ∀ host, Spares host s s' := by
  unfold rerender
  cases hm : a.find? target with
  | error e => exact .pure (.inl ⟨e, rfl, rfl⟩)
  | ok m =>
    obtain ⟨ms, hsteady⟩ := steady_of_get? h (get?_of_find? hm)
    refine (renderMount_upToDate hsteady).bind fun m' s' hm' => .pure (.inr ?_)
    obtain ⟨-, -, ⟨r, hup⟩, hspares⟩ := hm'
    exact ⟨⟨m', r, rfl, hup⟩, hspares⟩

/-- A target is current once it has been given another source of handlers. -/
theorem setHandlers_current (h : a.Consistent s) (target : String) (source : HandlerSource) :
    Ensures (a.setHandlers target source) s fun res s' =>
      (∃ e, res = (a, .error e)) ∨ ∃ m r, res = (a.put target m, .ok ()) ∧ m.UpToDate s' r := by
  unfold App.setHandlers
  cases hm : a.find? target with
  | error e => exact .pure (.inl ⟨e, rfl⟩)
  | ok m =>
    obtain ⟨ms, hsteady⟩ := steady_of_get? h (get?_of_find? hm)
    have hsteady₁ := hsteady.carry (carries_source s m.interpreter (some source)) (fun _ _ => trivial) hsteady.ledger
    refine .bind_run (t := { s with interpreters := s.interpreters.modify m.interpreter fun r =>
      { r with source := some source, bound := [] } }) rfl ?_
    refine (renderMount_upToDate hsteady₁).bind fun m' s' hm' => .pure (.inr ?_)
    obtain ⟨-, -, ⟨r, hup⟩, -⟩ := hm'
    exact ⟨m', r, rfl, hup⟩

theorem unmount_spares (h : a.Consistent s) (target : String) :
    Ensures (a.unmount target) s fun res s' => (∃ e, res = (a, .error e) ∧ s' = s) ∨
      res.1.mounts = Fields.erase a.mounts (Text.trim target) ∧ ∀ host,
        (∀ n, Fields.get? a.mounts (Text.trim target) = some n → n.host.id ≠ host) → Spares host s s' := by
  unfold unmount
  cases hm : a.find? target with
  | error e => exact .pure (.inl ⟨e, rfl, rfl⟩)
  | ok m =>
    have hget := get?_of_find? hm
    obtain ⟨ms, hsteady⟩ := steady_of_get? h hget
    have hdrop : Ensures m.host.drop s fun _ s' => ∀ host, m.host.id ≠ host → Spares host s s' :=
      fun _ s' hrun host hne => drop_spares hsteady hne _ s' hrun
    refine hdrop.bind fun _ s₁ hs₁ => .bind_run (log_run _ s₁) (.pure (.inr ⟨rfl, fun host hne => ?_⟩))
    exact (hs₁ host (hne m hget)).trans (log_spares host _ s₁)

/-- What calls a handler and changes no variable spares all targets. -/
theorem dispatch_spares (h : a.Consistent s) (other key property : String) (args : List Json) :
    Ensures (a.dispatch other key property args) s fun _ s' =>
      s.store.KeepsValues s'.store → ∀ host, Spares host s s' := by
  unfold dispatch
  cases a.tree other with
  | error e => exact .pure fun _ host => .refl host s
  | ok shown =>
    dsimp only
    cases handler? shown key property with
    | none => exact .pure fun _ host => .refl host s
    | some hd =>
      refine .bind_run (log_run _ s) ?_
      have hcall (host : Nat) : Always (Recalls host) (call hd args) := call_recalls hd args
      have hwrote := Wrote.of_records h.steady.ledger.tidy (.dispatched key property other :: s.notices) s.events
      refine .bind (Q := fun _ s' => s.store.KeepsValues s'.store → ∀ host, Spares host s s')
        (fun _ s' hrun hvalues host => ?_) fun _ _ hs => .pure hs
      have hw := hwrote.trans (call_wrote hd _ args hwrote.tidy _ s' hrun)
      refine ⟨hvalues, hw.registry, ?_, (log_spares host _ s).recalls.trans (hcall host _ _ s' hrun)⟩
      rw [hw.interpreters]
      exact .refl _

/-- Idle steps keep the target current. -/
theorem Idle.current (h : Idle target c c') (hc : c.1.Consistent c.2) (hcurrent : Current target c) :
    Current target c' := by
  have spared {a a' : App} {s s' : State} (hc : a.Consistent s) (hcurrent : Current target (a, s))
      (hmounts : a'.mounts = a.mounts) (hs : ∀ host, Spares host s s') : Current target (a', s') :=
    hcurrent.spared hc (by rw [hmounts]) fun m _ => hs m.host.id
  cases h with
  | flush run =>
    obtain ⟨m, r, hm, hup⟩ := hcurrent
    obtain ⟨m', r', hm', hup'⟩ := flush_upToDate hc hm hup _ _ run
    exact ⟨m', r', hm', hup'⟩
  | mount ne valid run =>
    rcases mount_current hc _ _ _ valid _ _ run with ⟨e, heq, rfl⟩ | ⟨⟨n, -, heq, -⟩, hs⟩
    · cases heq
      exact hcurrent
    · cases heq
      exact hcurrent.spared hc (get?_put_of_ne _ ne n) fun m hm => hs _ fun k hk => host_ne hc hm hk ne
  | unmount ne run =>
    rcases unmount_spares hc _ _ _ run with ⟨e, heq, rfl⟩ | ⟨heq, hs⟩
    · cases heq
      exact hcurrent
    · refine hcurrent.spared hc ?_ fun m hm => hs _ fun k hk => host_ne hc hm hk ne
      exact (congrArg (Fields.get? · _) heq).trans (Fields.get?_erase_of_ne _ (Ne.symm ne))
  | rerender ne run =>
    rcases rerender_current hc _ _ _ run with ⟨e, heq, rfl⟩ | ⟨⟨n, -, heq, -⟩, hs⟩
    · cases heq
      exact hcurrent
    · cases heq
      exact hcurrent.spared hc (get?_put_of_ne _ ne n) fun m _ => hs _
  | dispatch run values => exact spared hc hcurrent rfl (dispatch_spares hc _ _ _ _ _ _ run values)
  | addRoot values =>
    exact spared hc hcurrent rfl fun host => ⟨.push _ _, rfl, .refl _, .of_hosts rfl fun _ => rfl⟩
  | fork label bindings valid =>
    exact spared hc hcurrent rfl fun host => ⟨.push _ _, rfl, .refl _, .of_hosts rfl fun _ => rfl⟩
  | configure config transport immediate tracing scopes listeners =>
    exact spared hc hcurrent rfl fun host => ⟨.refl _, rfl, .refl _, .of_hosts rfl fun _ => rfl⟩

/-- A target is current once it has been rendered from the top. -/
theorem Walk.current (h : Walk target c c') (hc : c.1.Consistent c.2) : Current target c' := by
  have placed {a : App} {s : State} {m : Mount} {r : Interpreter} (hup : m.UpToDate s r) :
      Current target (a.put target m, s) := ⟨m, r, get?_put a target m, hup⟩
  cases h with
  | mount valid run =>
    rcases mount_current hc _ _ _ valid _ _ run with ⟨e, heq, -⟩ | ⟨⟨m, r, heq, hup⟩, -⟩
    · cases heq
    · cases heq
      exact placed hup
  | rerender run =>
    rcases rerender_current hc _ _ _ run with ⟨e, heq, -⟩ | ⟨⟨m, r, heq, hup⟩, -⟩
    · cases heq
    · cases heq
      exact placed hup
  | setHandlers run =>
    rcases setHandlers_current hc _ _ _ _ run with ⟨e, heq⟩ | ⟨m, r, heq, hup⟩
    · cases heq
    · cases heq
      exact placed hup

/-! ### Rendering again when nothing has changed -/

/-- Renders a target again, where all components only receive their likes and render: none is mounted or
unmounted. -/
def refresh (a : App) (target : String) : Engine (App × Except AppError Unit) := do
  match a.find? target with
  | .error e => return (a, .error e)
  | .ok m => return (a.put target (← refreshMount m), .ok ())

theorem consistent_of_idle (h : c.1.Consistent c.2) (hcurrent : Current target c)
    (idle : Relation.ReflTransGen (Idle target) c c') : c'.1.Consistent c'.2 ∧ Current target c' := by
  induction idle with
  | refl => exact ⟨h, hcurrent⟩
  | tail _ step ih => exact ⟨step.step.consistent ih.1, step.current ih.1 ih.2⟩

/-- Rendering a target again, when no variable, brick type or handler source has changed since it was rendered
from the top and no answer has come, is refreshing it. It shows the same, by the same instances, every name of
every root has as many subscribers, and hosts and requests are as they were. -/
theorem rerender_eq_refresh {c c₁ : App × State} {a : App} {s : State} {target : String} (h : Reachable c)
    (walk : Walk target c c₁) (idle : Relation.ReflTransGen (Idle target) c₁ (a, s)) :
    ∃ m m' s', a.find? target = .ok m ∧ a.rerender target s = some ((a.put target m', .ok ()), s') ∧
      a.refresh target s = a.rerender target s ∧
      ((a.put target m').tree target).map Output.toJsonAll = (a.tree target).map Output.toJsonAll ∧
      m'.components.map (·.1) = m.components.map (·.1) ∧
      (∀ k x, s.store.IsRoot k → s'.store.subscriberCount k x = s.store.subscriberCount k x) ∧
      s'.hosts = s.hosts ∧ s'.fetches = s.fetches ∧ s'.network = s.network := by
  obtain ⟨hc, m, r, hm, hup⟩ := consistent_of_idle (walk.step.consistent h.consistent)
    (walk.current h.consistent) idle
  obtain ⟨ms, hsteady⟩ := steady_of_get? hc hm
  obtain ⟨m', s', hrun, hrefresh, -, hid, hl⟩ := renderMount_refreshes hsteady hup
  obtain ⟨hsteady', -⟩ := renderMount_steady hsteady hc.issued m' s' hrun
  have hfind : a.find? target = .ok m := by rw [find?, hm]
  have hrerender : a.rerender target s = some ((a.put target m', .ok ()), s') := by
    rw [rerender, hfind]
    exact (bind_run _ _ s).trans (by rw [hrun]; rfl)
  refine ⟨m, m', s', hfind, hrerender, ?_, ?_, ?_, fun k x hroot => ?_, hl.unshaken.undisturbed.hosts,
    hl.unshaken.undisturbed.fetches, hl.unshaken.undisturbed.network⟩
  · rw [hrerender, refresh, hfind]
    exact (bind_run _ _ s).trans (by rw [hrefresh]; rfl)
  · rw [tree_eq (get?_put a target m'), tree_eq hm]
    exact congrArg Except.ok (toJsonAll_of_bareAll hl.bare)
  · unfold Mount.components
    rw [hid, ← map_fst_marks s'.store, hl.marks, map_fst_marks]
  · exact hsteady.subscriberCount_refreshed hsteady' hid (hup.sound hsteady).tree.enrolled hl hroot

/-- Two bricks with one id, and one that fetches. -/
def sharedIds : Json := .array [
  .object [("type", .string "p"), ("id", .string "d"), ("title", .string "\x7bx\x7d")],
  .object [("type", .string "p"), ("id", .string "d"), ("title", .string "\x7bx\x7d")],
  .object [("type", .string "Fetch"), ("id", .string "f"), ("url", .string "/u"),
    ("loading", .object [("type", .string "p"), ("title", .string "\x7bx\x7d")])]]

/-- Mounts the layout where requests are not answered at once, then flushes. -/
def sharedRun : Option ((App × Except AppError Unit) × State × (App × Nat) × State) := do
  let (r, s) ← App.mount { transport := true } sharedIds "main" 0 .anything oneVariable
  let (n, s') ← r.1.flush s
  return (r, s, n, s')

/-- With its request in flight and three subscribers of the variable, the layout is rendered again for nothing. -/
theorem rerender_eq_refresh_sharedIds : ∃ (c₁ : App × State) (a : App) (s : State) (m m' : Mount) (s' : State),
    Reachable ({ transport := true }, oneVariable) ∧
    Walk "main" ({ transport := true }, oneVariable) c₁ ∧ Relation.ReflTransGen (Idle "main") c₁ (a, s) ∧
    s.network.waiting.length = 1 ∧ s.store.subscriberCount 0 "x" = 3 ∧
    a.rerender "main" s = some ((a.put "main" m', .ok ()), s') ∧ a.refresh "main" s = a.rerender "main" s ∧
    m'.components.map (·.1) = m.components.map (·.1) ∧ s'.store.subscriberCount 0 "x" = 3 ∧
    s'.network = s.network := by
  have hchecked : sharedRun.any (fun r => r.1.2.isOk && decide (r.2.2.2.network.waiting.length = 1) &&
      decide (r.2.2.2.store.subscriberCount 0 "x" = 3) &&
      (r.2.2.2.store.level? 0).any (·.parent.isNone)) = true := by decide +kernel
  obtain ⟨⟨⟨a, r⟩, s, ⟨a', n⟩, s'⟩, hrun, hchecked⟩ := (Option.any_eq_true _ _).1 hchecked
  simp only [Bool.and_eq_true, decide_eq_true_eq] at hchecked
  obtain ⟨⟨⟨hok, hwaiting⟩, hcount⟩, hlevel⟩ := hchecked
  obtain ⟨⟨_, _⟩, hmount, hrun⟩ := Option.bind_eq_some_iff.1 hrun
  obtain ⟨⟨_, _⟩, hflush, hrun⟩ := Option.bind_eq_some_iff.1 hrun
  cases hrun
  obtain ⟨level, hlevel, hparent⟩ := (Option.any_eq_true _ _).1 hlevel
  obtain ⟨⟩ | ⟨⟩ := r
  · cases hok
  have hreachable : Reachable ({ transport := true }, oneVariable) :=
    .step (.start {} true) (.addRoot [("x", .nat 5)])
  have hwalk : Walk "main" ({ transport := true }, oneVariable) (a, s) := .mount (by decide) hmount
  have hidle : Relation.ReflTransGen (Idle "main") (a, s) (a', s') := .single (.flush hflush)
  obtain ⟨m, m', t, -, hrerender, hrefresh, -, hsame, hcounts, -, -, hnetwork⟩ :=
    rerender_eq_refresh hreachable hwalk hidle
  exact ⟨(a, s), a', s', m, m', t, hreachable, hwalk, hidle, hwaiting, hcount, hrerender, hrefresh, hsame,
    (hcounts 0 "x" ⟨level, hlevel, Option.isNone_iff_eq_none.1 hparent⟩).trans hcount, hnetwork⟩

end App
end LiveLayout
