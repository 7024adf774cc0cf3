import LiveLayout.Proofs.Running.Subscriptions
/-!
How often a change of a variable makes components render. A write queues whoever depends on the variable, and
the flush after it renders a component once for each of those in which it lies.
-/
namespace LiveLayout

open Engine Mounted

/-! ### What a write queues -/

section

variable {s s' : State} {id q : Nat}

theorem queue_invalidate (i : Instance) (hhost : ∃ r, s.host? id = some r) :
    ∃ s', invalidate i s = some ((), s') ∧ (∃ r, s'.host? id = some r) ∧ s'.store = s.store ∧
      ∀ q, q ∈ s'.queue id ↔ q ∈ s.queue id ∨ i = ⟨id, q⟩ := by
  obtain ⟨r, hr⟩ := hhost
  have hid : r.id = id := by simpa using List.find?_some hr
  have hrecord := host?_modifyHost s i.host (f := fun h => { h with queue := h.queue ++ [i.id] }) (fun _ => rfl) id
  rw [hr, Option.map_some, hid] at hrecord
  refine ⟨_, rfl, ⟨_, hrecord⟩, rfl, fun q => ?_⟩
  unfold State.queue
  rw [hrecord, hr]
  obtain ⟨host, j⟩ := i
  by_cases hhost : id = host
  · subst hhost
    simp [eq_comm]
  · simp [hhost, Ne.symm hhost]

/-- Telling proxies queues them, and nothing else. -/
theorem notifyAll_queue (write : Writer) (name : String) (value : Json) (hhost : ∃ r, s.host? id = some r)
    (ws : List Subscriber) (hproxies : ∀ w ∈ ws, w.isProxy = true) :
    Ensures (ws.forM (notify write name value)) s fun _ s' =>
      ∀ q, q ∈ s'.queue id ↔ q ∈ s.queue id ∨ ∃ key, .proxy ⟨id, q⟩ key ∈ ws := by
  refine (Ensures.forM (I := fun rest t => (∃ r, t.host? id = some r) ∧ (∀ w ∈ rest, w.isProxy = true) ∧
    ∀ q, (q ∈ t.queue id ∨ ∃ key, .proxy ⟨id, q⟩ key ∈ rest) ↔ q ∈ s.queue id ∨ ∃ key, .proxy ⟨id, q⟩ key ∈ ws)
    (fun w rest t h => ?_) ws ⟨hhost, hproxies, fun _ => .rfl⟩).mono fun _ s' h q => ?_
  · obtain ⟨hhost, hproxies, hqueue⟩ := h
    rw [List.forall_mem_cons] at hproxies
    cases w with
    | listener who => cases hproxies.1
    | proxy target key =>
      obtain ⟨_, t₁, htrace, hq⟩ := silent_trace (.invalidated key name) t
      have hhosts : t₁.hosts = t.hosts := hq.forked.hosts
      have hhost₁ : ∃ r, t₁.host? id = some r := by
        unfold State.host?
        rw [hhosts]
        exact hhost
      obtain ⟨t₂, hrun, hhost₂, -, hadded⟩ := queue_invalidate target hhost₁
      refine .bind_run htrace (.of_run hrun ⟨hhost₂, hproxies.2, fun q => ?_⟩)
      rw [← hqueue q, hadded q, State.queue_of_hosts hhosts, or_assoc]
      refine or_congr_right ⟨?_, ?_⟩
      · rintro (rfl | ⟨key', hmem⟩)
        · exact ⟨key, List.mem_cons_self ..⟩
        · exact ⟨key', List.mem_cons_of_mem _ hmem⟩
      · rintro ⟨key', hmem⟩
        rcases List.mem_cons.1 hmem with heq | hmem
        · cases heq
          exact .inl rfl
        · exact .inr ⟨key', hmem⟩
  · rw [← h.2.2 q]
    simp

/-- A write queues the proxies that are subscribed to the variable. -/
theorem set_queue {scope : Scope} {path x : String} {rest : List String} (hpath : Path.segments path = x :: rest)
    (hproxies : ∀ w ∈ s.store.subscribersAt (s.store.owner scope x) x, w.isProxy = true)
    (hhost : ∃ r, s.host? id = some r) (value : Json) :
    Ensures (Engine.set scope path value) s fun _ s' => ∀ q, q ∈ s'.queue id ↔
      q ∈ s.queue id ∨ ∃ key, .proxy ⟨id, q⟩ key ∈ s.store.subscribersAt (s.store.owner scope x) x := by
  have hsubscribers := Store.subscribersAt_write s.store scope x rest value (s.store.owner scope x) x
  rw [← hsubscribers] at hproxies ⊢
  unfold Engine.set cascadeLimit setValue
  rw [hpath]
  refine .bind_run (get_run s) (.bind_run (log_run _ s) (.bind_run (modifyStore_run _ _)
    (.bind_run (get_run _) ?_)))
  refine notifyAll_queue _ x _ ?_ _ hproxies
  exact hhost

end

/-! ### Dependents -/

/-- Whether the component is a proxy that depends on a name and finds it at the level. -/
def Component.dependsOn (σ : Store) (k : Nat) (x : String) : Component → Bool
  | .proxy p => decide (x ∈ p.depends ∧ σ.owner p.scope x = k)
  | _ => false

theorem Component.Follows.subscriberAt?_eq_some_iff {σ : Store} {i : Instance} {c : Component} (h : c.Follows σ i)
    (k : Nat) (x : String) :
    (∃ who, c.subscriberAt? σ k x = some who) ↔ c.dependsOn σ k x = true := by
  cases c with
  | proxy p =>
    obtain ⟨⟨key, hkey⟩, -⟩ := h
    rw [subscriberAt?_proxy, dependsOn, decide_eq_true_iff, hkey]
    split
    · exact ⟨fun _ => ‹_›, fun _ => ⟨_, rfl⟩⟩
    · refine ⟨?_, fun h => absurd h ‹_›⟩
      rintro ⟨_, ⟨⟩⟩
  | _ => simp [subscriberAt?, dependsOn]

/-- The proxies in the ledger that depend on a name are those that are subscribed to it. -/
theorem Ledger.dependsOn_iff {σ : Store} {cs : List (Instance × Component)} (h : Ledger σ cs) (k : Nat) (x : String)
    (i : Instance) : (∃ key, .proxy i key ∈ σ.subscribersAt k x) ↔ ∃ c, (i, c) ∈ cs ∧ c.dependsOn σ k x = true := by
  have hentries (key : Option String) : .proxy i key ∈ σ.subscribersAt k x ↔
      .proxy i key ∈ cs.filterMap fun e => e.2.subscriberAt? σ k x := by
    rw [← (h.entries k x).mem_iff, List.mem_filter]
    simp [Subscriber.isProxy]
  constructor
  · rintro ⟨key, hmem⟩
    obtain ⟨⟨j, c⟩, he, hw⟩ := List.mem_filterMap.1 ((hentries key).1 hmem)
    have hfollows := h.follows _ he
    obtain ⟨_, heq⟩ := hfollows.instance_eq hw
    cases heq
    exact ⟨c, he, (hfollows.subscriberAt?_eq_some_iff k x).1 ⟨_, hw⟩⟩
  · rintro ⟨c, he, hdepends⟩
    have hfollows := h.follows _ he
    obtain ⟨who, hw⟩ := (hfollows.subscriberAt?_eq_some_iff k x).2 hdepends
    obtain ⟨key, rfl⟩ := hfollows.instance_eq hw
    exact ⟨key, (hentries key).2 (List.mem_filterMap.2 ⟨_, he, hw⟩)⟩

namespace App

variable {a a' : App} {s s₁ s₂ : State}

/-- In a flush, every component that stays mounted renders once for each of those that wait and in which it
lies, itself among them. -/
theorem flush_turned {target : String} {m : Mount} {count : Nat} (h : Reachable (a, s))
    (hm : Fields.get? a.mounts target = some m) (hflush : a.flush s = some ((a', count), s₁)) :
    ∃ m', Fields.get? a'.mounts target = some m' ∧ m.Turned s m' := by
  obtain ⟨-, -, -, hflushed⟩ := flush_ensures h.consistent.steady _ _ hflush
  obtain ⟨m', hm', hfl⟩ := Flushed.get? hflushed hm
  exact ⟨m', hm', hfl.turned⟩

/-- The mounted proxies that depend on a name and find it at the level. -/
def dependents (a : App) (σ : Store) (k : Nat) (x : String) : List Instance :=
  (a.components.filter fun e => e.2.dependsOn σ k x).map (·.1)

section

variable {target path x : String} {m : Mount} {scope : Scope} {rest : List String} {value : Json} {count : Nat}

/-- Where nothing waits and nobody but proxies is subscribed to a variable, that is written and everything
flushed: each component that stays mounted renders once for each dependent of the variable in which it lies,
itself among them. -/
theorem renders_after_set (h : Reachable (a, s)) (hm : Fields.get? a.mounts target = some m)
    (hquiet : s.queue m.host.id = []) (hpath : Path.segments path = x :: rest)
    (hproxies : ∀ w ∈ s.store.subscribersAt (s.store.owner scope x) x, w.isProxy = true)
    (hset : Engine.set scope path value s = some ((), s₁)) (hflush : a.flush s₁ = some ((a', count), s₂)) :
    ∃ m', Fields.get? a'.mounts target = some m' ∧ ∀ l ∈ m.lines, ∀ l' ∈ m'.lines, l'.id = l.id →
      l'.renders = l.renders + l.path.countP fun j =>
        ⟨m.host.id, j⟩ ∈ a.dependents s.store (s.store.owner scope x) x := by
  have hsteady := h.consistent.steady
  have hl : Ledger s.store a.components := hsteady.ledger
  obtain ⟨m', hm', hturned⟩ := flush_turned (h.step (.write hset)) hm hflush
  have hhost := (hsteady.stands m (List.mem_map_of_mem (Fields.mem_of_get? hm))).host
  -- Whoever waits on the host is a dependent.
  have hwaits : ∀ j, j ∈ s₁.queue m.host.id ↔
      ⟨m.host.id, j⟩ ∈ a.dependents s.store (s.store.owner scope x) x := by
    intro j
    have hqueue := set_queue hpath hproxies hhost value () s₁ hset j
    rw [hqueue, hquiet, hl.dependsOn_iff, dependents, List.mem_map]
    constructor
    · rintro (hmem | ⟨c, hc, hdepends⟩)
      · cases hmem
      · exact ⟨_, List.mem_filter.2 ⟨hc, hdepends⟩, rfl⟩
    · rintro ⟨⟨i, c⟩, hc, rfl⟩
      exact .inr ⟨c, List.mem_filter.1 hc⟩
  refine ⟨m', hm', fun l hl l' hl' hid => ?_⟩
  have hrenders := (hturned l hl l' hl' hid).2
  simpa only [hwaits] using hrenders

/-- One change, one more rendering, unless dependents of the variable lie in each other: a dependent that stays
mounted renders exactly once more just when it lies in no other dependent, and what lies in none does not render
again. -/
theorem renders_once_iff (h : Reachable (a, s)) (hm : Fields.get? a.mounts target = some m)
    (hquiet : s.queue m.host.id = []) (hpath : Path.segments path = x :: rest)
    (hproxies : ∀ w ∈ s.store.subscribersAt (s.store.owner scope x) x, w.isProxy = true)
    (hset : Engine.set scope path value s = some ((), s₁)) (hflush : a.flush s₁ = some ((a', count), s₂)) :
    ∃ m', Fields.get? a'.mounts target = some m' ∧ ∀ l ∈ m.lines, ∀ l' ∈ m'.lines, l'.id = l.id →
      (⟨m.host.id, l.id⟩ ∈ a.dependents s.store (s.store.owner scope x) x →
        (l'.renders = l.renders + 1 ↔
          ∀ j ∈ l.above, ⟨m.host.id, j⟩ ∉ a.dependents s.store (s.store.owner scope x) x)) ∧
      ((∀ j ∈ l.path, ⟨m.host.id, j⟩ ∉ a.dependents s.store (s.store.owner scope x) x) →
        l'.renders = l.renders) := by
  obtain ⟨m', hm', hall⟩ := renders_after_set h hm hquiet hpath hproxies hset hflush
  refine ⟨m', hm', fun l hl l' hl' hid => ⟨fun hdepends => ?_, fun hnone => ?_⟩⟩
  · have hrenders := hall l hl l' hl' hid
    rw [Line.path, List.countP_cons_of_pos (by simpa using hdepends)] at hrenders
    rw [hrenders, Nat.add_left_cancel_iff, Nat.add_eq_right, List.countP_eq_zero]
    simp only [decide_eq_true_eq]
  · rw [hall l hl l' hl' hid, List.countP_eq_zero.2 (by simpa using hnone), Nat.add_zero]

end

/-- A box with a paragraph in it; both show the variable. -/
def nestedLayout : Json := .object [("type", .string "box"), ("id", .string "outer"),
  ("title", .string "\x7bx\x7d"), ("children", .object [("type", .string "p"), ("id", .string "inner"),
    ("title", .string "\x7bx\x7d")])]

theorem renders_once_iff_nested : ∃ (a a' : App) (s s₁ s₂ : State) (m m' : Mount) (count : Nat),
    Reachable (a, s) ∧ Engine.set 0 "x" (.nat 2) s = some ((), s₁) ∧ a.flush s₁ = some ((a', count), s₂) ∧
    Fields.get? a.mounts "main" = some m ∧ Fields.get? a'.mounts "main" = some m' ∧
    ∀ l ∈ m.lines, ∀ l' ∈ m'.lines, l'.id = l.id →
      (⟨m.host.id, l.id⟩ ∈ a.dependents s.store 0 "x" →
        (l'.renders = l.renders + 1 ↔ ∀ j ∈ l.above, ⟨m.host.id, j⟩ ∉ a.dependents s.store 0 "x")) ∧
      ((∀ j ∈ l.path, ⟨m.host.id, j⟩ ∉ a.dependents s.store 0 "x") → l'.renders = l.renders) := by
  have hsome : (App.mount {} nestedLayout "main" 0 .anything oneVariable).isSome = true := by decide +kernel
  obtain ⟨⟨⟨a, r⟩, s⟩, hrun⟩ := Option.isSome_iff_exists.1 hsome
  have hcheck : (App.mount {} nestedLayout "main" 0 .anything oneVariable).all (fun r =>
      (Fields.get? r.1.1.mounts "main").any (fun m => r.2.queue m.host.id == []) &&
        (r.2.store.subscribersAt 0 "x").all Subscriber.isProxy && r.2.store.owner 0 "x" == 0 &&
        (Engine.set 0 "x" (.nat 2) r.2).any fun w => (r.1.1.flush w.2).isSome) = true := by decide +kernel
  rw [hrun, Option.all_some] at hcheck
  simp only [Bool.and_eq_true, beq_iff_eq, Option.any_eq_true, List.all_eq_true] at hcheck
  obtain ⟨⟨⟨⟨m, hm, hquiet⟩, hproxies⟩, howner⟩, ⟨_, s₁⟩, hset, hflush⟩ := hcheck
  obtain ⟨⟨⟨a', count⟩, s₂⟩, hflush⟩ := Option.isSome_iff_exists.1 hflush
  have hreachable : Reachable (a, s) :=
    .step (.step (.start {} false) (.addRoot [("x", .nat 5)])) (.mount (by decide) hrun)
  have hpath : Path.segments "x" = ["x"] := by decide +kernel
  have howned : s.store.owner 0 "x" = 0 := howner
  obtain ⟨m', hm', hall⟩ := renders_once_iff hreachable hm hquiet hpath (by rwa [howned]) hset hflush
  rw [howned] at hall
  exact ⟨a, a', s, s₁, s₂, m, m', count, hreachable, hset, hflush, hm, hm', hall⟩

/-- How often the components on a target have rendered, by their numbers. -/
def renderCounts (a : App) (target : String) : List (Nat × Nat) :=
  ((Fields.get? a.mounts target).map fun m => m.lines.map fun l => (l.id, l.renders)).getD []

/-- The paragraph renders with the box that it lies in, and then once more for itself. -/
theorem nested_renders_twice : (App.mount {} nestedLayout "main" 0 .anything oneVariable).bind (fun r =>
      (Engine.set 0 "x" (.nat 2) r.2).bind fun w => (r.1.1.flush w.2).map fun r' =>
        (r.1.1.renderCounts "main", r'.1.1.renderCounts "main")) =
    some ([(1, 1), (2, 1)], [(1, 2), (2, 3)]) := by
  decide +kernel

end App
end LiveLayout
