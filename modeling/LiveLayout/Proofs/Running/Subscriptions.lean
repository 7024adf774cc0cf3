import LiveLayout.Proofs.Running.Steps
/-!
The subscriptions of an app are exactly what its mounted proxies depend on.
-/
namespace LiveLayout

namespace Store

variable {σ : Store} {k : Nat}

/-- A level where no name has a subscriber holds no subscription. -/
theorem totalSubscriptions_eq_zero (hσ : σ.Tidy) (h : ∀ x, σ.subscribersAt k x = []) :
    σ.totalSubscriptions k = 0 := by
  unfold totalSubscriptions
  cases hlevel : σ.level? k with
  | none => rfl
  | some level =>
    have hempty : ∀ e ∈ level.subscribers, e.2 = [] := fun e he => by
      rw [← h e.1, subscribersAt_of_level? hlevel, Fields.get?_of_mem (hσ k level hlevel) he]
      rfl
    rw [Option.map_some, Option.getD_some]
    generalize level.subscribers = entries at hempty
    induction entries with
    | nil => rfl
    | cons e rest ih =>
      rw [List.forall_mem_cons] at hempty
      rw [List.foldr_cons, hempty.1, ih hempty.2]
      rfl

/-- Whether all who are subscribed anywhere are proxies. -/
def onlyProxies (σ : Store) : Bool :=
  σ.levels.toList.all fun level => level.subscribers.all fun e => e.2.all Subscriber.isProxy

theorem isProxy_of_onlyProxies (h : σ.onlyProxies = true) {x : String} {who : Subscriber}
    (hwho : who ∈ σ.subscribersAt k x) : who.isProxy = true := by
  unfold subscribersAt at hwho
  cases hlevel : σ.level? k with
  | none => simp [hlevel] at hwho
  | some level =>
    cases hlist : Fields.get? level.subscribers x with
    | none => simp [hlevel, hlist] at hwho
    | some list =>
      simp only [hlevel, Option.bind_some, hlist, Option.getD_some] at hwho
      have hmem : level ∈ σ.levels.toList := Array.mem_toList_iff.2 (Array.mem_of_getElem? hlevel)
      have hall := List.all_eq_true.1 (List.all_eq_true.1 h level hmem) _ (Fields.mem_of_get? hlist)
      exact List.all_eq_true.1 hall who hwho

end Store

namespace App

/-- The components mounted on the targets of an app, with their instances. -/
def components (a : App) : List (Instance × Component) := mountedComponents (a.mounts.map (·.2))

/-- Subscriptions are exactly the mounted dependencies. In every state that an app gets into, where nobody
but its proxies is subscribed, the subscribers of a name at a level are those of the mounted proxies that
depend on the name and find it at that level, one for each. Nothing is left once nothing is mounted. -/
theorem subscribers_perm_components {a : App} {s : State} (h : Reachable (a, s))
    (hproxies : s.store.onlyProxies = true) :
    (a.components.map (·.1)).Nodup ∧
      (∀ i p, (i, Component.proxy p) ∈ a.components → ∃ key, p.subscriber = some (.proxy i key)) ∧
      (∀ k x, (s.store.subscribersAt k x).Perm
        (a.components.filterMap fun e => e.2.subscriberAt? s.store k x)) ∧
      (a.mounts = [] → ∀ k, s.store.totalSubscriptions k = 0) := by
  have hl : Ledger s.store a.components := h.consistent.steady.ledger
  have hentries : ∀ k x, (s.store.subscribersAt k x).Perm
      (a.components.filterMap fun e => e.2.subscriberAt? s.store k x) := by
    intro k x
    have hperm := hl.entries k x
    rwa [List.filter_eq_self.2 fun w hw => Store.isProxy_of_onlyProxies hproxies hw] at hperm
  refine ⟨hl.nodup, fun i p hp => (hl.follows _ hp).1, hentries, fun hnone k => ?_⟩
  refine Store.totalSubscriptions_eq_zero hl.tidy fun x => List.perm_nil.1 ?_
  have hperm := hentries k x
  rwa [components, hnone] at hperm

/-- A list with a variable in each of its two items. -/
def itemsLayout : Json := .object [("type", .string "ForEach"), ("as", .string "item"),
  ("items", .array [.nat 1, .nat 2]),
  ("template", .object [("type", .string "p"), ("title", .string "\x7bx\x7d"), ("content", .string "\x7bitem\x7d")])]

def oneVariable : State := { store := (Store.addRoot {} [("x", .nat 5)]).2 }

/-- Both items of the list are subscribed to the variable at the root, each in a fork of its own. -/
theorem subscribers_perm_components_items : ∃ a s, Reachable (a, s) ∧ s.store.onlyProxies = true ∧
    (s.store.subscribersAt 0 "x").length = 2 ∧
    (s.store.subscribersAt 0 "x").Perm (a.components.filterMap fun e => e.2.subscriberAt? s.store 0 "x") := by
  have hsome : (App.mount {} itemsLayout "main" 0 .anything oneVariable).isSome = true := by decide +kernel
  obtain ⟨⟨⟨a, r⟩, s⟩, hrun⟩ := Option.isSome_iff_exists.1 hsome
  have hcheck : (App.mount {} itemsLayout "main" 0 .anything oneVariable).all (fun r =>
      r.2.store.onlyProxies && (r.2.store.subscribersAt 0 "x").length == 2) = true := by decide +kernel
  rw [hrun, Option.all_some, Bool.and_eq_true, beq_iff_eq] at hcheck
  have hreachable : Reachable (a, s) :=
    .step (.step (.start {} false) (.addRoot [("x", .nat 5)])) (.mount (by decide) hrun)
  exact ⟨a, s, hreachable, hcheck.1, hcheck.2,
    (subscribers_perm_components hreachable hcheck.1).2.2.1 0 "x"⟩

end App
end LiveLayout
