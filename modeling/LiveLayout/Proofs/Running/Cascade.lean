import LiveLayout.Proofs.Mounting.Frame
import LiveLayout.Proofs.Store.Writes
/-!
Cascades of writes. Whatever a write sets off, the proxies keep their subscriptions, and every proxy that
follows a variable with a new value waits to be rendered again.
-/
namespace LiveLayout

open Engine

/-- The component waits to be rendered again, if its host is still there. -/
def State.Waits (s : State) (i : Instance) : Prop := ∀ r, s.host? i.host = some r → i.id ∈ r.queue

/-- What writing does: it moves no proxy's subscription, and tells the proxies of every change. -/
structure Wrote (s s' : State) : Prop where
  scopes : s.store.KeepsScopes s'.store
  tidy : s'.store.Tidy
  proxies : ∀ k x, (s'.store.subscribersAt k x).filter Subscriber.isProxy =
    (s.store.subscribersAt k x).filter Subscriber.isProxy
  told : ∀ k x i key, Subscriber.proxy i key ∈ s.store.subscribersAt k x →
    s'.store.valueAt? k x ≠ s.store.valueAt? k x → s'.Waits i
  registry : s'.registry = s.registry
  interpreters : s'.interpreters = s.interpreters
  network : s'.network = s.network
  stay : ∀ id r, s.host? id = some r → ∃ r', s'.host? id = some r' ∧ r.Grows True r'
  came : ∀ id r', s'.host? id = some r' → ∃ r, s.host? id = some r ∧ r.Grows True r'
  hostIds : s'.hosts.map (·.id) = s.hosts.map (·.id)
  hostCount : s'.hostCount = s.hostCount

namespace Wrote

variable {s s' s'' : State}

/-- What waits goes on waiting. -/
theorem waits (h : Wrote s s') {i : Instance} (hi : s.Waits i) : s'.Waits i := by
  intro r' hr'
  obtain ⟨r, hr, hg⟩ := h.came _ r' hr'
  exact hg.queue trivial _ (hi r hr)

theorem mem_subscribers (h : Wrote s s') {k : Nat} {x : String} {i : Instance} {key : Option String}
    (hi : Subscriber.proxy i key ∈ s.store.subscribersAt k x) :
    Subscriber.proxy i key ∈ s'.store.subscribersAt k x := by
  have hmem : Subscriber.proxy i key ∈ (s.store.subscribersAt k x).filter Subscriber.isProxy :=
    List.mem_filter.2 ⟨hi, rfl⟩
  rw [← h.proxies] at hmem
  exact (List.mem_filter.1 hmem).1

theorem trans (h : Wrote s s') (h' : Wrote s' s'') : Wrote s s'' := by
  refine ⟨h.scopes.trans h'.scopes, h'.tidy, fun k x => (h'.proxies k x).trans (h.proxies k x),
    fun k x i key hi hne => ?_, h'.registry.trans h.registry, h'.interpreters.trans h.interpreters,
    h'.network.trans h.network, fun id r hr => ?_, fun id r'' hr'' => ?_, h'.hostIds.trans h.hostIds,
    h'.hostCount.trans h.hostCount⟩
  · by_cases heq : s'.store.valueAt? k x = s.store.valueAt? k x
    · exact h'.told k x i key (h.mem_subscribers hi) (by rwa [heq])
    · exact h'.waits (h.told k x i key hi heq)
  · obtain ⟨r', hr', hg⟩ := h.stay id r hr
    obtain ⟨r'', hr'', hg'⟩ := h'.stay id r' hr'
    exact ⟨r'', hr'', hg.trans hg'⟩
  · obtain ⟨r', hr', hg'⟩ := h'.came id r'' hr''
    obtain ⟨r, hr, hg⟩ := h.came id r' hr'
    exact ⟨r, hr, hg.trans hg'⟩

/-- Only the store, records and queues have changed. -/
theorem of_store {σ : Store} (hscopes : s.store.KeepsScopes σ) (htidy : σ.Tidy)
    (hproxies : ∀ k x, (σ.subscribersAt k x).filter Subscriber.isProxy =
      (s.store.subscribersAt k x).filter Subscriber.isProxy)
    (hvalues : ∀ k x, σ.valueAt? k x = s.store.valueAt? k x) (n : List Notice) (e : List Event) :
    Wrote s { s with store := σ, notices := n, events := e } :=
  ⟨hscopes, htidy, hproxies, fun k x _ _ _ hne => absurd (hvalues k x) hne, rfl, rfl, rfl,
    fun _ r hr => ⟨r, hr, .refl True r⟩, fun _ r hr => ⟨r, hr, .refl True r⟩, rfl, rfl⟩

theorem of_records (htidy : s.store.Tidy) (n : List Notice) (e : List Event) :
    Wrote s { s with notices := n, events := e } :=
  of_store (.refl _) htidy (fun _ _ => rfl) (fun _ _ => rfl) n e

theorem refl (htidy : s.store.Tidy) : Wrote s s := of_records htidy s.notices s.events

end Wrote

section

variable {s : State}

/-- A component that is invalidated waits. -/
theorem invalidate_wrote (htidy : s.store.Tidy) (i : Instance) :
    Ensures (invalidate i) s fun _ s' => Wrote s s' ∧ s'.Waits i := by
  have hgrows (r : HostRecord) : r.Grows True { r with queue := r.queue ++ [i.id] } :=
    ⟨rfl, Nat.le_refl _, fun _ _ hq => List.mem_append_left _ hq⟩
  have hhost (id : Nat) := host?_modifyHost s i.host (fun r => (hgrows r).id) id
  refine .of_run rfl ⟨⟨.refl _, htidy, fun _ _ => rfl, fun _ _ _ _ _ hne => absurd rfl hne, rfl, rfl, rfl,
    fun id r hr => ?_, fun id r' hr' => ?_, ?_, rfl⟩, fun r' hr' => ?_⟩
  · refine ⟨_, (hhost id).trans (by rw [hr]; rfl), ?_⟩
    dsimp only
    split
    · exact hgrows r
    · exact .refl True r
  · obtain ⟨r, hr, rfl⟩ := Option.map_eq_some_iff.1 ((hhost id).symm.trans hr')
    refine ⟨r, hr, ?_⟩
    split
    · exact hgrows r
    · exact .refl True r
  · rw [List.map_map]
    refine List.map_congr_left fun r _ => ?_
    simp only [Function.comp]
    split <;> rfl
  · obtain ⟨r, hr, rfl⟩ := Option.map_eq_some_iff.1 ((hhost i.host).symm.trans hr')
    have hid : r.id = i.host := by simpa using List.find?_some hr
    rw [if_pos hid]
    exact List.mem_append_right _ (List.mem_singleton_self _)

theorem trace_wrote (htidy : s.store.Tidy) (n : Notice) : Ensures (trace n) s fun _ s' => Wrote s s' := by
  obtain ⟨notices, hrun⟩ := trace_run n s
  exact .of_run hrun (.of_records htidy _ _)

/-- Subscribing a listener leaves the proxies alone. -/
theorem subscribe_listener_wrote (htidy : s.store.Tidy) (scope : Scope) (name who : String) :
    Wrote s { s with store := s.store.subscribe scope name (.listener who) } := by
  refine Wrote.of_store (s.store.keepsValues_subscribe _ _ _).keepsScopes (htidy.subscribe _ _ _)
    (fun k x => ?_) (fun k x => ?_) s.notices s.events
  · by_cases hscope : scope < s.store.levels.size
    · rw [Store.subscribersAt_subscribe hscope]
      split
      · split
        · rfl
        · rw [List.filter_append]
          exact List.append_nil _
      · rfl
    · rw [Store.subscribersAt_subscribe_of_size_le (Nat.not_lt.1 hscope)]
  · refine Store.valueAt?_modify _ _ (fun level => ?_) k x
    rfl

theorem unsubscribe_listener_wrote (htidy : s.store.Tidy) (scope : Scope) (name who : String) :
    Wrote s { s with store := s.store.unsubscribe scope name (.listener who) } := by
  refine Wrote.of_store (s.store.keepsValues_unsubscribe _ _ _).keepsScopes (htidy.unsubscribe _ _ _)
    (fun k x => ?_) (fun k x => ?_) s.notices s.events
  · rw [Store.subscribersAt_unsubscribe htidy]
    split
    · rw [List.filter_filter]
      refine List.filter_congr fun w _ => ?_
      cases w with
      | proxy i key => simp [Subscriber.isProxy]
      | listener l => simp [Subscriber.isProxy]
    · rfl
  · refine Store.valueAt?_modify _ _ (fun level => ?_) k x
    split
    · rfl
    · split <;> rfl

/-! ### Writing -/

/-- Writing that sets off what `Wrote` allows. -/
def Writes (write : Writer) : Prop := ∀ scope path value s, s.store.Tidy →
  Ensures (write scope path value) s fun _ s' => Wrote s s'

variable {write : Writer}

theorem perform_wrote (hwrite : Writes write) (htidy : s.store.Tidy) (args : List Json) (a : Action) :
    Ensures (perform write args a) s fun _ s' => Wrote s s' := by
  unfold perform
  split
  · refine .bind_run (get_run s) ?_
    cases Fields.get? s.scopes a.scope with
    | none => exact .pure (.refl htidy)
    | some scope =>
      cases a.effect with
      | write path value => exact hwrite scope path value s htidy
      | writeArgument path index => exact hwrite scope path _ s htidy
      | subscribe who name => exact .of_run rfl (subscribe_listener_wrote htidy scope name who)
      | unsubscribe who name => exact .of_run rfl (unsubscribe_listener_wrote htidy scope name who)
  · exact .pure (.refl htidy)

theorem performAll_wrote (hwrite : Writes write) (htidy : s.store.Tidy) (args : List Json)
    (actions : List Action) : Ensures (actions.forM (perform write args)) s fun _ s' => Wrote s s' :=
  Ensures.forM (I := fun _ t => Wrote s t) (fun a _ _ h => (perform_wrote hwrite h.tidy args a).mono
    fun _ _ h' => h.trans h') actions (.refl htidy)

theorem notify_wrote (hwrite : Writes write) (htidy : s.store.Tidy) (name : String) (value : Json)
    (who : Subscriber) : Ensures (notify write name value who) s fun _ s' =>
      Wrote s s' ∧ ∀ i key, who = .proxy i key → s'.Waits i := by
  cases who with
  | proxy target key =>
    refine .bind (trace_wrote htidy _) fun _ s₁ h₁ => ?_
    refine (invalidate_wrote h₁.tidy target).mono fun _ s₂ ⟨h₂, hw⟩ => ⟨h₁.trans h₂, ?_⟩
    rintro _ _ ⟨⟩
    exact hw
  | listener who =>
    have hemit := Wrote.of_records htidy s.notices (.notify who name value :: s.events)
    refine .bind_run (emit_run _ s) (.bind_run (get_run _) ?_)
    exact (performAll_wrote hwrite hemit.tidy [value] _).mono fun _ s₁ h₁ => ⟨hemit.trans h₁, nofun⟩

theorem notifyAll_wrote (hwrite : Writes write) (htidy : s.store.Tidy) (name : String) (value : Json)
    (ws : List Subscriber) : Ensures (ws.forM (notify write name value)) s fun _ s' =>
      Wrote s s' ∧ ∀ i key, .proxy i key ∈ ws → s'.Waits i := by
  refine (Ensures.forM (I := fun rest t =>
    Wrote s t ∧ ∀ i key, .proxy i key ∈ ws → .proxy i key ∈ rest ∨ t.Waits i)
    (fun w rest t h => ?_) ws ⟨.refl htidy, fun _ _ hi => .inl hi⟩).mono fun _ s' h =>
      ⟨h.1, fun i key hi => (h.2 i key hi).resolve_left List.not_mem_nil⟩
  refine (notify_wrote hwrite h.1.tidy name value w).mono fun _ t' ⟨hw, hwaits⟩ =>
    ⟨h.1.trans hw, fun i key hi => ?_⟩
  rcases h.2 i key hi with hin | hin
  · rcases List.mem_cons.1 hin with rfl | hin
    · exact .inr (hwaits i key rfl)
    · exact .inl hin
  · exact .inr (hw.waits hin)

/-- What follows a write, once all who follow the variable have heard of it. -/
theorem Wrote.of_write {s' : State} {scope : Scope} {root : String} {rest : List String} {v : Json}
    (h : Wrote { s with store := s.store.write scope root rest v } s')
    (hwaits : ∀ i key, .proxy i key ∈ s.store.subscribersAt (s.store.owner scope root) root → s'.Waits i) :
    Wrote s s' := by
  refine ⟨(s.store.keepsScopes_write scope root rest v).trans h.scopes, h.tidy, fun k x => ?_,
    fun k x i key hi hne => ?_, h.registry, h.interpreters, h.network, h.stay, h.came, h.hostIds,
    h.hostCount⟩
  · rw [h.proxies, Store.subscribersAt_write]
  · by_cases hvar : k = s.store.owner scope root ∧ x = root
    · obtain ⟨rfl, rfl⟩ := hvar
      exact hwaits i key hi
    · refine h.told k x i key (by rwa [Store.subscribersAt_write]) ?_
      rwa [Store.valueAt?_write_of_ne hvar]

/-- A write tells all who follow the variable, and they may write in turn. -/
theorem setValue_writes (depth : Nat) : Writes (setValue depth) := by
  induction depth with
  | zero => exact fun _ _ _ _ _ => .endless
  | succ depth ih =>
    intro scope path value s htidy
    unfold setValue
    split
    · exact .of_run (log_run _ s) (.of_records htidy _ s.events)
    · rename_i root rest _
      refine .bind_run (get_run s) (.bind_run (log_run _ s) (.bind_run (modifyStore_run _ _)
        (.bind_run (get_run _) ?_)))
      refine (notifyAll_wrote ih (Store.tidy_write htidy) root _ _).mono fun _ s' ⟨hw, hwaits⟩ => ?_
      refine (Wrote.of_records htidy _ s.events).trans (hw.of_write fun i key hi => hwaits i key ?_)
      rwa [Store.subscribersAt_write]

theorem set_writes : Writes set := setValue_writes cascadeLimit

theorem call_wrote : (h : Handler) → ∀ s args, s.store.Tidy →
    Ensures (call h args) s fun _ s' => Wrote s s'
  | .user id actions, s, args, htidy => by
    have hemit := Wrote.of_records htidy s.notices (.call id args :: s.events)
    refine .bind_run (emit_run _ s) ?_
    exact (performAll_wrote set_writes hemit.tidy args actions).mono fun _ s₁ h₁ => hemit.trans h₁
  | .field hook path scope user, s, args, htidy => by
    unfold call
    cases user with
    | none =>
      cases Form.extract? hook args with
      | some value => exact .bind (set_writes scope path value s htidy) fun _ _ h₁ => .pure h₁
      | none => exact .bind_run (log_run _ s) (.pure (.of_records htidy _ s.events))
    | some h =>
      have next (s₁ : State) (h₁ : Wrote s s₁) : Ensures (call h args) s₁ fun _ s' => Wrote s s' :=
        (call_wrote h s₁ args h₁.tidy).mono fun _ _ h₂ => h₁.trans h₂
      cases Form.extract? hook args with
      | some value => exact .bind (set_writes scope path value s htidy) fun _ s₁ h₁ => next s₁ h₁
      | none => exact .bind_run (log_run _ s) (next _ (.of_records htidy _ s.events))
  | .container form scope user, s, args, htidy => .bind_run (get_run s) (call_wrote user s _ htidy)

end
end LiveLayout
