import LiveLayout.Proofs.Store.Histories
import LiveLayout.Proofs.Telling.Writes
/-!
Who is told of a write. Where nobody writes in turn, a subscriber is told once if it is subscribed through a scope that
finds the variable at the level that is written, and otherwise it is not told. Cascades are histories of the store, so
that nothing that anybody does when told moves a variable to another level.
-/
namespace LiveLayout

open Engine

/-! ### Cascades as histories -/

namespace Store

variable {σ τ υ : Store}

/-- Some history makes the second store of the first. -/
def Succeeds (σ τ : Store) : Prop := ∃ cs, σ.Grows cs τ

theorem Succeeds.refl (σ : Store) : σ.Succeeds σ := ⟨[], .start⟩

theorem Succeeds.trans (h : σ.Succeeds τ) (h' : τ.Succeeds υ) : σ.Succeeds υ := by
  obtain ⟨cs, hcs⟩ := h
  obtain ⟨cs', hcs'⟩ := h'
  exact ⟨cs ++ cs', hcs.trans hcs'⟩

theorem Succeeds.of_change {c : Change} (h : c.On σ ∨ c.apply σ = σ) : σ.Succeeds (c.apply σ) := by
  rcases h with hon | hsame
  · exact ⟨[c], Grows.step .start hon⟩
  · rw [hsame]
    exact .refl σ

/-- Where there is no level, nothing is written, and nobody is subscribed or unsubscribed. -/
theorem succeeds_modify_owner {c : Change} (σ : Store) (scope : Scope) (name : String) (f : Level → Level)
    (hc : c.apply σ = σ.modify (σ.owner scope name) f) (hon : scope < σ.levels.size → c.On σ) :
    σ.Succeeds (c.apply σ) := by
  apply Succeeds.of_change
  by_cases hscope : scope < σ.levels.size
  · exact .inl (hon hscope)
  · right
    have hsize : σ.levels.size ≤ scope := Nat.le_of_not_lt hscope
    rw [hc, owner_of_size_le hsize, modify_of_size_le hsize]

theorem succeeds_put (σ : Store) (scope : Scope) (path : String) (v : Json) : σ.Succeeds (σ.put scope path v) := by
  cases hsegments : Path.segments path with
  | nil =>
    have hsame : σ.put scope path v = σ := by rw [put, hsegments]
    rw [hsame]
    exact .refl σ
  | cons root rest =>
    exact succeeds_modify_owner (c := .set scope path v) σ scope root _ (put_eq_write hsegments σ scope v) id

theorem succeeds_subscribe (σ : Store) (scope : Scope) (name : String) (who : Subscriber) :
    σ.Succeeds (σ.subscribe scope name who) :=
  succeeds_modify_owner (c := .subscribe scope name who) σ scope name _ rfl id

theorem succeeds_unsubscribe (σ : Store) (scope : Scope) (name : String) (who : Subscriber) :
    σ.Succeeds (σ.unsubscribe scope name who) :=
  succeeds_modify_owner (c := .unsubscribe scope name who) σ scope name _ rfl id

end Store

namespace Chronicle

variable {react : Reactions}

/-- Whatever the step does to the store, a history does. -/
def Grows (x : Engine Chronicle) : Prop := ∀ s, Ensures x s fun _ s' => s.store.Succeeds s'.store

theorem perform_grows {writer : Writer} (h : ∀ scope path value, Grows (writer scope path value)) (r : Reaction) :
    Grows (r.perform writer) := by
  induction r with
  | done => exact fun s => .pure (.refl _)
  | look next ih => exact fun s => Ensures.bind_run (get_run s) (ih s s)
  | write scope path value next ih =>
    intro s
    refine Ensures.bind (h scope path value s) fun _ s₁ hs₁ => ?_
    exact Ensures.bind (ih s₁) fun _ s₂ hs₂ => .pure (hs₁.trans hs₂)
  | subscribe scope name who next ih =>
    intro s
    refine Ensures.bind_run (modifyStore_run _ s) ((ih _).mono fun _ s' hs' => ?_)
    exact (s.store.succeeds_subscribe scope name who).trans hs'
  | unsubscribe scope name who next ih =>
    intro s
    refine Ensures.bind_run (modifyStore_run _ s) ((ih _).mono fun _ s' hs' => ?_)
    exact (s.store.succeeds_unsubscribe scope name who).trans hs'

theorem notify_grows {writer : Writer} (h : ∀ scope path value, Grows (writer scope path value)) (round : Round)
    (who : Subscriber) : Grows (notify react writer round who) := by
  intro s
  cases who with
  | proxy target key =>
    obtain ⟨notices, htrace⟩ := trace_run (.invalidated key round.name) s
    refine Ensures.bind_run htrace ?_
    exact Ensures.bind_run (a := ()) rfl (.pure (.refl _))
  | listener who =>
    refine Ensures.bind_run (emit_run _ s) ?_
    exact Ensures.bind (perform_grows h _ _) fun _ s' hs' => .pure hs'

theorem notifyAll_grows {writer : List Round → Writer}
    (h : ∀ underway scope path value, Grows (writer underway scope path value)) (underway : List Round) (level : Scope)
    (name : String) (value : Json) (all : List Subscriber) :
    Grows (notifyAll react writer underway level name value all) := by
  induction all with
  | nil => exact fun s => .pure (.refl _)
  | cons who left ih =>
    intro s
    refine Ensures.bind (notify_grows (h _) _ who s) fun _ s₁ hs₁ => ?_
    exact Ensures.bind (ih s₁) fun _ s₂ hs₂ => .pure (hs₁.trans hs₂)

theorem setValue_grows (react : Reactions) (depth : Nat) (underway : List Round) (scope : Scope) (path : String)
    (value : Json) : Grows (setValue react depth underway scope path value) := by
  induction depth generalizing underway scope path value with
  | zero => exact fun s => .endless
  | succ depth ih =>
    intro s
    cases hsegments : Path.segments path with
    | nil =>
      unfold setValue
      rw [hsegments]
      exact Ensures.bind_run (log_run _ s) (.pure (.refl _))
    | cons root rest =>
      intro log s' hrun
      rw [setValue_run react depth underway scope hsegments] at hrun
      obtain ⟨⟨told, t⟩, htold, heq⟩ := Option.map_eq_some_iff.1 hrun
      cases heq
      have hput := s.store.succeeds_put scope path value
      rw [Store.put_eq_write hsegments] at hput
      exact hput.trans (notifyAll_grows ih _ _ _ _ _ _ told t htold)

/-! ### Who is told -/

/-- What the entry tells the subscriber. -/
def Entry.heard? (who : Subscriber) : Entry → Option (String × Json)
  | .written .. => none
  | .told w round => if w = who then some (round.name, round.value) else none

/-- The names and values that the subscriber is told, in order. -/
def toldTo (who : Subscriber) (log : Chronicle) : List (String × Json) := log.filterMap (Entry.heard? who)

theorem toldTo_tellings (who : Subscriber) (level : Scope) (name : String) (value : Json) {all : List Subscriber}
    (h : all.Nodup) : toldTo who (tellings level name value all) = if who ∈ all then [(name, value)] else [] := by
  induction all with
  | nil => rfl
  | cons w left ih =>
    rw [List.nodup_cons] at h
    have hleft := ih h.2
    unfold toldTo at hleft ⊢
    by_cases hw : w = who
    · subst hw
      rw [if_neg h.1] at hleft
      simp [tellings, Entry.heard?, hleft]
    · simp [tellings, Entry.heard?, hleft, hw, Ne.symm hw]

/-- Only who finds a variable at the level that is written sees another value after the write. -/
theorem Sets.lookup?_eq {scope t : Scope} {path root : String} {rest : List String} {v : Json} {s s' : State}
    (h : Sets react scope path v s s') (hpath : Path.segments path = root :: rest) (ht : t < s.store.levels.size)
    (hlevel : s.store.owner t root ≠ s.store.owner scope root) : s'.store.lookup? t root = s.store.lookup? t root := by
  obtain ⟨first, told, hrun, hquiet⟩ := h
  have howner : s'.store.owner t root = s.store.owner t root :=
    (setValue_covers react cascadeLimit [] scope path v s _ s' hrun).scopes.owner_eq ht
  have hother : ¬(s.store.owner t root = s.store.owner scope root ∧ root = root) := fun h => hlevel h.1
  unfold Store.lookup?
  rw [howner, valueAt?_of_spares hpath hrun (Store.owner_lt_size ht root) (hquiet.spares _ _),
    Store.valueAt?_write_of_ne hother]

/-- On a store that any history has made, a write whose callbacks write nothing in turn tells a subscriber the new value
once if it is subscribed through a scope that finds the variable where the write does, and tells it nothing if there is
no such scope. Through other scopes nobody sees a change. Whatever follows, every scope finds every name where it has
found it, and subscribes and unsubscribes there. -/
theorem set_tells_visible (react : Reactions) {cs : List Store.Change} {scope : Scope} {path root : String}
    {rest : List String} {s : State} (hcs : Store.Grows {} cs s.store) (hscope : scope < s.store.levels.size)
    (hpath : Path.segments path = root :: rest) (v : Json) :
    (∀ t : State, Engine.set scope path v t =
      (setValue .scripted cascadeLimit [] scope path v t).map fun r => ((), r.2)) ∧
    (react.OnlyListen s.listeners → ∃ s', Sets react scope path v s s') ∧
    (∀ (first : Entry) (told : Chronicle) (s' : State),
      setValue react cascadeLimit [] scope path v s = some (first :: told, s') → told.Quiet →
      s'.events = (told.filterMap Entry.event?).reverse ++ s.events ∧
      (∃ value, s'.store.valueAt? (s.store.owner scope root) root = some value ∧
        ∀ who t, Store.Subscribed (s.store.owner · root) cs who t root →
          s.store.owner t root = s.store.owner scope root → toldTo who told = [(root, value)]) ∧
      (∀ who, (∀ t, Store.Subscribed (s.store.owner · root) cs who t root →
        s.store.owner t root ≠ s.store.owner scope root) → toldTo who told = []) ∧
      ∀ t, t < s.store.levels.size → s'.store.lookup? t root ≠ s.store.lookup? t root →
        s.store.owner t root = s.store.owner scope root) ∧
    (∀ (react' : Reactions) (log : Chronicle) (s' : State),
      setValue react' cascadeLimit [] scope path v s = some (log, s') → ∃ cs', s.store.Grows cs' s'.store) ∧
    ∀ (cs' : List Store.Change) (τ : Store), s.store.Grows cs' τ → ∀ t x, t < s.store.levels.size →
      τ.owner t x = s.store.owner t x ∧ ∀ who k y,
        (τ.subscribe t x who).subscribersAt k y =
          (if s.store.owner t x = k ∧ y = x then
            if who ∈ τ.subscribersAt k y then τ.subscribersAt k y else τ.subscribersAt k y ++ [who]
          else τ.subscribersAt k y) ∧
        (τ.unsubscribe t x who).subscribersAt k y =
          if s.store.owner t x = k ∧ y = x then (τ.subscribersAt k y).filter (· ≠ who) else τ.subscribersAt k y := by
  have hempty : Store.Tidy {} := fun k level hk => by simp [Store.level?] at hk
  have hmem (who : Subscriber) : who ∈ s.store.subscribersAt (s.store.owner scope root) root ↔
      ∃ t, Store.Subscribed (s.store.owner · root) cs who t root ∧ s.store.owner t root = s.store.owner scope root :=
    hcs.mem_subscribersAt_iff fun _ _ => rfl
  have hnodup : (s.store.subscribersAt (s.store.owner scope root) root).Nodup :=
    hcs.nodup_subscribersAt hempty (by simp [Store.subscribersAt, Store.level?])
  refine ⟨setValue_records cascadeLimit [] scope path v, fun hreact => ?_, fun first told s' hrun hquiet => ?_,
    fun react' log s' hrun => ?_, fun cs' τ hτ t x ht => ?_⟩
  · have hblank : Path.segments path ≠ [] := by simp [hpath]
    obtain ⟨s', hsets, -⟩ := sets_of_onlyListen hblank scope v hreact
    exact ⟨s', hsets⟩
  · have hcovers := setValue_covers react cascadeLimit [] scope path v s _ s' hrun
    have howner := Store.owner_lt_size hscope root
    obtain ⟨told', heq, hexact⟩ := setValue_quiet react 999999 [] scope hpath v s _ s' hrun
    cases heq
    obtain ⟨htold, -⟩ := hexact hquiet
    have hvalue : s'.store.valueAt? (s.store.owner scope root) root =
        some (Round.starting s.store scope root rest v).value := by
      rw [valueAt?_of_spares hpath hrun howner (hquiet.spares _ _), Round.starting, Store.valueAt?_write howner]
      rfl
    have hlist : (Round.starting s.store scope root rest v).left =
        s.store.subscribersAt (s.store.owner scope root) root := Store.subscribersAt_write ..
    rw [hlist] at htold
    refine ⟨hcovers.events, ⟨_, hvalue, fun who t hsub hlevel => ?_⟩, fun who hnone => ?_, fun t ht hchanged => ?_⟩
    · rw [htold, toldTo_tellings _ _ _ _ hnodup, if_pos ((hmem who).2 ⟨t, hsub, hlevel⟩)]
    · have hnot : who ∉ s.store.subscribersAt (s.store.owner scope root) root := by
        intro hin
        obtain ⟨t, hsub, hlevel⟩ := (hmem who).1 hin
        exact hnone t hsub hlevel
      rw [htold, toldTo_tellings _ _ _ _ hnodup, if_neg hnot]
    · by_contra hlevel
      exact hchanged (Sets.lookup?_eq ⟨_, _, hrun, hquiet⟩ hpath ht hlevel)
  · exact setValue_grows react' cascadeLimit [] scope path v s log s' hrun
  · have hstays : τ.owner t x = s.store.owner t x := hτ.keepsScopes.owner_eq ht
    refine ⟨hstays, fun who k y => ⟨?_, ?_⟩⟩
    · rw [Store.subscribersAt_subscribe (hτ.keepsScopes.lt_size ht), hstays]
    · rw [Store.subscribersAt_unsubscribe (hτ.tidy (hcs.tidy hempty)), hstays]

/-- A fork that does not bind the variable, one that does, and subscribers through both and through the root. -/
def forkedHistory : List Store.Change :=
  [.root [("x", .nat 0)], .fork 0 "row" [], .fork 0 "own" [("x", .nat 7)],
    .subscribe 1 "x" (.listener "A"), .subscribe 2 "x" (.listener "B"),
    .subscribe 2 "x" (.listener "C"), .subscribe 0 "x" (.listener "C")]

def forkedState : State where store := forkedHistory.foldl Store.Change.apply {}

theorem forkedState_grows : Store.Grows {} forkedHistory forkedState.store := by
  refine Store.Grows.step (.step (.step (.step (.step (.step (.step .start ?_) ?_) ?_) ?_) ?_) ?_) ?_ <;>
    simp [Store.Change.On, Store.Change.apply, Store.addRoot, Store.fork]

theorem forkedState_owner : forkedState.store.owner 0 "x" = 0 ∧ forkedState.store.owner 1 "x" = 0 ∧
    forkedState.store.owner 2 "x" = 2 := by
  refine ⟨?_, ?_, ?_⟩ <;> cbv

/-- Whoever is subscribed through the root or the first fork is told, and whoever is through the second fork alone is not. -/
theorem set_tells_visible_forked : ∃ told : Chronicle, ∃ s' value,
    Engine.set 1 "x" (.nat 5) forkedState = some ((), s') ∧ s'.events = (told.filterMap Entry.event?).reverse ∧
    s'.store.valueAt? 0 "x" = some value ∧ toldTo (.listener "A") told = [("x", value)] ∧
    toldTo (.listener "B") told = [] ∧ s'.store.owner 1 "x" = 0 := by
  have hscope : 1 < forkedState.store.levels.size := by
    simp [forkedState, forkedHistory, Store.Change.apply, Store.addRoot, Store.fork]
  have hpath : Path.segments "x" = ["x"] := by decide
  have hlisten : Reactions.OnlyListen .scripted forkedState.listeners :=
    Reactions.scripted_onlyListen fun _ h => absurd h List.not_mem_nil
  obtain ⟨howner₀, howner₁, howner₂⟩ := forkedState_owner
  obtain ⟨hrecords, hexists, htells, hcascade, hstays⟩ :=
    set_tells_visible .scripted forkedState_grows hscope hpath (.nat 5)
  obtain ⟨s', first, told, hrun, hquiet⟩ := hexists hlisten
  obtain ⟨hevents, ⟨value, hvalue, honce⟩, hnever, -⟩ := htells first told s' hrun hquiet
  have hA : Store.Subscribed (forkedState.store.owner · "x") forkedHistory (.listener "A") 1 "x" :=
    ⟨forkedHistory.take 3, forkedHistory.drop 4, rfl, by simp [forkedHistory]⟩
  have hB (t : Scope) (h : Store.Subscribed (forkedState.store.owner · "x") forkedHistory (.listener "B") t "x") :
      forkedState.store.owner t "x" ≠ forkedState.store.owner 1 "x" := by
    obtain ⟨before, after, heq, -⟩ := h
    have hmem : Store.Change.subscribe t "x" (.listener "B") ∈ forkedHistory := by simp [heq]
    have ht : t = 2 := by simpa [forkedHistory] using hmem
    rw [ht, howner₁, howner₂]
    decide
  obtain ⟨cs', hcs'⟩ := hcascade .scripted _ s' hrun
  rw [howner₁] at hvalue
  refine ⟨told, s', value, ?_, ?_, hvalue, honce _ 1 hA rfl, hnever _ hB, ?_⟩
  · rw [hrecords, hrun]
    rfl
  · rw [hevents]
    exact List.append_nil _
  · rw [(hstays cs' s'.store hcs' 1 "x" hscope).1, howner₁]

/-- One who is subscribed through a scope with another level is told all the same, if through one with this level too. -/
theorem set_tells_elsewhere : Store.Grows {} forkedHistory forkedState.store ∧
    Store.Subscribed (forkedState.store.owner · "x") forkedHistory (.listener "C") 2 "x" ∧
    forkedState.store.owner 2 "x" ≠ forkedState.store.owner 0 "x" ∧
    ∃ s', Engine.set 0 "x" (.nat 5) forkedState = some ((), s') ∧ .notify "C" "x" (.nat 5) ∈ s'.events := by
  obtain ⟨howner₀, -, howner₂⟩ := forkedState_owner
  have hrun : (setValue .scripted cascadeLimit [] 0 "x" (.nat 5) forkedState).map (fun r => r.2.events) =
      some [.notify "C" "x" (.nat 5), .notify "A" "x" (.nat 5)] := by cbv
  obtain ⟨⟨log, s'⟩, hset, hevents⟩ := Option.map_eq_some_iff.1 hrun
  refine ⟨forkedState_grows, ⟨forkedHistory.take 5, forkedHistory.drop 6, rfl, by simp [forkedHistory]⟩, ?_, s', ?_, ?_⟩
  · rw [howner₀, howner₂]
    decide
  · have hrecords : Engine.set 0 "x" (.nat 5) forkedState =
        (setValue .scripted cascadeLimit [] 0 "x" (.nat 5) forkedState).map fun r => ((), r.2) :=
      setValue_records cascadeLimit [] 0 "x" (.nat 5) forkedState
    rw [hrecords, hset]
    rfl
  · rw [hevents]
    exact List.mem_cons_self ..

end Chronicle
end LiveLayout
