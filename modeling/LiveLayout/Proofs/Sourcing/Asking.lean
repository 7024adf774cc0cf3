import LiveLayout.Proofs.Drawing.Stage
import LiveLayout.Proofs.Engine.Queues
import Mathlib.Data.List.Nodup
/-!
Asking sources for handlers. An interpreter keeps what its source answered, so it asks for each handler once.
-/
namespace LiveLayout

open Engine

/-- The handlers that sources have been asked for. -/
def lookups (events : List Event) : List String := events.filterMap Event.lookup?

/-- The interpreter has had an answer from its source. -/
def State.Knows (s : State) (id : String) (i : Nat) : Prop :=
  ∃ r, s.interpreters[i]? = some r ∧ r.source.isSome = true ∧ (Fields.get? r.bound id).isSome = true

/-- Sources have been asked by some of the given interpreters only: by each once for what it did not know and knows
now. -/
structure Asks (who : Nat → Prop) (s s' : State) : Prop where
  interpreters : Interpreter.Keep s.interpreters s'.interpreters
  knows : ∀ id i, s.Knows id i → s'.Knows id i
  asked : ∃ since, s'.events = since ++ s.events ∧ ∀ id, ∃ askers : List Nat, askers.Nodup ∧
    (∀ i, i ∈ askers ↔ ¬s.Knows id i ∧ s'.Knows id i) ∧ (∀ i ∈ askers, who i) ∧
    (lookups since).count id = askers.length

namespace Asks

variable {who who' : Nat → Prop} {s s' s'' : State}

/-- Nobody has asked for what has not been asked for. -/
theorem exists_nil {since : List Event} {id : String} (h : id ∉ lookups since)
    (hknows : ∀ i, s'.Knows id i → s.Knows id i) : ∃ askers : List Nat, askers.Nodup ∧
      (∀ i, i ∈ askers ↔ ¬s.Knows id i ∧ s'.Knows id i) ∧ (∀ i ∈ askers, who i) ∧
      (lookups since).count id = askers.length := by
  refine ⟨[], .nil, fun i => ⟨(fun hi => nomatch hi), fun hi => ?_⟩, (fun _ hi => nomatch hi), List.count_eq_zero.2 h⟩
  exact absurd (hknows i hi.2) hi.1

theorem of_unasked (hinterpreters : s'.interpreters = s.interpreters)
    (hevents : ∃ since, s'.events = since ++ s.events ∧ lookups since = []) : Asks who s s' := by
  obtain ⟨since, hevents, hnone⟩ := hevents
  have hknows (id : String) (i : Nat) : s'.Knows id i ↔ s.Knows id i := by
    unfold State.Knows
    rw [hinterpreters]
  refine ⟨?_, fun id i => (hknows id i).2, since, hevents, fun id => ?_⟩
  · rw [hinterpreters]
    exact .refl _
  · apply exists_nil
    · rw [hnone]
      exact List.not_mem_nil
    · exact fun i => (hknows id i).1

theorem of_same (hinterpreters : s'.interpreters = s.interpreters) (hevents : s'.events = s.events) :
    Asks who s s' := of_unasked hinterpreters ⟨[], hevents, rfl⟩

theorem refl (s : State) : Asks who s s := of_same rfl rfl

theorem mono (h : Asks who s s') (hwho : ∀ i, who i → who' i) : Asks who' s s' := by
  obtain ⟨since, hevents, hasked⟩ := h.asked
  refine ⟨h.interpreters, h.knows, since, hevents, fun id => ?_⟩
  obtain ⟨askers, hnodup, hmem, hgiven, hcount⟩ := hasked id
  exact ⟨askers, hnodup, hmem, fun i hi => hwho i (hgiven i hi), hcount⟩

/-- Who asks later did not know before, so nobody asks twice. -/
theorem trans (h : Asks who s s') (h' : Asks who s' s'') : Asks who s s'' := by
  obtain ⟨since, hevents, hasked⟩ := h.asked
  obtain ⟨later, hevents', hasked'⟩ := h'.asked
  refine ⟨h.interpreters.trans h'.interpreters, fun id i hi => h'.knows id i (h.knows id i hi), later ++ since, ?_,
    fun id => ?_⟩
  · rw [hevents', hevents, List.append_assoc]
  · obtain ⟨askers, hnodup, hmem, hgiven, hcount⟩ := hasked id
    obtain ⟨askers', hnodup', hmem', hgiven', hcount'⟩ := hasked' id
    refine ⟨askers' ++ askers, hnodup'.append hnodup fun i hi' hi => ?_, fun i => ?_, fun i hi => ?_, ?_⟩
    · exact ((hmem' i).1 hi').1 ((hmem i).1 hi).2
    · rw [List.mem_append, hmem', hmem]
      constructor
      · rintro (⟨hbetween, hafter⟩ | ⟨hbefore, hbetween⟩)
        · exact ⟨fun hbefore => hbetween (h.knows id i hbefore), hafter⟩
        · exact ⟨hbefore, h'.knows id i hbetween⟩
      · rintro ⟨hbefore, hafter⟩
        by_cases hbetween : s'.Knows id i
        · exact .inr ⟨hbefore, hbetween⟩
        · exact .inl ⟨hbetween, hafter⟩
    · exact (List.mem_append.1 hi).elim (hgiven' i) (hgiven i)
    · have happend : lookups (later ++ since) = lookups later ++ lookups since := List.filterMap_append ..
      rw [happend, List.count_append, hcount, hcount', List.length_append]

instance : Mild (Asks who) where
  of_aside h := of_unasked h.interpreters h.events
  trans h h' := h.trans h'

end Asks

/-! ### The source of an interpreter -/

/-- The interpreter asks this source, and has kept what it answered. -/
def State.Serves (s : State) (i : Nat) (source : Option HandlerSource) : Prop :=
  ∃ r, s.interpreters[i]? = some r ∧ r.source = source ∧ r.Faithful

theorem State.Serves.keep {s s' : State} {i : Nat} {source : Option HandlerSource} (h : s.Serves i source)
    (hkeep : Interpreter.Keep s.interpreters s'.interpreters) : s'.Serves i source := by
  obtain ⟨r, hr, hsource, hfaithful⟩ := h
  obtain ⟨r', hr', hlike⟩ := hkeep i r hr
  exact ⟨r', hr', hlike.source.trans hsource, hlike.faithful hfaithful⟩

namespace Renderer

variable {s : State} {i : Nat} {source : Option HandlerSource}

/-- After an interpreter has kept an answer for an id, it knows that id besides what it knew. -/
theorem knows_bind {r : Interpreter} (hr : s.interpreters[i]? = some r) {id : String} {found : Option Handler}
    (s' : State) (h : s'.interpreters = s.interpreters.modify i fun r =>
      { r with bound := Fields.set r.bound id found }) (other : String) (j : Nat) :
    s'.Knows other j ↔ s.Knows other j ∨ j = i ∧ other = id ∧ r.source.isSome = true := by
  unfold State.Knows
  rw [h, List.getElem?_modify]
  by_cases hj : j = i
  · subst hj
    rw [hr]
    by_cases ho : other = id
    · subst ho
      simp +contextual
    · simp [ho, Fields.get?_set_of_ne _ _ ho]
  · simp [hj, Ne.symm hj]

/-- What an interpreter gives for an id is what its source has for it, which it asks unless it knows. -/
theorem handler?_asks (id : String) (h : s.Serves i source) : Ensures (handler? i id) s fun found s' =>
    found = (source.bind (·.find? id)).map (Handler.user id) ∧ Asks (· = i) s s' := by
  obtain ⟨r, hr, rfl, hfaithful⟩ := h
  refine .bind_run (a := r) (t := s) (by simp [interpreter?, hr]) ?_
  cases hbound : Fields.get? r.bound id with
  | some known => exact .pure ⟨hfaithful id known hbound, .refl s⟩
  | none =>
    have hkeep {found : Option Handler} (hfound : found = (r.source.bind (·.find? id)).map (Handler.user id)) :
        Interpreter.Keep s.interpreters (s.interpreters.modify i fun r =>
          { r with bound := Fields.set r.bound id found }) := by
      refine Interpreter.keep_modify fun r' hr' => Interpreter.like_bind id ?_
      cases hr.symm.trans hr'
      exact hfound
    dsimp only
    cases hsource : r.source with
    | none =>
      let t : State := { s with interpreters := s.interpreters.modify i fun r =>
        { r with bound := Fields.set r.bound id none } }
      have hknows := knows_bind hr t rfl
      refine .bind_run (a := none) (t := s) rfl (.bind_run (modify_run _ s) (.pure ⟨rfl, ?_⟩))
      refine ⟨hkeep (by rw [hsource]; rfl), fun other j hj => (hknows other j).2 (.inl hj), [], rfl, fun other => ?_⟩
      refine Asks.exists_nil List.not_mem_nil fun j hj => ?_
      simpa [hsource] using (hknows other j).1 hj
    | some source =>
      let found := (source.find? id).map (Handler.user id)
      let t : State := { s with
        events := .lookup id :: s.events
        interpreters := s.interpreters.modify i fun r => { r with bound := Fields.set r.bound id found } }
      have hknows := knows_bind hr t rfl
      refine .bind_run (emit_run _ s) (.bind_run (pure_run found _) (.bind_run (modify_run _ _) (.pure ⟨rfl, ?_⟩)))
      refine ⟨hkeep (by rw [hsource]; rfl), fun other j hj => (hknows other j).2 (.inl hj), [.lookup id], rfl, ?_⟩
      intro other
      by_cases ho : other = id
      · subst ho
        refine ⟨[i], List.nodup_singleton i, fun j => ?_, fun j hj => List.mem_singleton.1 hj, ?_⟩
        · rw [List.mem_singleton, hknows other j, hsource]
          constructor
          · rintro rfl
            refine ⟨?_, .inr ⟨rfl, rfl, rfl⟩⟩
            rintro ⟨r', hr', -, hknown⟩
            cases hr.symm.trans hr'
            rw [hbound] at hknown
            cases hknown
          · rintro ⟨hbefore, hknown | ⟨hj, -⟩⟩
            · exact absurd hknown hbefore
            · exact hj
        · simp [lookups, Event.lookup?]
      · refine Asks.exists_nil (by simpa [lookups, Event.lookup?] using ho) fun j hj => ?_
        simpa [ho] using (hknows other j).1 hj

end Renderer

/-! ### Steps that ask for nothing -/

section

variable {who : Nat → Prop}

theorem Engine.modifyHost_asks (host : Nat) (f : HostRecord → HostRecord) : Always (Asks who) (modifyHost host f) :=
  .modify fun _ => .of_same rfl rfl

theorem Engine.invalidate_asks (i : Instance) : Always (Asks who) (invalidate i) := modifyHost_asks _ _

theorem Engine.nextInstance_asks (host : Nat) : Always (Asks who) (nextInstance host) :=
  (modifyHost_asks _ _).bind fun _ => .bind (.bind .get fun _ => .pure _) fun _ => .pure _

theorem Engine.putFetch_asks (r : FetchRecord) : Always (Asks who) (putFetch r) := .modify fun _ => .of_same rfl rfl

theorem Engine.network_asks (f : State → Network) : Always (Asks who) (modify fun s => { s with network := f s }) :=
  .modify fun _ => .of_same rfl rfl

theorem Engine.set_asks (scope : Scope) (path : String) (value : Json) : Always (Asks who) (set scope path value) :=
  setValue_always invalidate_asks cascadeLimit scope path value

theorem Engine.call_asks (h : Handler) (args : List Json) : Always (Asks who) (call h args) :=
  call_always invalidate_asks h args

theorem Engine.deliver_asks (number : Nat) (outcome : Outcome) : Always (Asks who) (deliver number outcome) :=
  Fetch.deliver_always putFetch_asks network_asks invalidate_asks number outcome

theorem Component.unmount_asks (c : Component) (self : Instance) : Always (Asks who) (c.unmount self) :=
  c.unmount_always (fun _ _ => Fetch.unmount_always putFetch_asks self) fun _ _ _ => invalidate_asks

theorem Mounted.unmount_asks (host : Nat) (m : Mounted) : Always (Asks who) (m.unmount host) :=
  m.unmount_always Component.unmount_asks

theorem Mounted.unmountAll_asks (host : Nat) (ms : List Mounted) : Always (Asks who) (unmountAll host ms) :=
  unmountAll_always Component.unmount_asks ms

end
end LiveLayout
