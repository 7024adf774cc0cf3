import LiveLayout.Proofs.Lifecycle.Runtime
import Mathlib.Data.List.Basic
import Mathlib.Data.List.Perm.Basic
/-!
The life of an instance, as the calls of its hooks in the order in which they are made, and the invariant of
a host: what is in the tree is alive, what has left it is gone for good, and whatever has been invalidated
since it was rendered waits.
-/
namespace LiveLayout.Lifecycle

/-- The calls of an instance in the tree. -/
inductive Showing : List Call → Prop
  | mounted : Showing [.mount, .render]
  | rendered {calls : List Call} (h : Showing calls) : Showing (calls ++ [.render])
  | received {calls : List Call} (h : Showing calls) :
    Showing (calls ++ [.receive true, .render])

/-- The calls of an instance that has left the tree. -/
inductive Gone : List Call → Prop
  | unmounted {calls : List Call} (h : Showing calls) : Gone (calls ++ [.unmount])
  | refused {calls : List Call} (h : Showing calls) :
    Gone (calls ++ [.receive false, .unmount])

theorem Showing.unmount_notMem {calls : List Call} (h : Showing calls) : Call.unmount ∉ calls := by
  induction h with
  | mounted => decide
  | rendered _ ih => simp [ih]
  | received _ ih => simp [ih]

theorem Gone.unmount_mem {calls : List Call} (h : Gone calls) : Call.unmount ∈ calls := by
  cases h <;> simp

theorem Showing.ne_nil {calls : List Call} (h : Showing calls) : calls ≠ [] := by
  cases h <;> simp

namespace Entry

@[simp] def call? : Entry → Option (Nat × Call)
  | .called id call => some (id, call)
  | _ => none

@[simp] def invalidated? : Entry → Option Nat
  | .invalidated id => some id
  | _ => none

end Entry

/-- The calls of one instance. -/
def callsOf (id : Nat) (calls : List (Nat × Call)) : List Call :=
  calls.filterMap fun (i, call) => if i = id then some call else none

@[simp] theorem callsOf_append (id : Nat) (calls calls' : List (Nat × Call)) :
    callsOf id (calls ++ calls') = callsOf id calls ++ callsOf id calls' := List.filterMap_append

@[simp] theorem callsOf_map_self (id : Nat) (calls : List Call) :
    callsOf id (calls.map (id, ·)) = calls := by
  induction calls with
  | nil => rfl
  | cons call rest ih => simp [callsOf]

theorem callsOf_map_of_ne {id i : Nat} (h : id ≠ i) (calls : List Call) :
    callsOf id (calls.map (i, ·)) = [] := by
  induction calls with
  | nil => rfl
  | cons call rest ih => simp [callsOf, Ne.symm h]

theorem mem_callsOf {id : Nat} {call : Call} {calls : List (Nat × Call)} :
    call ∈ callsOf id calls ↔ (id, call) ∈ calls := by
  simp [callsOf]

def history (id : Nat) (log : List Entry) : List Call := callsOf id (log.filterMap Entry.call?)

theorem mem_history {id : Nat} {call : Call} {log : List Entry} :
    call ∈ history id log ↔ .called id call ∈ log := by
  rw [history, mem_callsOf, List.mem_filterMap]
  constructor
  · rintro ⟨e, he, h⟩
    cases e with
    | called i c => simp_all
    | invalidated | gaveUp => cases h
  · intro h
    exact ⟨_, h, rfl⟩

theorem history_append (id : Nat) (log new : List Entry) :
    history id (log ++ new) = history id log ++ history id new := by
  simp only [history, List.filterMap_append, callsOf_append]

/-- The instance has been invalidated after its latest render began, and no flush has given up since. -/
def Stale (id : Nat) (log : List Entry) : Prop :=
  ∃ before after, log = before ++ .invalidated id :: after ∧
    .called id .render ∉ after ∧ .gaveUp ∉ after

theorem Stale.of_append {id : Nat} {log new : List Entry} (h : Stale id (log ++ new)) :
    .invalidated id ∈ new ∨
      Stale id log ∧ .called id .render ∉ new ∧ .gaveUp ∉ new := by
  obtain ⟨before, after, heq, hrender, hgave⟩ := h
  rcases List.append_eq_append_iff.1 heq with ⟨rest, -, hnew⟩ | ⟨rest, hlog, hrest⟩
  · left
    rw [hnew]
    simp
  · cases rest with
    | nil =>
      left
      have hnew : .invalidated id :: after = new := by simpa using hrest
      rw [← hnew]
      simp
    | cons e rest =>
      right
      obtain ⟨rfl, rfl⟩ : .invalidated id = e ∧ after = rest ++ new := by simpa using hrest
      simp only [List.mem_append, not_or] at hrender hgave
      exact ⟨⟨before, rest, hlog, hrender.1, hgave.1⟩, hrender.2, hgave.2⟩

variable {W α : Type} {m m' m'' : Machine W} {id : Nat} {live live' waiting waiting' : List Nat}
  {calls calls' : List (Nat × Call)}

/-- The calls have been made, and all that they invalidated has been queued. -/
structure Makes (calls : List (Nat × Call)) (m m' : Machine W) : Prop where
  log : ∃ new, m'.log = m.log ++ new ∧ new.filterMap Entry.call? = calls ∧
    m'.queue = m.queue ++ new.filterMap Entry.invalidated?
  lastId : m'.lastId = m.lastId

namespace Makes

theorem trans (h : Makes calls m m') (h' : Makes calls' m' m'') : Makes (calls ++ calls') m m'' := by
  obtain ⟨new, hlog, hcalls, hqueue⟩ := h.log
  obtain ⟨new', hlog', hcalls', hqueue'⟩ := h'.log
  refine ⟨⟨new ++ new', ?_, ?_, ?_⟩, h'.lastId.trans h.lastId⟩
  · rw [hlog', hlog, List.append_assoc]
  · rw [List.filterMap_append, hcalls, hcalls']
  · rw [hqueue', hqueue, List.filterMap_append, List.append_assoc]

theorem invalidate (m : Machine W) (world : W) (ids : List Nat) :
    Makes [] m { m with world, queue := m.queue ++ ids, log := m.log ++ ids.map .invalidated } := by
  refine ⟨⟨ids.map .invalidated, rfl, ?_, ?_⟩, rfl⟩
  · simp [Function.comp_def]
  · simp [Function.comp_def]

theorem mem_queue {id : Nat} (h : Makes calls m m') (hid : id ∈ m.queue) : id ∈ m'.queue := by
  obtain ⟨_, -, -, hqueue⟩ := h.log
  rw [hqueue]
  exact List.mem_append_left _ hid

theorem history (h : Makes calls m m') (id : Nat) :
    history id m'.log = history id m.log ++ callsOf id calls := by
  obtain ⟨new, hlog, rfl, -⟩ := h.log
  rw [hlog, history_append]
  rfl

end Makes

theorem Hook.call_makes {hook : Hook W α} {call : α → Call} {a : α}
    (h : hook.call id call m = some (a, m')) : Makes [(id, call a)] m m' := by
  obtain ⟨⟨b, world, ids⟩, -, heq⟩ := Option.map_eq_some_iff.1 h
  obtain ⟨rfl, rfl⟩ := Prod.mk.inj heq
  refine ⟨⟨.called id (call b) :: ids.map .invalidated, rfl, ?_, ?_⟩, rfl⟩
  · simp [Function.comp_def]
  · simp [List.filterMap_cons, Function.comp_def]

/-- The instances `live` are those in the tree; beside the queue, `waiting` is still to be rendered. -/
structure Sound (live waiting : List Nat) (m : Machine W) : Prop where
  nodup : live.Nodup
  issued : ∀ id ∈ live, id ≤ m.lastId
  showing : ∀ id ∈ live, Showing (history id m.log)
  gone : ∀ id ∉ live, history id m.log = [] ∨ id ≤ m.lastId ∧ Gone (history id m.log)
  queued : ∀ id ∈ live, Stale id m.log → id ∈ m.queue ∨ id ∈ waiting

namespace Sound

theorem new (world : W) : Sound [] [] ({ world } : Machine W) :=
  ⟨.nil, nofun, nofun, fun _ _ => .inl rfl, nofun⟩

theorem perm (h : Sound live waiting m) (hp : live.Perm live') : Sound live' waiting m := by
  have hmem (id : Nat) : id ∈ live' ↔ id ∈ live := hp.mem_iff.symm
  refine ⟨hp.nodup_iff.1 h.nodup, ?_, ?_, ?_, ?_⟩ <;> simp only [hmem]
  · exact h.issued
  · exact h.showing
  · exact h.gone
  · exact h.queued

theorem with_world (h : Sound live waiting m) (world : W) : Sound live waiting { m with world } :=
  ⟨h.nodup, h.issued, h.showing, h.gone, h.queued⟩

/-- What is not in the tree need not wait. -/
theorem pass (h : Sound live (id :: waiting) m) (hid : id ∉ live) : Sound live waiting m := by
  refine ⟨h.nodup, h.issued, h.showing, h.gone, fun i hi hstale => ?_⟩
  refine (h.queued i hi hstale).imp_right fun hmem => ?_
  exact (List.mem_cons.1 hmem).resolve_left fun heq => hid (heq ▸ hi)

/-- What was invalidated waits after the calls too, but what they rendered need not wait otherwise. -/
theorem queued_of_makes (h : Sound live waiting m) (hmakes : Makes calls m m')
    (hwaiting : ∀ id ∈ live, id ∈ waiting → id ∈ waiting' ∨ (id, .render) ∈ calls)
    (hid : id ∈ live ∨ (id, .render) ∈ calls) (hstale : Stale id m'.log) :
    id ∈ m'.queue ∨ id ∈ waiting' := by
  obtain ⟨new, hlog, rfl, hqueue⟩ := hmakes.log
  rw [hqueue, List.mem_append]
  rw [hlog] at hstale
  rcases hstale.of_append with hnew | ⟨hold, hrender, -⟩
  · exact .inl (.inr (List.mem_filterMap.2 ⟨_, hnew, rfl⟩))
  · have hnot : (id, Call.render) ∉ new.filterMap Entry.call? := by
      rw [← mem_callsOf]
      exact fun hmem => hrender (mem_history.1 hmem)
    have hlive : id ∈ live := hid.resolve_right hnot
    rcases h.queued id hlive hold with hq | hw
    · exact .inl (.inl hq)
    · exact .inr ((hwaiting id hlive hw).resolve_right hnot)

/-- An instance has been called and is still in the tree. -/
theorem stay (calls : List Call) (h : Sound (id :: live) waiting m) (hmakes : Makes (calls.map (id, ·)) m m')
    (hshow : ∀ {before}, Showing before → Showing (before ++ calls))
    (hwaiting : ∀ i ∈ waiting, i ∈ waiting' ∨ i = id ∧ .render ∈ calls) :
    Sound (id :: live) waiting' m' := by
  have hself : Showing (history id m'.log) := by
    rw [hmakes.history, callsOf_map_self]
    exact hshow (h.showing id (List.mem_cons_self ..))
  have hother {i : Nat} (hi : i ≠ id) : history i m'.log = history i m.log := by
    rw [hmakes.history, callsOf_map_of_ne hi, List.append_nil]
  refine ⟨h.nodup, ?_, ?_, ?_, fun i hi => ?_⟩
  · rw [hmakes.lastId]
    exact h.issued
  · intro i hi
    by_cases heq : i = id
    · rwa [heq]
    · rw [hother heq]
      exact h.showing i hi
  · intro i hi
    have hne : i ≠ id := fun heq => hi (heq ▸ List.mem_cons_self ..)
    rw [hother hne, hmakes.lastId]
    exact h.gone i hi
  · refine h.queued_of_makes hmakes (fun j _ hj => ?_) (.inl hi)
    refine (hwaiting j hj).imp_right ?_
    rintro ⟨rfl, hrender⟩
    exact List.mem_map_of_mem hrender

/-- An instance has been called for the last time. -/
theorem leave {calls : List Call} (h : Sound (id :: live) waiting m)
    (hmakes : Makes (calls.map (id, ·)) m m')
    (hgone : ∀ {before}, Showing before → Gone (before ++ calls)) : Sound live waiting m' := by
  obtain ⟨hid, hnodup⟩ := List.nodup_cons.1 h.nodup
  have hother {i : Nat} (hi : i ≠ id) : history i m'.log = history i m.log := by
    rw [hmakes.history, callsOf_map_of_ne hi, List.append_nil]
  refine ⟨hnodup, ?_, ?_, ?_, fun i hi => ?_⟩
  · intro i hi
    rw [hmakes.lastId]
    exact h.issued i (List.mem_cons_of_mem _ hi)
  · intro i hi
    rw [hother fun heq => hid (heq ▸ hi)]
    exact h.showing i (List.mem_cons_of_mem _ hi)
  · intro i hi
    rw [hmakes.lastId]
    by_cases heq : i = id
    · subst heq
      rw [hmakes.history, callsOf_map_self]
      exact .inr ⟨h.issued i (List.mem_cons_self ..), hgone (h.showing i (List.mem_cons_self ..))⟩
    · rw [hother heq]
      exact h.gone i (by simp [heq, hi])
  · exact h.queued_of_makes hmakes (fun _ _ => .inl) (.inl (List.mem_cons_of_mem _ hi))

/-- A new instance has been mounted and rendered. -/
theorem enter (h : Sound live waiting m)
    (hmakes : Makes ([.mount, .render].map (m.lastId + 1, ·)) { m with lastId := m.lastId + 1 } m') :
    Sound ((m.lastId + 1) :: live) waiting m' := by
  have hlast : m'.lastId = m.lastId + 1 := hmakes.lastId
  have hnew : m.lastId + 1 ∉ live := fun hmem => absurd (h.issued _ hmem) (Nat.not_succ_le_self _)
  have hblank : history (m.lastId + 1) m.log = [] :=
    (h.gone _ hnew).resolve_right fun hle => absurd hle.1 (Nat.not_succ_le_self _)
  have hother {i : Nat} (hi : i ≠ m.lastId + 1) : history i m'.log = history i m.log := by
    rw [hmakes.history, callsOf_map_of_ne hi, List.append_nil]
  have hraised : Sound live waiting { m with lastId := m.lastId + 1 } := by
    refine ⟨h.nodup, fun i hi => Nat.le_succ_of_le (h.issued i hi), h.showing, fun i hi => ?_, h.queued⟩
    exact (h.gone i hi).imp_right fun hgone => ⟨Nat.le_succ_of_le hgone.1, hgone.2⟩
  refine ⟨List.nodup_cons.2 ⟨hnew, h.nodup⟩, ?_, ?_, ?_, ?_⟩
  · intro i hi
    rw [hlast]
    rcases List.mem_cons.1 hi with rfl | hi
    · exact Nat.le_refl _
    · exact Nat.le_succ_of_le (h.issued i hi)
  · intro i hi
    rcases List.mem_cons.1 hi with rfl | hi
    · rw [hmakes.history, callsOf_map_self, hblank]
      exact .mounted
    · rw [hother fun heq => hnew (heq ▸ hi)]
      exact h.showing i hi
  · intro i hi
    obtain ⟨hne, hi⟩ := not_or.1 (List.mem_cons.not.1 hi)
    rw [hother hne, hlast]
    exact hraised.gone i hi
  · intro i hi
    refine hraised.queued_of_makes hmakes (fun _ _ => .inl) ?_
    rcases List.mem_cons.1 hi with rfl | hi
    · exact .inr (by simp)
    · exact .inl hi

/-- What happens around the tree leaves it sound. -/
theorem makes_nothing (h : Sound live waiting m) (hmakes : Makes [] m m') : Sound live waiting m' := by
  have hsame (i : Nat) : history i m'.log = history i m.log := by
    rw [hmakes.history]
    exact List.append_nil _
  refine ⟨h.nodup, ?_, ?_, ?_, fun i hi => ?_⟩
  · simpa only [hmakes.lastId] using h.issued
  · simpa only [hsame] using h.showing
  · simpa only [hsame, hmakes.lastId] using h.gone
  · exact h.queued_of_makes hmakes (fun _ _ => .inl) (.inl hi)

/-- What is not in the tree any more has been unmounted in the meantime. -/
theorem unmounted {new : List Entry} (h : Sound live waiting m) (h' : Sound live' waiting' m')
    (hlog : m'.log = m.log ++ new) (hid : id ∈ live) :
    id ∉ live' ↔ .called id .unmount ∈ new := by
  have hold : Call.unmount ∉ history id m.log := (h.showing id hid).unmount_notMem
  have hmem : .called id .unmount ∈ new ↔ Call.unmount ∈ history id m'.log := by
    rw [hlog, history_append, List.mem_append, ← mem_history]
    simp [hold]
  rw [hmem]
  constructor
  · intro hnot
    rcases h'.gone id hnot with hnil | ⟨-, hgone⟩
    · rw [hlog, history_append, List.append_eq_nil_iff] at hnil
      exact absurd hnil.1 (h.showing id hid).ne_nil
    · exact hgone.unmount_mem
  · intro hgone hlive
    exact (h'.showing id hlive).unmount_notMem hgone

end Sound
end LiveLayout.Lifecycle
