import LiveLayout.Proofs.Lifecycle.Hosts
/-!
What happens to a host of the engine, and what holds of hosts at any time: the lives of their instances,
and that what has been invalidated is not forgotten.
-/
namespace LiveLayout

open Engine Lifecycle

/-- The engine has the host, with the queue and the last number. -/
structure State.At (host : Nat) (queue : List Nat) (lastId : Nat) (s : State) : Prop where
  has : ∃ r ∈ s.hosts, r.id = host
  record : ∀ r ∈ s.hosts, r.id = host → r.queue = queue ∧ r.lastId = lastId

namespace Lifecycle

variable {host lastId : Nat} {queue : List Nat} {s : State} {m : Machine State}

theorem state_of_at (h : s.At host queue lastId) (log : List Entry) :
    let m : Machine State := { world := s, queue, lastId, log }
    s = m.state host ∧ m.Has host := by
  intro m
  have hhosts : s.hosts = s.hosts.map fun r =>
      if r.id = host then { r with queue := m.queue, lastId := m.lastId } else r := by
    conv_lhs => rw [← List.map_id s.hosts]
    refine List.map_congr_left fun r hr => ?_
    split
    · obtain ⟨hqueue, hlast⟩ := h.record r hr ‹_›
      simp only [m, ← hqueue, ← hlast]
      rfl
    · rfl
  constructor
  · unfold Machine.state
    rw [← hhosts]
  · obtain ⟨r, hr, hid⟩ := h.has
    exact Option.isSome_iff_exists.1 (List.find?_isSome.2 ⟨r, hr, by simpa using hid⟩)

theorem at_of_state (h : (m.state host).At host queue lastId) : queue = m.queue ∧ lastId = m.lastId := by
  obtain ⟨r, hr, hid⟩ := h.has
  obtain ⟨hqueue, hlast⟩ := h.record r hr hid
  obtain ⟨r', -, rfl⟩ := List.mem_map.1 hr
  split at hqueue
  · rw [if_pos ‹_›] at hlast
    exact ⟨hqueue.symm, hlast.symm⟩
  · rw [if_neg ‹_›] at hid
    contradiction

end Lifecycle

namespace Host

/-- The roots of a host of the engine and the state, after any operations on the host between which anything
else has happened that added to its queue at most. -/
inductive Course (host : Nat) : List Mounted → State → Prop
  | new {s : State} (h : s.At host [] 0) : Course host [] s
  | render {roots : List Mounted} {s s' : State} {h' : Host} (h : Course host roots s) (nodes : List Node)
    (run : Host.render ⟨host, roots⟩ nodes s = some (h', s')) : Course host h'.roots s'
  | flush {roots : List Mounted} {s s' : State} {h' : Host} {count : Nat} (h : Course host roots s)
    (run : Host.flush ⟨host, roots⟩ s = some ((h', count), s')) : Course host h'.roots s'
  | clear {roots : List Mounted} {s s' : State} {h' : Host} (h : Course host roots s)
    (run : Host.clear ⟨host, roots⟩ s = some (h', s')) : Course host h'.roots s'
  | meanwhile {roots : List Mounted} {s s' : State} {queue added : List Nat} {lastId : Nat}
    (h : Course host roots s) (start : s.At host queue lastId) (done : s'.At host (queue ++ added) lastId) :
    Course host roots s'

variable {host : Nat} {roots : List Mounted} {s : State}

/-- A host of the engine goes through what the host of the family goes through. -/
theorem Course.exists_reached (h : Course host roots s) : ∃ m : Machine State,
    s = m.state host ∧ m.Has host ∧ (Host.family host).Reached (Mounted.trees roots) m := by
  induction h with
  | @new s h =>
    obtain ⟨hs, hm⟩ := state_of_at h []
    exact ⟨{ world := s }, hs, hm, .new s⟩
  | render _ nodes run ih =>
    obtain ⟨m, rfl, hm, hreached⟩ := ih
    obtain ⟨m', hrun, hs, hm'⟩ := (render_follows _ nodes).run hm run
    exact ⟨m', hs, hm', hreached.after _ hrun⟩
  | flush _ run ih =>
    obtain ⟨m, rfl, hm, hreached⟩ := ih
    obtain ⟨m', hrun, hs, hm'⟩ := (flush_follows _).run hm run
    exact ⟨m', hs, hm', hreached.after _ hrun⟩
  | clear _ run ih =>
    obtain ⟨m, rfl, hm, hreached⟩ := ih
    obtain ⟨m', hrun, hs, hm'⟩ := (clear_follows _).run hm run
    exact ⟨m', hs, hm', hreached.after _ hrun⟩
  | @meanwhile roots s s' queue added lastId _ start done ih =>
    obtain ⟨m, rfl, -, hreached⟩ := ih
    obtain ⟨rfl, rfl⟩ := at_of_state start
    obtain ⟨hs, hm⟩ := state_of_at done (m.log ++ added.map .invalidated)
    exact ⟨_, hs, hm, hreached.after (.meanwhile (fun _ => s') added) rfl⟩

end Host

namespace Lifecycle

/-- An engine with one host, in which nothing has happened. -/
def oneHost : State := { hosts := [⟨0, [], 0⟩], hostCount := 1 }

/-- A probe, which may refuse to become another, and invalidates itself in so many renders. -/
def probe (name : String) (refuse : Bool) (spin : Nat) : Node :=
  .component (some name) (.probe ⟨name, refuse, spin, []⟩ [])

/-- In every host, for components of any kind, each instance is mounted once and then rendered, rendered after
each time it accepts to become another, and unmounted once, when it leaves the tree; its number is never
another's. -/
theorem instances_live :
    (∀ (W C N : Type) (F : Family W C N) (roots : List (Tree C)) (m : Machine W),
      F.Reached roots m → F.Lives roots m) ∧
    ∀ (host : Nat) (roots : List Mounted) (s : State), Host.Course host roots s →
      ∃ m : Machine State, s = m.state host ∧ (Host.family host).Reached (Mounted.trees roots) m ∧
        (Host.family host).Lives (Mounted.trees roots) m := by
  constructor
  · intro W C N F roots m h
    exact h.lives
  · intro host roots s h
    obtain ⟨m, hs, -, hreached⟩ := h.exists_reached
    exact ⟨m, hs, hreached, hreached.lives⟩

theorem instances_live_refused : ∃ roots m, (Host.family 0).Reached roots m ∧
    Tree.idsAll roots = [2] ∧ Gone (history 1 m.log) := by
  have hrun : ((Host.family 0).performAll [] [.render [probe "A" true 0], .render [probe "A" false 0]]
      { world := oneHost }).any (fun r => Tree.idsAll r.1 = [2] ∧ .called 1 .unmount ∈ r.2.log) = true := by
    decide +kernel
  obtain ⟨⟨roots, m⟩, hrun, h⟩ := (Option.any_eq_true _ _).1 hrun
  obtain ⟨hids, hunmount⟩ := of_decide_eq_true h
  have hreached := (Family.Reached.new oneHost).performAll hrun
  have hlives := instances_live.1 State Component Node (Host.family 0) roots m hreached
  have hgone := hlives.gone 1 (by rw [hids]; decide)
  refine ⟨roots, m, hreached, hids, hgone.resolve_left fun hnil => ?_⟩
  have hmem := mem_history.2 hunmount
  rw [hnil] at hmem
  cases hmem

/-- In every host, for components of any kind, what is in the tree and has been invalidated since its latest
render began waits for a flush, unless one has given up since. -/
theorem invalidations_wait :
    (∀ (W C N : Type) (F : Family W C N) (roots : List (Tree C)) (m : Machine W),
      F.Reached roots m → F.Waits roots m) ∧
    ∀ (host : Nat) (roots : List Mounted) (s : State), Host.Course host roots s →
      ∃ m : Machine State, s = m.state host ∧ (Host.family host).Reached (Mounted.trees roots) m ∧
        (Host.family host).Waits (Mounted.trees roots) m ∧
        Host.queue ⟨host, roots⟩ s = some (m.queue, s) := by
  constructor
  · intro W C N F roots m h
    exact h.waits
  · intro host roots s h
    obtain ⟨m, rfl, hm, hreached⟩ := h.exists_reached
    exact ⟨m, rfl, hreached, hreached.waits, queue_state roots hm⟩

theorem invalidations_wait_once : ∃ roots m, (Host.family 0).Reached roots m ∧
    1 ∈ Tree.idsAll roots ∧ Stale 1 m.log ∧ 1 ∈ m.queue := by
  have hrun : ((Host.family 0).performAll [] [.render [probe "A" false 1]] { world := oneHost }).any
      (fun r => 1 ∈ Tree.idsAll r.1 ∧ r.2.log = [.called 1 .mount, .called 1 .render] ++ [.invalidated 1]) = true := by
    decide +kernel
  obtain ⟨⟨roots, m⟩, hrun, h⟩ := (Option.any_eq_true _ _).1 hrun
  obtain ⟨hid, hlog⟩ := of_decide_eq_true h
  have hreached := (Family.Reached.new oneHost).performAll hrun
  have hstale : Stale 1 m.log := ⟨_, [], hlog, List.not_mem_nil, List.not_mem_nil⟩
  have hwaits := invalidations_wait.1 State Component Node (Host.family 0) roots m hreached 1 hid hstale
  exact ⟨roots, m, hreached, hid, hstale, hwaits.1⟩

/-- A probe that invalidates itself in each of its first 65 renders, and so in the last round of the flush
too, is not queued after that. -/
theorem flush_forgets_spinning : ∃ roots m,
    (Host.family 0).performAll [] [.render [probe "A" false 65], .flush] { world := oneHost } = some (roots, m) ∧
      1 ∈ Tree.idsAll roots ∧
      (∃ before after, m.log = before ++ .invalidated 1 :: after ∧ .called 1 .render ∉ after) ∧
      1 ∉ m.queue := by
  have hrun : ((Host.family 0).performAll [] [.render [probe "A" false 65], .flush] { world := oneHost }).any
      (fun r => 1 ∈ Tree.idsAll r.1 ∧ r.2.log.drop 130 = [.invalidated 1, .gaveUp] ∧ r.2.queue = []) = true := by
    decide +kernel
  obtain ⟨⟨roots, m⟩, hrun, h⟩ := (Option.any_eq_true _ _).1 hrun
  obtain ⟨hid, hlog, hqueue⟩ := of_decide_eq_true h
  refine ⟨roots, m, hrun, hid, ⟨m.log.take 130, [.gaveUp], ?_, by decide⟩, ?_⟩
  · rw [← hlog, List.take_append_drop]
  · rw [hqueue]
    exact List.not_mem_nil

end Lifecycle
end LiveLayout
