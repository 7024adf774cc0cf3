import LiveLayout.Proofs.Fetching.Tending
/-!
Operations on a host keep its fetch components tended, and after a flush each of them shows the state that its
request is in.
-/
namespace LiveLayout

open Engine Lifecycle

/-- From one machine to the other no hook is called, and nothing happens to the host's requests. -/
structure Idle (host : Nat) (m m' : Machine State) : Prop where
  log : ∃ new, m'.log = m.log ++ new ∧ new.filterMap Entry.call? = []
  lastId : m'.lastId = m.lastId
  has : m.Has host → m'.Has host
  apart : Apart host m.world m'.world

variable {host : Nat} {reply : State → Option Outcome} {m m' m₁ : Machine State} {due : List Nat}
  {es : List (Resident State Component Node)}

namespace Idle

theorem tended (h : Idle host m m') (hes : Tended host reply es due m) : Tended host reply es due m' := by
  obtain ⟨new, hlog, hnew⟩ := h.log
  refine ⟨h.has hes.has, hes.enrolled.after hlog (Nat.le_of_eq h.lastId.symm) fun e _ hmem => ?_, ?_,
    fun e he => (hes.current e he).congr (h.apart.records e.id)⟩
  · have hcall : (e.id, Call.render) ∈ new.filterMap Entry.call? := List.mem_filterMap.2 ⟨_, hmem, rfl⟩
    rw [hnew] at hcall
    cases hcall
  · rw [h.lastId]
    exact hes.booked.apart h.apart

theorem serves (h : Idle host m m') (hrequests : m'.world.network.requests = m.world.network.requests) :
    Serves host reply m m' := by
  obtain ⟨new, hlog, hnew⟩ := h.log
  refine ⟨Nat.le_of_eq h.lastId.symm, fun id _ => by rw [h.apart.records], [], .of_append hlog ?_, ?_⟩
  · rw [hnew]
    rfl
  · rw [hrequests, List.flatMap_nil, List.append_nil]

theorem takeQueue (m : Machine State) : Idle host m { m with queue := [] } :=
  ⟨⟨[], (List.append_nil _).symm, rfl⟩, rfl, fun h => h, .of_network rfl rfl rfl⟩

end Idle

namespace Host

variable {roots next : List (Lifecycle.Tree Component)} {count count' : Nat}

theorem noteMissing_idle (id : Nat) (m : Machine State) :
    Idle host m { m with world := (answering host reply).noteMissing id m.world } ∧
      ((answering host reply).noteMissing id m.world).network = m.world.network := by
  change Idle host m { m with world := if _ then _ else _ } ∧ (if _ then _ else _ : State).network = _
  split
  · exact ⟨⟨⟨[], (List.append_nil _).symm, rfl⟩, rfl, fun h => h, .of_network rfl rfl rfl⟩, rfl⟩
  · exact ⟨⟨⟨[], (List.append_nil _).symm, rfl⟩, rfl, fun h => h, .of_network rfl rfl rfl⟩, rfl⟩

end Host
end LiveLayout
