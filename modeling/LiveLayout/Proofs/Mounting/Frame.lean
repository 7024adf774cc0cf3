import LiveLayout.Proofs.Drawing.Parts
import LiveLayout.Proofs.Mounting.Ledger
/-!
What mounting, updating and unmounting leave alone: the values of variables, the settings, and the numbers
that have been given out.
-/
namespace LiveLayout

open Engine

def State.host? (s : State) (id : Nat) : Option HostRecord := s.hosts.find? (·.id = id)

/-- The record of a host later on: numbers grow, and what waits still waits if it is to. -/
structure HostRecord.Grows (waits : Prop) (r r' : HostRecord) : Prop where
  id : r'.id = r.id
  lastId : r.lastId ≤ r'.lastId
  queue : waits → ∀ q ∈ r.queue, q ∈ r'.queue

theorem HostRecord.Grows.refl (waits : Prop) (r : HostRecord) : r.Grows waits r :=
  ⟨rfl, Nat.le_refl _, fun _ _ h => h⟩

theorem HostRecord.Grows.trans {waits : Prop} {r r' r'' : HostRecord} (h : r.Grows waits r')
    (h' : r'.Grows waits r'') : r.Grows waits r'' :=
  ⟨h'.id.trans h.id, Nat.le_trans h.lastId h'.lastId, fun hw q hq => h'.queue hw q (h.queue hw q hq)⟩

/-- What the steps of mounted trees leave alone; what waits for some hosts still waits. -/
structure KeepsFor (waits : Nat → Prop) (s s' : State) : Prop where
  values : s.store.KeepsValues s'.store
  registry : s'.registry = s.registry
  interpreters : Interpreter.Keep s.interpreters s'.interpreters
  immediate : s'.network.immediate = s.network.immediate
  hosts : ∀ id r, s.host? id = some r → ∃ r', s'.host? id = some r' ∧ r.Grows (waits id) r'
  hostIds : s'.hosts.map (·.id) = s.hosts.map (·.id)
  hostCount : s'.hostCount = s.hostCount

/-- What the steps of a mounted tree leave alone. -/
abbrev Keeps : State → State → Prop := KeepsFor fun _ => True

namespace KeepsFor

variable {waits waits' : Nat → Prop} {s s' s'' : State}

theorem refl (s : State) : KeepsFor waits s s :=
  ⟨.refl _, rfl, .refl _, rfl, fun _ r h => ⟨r, h, .refl _ r⟩, rfl, rfl⟩

theorem trans (h : KeepsFor waits s s') (h' : KeepsFor waits s' s'') : KeepsFor waits s s'' := by
  refine ⟨h.values.trans h'.values, h'.registry.trans h.registry, h.interpreters.trans h'.interpreters,
    h'.immediate.trans h.immediate, fun id r hr => ?_, h'.hostIds.trans h.hostIds,
    h'.hostCount.trans h.hostCount⟩
  obtain ⟨r', hr', hg⟩ := h.hosts id r hr
  obtain ⟨r'', hr'', hg'⟩ := h'.hosts id r' hr'
  exact ⟨r'', hr'', hg.trans hg'⟩

theorem mono (h : KeepsFor waits s s') (hw : ∀ id, waits' id → waits id) : KeepsFor waits' s s' := by
  refine ⟨h.values, h.registry, h.interpreters, h.immediate, fun id r hr => ?_, h.hostIds, h.hostCount⟩
  obtain ⟨r', hr', hg⟩ := h.hosts id r hr
  exact ⟨r', hr', hg.id, hg.lastId, fun hid => hg.queue (hw id hid)⟩

theorem store (s : State) {τ : Store} (h : s.store.KeepsValues τ) :
    KeepsFor waits s { s with store := τ } :=
  ⟨h, rfl, .refl _, rfl, fun _ r hr => ⟨r, hr, .refl _ r⟩, rfl, rfl⟩

end KeepsFor

theorem Forked.keeps {s s' : State} (h : Forked s s') : Keeps s s' := by
  refine ⟨h.store.values, h.registry, h.interpreters, by rw [h.network], fun id r hr => ⟨r, ?_, .refl _ r⟩,
    by rw [h.hosts], by rw [h.rest]⟩
  rwa [State.host?, h.hosts]

theorem Quiet.keeps {s s' : State} (h : Quiet s s') : Keeps s s' := h.forked.keeps

/-- Changing a host's record changes what is found for that host alone. -/
theorem find?_map_host (hs : List HostRecord) (host : Nat) {f : HostRecord → HostRecord}
    (hf : ∀ r, (f r).id = r.id) (id : Nat) :
    (hs.map fun h => if h.id = host then f h else h).find? (·.id = id) =
      (hs.find? (·.id = id)).map fun h => if h.id = host then f h else h := by
  have hid : ∀ h : HostRecord, (if h.id = host then f h else h).id = h.id := by
    intro h
    split
    · exact hf h
    · rfl
  induction hs with
  | nil => rfl
  | cons h rest ih =>
    rw [List.map_cons, List.find?_cons, List.find?_cons]
    simp only [hid]
    split
    · rfl
    · exact ih

theorem host?_modifyHost (s : State) (host : Nat) {f : HostRecord → HostRecord}
    (hf : ∀ r, (f r).id = r.id) (id : Nat) :
    State.host? { s with hosts := s.hosts.map fun h => if h.id = host then f h else h } id =
      (s.host? id).map fun h => if h.id = host then f h else h :=
  find?_map_host s.hosts host hf id

theorem keeps_modifyHost (s : State) (host : Nat) {waits : Nat → Prop} {f : HostRecord → HostRecord}
    (hf : ∀ r, HostRecord.Grows (waits host) r (f r)) :
    KeepsFor waits s { s with hosts := s.hosts.map fun h => if h.id = host then f h else h } := by
  refine ⟨.refl _, rfl, .refl _, rfl, fun id r hr => ?_, ?_, rfl⟩
  · rw [host?_modifyHost s host fun r => (hf r).id, hr]
    refine ⟨_, rfl, ?_⟩
    have hid : r.id = id := by simpa using List.find?_some hr
    dsimp only
    split
    · obtain rfl := hid.symm.trans ‹r.id = host›
      exact hf r
    · exact .refl _ r
  · rw [List.map_map]
    refine List.map_congr_left fun r _ => ?_
    simp only [Function.comp]
    split
    · exact (hf r).id
    · rfl

theorem keeps_invalidate (i : Instance) (s : State) :
    ∃ s', invalidate i s = some ((), s') ∧ Keeps s s' ∧ s'.store = s.store :=
  ⟨_, rfl, keeps_modifyHost s i.host fun _ => ⟨rfl, Nat.le_refl _, fun _ _ hq => List.mem_append_left _ hq⟩,
    rfl⟩

/-! ### Instances -/

/-- Every instance has a number that its host has given out. -/
def Numbered (s : State) (is : List Instance) : Prop :=
  ∀ i ∈ is, ∃ r, s.host? i.host = some r ∧ i.id ≤ r.lastId

theorem Numbered.keep {waits : Nat → Prop} {s s' : State} {is : List Instance} (h : Numbered s is)
    (hk : KeepsFor waits s s') :
    Numbered s' is := by
  intro i hi
  obtain ⟨r, hr, hle⟩ := h i hi
  obtain ⟨r', hr', hg⟩ := hk.hosts _ r hr
  exact ⟨r', hr', Nat.le_trans hle hg.lastId⟩

/-- The next instance of a host is new. -/
theorem nextInstance_run {s : State} {host : Nat} {r : HostRecord} (hr : s.host? host = some r) :
    ∃ s', nextInstance host s = some (⟨host, r.lastId + 1⟩, s') ∧ Keeps s s' ∧ s'.store = s.store ∧
      Numbered s' [⟨host, r.lastId + 1⟩] ∧ s'.network = s.network := by
  have hid : r.id = host := by simpa using List.find?_some hr
  have hrecord := host?_modifyHost s host (f := fun h => { h with lastId := h.lastId + 1 }) (fun _ => rfl) host
  rw [hr, Option.map_some, if_pos hid] at hrecord
  refine ⟨_, ?_, keeps_modifyHost s host (f := fun h => { h with lastId := h.lastId + 1 })
    fun _ => ⟨rfl, Nat.le_succ _, fun _ _ h => h⟩, rfl, ?_, rfl⟩
  · simp only [nextInstance, modifyHost, bind_run, modify_run, Option.bind_some, Engine.host?, get_run]
    simp only [State.host?] at hrecord
    simp [hrecord]
  · intro i hi
    rw [List.mem_singleton.1 hi]
    exact ⟨_, hrecord, Nat.le_refl _⟩

theorem Numbered.fresh {s : State} {is : List Instance} (h : Numbered s is) {host : Nat}
    {r : HostRecord} (hr : s.host? host = some r) : (⟨host, r.lastId + 1⟩ : Instance) ∉ is := by
  intro hmem
  obtain ⟨r', hr', hle⟩ := h _ hmem
  cases hr.symm.trans hr'
  exact absurd hle (Nat.not_succ_le_self _)

end LiveLayout
