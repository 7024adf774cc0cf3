import LiveLayout.Proofs.Fetching.Records
/-!
The books of a host's fetch components: who has a record, whose request still waits for its answer, and that no
request is answered twice.
-/
namespace LiveLayout

open Engine

/-- The records of a host's fetch components, of which the live ones are in the tree, and the completions that wait
for them. -/
structure Booked (host : Nat) (live : Nat → Prop) (lastId : Nat) (s : State) : Prop where
  numbered : s.network.Numbered
  issued : ∀ id r, s.record? ⟨host, id⟩ = some r → id ≤ lastId
  alive : ∀ id, (∃ r, s.record? ⟨host, id⟩ = some r ∧ r.alive = true) ↔ live id
  pending : ∀ e ∈ s.network.waiting, e.2.owner.host = host →
    ∃ r, s.record? e.2.owner = some r ∧ r.state = .pending
  once : ∀ e ∈ s.network.waiting, ∀ e' ∈ s.network.waiting, e.2.owner.host = host →
    e'.2.owner = e.2.owner → e' = e

/-- Nothing has happened to the requests of the host's components, whatever else has. -/
structure Apart (host : Nat) (s s' : State) : Prop where
  numbered : s.network.Numbered → s'.network.Numbered
  records : ∀ id, s'.record? ⟨host, id⟩ = s.record? ⟨host, id⟩
  waiting : ∀ e : Nat × Completion, e.2.owner.host = host → (e ∈ s'.network.waiting ↔ e ∈ s.network.waiting)

variable {host id lastId : Nat} {live live' : Nat → Prop} {s s' s'' : State}

namespace Apart

theorem trans (h : Apart host s s') (h' : Apart host s' s'') : Apart host s s'' :=
  ⟨h'.numbered ∘ h.numbered, fun id => (h'.records id).trans (h.records id),
    fun e he => (h'.waiting e he).trans (h.waiting e he)⟩

theorem of_network (hfetches : s'.fetches = s.fetches) (hrequests : s'.network.requests = s.network.requests)
    (hwaiting : s'.network.waiting = s.network.waiting) : Apart host s s' := by
  refine ⟨fun h => ⟨?_, ?_⟩, fun id => ?_, fun e _ => ?_⟩
  · rw [hwaiting]
    exact h.nodup
  · rw [hwaiting, hrequests]
    exact h.sent
  · unfold State.record?
    rw [hfetches]
  · rw [hwaiting]

theorem of_unsent (h : Unsent s s') : Apart host s s' :=
  of_network h.fetches (by rw [h.network]) (by rw [h.network])

theorem record?_eq (h : Apart host s s') {i : Instance} (hi : i.host = host) : s'.record? i = s.record? i := by
  obtain ⟨_, id⟩ := i
  cases hi
  exact h.records id

theorem fetchState_eq (h : Apart host s s') (id : Nat) : s'.fetchState ⟨host, id⟩ = s.fetchState ⟨host, id⟩ :=
  congrArg (fun r => (r.map FetchRecord.state).getD .pending) (h.records id)

end Apart

namespace Booked

theorem congr (h : Booked host live lastId s) (hlive : ∀ id, live' id ↔ live id) : Booked host live' lastId s :=
  ⟨h.numbered, h.issued, fun id => (h.alive id).trans (hlive id).symm, h.pending, h.once⟩

theorem later {lastId' : Nat} (h : Booked host live lastId s) (hle : lastId ≤ lastId') :
    Booked host live lastId' s :=
  ⟨h.numbered, fun id r hr => Nat.le_trans (h.issued id r hr) hle, h.alive, h.pending, h.once⟩

theorem apart (h : Booked host live lastId s) (hs : Apart host s s') : Booked host live lastId s' := by
  refine ⟨hs.numbered h.numbered, fun id r => ?_, fun id => ?_, fun e he hhost => ?_, ?_⟩
  · rw [hs.records]
    exact h.issued id r
  · rw [hs.records]
    exact h.alive id
  · rw [hs.record?_eq hhost]
    exact h.pending e ((hs.waiting e hhost).1 he) hhost
  · intro e he e' he' hhost howner
    exact h.once e ((hs.waiting e hhost).1 he) e' ((hs.waiting e' (by rwa [howner])).1 he') hhost howner

/-- A fetch component is mounted. -/
theorem mount {f : Fetch} {own : Option Request} (h : Booked host live lastId s) (hid : lastId < id)
    (hsends : f.Sends ⟨host, id⟩ s own s') : Booked host (fun i => i = id ∨ live i) id s' := by
  have hother {i : Instance} (hi : i.host = host) {r : FetchRecord} (hr : s.record? i = some r) :
      i ≠ ⟨host, id⟩ ∧ s'.record? i = s.record? i := by
    have hne : i ≠ ⟨host, id⟩ := by
      rintro rfl
      exact absurd (h.issued id r hr) (Nat.not_le_of_lt hid)
    exact ⟨hne, by rw [hsends.record, if_neg hne]⟩
  -- What waits anew is of the component itself, and has the next number.
  have hnew {e : Nat × Completion} (he : e ∈ s'.network.waiting) : e ∈ s.network.waiting ∨
      ∃ request, own = some request ∧ s.network.immediate = none ∧
        e = (s.network.requests.length, ⟨⟨host, id⟩, request.toJson⟩) := by
    rw [hsends.waiting, List.mem_append] at he
    refine he.imp_right fun he => ?_
    cases himmediate : s.network.immediate with
    | some outcome => simp [himmediate] at he
    | none =>
      cases own with
      | none => simp at he
      | some request => exact ⟨request, rfl, rfl, by simpa [himmediate] using he⟩
  refine ⟨⟨?_, ?_⟩, fun i r hr => ?_, fun i => ?_, fun e he hhost => ?_, fun e he e' he' hhost howner => ?_⟩
  · rw [hsends.waiting]
    split
    · rw [List.append_nil]
      exact h.numbered.nodup
    · cases own with
      | none =>
        rw [Option.toList, List.map_nil, List.append_nil]
        exact h.numbered.nodup
      | some request =>
        rw [Option.toList, List.map_singleton, List.map_append, List.map_singleton]
        refine List.nodup_append.2 ⟨h.numbered.nodup, by simp, fun n hn k hk => ?_⟩
        obtain ⟨e, he, rfl⟩ := List.mem_map.1 hn
        rw [List.mem_singleton.1 hk]
        exact Nat.ne_of_lt (h.numbered.sent e he)
  · intro e he
    rw [hsends.requests, List.length_append]
    rcases hnew he with he | ⟨request, rfl, -, rfl⟩
    · exact Nat.lt_add_right _ (h.numbered.sent e he)
    · exact Nat.lt_succ_self _
  · rw [hsends.record] at hr
    split at hr
    · exact Nat.le_of_eq (Instance.mk.inj ‹_›).2
    · exact Nat.le_trans (h.issued i r hr) (Nat.le_of_lt hid)
  · rw [hsends.record]
    by_cases hi : i = id
    · simp [hi]
    · simp [hi, ← h.alive i]
  · rcases hnew he with he | ⟨request, rfl, himmediate, rfl⟩
    · obtain ⟨r, hr, hpending⟩ := h.pending e he hhost
      exact ⟨r, by rw [(hother hhost hr).2, hr], hpending⟩
    · refine ⟨_, by rw [hsends.record, if_pos rfl], ?_⟩
      rw [himmediate]
      rfl
  · rcases hnew he with he | ⟨request, rfl, -, rfl⟩ <;> rcases hnew he' with he' | ⟨request', heq, -, rfl⟩
    · exact h.once e he e' he' hhost howner
    · obtain ⟨r, hr, -⟩ := h.pending e he hhost
      exact absurd howner.symm (hother hhost hr).1
    · obtain ⟨r, hr, -⟩ := h.pending e' he' (by rw [howner])
      exact absurd howner (hother (by rw [howner]) hr).1
    · rw [Option.some.inj heq]

/-- A fetch component is unmounted. -/
theorem unmount (h : Booked host live lastId s) (hnetwork : s'.network = s.network)
    (hrecord : ∀ i, s'.record? i = if i = ⟨host, id⟩ then
      (s.record? ⟨host, id⟩).map fun r => { r with alive := false } else s.record? i) :
    Booked host (fun i => i ≠ id ∧ live i) lastId s' := by
  have hstate {i : Instance} {r : FetchRecord} (hr : s.record? i = some r) :
      ∃ r', s'.record? i = some r' ∧ r'.state = r.state := by
    rw [hrecord]
    by_cases hi : i = ⟨host, id⟩
    · refine ⟨{ r with alive := false }, ?_, rfl⟩
      rw [if_pos hi, ← hi, hr]
      rfl
    · exact ⟨r, by rw [if_neg hi, hr], rfl⟩
  refine ⟨by rw [hnetwork]; exact h.numbered, fun i r hr => ?_, fun i => ?_, fun e he hhost => ?_, ?_⟩
  · rw [hrecord] at hr
    by_cases hi : (⟨host, i⟩ : Instance) = ⟨host, id⟩
    · rw [if_pos hi] at hr
      obtain ⟨r', hr', -⟩ := Option.map_eq_some_iff.1 hr
      rw [(Instance.mk.inj hi).2]
      exact h.issued id r' hr'
    · rw [if_neg hi] at hr
      exact h.issued i r hr
  · rw [hrecord]
    by_cases hi : i = id
    · cases s.record? ⟨host, id⟩ <;> simp [hi]
    · simp [hi, ← h.alive i]
  · rw [hnetwork] at he
    obtain ⟨r, hr, hpending⟩ := h.pending e he hhost
    obtain ⟨r', hr', heq⟩ := hstate hr
    exact ⟨r', hr', heq.trans hpending⟩
  · rw [hnetwork]
    exact h.once

theorem without (h : Booked host live lastId s) (number : Nat) :
    Booked host live lastId { s with network := s.network.without number } := by
  have hsub {e : Nat × Completion} (he : e ∈ (s.network.without number).waiting) : e ∈ s.network.waiting :=
    (List.mem_filter.1 he).1
  exact ⟨h.numbered.without number, h.issued, h.alive, fun e he => h.pending e (hsub he),
    fun e he e' he' => h.once e (hsub he) e' (hsub he')⟩

/-- A completion is answered for which no other waits any more. -/
theorem answer {c : Completion} {r : FetchRecord} {outcome : Outcome} (h : Booked host live lastId s)
    (hr : s.record? c.owner = some r) (hlast : ∀ e ∈ s.network.waiting, e.2.owner.host = host → e.2.owner ≠ c.owner)
    (hs : Answers s c r outcome s') : Booked host live lastId s' := by
  have halive (i : Nat) : (∃ x, s'.record? ⟨host, i⟩ = some x ∧ x.alive = true) ↔
      ∃ x, s.record? ⟨host, i⟩ = some x ∧ x.alive = true := by
    rw [hs.record]
    by_cases hi : ⟨host, i⟩ = c.owner
    · simp [hi, hr]
    · rw [if_neg hi]
  refine ⟨by rw [hs.network]; exact h.numbered, fun i x hx => ?_, fun i => (halive i).trans (h.alive i), ?_, ?_⟩
  · by_cases hi : ⟨host, i⟩ = c.owner
    · exact h.issued i r (by rw [hi, hr])
    · rw [hs.record, if_neg hi] at hx
      exact h.issued i x hx
  · intro e he hhost
    rw [hs.network] at he
    rw [hs.record, if_neg (hlast e he hhost)]
    exact h.pending e he hhost
  · rw [hs.network]
    exact h.once

end Booked

/-! ### Deliveries -/

/-- What it does to deliver the answer to a completion that waits: whose component is unmounted gets nothing. -/
inductive Delivers (host : Nat) (live : Nat → Prop) (number : Nat) (c : Completion) (outcome : Outcome) (s s' : State) : Prop
  | late (owner : c.owner.host = host → ¬ live c.owner.id)
    (quiet : Undisturbed { s with network := s.network.without number } s')
  | answered {r : FetchRecord} (owner : c.owner.host = host → live c.owner.id ∧ r.state = .pending)
    (record : s.record? c.owner = some r)
    (answers : Answers { s with network := s.network.without number } c r outcome s')

theorem Booked.deliver (h : Booked host live lastId s) {number : Nat} {c : Completion}
    (hc : (number, c) ∈ s.network.waiting) (outcome : Outcome) : ∃ s',
      Engine.deliver number outcome s = some (true, s') ∧ Delivers host live number c outcome s s' := by
  let t : State := { s with network := s.network.without number }
  have hfind := h.numbered.find?_waiting hc
  rw [deliver_some outcome hfind]
  by_cases halive : ∃ r, s.record? c.owner = some r ∧ r.alive = true
  · obtain ⟨r, hr, halive⟩ := halive
    obtain ⟨s', hrun, hs'⟩ := complete_answers (s := t) outcome hr halive
    refine ⟨s', by rw [hrun]; rfl, .answered (fun hhost => ?_) hr hs'⟩
    obtain ⟨r', hr', hpending⟩ := h.pending _ hc hhost
    cases hr.symm.trans hr'
    obtain ⟨⟨_, id⟩, _⟩ := c
    cases hhost
    exact ⟨(h.alive id).1 ⟨r, hr, halive⟩, hpending⟩
  · have hlate : ∀ r, t.record? c.owner = some r → r.alive = false := by
      intro r hr
      cases hvalue : r.alive with
      | false => rfl
      | true => exact absurd ⟨r, hr, hvalue⟩ halive
    obtain ⟨s', hrun, hs'⟩ := complete_late (s := t) outcome hlate
    refine ⟨s', by rw [hrun]; rfl, .late (fun hhost hlive => halive ?_) hs'⟩
    obtain ⟨⟨_, id⟩, _⟩ := c
    cases hhost
    exact (h.alive id).2 hlive

end LiveLayout
