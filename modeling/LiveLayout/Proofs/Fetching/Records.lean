import LiveLayout.Proofs.Drawing.Parts
import LiveLayout.Proofs.Engine.Queues
/-!
Requests of fetch components and their records: what sending a request, answering it and unmounting its component
do, to that component and to no other.
-/
namespace LiveLayout

open Engine

namespace Engine

variable {α β : Type}

/-- From every state, the step gives a result. -/
def Total (x : Engine α) : Prop := ∀ s, ∃ a s', x s = some (a, s')

namespace Total

theorem pure (a : α) : Total (pure a) := fun s => ⟨a, s, rfl⟩

theorem bind {x : Engine α} {f : α → Engine β} (hx : Total x) (hf : ∀ a, Total (f a)) : Total (x >>= f) := by
  intro s
  obtain ⟨a, t, ha⟩ := hx s
  obtain ⟨b, s', hb⟩ := hf a t
  exact ⟨b, s', by rw [bind_run, ha]; exact hb⟩

theorem foldlM {f : β → α → Engine β} (hf : ∀ b a, Total (f b a)) (b : β) (xs : List α) : Total (xs.foldlM f b) := by
  induction xs generalizing b with
  | nil => exact pure b
  | cons a rest ih =>
    rw [List.foldlM_cons]
    exact (hf b a).bind ih

end Total
end Engine

/-- The record of the request of a component. -/
def State.record? (s : State) (i : Instance) : Option FetchRecord := s.fetches.find? (·.owner = i)

theorem State.fetchState_eq {s : State} {i : Instance} {r : FetchRecord} (h : s.record? i = some r) :
    s.fetchState i = r.state := by
  unfold State.record? at h
  rw [State.fetchState, h]
  rfl

theorem State.owner_of_record? {s : State} {i : Instance} {r : FetchRecord} (h : s.record? i = some r) :
    r.owner = i := by
  simpa using List.find?_some h

/-- The state of a request as soon as its brick is mounted, if this is the answer that requests get at once, `url` is
where the brick fetches from, and `own` is the request that it has sent. -/
def FetchState.first (answer : Option Outcome) (url : Option String) (own : Option Request) : FetchState :=
  match own, url with
  | some request, _ =>
    match answer with
    | some outcome => .ofOutcome request.toJson outcome
    | none => .pending
  | none, some _ => .failed Failure.unavailable.toJson
  | none, none => .failed (.object [("message", .string Notice.noUrlText)])

variable {s : State}

theorem find?_putFetch (r : FetchRecord) (records : List FetchRecord) (i : Instance) :
    (r :: records.filter (·.owner ≠ r.owner)).find? (·.owner = i) =
      if i = r.owner then some r else records.find? (·.owner = i) := by
  rw [List.find?_cons]
  by_cases hi : i = r.owner
  · simp [hi]
  · rw [decide_eq_false (Ne.symm hi), if_neg hi, List.find?_filter]
    refine congrArg (List.find? · records) (funext fun x => ?_)
    by_cases hx : x.owner = i
    · simp [hx, hi]
    · simp [hx]

/-! ### Answers -/

/-- The completion is answered: its component has the state that the answer leaves behind, and is invalidated. -/
structure Answers (s : State) (c : Completion) (r : FetchRecord) (outcome : Outcome) (s' : State) : Prop where
  record : ∀ i, s'.record? i =
    if i = c.owner then some { r with state := .ofOutcome c.request outcome } else s.record? i
  network : s'.network = s.network
  hosts : s'.hosts = s.hosts.map fun h =>
    if h.id = c.owner.host then { h with queue := h.queue ++ [c.owner.id] } else h

theorem complete_answers {c : Completion} {r : FetchRecord} (outcome : Outcome) (hr : s.record? c.owner = some r)
    (halive : r.alive = true) : ∃ s', complete c outcome s = some ((), s') ∧ Answers s c r outcome s' := by
  have hfound : fetchRecord? c.owner s = some (some r, s) := by
    change some (s.record? c.owner, s) = _
    rw [hr]
  have howner : r.owner = c.owner := State.owner_of_record? hr
  have answer (t : State) (hfetches : t.fetches = s.fetches) (hnetwork : t.network = s.network)
      (hhosts : t.hosts = s.hosts) : ∃ s', (do
        putFetch { r with state := .ofOutcome c.request outcome }
        invalidate c.owner : Engine Unit) t = some ((), s') ∧ Answers s c r outcome s' := by
    refine ⟨_, rfl, fun i => ?_, hnetwork, ?_⟩
    · refine (find?_putFetch { r with state := .ofOutcome c.request outcome } t.fetches i).trans ?_
      rw [hfetches, howner]
      rfl
    · rw [← hhosts]
  unfold complete
  rw [bind_run, hfound, Option.bind_some]
  dsimp only
  rw [if_pos halive]
  cases outcome with
  | ok response => exact answer s rfl rfl rfl
  | error f => exact answer { s with notices := .fetchFailed f :: s.notices } rfl rfl rfl

theorem complete_late {c : Completion} (outcome : Outcome)
    (h : ∀ r, s.record? c.owner = some r → r.alive = false) :
    ∃ s', complete c outcome s = some ((), s') ∧ Undisturbed s s' := by
  have hfound : fetchRecord? c.owner s = some (s.record? c.owner, s) := rfl
  unfold complete
  rw [bind_run, hfound, Option.bind_some]
  cases hr : s.record? c.owner with
  | none => exact ⟨_, rfl, rfl, rfl, rfl⟩
  | some r =>
    simp only [h r hr]
    exact ⟨_, rfl, rfl, rfl, rfl⟩

/-- The network without the completion that waits for a number. -/
def Network.without (n : Network) (number : Nat) : Network :=
  { n with waiting := n.waiting.filter (·.1 ≠ number) }

theorem deliver_some {number n : Nat} {c : Completion} (outcome : Outcome)
    (h : s.network.waiting.find? (·.1 = number) = some (n, c)) :
    deliver number outcome s = (complete c outcome { s with network := s.network.without number }).map
      fun r => (true, r.2) := by
  simp only [deliver, bind_run, get_run, Option.bind_some, h, modify_run, Network.without]
  cases complete c outcome _ <;> rfl

/-- No two completions wait for the same number, and all of them are of requests that have been sent. -/
structure Network.Numbered (n : Network) : Prop where
  nodup : (n.waiting.map (·.1)).Nodup
  sent : ∀ e ∈ n.waiting, e.1 < n.requests.length

theorem Network.Numbered.find?_waiting {n : Network} (h : n.Numbered) {number : Nat} {c : Completion}
    (hc : (number, c) ∈ n.waiting) : n.waiting.find? (·.1 = number) = some (number, c) := by
  have hnodup := h.nodup
  generalize n.waiting = waiting at hc hnodup
  induction waiting with
  | nil => cases hc
  | cons e rest ih =>
    rw [List.find?_cons]
    rcases List.mem_cons.1 hc with rfl | hc
    · simp
    · obtain ⟨hfirst, hrest⟩ := List.nodup_cons.1 hnodup
      have hmem : number ∈ rest.map (·.1) := List.mem_map.2 ⟨_, hc, rfl⟩
      have hne : e.1 ≠ number := by
        rintro rfl
        exact hfirst hmem
      rw [decide_eq_false hne]
      exact ih hc hrest

theorem Network.Numbered.without {n : Network} (h : n.Numbered) (number : Nat) : (n.without number).Numbered := by
  refine ⟨?_, fun e he => h.sent e (List.mem_filter.1 he).1⟩
  exact h.nodup.sublist (List.filter_sublist.map _)

/-! ### Sending -/

namespace Fetch

theorem bodyValue_total (scope : Scope) (raw : Json) : Total (bodyValue scope raw) := by
  unfold bodyValue
  split
  · exact .pure _
  · refine .bind (fun s => ⟨s, s, rfl⟩) fun s => ?_
    split
    · exact .pure _
    · exact fun s => ⟨_, _, rfl⟩

theorem body?_total (f : Fetch) : Total f.body? := by
  unfold body?
  split
  · exact .pure _
  · refine .bind (.foldlM (fun fields entry => ?_) _ _) fun _ => .pure _
    split
    · exact (bodyValue_total _ _).bind fun _ => .pure _
    · exact fun s => ⟨_, _, rfl⟩

/-- A component has a request just when it has a url to send it to. -/
theorem request?_run (f : Fetch) (s : State) : ∃ request s', f.request? s = some (request, s') ∧
    request.map Request.url = f.props.text? "url" ∧ Undisturbed s s' := by
  suffices h : ∃ request s', f.request? s = some (request, s') ∧ request.map Request.url = f.props.text? "url" by
    obtain ⟨request, s', hrun, hurl⟩ := h
    exact ⟨request, s', hrun, hurl, request?_always f s request s' hrun⟩
  unfold request?
  cases f.props.text? "url" with
  | none => exact ⟨none, s, rfl, rfl⟩
  | some url =>
    dsimp only
    by_cases hmutating : isMutating (asciiUpper ((f.props.text? "method").getD "GET")) = true
    · obtain ⟨body, s', hbody⟩ := f.body?_total s
      rw [if_pos hmutating]
      exact ⟨_, s', by rw [bind_run, hbody]; rfl, rfl⟩
    · rw [if_neg hmutating]
      exact ⟨_, s, rfl, rfl⟩

/-- What mounting a fetch component does. It sends its own request if it has a url and a transport, and that waits if
it is not answered at once. -/
structure Sends (f : Fetch) (here : Instance) (s : State) (own : Option Request) (s' : State) : Prop where
  sent : own.isSome = true ↔ (f.props.text? "url").isSome = true ∧ f.transport = true
  url : ∀ request, own = some request → f.props.text? "url" = some request.url
  requests : s'.network.requests = s.network.requests ++ own.toList
  record : ∀ i, s'.record? i =
    if i = here then some ⟨here, .first s.network.immediate (f.props.text? "url") own, true⟩ else s.record? i
  waiting : s'.network.waiting = s.network.waiting ++
    if s.network.immediate.isSome then []
    else own.toList.map fun request => (s.network.requests.length, ⟨here, request.toJson⟩)

theorem send_sends {self : Instance} (request : Request) (hs : s.record? self = some ⟨self, .pending, true⟩) :
    ∃ s', send request ⟨self, request.toJson⟩ s = some ((), s') ∧
      s'.network.requests = s.network.requests ++ [request] ∧
      (∀ i, s'.record? i = if i = self then
        some ⟨self, .first s.network.immediate (some request.url) (some request), true⟩ else s.record? i) ∧
      s'.network.waiting = s.network.waiting ++
        if s.network.immediate.isSome then [] else [(s.network.requests.length, ⟨self, request.toJson⟩)] := by
  cases himmediate : s.network.immediate with
  | none =>
    refine ⟨{ s with network := { s.network with
      requests := s.network.requests ++ [request]
      waiting := s.network.waiting ++ [(s.network.requests.length, ⟨self, request.toJson⟩)] } }, ?_, rfl, ?_, rfl⟩
    · simp [send, bind_run, himmediate]
    · intro i
      split
      · rw [‹i = self›]
        exact hs
      · rfl
  | some outcome =>
    let t : State := { s with network := { s.network with requests := s.network.requests ++ [request] } }
    obtain ⟨s', hrun, hanswers⟩ :=
      complete_answers (s := t) (c := ⟨self, request.toJson⟩) outcome hs rfl
    refine ⟨s', ?_, ?_, hanswers.record, ?_⟩
    · simpa [send, bind_run, himmediate, t] using hrun
    · rw [hanswers.network]
    · rw [hanswers.network]
      exact (List.append_nil _).symm

theorem mount_sends (f : Fetch) (self : Instance) (s : State) :
    ∃ own s', f.mount self s = some ((), s') ∧ f.Sends self s own s' := by
  let s₁ : State := { s with fetches := ⟨self, .pending, true⟩ :: s.fetches.filter (·.owner ≠ self) }
  have hs₁ (i : Instance) : s₁.record? i = if i = self then some ⟨self, .pending, true⟩ else s.record? i :=
    find?_putFetch ⟨self, .pending, true⟩ s.fetches i
  obtain ⟨request, s₂, hrequest, hurl, hs₂⟩ := f.request?_run s₁
  have hrecord (i : Instance) : s₂.record? i = s₁.record? i := by
    unfold State.record?
    rw [hs₂.fetches]
  have hnetwork : s₂.network = s.network := hs₂.network
  have hput : putFetch ⟨self, .pending, true⟩ s = some ((), s₁) := rfl
  -- Without a request, the component has failed for good.
  have fail (n : Notice) (error : Json) : ∃ s', (do log n; putFetch ⟨self, .failed error, true⟩ : Engine Unit) s₂ =
      some ((), s') ∧ s'.network = s.network ∧
        ∀ i, s'.record? i = if i = self then some ⟨self, .failed error, true⟩ else s.record? i := by
    refine ⟨_, rfl, hnetwork, fun i => ?_⟩
    refine (find?_putFetch ⟨self, .failed error, true⟩ s₂.fetches i).trans ?_
    by_cases hi : i = self
    · simp [hi]
    · have hother : s₂.record? i = s.record? i := by rw [hrecord, hs₁, if_neg hi]
      rw [if_neg hi, if_neg hi]
      exact hother
  simp only [Fetch.mount, bind_run, hput, hrequest, Option.bind_some]
  cases request with
  | none =>
    have hnone : f.props.text? "url" = none := hurl.symm
    obtain ⟨s', hrun, hn, hr⟩ := fail .fetchWithoutUrl (.object [("message", .string Notice.noUrlText)])
    refine ⟨none, s', hrun, ⟨by simp [hnone], nofun, by simp [hn], ?_, by simp [hn]⟩⟩
    rw [hnone]
    exact hr
  | some request =>
    have hsome : f.props.text? "url" = some request.url := hurl.symm
    cases htransport : f.transport with
    | false =>
      obtain ⟨s', hrun, hn, hr⟩ := fail (.fetchSkipped request.url) Failure.unavailable.toJson
      refine ⟨none, s', hrun, ⟨by simp [htransport], nofun, by simp [hn], ?_, by simp [hn]⟩⟩
      rw [hsome]
      exact hr
    | true =>
      let s₃ : State := { s₂ with notices := .fetching request.method request.url :: s₂.notices }
      have hself : s₃.record? self = some ⟨self, .pending, true⟩ := by
        refine (hrecord self).trans ?_
        rw [hs₁, if_pos rfl]
      obtain ⟨s', hrun, hrequests, hr, hwaiting⟩ := send_sends (s := s₃) request hself
      have hn₃ : s₃.network = s.network := hnetwork
      rw [hn₃] at hrequests hwaiting hr
      refine ⟨some request, s', hrun, ⟨by simp [hsome, htransport], ?_, hrequests, fun i => ?_, hwaiting⟩⟩
      · rintro _ ⟨⟩
        exact hsome
      · rw [hr, hsome]
        split
        · rfl
        · refine (hrecord i).trans ?_
          rw [hs₁, if_neg ‹_›]

/-- Unmounting a fetch component does no more than to keep later answers away from it. -/
theorem unmount_records (self : Instance) (s : State) : ∃ s', Fetch.unmount self s = some ((), s') ∧
    s'.network = s.network ∧ s'.hosts = s.hosts ∧ ∀ i, s'.record? i =
      if i = self then (s.record? self).map fun r => { r with alive := false } else s.record? i := by
  have hfound : fetchRecord? self s = some (s.record? self, s) := rfl
  unfold Fetch.unmount
  rw [bind_run, hfound, Option.bind_some]
  cases hr : s.record? self with
  | none =>
    refine ⟨s, rfl, rfl, rfl, fun i => ?_⟩
    split
    · rw [‹i = self›, hr]
      rfl
    · rfl
  | some r =>
    obtain rfl : r.owner = self := State.owner_of_record? hr
    exact ⟨_, rfl, rfl, rfl, find?_putFetch { r with alive := false } s.fetches⟩

end Fetch
end LiveLayout
