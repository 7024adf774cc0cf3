import LiveLayout.Proofs.Fetching.Hooks
/-!
What the operations on a host keep of its fetch components: the books, the state of every request, and that each
component shows that state as long as nothing is queued for it.
-/
namespace LiveLayout

open Engine Lifecycle

namespace Lifecycle.Mounting

/-- The requests that are sent while a component is mounted. -/
def sent {F : Family State Component Node} (x : Mounting F) : List Request :=
  x.after.world.network.requests.drop x.before.world.network.requests.length

end Lifecycle.Mounting

/-- Only a fetch component has a record. It has rendered in the state in which its request is now, or is due to render
again. -/
structure Lifecycle.Resident.Current (host : Nat) (due : List Nat) (m : Machine State)
    (e : Resident State Component Node) : Prop where
  recorded : (m.world.record? ⟨host, e.id⟩).isSome = true → e.component.isFetch = true
  rendered : e.component.isFetch = true →
    e.id ∈ due ∨ e.before.world.fetchState ⟨host, e.id⟩ = m.world.fetchState ⟨host, e.id⟩

/-- The instances of a host's tree, whose requests are booked and shown. -/
structure Tended (host : Nat) (reply : State → Option Outcome) (es : List (Resident State Component Node))
    (due : List Nat) (m : Machine State) : Prop where
  has : m.Has host
  enrolled : Enrolled (Host.answering host reply) es m
  booked : Booked host (fun id => ∃ e ∈ es, e.id = id ∧ e.component.isFetch = true) m.lastId m.world
  current : ∀ e ∈ es, e.Current host due m

/-- No request of a component that has been mounted before changes its state, and those sent are the ones that just
these mounts send. -/
structure Serves (host : Nat) (reply : State → Option Outcome) (m m' : Machine State) : Prop where
  lastId : m.lastId ≤ m'.lastId
  states : ∀ id ≤ m.lastId, (m'.world.record? ⟨host, id⟩).map FetchRecord.state =
    (m.world.record? ⟨host, id⟩).map FetchRecord.state
  sends : ∃ mounts : List (Mounting (Host.answering host reply)), Mounts mounts m m' ∧
    m'.world.network.requests = m.world.network.requests ++ mounts.flatMap Mounting.sent

/-- The instances stay tended, whatever else is in the tree, and nothing queued gets lost. -/
structure Tends (host : Nat) (reply : State → Option Outcome) (a b : List (Resident State Component Node))
    (m m' : Machine State) : Prop where
  tended : ∀ rest due, Tended host reply (a ++ rest) due m → Tended host reply (b ++ rest) due m'
  serves : Serves host reply m m'
  queued : ∀ id ∈ m.queue, id ∈ m'.queue

namespace Host

variable {host : Nat} {reply : State → Option Outcome}

/-- Mounting a fetch component sends its own request, and mounting any other component sends none. -/
theorem mounting_sends (x : Mounting (answering host reply)) :
    (∀ f, x.component = .fetch f → ∃ own,
      f.Sends ⟨host, x.id⟩ ((x.before.state host).asked reply) own x.after.world ∧ x.sent = own.toList) ∧
    (x.component.isFetch = false → x.sent = []) := by
  obtain ⟨-, -, -, hother, hfetch⟩ := mount_call x.run
  constructor
  · intro f hf
    obtain ⟨own, hsends⟩ := hfetch f hf
    refine ⟨own, hsends, ?_⟩
    rw [Mounting.sent, hsends.requests]
    exact List.drop_left
  · intro hc
    rw [Mounting.sent, (hother hc).2]
    exact List.drop_length

theorem mounting_requests (x : Mounting (answering host reply)) :
    x.after.world.network.requests = x.before.world.network.requests ++ x.sent := by
  obtain ⟨-, -, -, hother, hfetch⟩ := mount_call x.run
  by_cases hc : x.component.isFetch = true
  · obtain ⟨f, hf⟩ := Component.isFetch_iff.1 hc
    obtain ⟨own, hsends, hsent⟩ := (mounting_sends x).1 f hf
    rw [hsent]
    exact hsends.requests
  · have hnone : x.component.isFetch = false := by simpa using hc
    rw [(mounting_sends x).2 hnone, (hother hnone).2, List.append_nil]

end Host

variable {host : Nat} {reply : State → Option Outcome} {m m' m'' : Machine State}
  {es fs : List (Resident State Component Node)} {e : Resident State Component Node} {due due' : List Nat}

namespace Serves

theorem trans (h : Serves host reply m m') (h' : Serves host reply m' m'') : Serves host reply m m'' := by
  refine ⟨Nat.le_trans h.lastId h'.lastId, fun id hid => ?_, ?_⟩
  · rw [h'.states id (Nat.le_trans hid h.lastId), h.states id hid]
  · obtain ⟨mounts, hmounts, hrequests⟩ := h.sends
    obtain ⟨mounts', hmounts', hrequests'⟩ := h'.sends
    refine ⟨mounts ++ mounts', hmounts.trans hmounts', ?_⟩
    rw [hrequests', hrequests, List.append_assoc, List.flatMap_append]

/-- The calls of hooks mount nothing. -/
theorem of_makes {calls : List (Nat × Call)} (hmakes : Makes calls m m') (hcalls : mountedIds calls = [])
    (hrequests : m'.world.network.requests = m.world.network.requests)
    (hstates : ∀ id, (m'.world.record? ⟨host, id⟩).map FetchRecord.state =
      (m.world.record? ⟨host, id⟩).map FetchRecord.state) : Serves host reply m m' :=
  ⟨Nat.le_of_eq hmakes.lastId.symm, fun id _ => hstates id, [], .of_makes hmakes hcalls,
    by rw [hrequests, List.flatMap_nil, List.append_nil]⟩

theorem of_unsent {calls : List (Nat × Call)} (hmakes : Makes calls m m') (hcalls : mountedIds calls = [])
    (hs : Unsent m.world m'.world) : Serves host reply m m' :=
  of_makes hmakes hcalls (by rw [hs.network]) fun id => by rw [(Apart.of_unsent hs).records id]

theorem refl (m : Machine State) : Serves host reply m m :=
  ⟨Nat.le_refl _, fun _ _ => rfl, [], .of_log rfl, (List.append_nil _).symm⟩

theorem fetchState_eq (h : Serves host reply m m') {id : Nat} (hid : id ≤ m.lastId) :
    m'.world.fetchState ⟨host, id⟩ = m.world.fetchState ⟨host, id⟩ :=
  congrArg (fun state => state.getD FetchState.pending) (h.states id hid)

theorem isSome_record? (h : Serves host reply m m') {id : Nat} (hid : id ≤ m.lastId) :
    (m'.world.record? ⟨host, id⟩).isSome = (m.world.record? ⟨host, id⟩).isSome := by
  have heq := congrArg Option.isSome (h.states id hid)
  simpa only [Option.isSome_map] using heq

end Serves

theorem Lifecycle.Resident.Current.congr (h : e.Current host due m)
    (hrecord : m'.world.record? ⟨host, e.id⟩ = m.world.record? ⟨host, e.id⟩) : e.Current host due m' := by
  have hstate : m'.world.fetchState ⟨host, e.id⟩ = m.world.fetchState ⟨host, e.id⟩ :=
    congrArg (fun r => (r.map FetchRecord.state).getD FetchState.pending) hrecord
  constructor
  · rw [hrecord]
    exact h.recorded
  · rw [hstate]
    exact h.rendered

/-- What is shown stays current while no request changes its state. -/
theorem Lifecycle.Resident.Current.serves (h : e.Current host due m) (hs : Serves host reply m m')
    (hid : e.id ≤ m.lastId) : e.Current host due m' := by
  constructor
  · rw [hs.isSome_record? hid]
    exact h.recorded
  · rw [hs.fetchState_eq hid]
    exact h.rendered

namespace Tended

theorem perm (h : Tended host reply es due m) (hp : es.Perm fs) : Tended host reply fs due m := by
  refine ⟨h.has, h.enrolled.perm hp, h.booked.congr fun id => ?_, fun e he => h.current e (hp.mem_iff.2 he)⟩
  simp only [hp.mem_iff]

theorem stays (h : Tended host reply es due m) (hs : Serves host reply m m') (he : e ∈ es) : e.Current host due m' :=
  (h.current e he).serves hs (h.enrolled.issued e he)

end Tended

namespace Host

variable {key : Option String} {c c₁ c₂ next : Component} {nodes : List Node} {depth renders : Nat}
  {m₁ m₂ : Machine State}

theorem mount_tends
    (hmount : ((answering host reply).mount key (m.lastId + 1) c).call (m.lastId + 1) (fun _ => .mount)
      { m with lastId := m.lastId + 1 } = some (c₁, m₁))
    (hrender : ((answering host reply).render depth none key (m.lastId + 1) c₁).call (m.lastId + 1)
      (fun _ => .render) m₁ = some ((c₂, nodes), m₂)) :
    c₂.Resembles c ∧ Tends host reply [] [⟨m.lastId + 1, c₂, nodes, m₁⟩] m m₂ := by
  let x : Mounting (answering host reply) :=
    ⟨m.lastId + 1, key, c, c₁, { m with lastId := m.lastId + 1 }, m₁, hmount⟩
  obtain ⟨hfetch, hresembles, hhas, hother, hsends⟩ := mount_call hmount
  obtain ⟨rfl, hunsent, hhas', -⟩ := render_call hrender
  have hmakes := Hook.call_makes hmount
  have hmakes' := Hook.call_makes hrender
  have hmounts : Serves host reply m m₁ := by
    refine ⟨?_, fun id hid => ?_, [x], ?_, ?_⟩
    · rw [hmakes.lastId]
      exact Nat.le_succ _
    · by_cases hc : c.isFetch = true
      · obtain ⟨f, hf⟩ := Component.isFetch_iff.1 hc
        obtain ⟨own, hsends⟩ := hsends f hf
        have hne : (⟨host, id⟩ : Instance) ≠ ⟨host, m.lastId + 1⟩ := by
          simp only [ne_eq, Instance.mk.injEq, true_and]
          omega
        rw [hsends.record, if_neg hne]
        rfl
      · rw [State.record?, (hother (by simpa using hc)).1]
        rfl
    · have hissue : Mounts ([] : List (Mounting (answering host reply))) m x.before := .of_log rfl
      exact hissue.trans (.single x)
    · rw [List.flatMap_singleton]
      exact mounting_requests x
  have hserves : Serves host reply m m₂ := hmounts.trans (.of_unsent hmakes' rfl hunsent)
  refine ⟨hresembles, fun rest due h => ?_, hserves, fun id hid => ?_⟩
  · rw [List.nil_append] at h
    have hlast : m₂.lastId = m.lastId + 1 := hmakes'.lastId.trans hmakes.lastId
    have hnew : m.lastId + 1 ∉ rest.map Resident.id := by
      intro hmem
      obtain ⟨e, he, hid⟩ := List.mem_map.1 hmem
      have := h.enrolled.issued e he
      omega
    refine ⟨hhas' (hhas h.has), ?_, ?_, List.forall_mem_cons.2 ⟨⟨fun hsome => ?_, fun _ => ?_⟩, fun e => h.stays hserves⟩⟩
    · have hlog : m.log = m.log ++ [] := (List.append_nil _).symm
      have hstart : Enrolled (answering host reply) rest { m with lastId := m.lastId + 1 } :=
        h.enrolled.after hlog (Nat.le_succ _) fun _ _ => List.not_mem_nil
      have hmounted := hstart.makes hmakes fun e _ hmem => by simp at hmem
      exact hmounted.render hnew (Nat.le_of_eq hmakes.lastId.symm) hrender
    · rw [hlast]
      refine Booked.apart ?_ (.of_unsent hunsent)
      have hasked : Apart host m.world ((x.before.state host).asked reply) := .of_network rfl rfl rfl
      by_cases hc : c.isFetch = true
      · obtain ⟨f, hf⟩ := Component.isFetch_iff.1 hc
        obtain ⟨own, hsends⟩ := hsends f hf
        refine ((h.booked.apart hasked).mount (Nat.lt_succ_self _) hsends).congr fun id => ?_
        simp [hfetch, hc, @eq_comm _ id]
      · obtain ⟨hfetches, hnetwork⟩ := hother (by simpa using hc)
        have hapart : Apart host m.world m₁.world :=
          .of_network hfetches (by rw [hnetwork]) (by rw [hnetwork])
        refine ((h.booked.apart hapart).later (Nat.le_succ _)).congr fun id => ?_
        simp [hfetch, hc]
    · -- No component had the number before, so that the record is its own.
      rw [hfetch]
      by_contra hc
      rw [(Apart.of_unsent hunsent).records, State.record?, (hother (by simpa using hc)).1] at hsome
      obtain ⟨r, hr⟩ := Option.isSome_iff_exists.1 hsome
      exact absurd (h.booked.issued _ r hr) (Nat.not_succ_le_self _)
    · exact .inr ((Apart.of_unsent hunsent).fetchState_eq _).symm
  · exact hmakes'.mem_queue (hmakes.mem_queue hid)

/-- An instance renders again, as what it is by then, and is not due any more. -/
theorem render_tended {calls : List (Nat × Call)} (hmakes : Makes calls m m₁) (hcalls : ∀ id, (id, .render) ∉ calls)
    (hunsent : Unsent m.world m₁.world) (hhas : m.Has host → m₁.Has host)
    (hfetch : c.isFetch = e.component.isFetch)
    (hrender : ((answering host reply).render depth (some renders) key e.id c).call e.id (fun _ => .render) m₁ =
      some ((c₂, nodes), m₂))
    (h : Tended host reply (e :: es) due' m) (hdue : ∀ id ∈ due', id ≠ e.id → id ∈ due) :
    Tended host reply (⟨e.id, c₂, nodes, m₁⟩ :: es) due m₂ := by
  obtain ⟨rfl, hunsent', hhas', -⟩ := render_call hrender
  have hmakes' := Hook.call_makes hrender
  have hapart : Apart host m.world m₂.world := (Apart.of_unsent hunsent).trans (.of_unsent hunsent')
  have hnew : e.id ∉ es.map Resident.id := (List.nodup_cons.1 h.enrolled.nodup).1
  have hissued : e.id ≤ m₁.lastId := by
    rw [hmakes.lastId]
    exact h.enrolled.issued e (List.mem_cons_self ..)
  refine ⟨hhas' (hhas h.has), ?_, ?_, List.forall_mem_cons.2 ⟨⟨fun hsome => ?_, fun _ => ?_⟩, fun x hx => ?_⟩⟩
  · exact (h.enrolled.tail.makes hmakes fun x _ => hcalls x.id).render hnew hissued hrender
  · rw [hmakes'.lastId, hmakes.lastId]
    refine (h.booked.apart hapart).congr fun id => ?_
    simp [hfetch]
  · rw [hfetch]
    rw [hapart.records] at hsome
    exact (h.current e (List.mem_cons_self ..)).recorded hsome
  · exact .inr ((Apart.of_unsent hunsent').fetchState_eq _).symm
  · obtain ⟨hrecorded, hrendered⟩ := h.current x (List.mem_cons_of_mem _ hx)
    refine ⟨?_, fun hxfetch => ?_⟩
    · rw [hapart.records]
      exact hrecorded
    · rw [hapart.fetchState_eq]
      refine (hrendered hxfetch).imp_left fun hid => hdue x.id hid fun heq => hnew ?_
      rw [← heq]
      exact List.mem_map_of_mem hx

theorem accept_tends
    (hreceive : ((answering host reply).receive e.id e.component next).call e.id (fun r => .receive r.toBool) m =
      some (.ok c, m₁))
    (hrender : ((answering host reply).render depth (some renders) key e.id c).call e.id (fun _ => .render) m₁ =
      some ((c₂, nodes), m₂)) :
    c₂.Resembles next ∧ Tends host reply [e] [⟨e.id, c₂, nodes, m₁⟩] m m₂ := by
  obtain ⟨hunsent, hhas, hfetch, hresembles⟩ := receive_call hreceive
  obtain ⟨rfl, hunsent', -⟩ := render_call hrender
  have hmakes := Hook.call_makes hreceive
  have hmakes' := Hook.call_makes hrender
  refine ⟨hresembles, fun rest due h => ?_, ?_, fun id hid => hmakes'.mem_queue (hmakes.mem_queue hid)⟩
  · exact render_tended hmakes (by simp) hunsent hhas hfetch hrender h fun id hid _ => hid
  · exact Serves.trans (.of_unsent hmakes rfl hunsent) (.of_unsent hmakes' rfl hunsent')

theorem refuse_tends {given : Component × Component}
    (hreceive : ((answering host reply).receive e.id e.component next).call e.id (fun r => .receive r.toBool) m =
      some (.error given, m₁)) :
    given = (e.component, next) ∧ Tends host reply [e] [e] m m₁ := by
  obtain ⟨hunsent, hhas, hgiven⟩ := receive_call hreceive
  have hmakes := Hook.call_makes hreceive
  have hserves : Serves host reply m m₁ := .of_unsent hmakes rfl hunsent
  refine ⟨hgiven, fun rest due h => ?_, hserves, fun _ => hmakes.mem_queue⟩
  refine ⟨hhas h.has, h.enrolled.makes hmakes fun x _ hmem => by simp at hmem, ?_, fun x => h.stays hserves⟩
  rw [hmakes.lastId]
  exact h.booked.apart (.of_unsent hunsent)

theorem unmount_tends
    (hunmount : ((answering host reply).unmount key e.id e.component).call e.id (fun _ => .unmount) m =
      some ((), m₁)) : Tends host reply [e] [] m m₁ := by
  obtain ⟨hhas, hnetwork, hother, hrecord⟩ := unmount_call hunmount
  have hmakes := Hook.call_makes hunmount
  have hserves : Serves host reply m m₁ := by
    refine .of_makes hmakes rfl (by rw [hnetwork]) fun id => ?_
    by_cases hc : e.component.isFetch = true
    · rw [hrecord hc]
      split
      · rw [‹(⟨host, id⟩ : Instance) = ⟨host, e.id⟩›, Option.map_map]
        rfl
      · rfl
    · rw [State.record?, hother (by simpa using hc)]
      rfl
  refine ⟨fun rest due h => ?_, hserves, fun _ => hmakes.mem_queue⟩
  have hid : e.id ∉ rest.map Resident.id := (List.nodup_cons.1 h.enrolled.nodup).1
  refine ⟨hhas h.has, h.enrolled.tail.makes hmakes fun x _ hmem => by simp at hmem, ?_,
    fun x hx => h.stays hserves (List.mem_cons_of_mem _ hx)⟩
  rw [hmakes.lastId]
  by_cases hc : e.component.isFetch = true
  · refine (h.booked.unmount hnetwork (hrecord hc)).congr fun id => ⟨fun ⟨x, hx, heq, hfetch⟩ => ?_, ?_⟩
    · refine ⟨?_, x, List.mem_cons_of_mem _ hx, heq, hfetch⟩
      rintro rfl
      exact hid (heq ▸ List.mem_map_of_mem hx)
    · rintro ⟨hne, x, hx, heq, hfetch⟩
      rcases List.mem_cons.1 hx with rfl | hx
      · exact absurd heq.symm hne
      · exact ⟨x, hx, heq, hfetch⟩
  · have hapart : Apart host m.world m₁.world :=
      .of_network (hother (by simpa using hc)) (by rw [hnetwork]) (by rw [hnetwork])
    refine (h.booked.apart hapart).congr fun id => ?_
    simp [hc]

end Host
end LiveLayout
