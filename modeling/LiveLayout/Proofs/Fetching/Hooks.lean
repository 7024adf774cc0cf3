import LiveLayout.Proofs.Fetching.Books
import LiveLayout.Proofs.Lifecycle.Calls
import LiveLayout.Proofs.Lifecycle.Components
import LiveLayout.Proofs.Lifecycle.Courses
/-!
Hosts over a network that may answer each request at once, and what every call of a hook keeps: the books of the
fetch components in the tree, and that each of them shows what it rendered in the state of its request.
-/
namespace LiveLayout

open Engine Lifecycle

/-- The network answers the next request with the reply, if there is one. -/
def State.asked (reply : State → Option Outcome) (s : State) : State :=
  { s with network := { s.network with immediate := reply s } }

/-- The components of the engine in a host, over a network that decides for each request whether it replies at
once. -/
def Host.answering (host : Nat) (reply : State → Option Outcome) : Family State Component Node :=
  { Host.family host with
    mount := fun key id c => hook host do
      modify (State.asked reply)
      trace (.mounted c.name key)
      c.mount ⟨host, id⟩ }

namespace Lifecycle

variable {α : Type} {host id : Nat} {m m' : Machine State} {call : α → Call} {x : Engine α} {a : α}

theorem world_of_call (h : (hook host x).call id call m = some (a, m')) :
    x (m.state host) = some (a, m'.world) := by
  obtain ⟨_, hhook, heq⟩ := Option.map_eq_some_iff.1 h
  obtain ⟨_, hx, rfl⟩ := Option.map_eq_some_iff.1 hhook
  cases heq
  exact hx

theorem has_of_call (h : (hook host x).call id call m = some (a, m')) (hx : Queues (fun _ => True) x)
    (hm : m.Has host) : m'.Has host :=
  (Follows.state_of_invalidates hm (hx _ _ _ (world_of_call h)) []).2

end Lifecycle

namespace Host

variable {host id depth : Nat} {reply : State → Option Outcome} {m m' : Machine State} {key : Option String}
  {c c' : Component} {nodes : List Node} {renders : Option Nat}

/-- All that follows a component's own hook is a notice. -/
theorem noted_always (c : Component) (key : Option String) (renders : Option Nat) (nodes : List Node)
    {R : State → State → Prop} [Lenient R] : Always R (do
      match renders with
      | some renders => trace (.rerendered c.name key (renders + 1))
      | none => pure ()
      return (c, nodes) : Engine (Component × List Node)) := by
  cases renders with
  | none => exact .pure _
  | some renders => exact .bind (.trace _) fun _ => .pure _

theorem render_call (h : ((answering host reply).render depth renders key id c).call id (fun _ => .render) m =
    some ((c', nodes), m')) : c' = c ∧ Unsent m.world m'.world ∧ (m.Has host → m'.Has host) ∧
      ∃ t, c.render (Renderer.upTo depth) ⟨host, id⟩ (m.state host) = some (nodes, t) := by
  have hrun := world_of_call h
  have hcalm := Renderer.upTo_calm depth
  obtain ⟨⟨ns, t⟩, hrender, hafter⟩ := Option.bind_eq_some_iff.1 hrun
  have hunsent := c.render_always hcalm (fun _ _ _ => invalidate_unsent _) _ _ _ hrender
  have hresult : (c', nodes) = (c, ns) := by
    cases renders with
    | none =>
      cases hafter
      rfl
    | some renders =>
      obtain ⟨⟨_, u⟩, -, hlast⟩ := Option.bind_eq_some_iff.1 hafter
      cases hlast
      rfl
  cases hresult
  have hall : Unsent (m.state host) m'.world := Lenient.trans hunsent (noted_always c key renders nodes t _ _ hafter)
  refine ⟨rfl, ⟨hall.fetches, hall.network⟩, has_of_call h ?_, t, hrender⟩
  exact (c.render_queues hcalm fun _ _ _ => trivial).bind fun nodes => noted_always c key renders nodes

theorem mount_call (h : ((answering host reply).mount key id c).call id (fun _ => .mount) m = some (c', m')) :
    c'.isFetch = c.isFetch ∧ c'.Resembles c ∧ (m.Has host → m'.Has host) ∧
      (c.isFetch = false → m'.world.fetches = m.world.fetches ∧
        m'.world.network = { m.world.network with immediate := reply (m.state host) }) ∧
      ∀ f, c = .fetch f → ∃ own, f.Sends ⟨host, id⟩ ((m.state host).asked reply) own m'.world := by
  have hrun := world_of_call h
  obtain ⟨⟨_, t⟩, htrace, hmount⟩ := Option.bind_eq_some_iff.1 hrun
  have hquiet : Undisturbed ((m.state host).asked reply) t := Always.trace (.mounted c.name key) _ _ _ htrace
  obtain ⟨hfetch, hresembles⟩ := c.mount_resembles ⟨host, id⟩ t c' _ hmount
  refine ⟨hfetch, hresembles, has_of_call h ?_, fun hc => ?_, ?_⟩
  · exact .bind (.modify fun _ => .of_hosts rfl) fun _ => .bind (.trace _) fun _ => c.mount_queues trivial
  · have hcalm : Calm (c.mount ⟨host, id⟩) := Component.mount_calm (by rintro f rfl; cases hc)
    have hs := hcalm _ _ _ hmount
    exact ⟨hs.fetches.trans hquiet.fetches, hs.network.trans hquiet.network⟩
  · rintro f rfl
    obtain ⟨own, s', hsend, hsends⟩ := f.mount_sends ⟨host, id⟩ t
    have heq : (Component.fetch f).mount ⟨host, id⟩ t = some (.fetch f, s') := by
      simp only [Component.mount, bind_run, hsend, Option.bind_some]
      rfl
    cases hmount.symm.trans heq
    have hrecord (i : Instance) : t.record? i = ((m.state host).asked reply).record? i := by
      unfold State.record?
      rw [hquiet.fetches]
    refine ⟨own, hsends.sent, hsends.url, ?_, fun i => ?_, ?_⟩
    · rw [hsends.requests, hquiet.network]
    · rw [hsends.record, hquiet.network, hrecord]
    · rw [hsends.waiting, hquiet.network]

theorem receive_call {next : Component} {answer : Except (Component × Component) Component}
    (h : ((answering host reply).receive id c next).call id (fun r => .receive r.toBool) m = some (answer, m')) :
    Unsent m.world m'.world ∧ (m.Has host → m'.Has host) ∧
      match answer with
      | .ok c' => c'.isFetch = c.isFetch ∧ c'.Resembles next
      | .error given => given = (c, next) := by
  have hrun := world_of_call h
  obtain ⟨⟨r, t⟩, hreceive, hafter⟩ := Option.bind_eq_some_iff.1 hrun
  have hquiet := c.receive?_calm next _ _ _ hreceive
  have hresembles := c.receive?_resembles next _ r t hreceive
  have hhas : m.Has host → m'.Has host :=
    has_of_call h ((c.receive?_calm next).always.bind fun _ => .pure _)
  cases r with
  | none =>
    cases hafter
    exact ⟨⟨hquiet.fetches, hquiet.network⟩, hhas, rfl⟩
  | some c' =>
    cases hafter
    exact ⟨⟨hquiet.fetches, hquiet.network⟩, hhas, hresembles c' rfl⟩

theorem unmount_call (h : ((answering host reply).unmount key id c).call id (fun _ => .unmount) m = some ((), m')) :
    (m.Has host → m'.Has host) ∧ m'.world.network = m.world.network ∧
      (c.isFetch = false → m'.world.fetches = m.world.fetches) ∧
      (c.isFetch = true → ∀ i, m'.world.record? i = if i = ⟨host, id⟩ then
        (m.world.record? ⟨host, id⟩).map fun r => { r with alive := false } else m.world.record? i) := by
  have hrun := world_of_call h
  obtain ⟨⟨_, t⟩, htrace, hunmount⟩ := Option.bind_eq_some_iff.1 hrun
  have hquiet : Undisturbed (m.state host) t := Always.trace (.unmounted c.name key) _ _ _ htrace
  have hhas : m.Has host → m'.Has host :=
    has_of_call h (.bind (.trace _) fun _ => c.unmount_queues _ fun _ _ _ _ => trivial)
  by_cases hc : c.isFetch = true
  · obtain ⟨f, rfl⟩ := Component.isFetch_iff.1 hc
    obtain ⟨s', hleave, hnetwork, -, hrecord⟩ := Fetch.unmount_records ⟨host, id⟩ t
    cases hunmount.symm.trans hleave
    refine ⟨hhas, hnetwork.trans hquiet.network, nofun, fun _ i => ?_⟩
    have hsame (i : Instance) : t.record? i = m.world.record? i := by
      unfold State.record?
      rw [hquiet.fetches]
      rfl
    rw [hrecord, hsame, hsame]
  · have hunsent := Component.unmount_always (R := Unsent) c
      (fun f hf => absurd (Component.isFetch_iff.2 ⟨f, hf⟩) hc) (fun _ _ _ => invalidate_unsent) _ _ _ hunmount
    refine ⟨hhas, hunsent.network.trans hquiet.network, fun _ => hunsent.fetches.trans hquiet.fetches, fun h => ?_⟩
    exact absurd h hc

end Host
end LiveLayout
