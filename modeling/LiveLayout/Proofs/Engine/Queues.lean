import LiveLayout.Host
import LiveLayout.Proofs.Engine.Calm
/-!
What handlers, answers to requests and hooks of components do to hosts, which is no more than to invalidate
components, and which of them leave requests alone.
-/
namespace LiveLayout

open Engine

/-- The hosts are the same but for some of the given instances that have been added to their queues. -/
def Invalidates (P : Instance → Prop) (s s' : State) : Prop :=
  ∃ added : Nat → List Nat, (∀ id, ∀ q ∈ added id, P ⟨id, q⟩) ∧
    s'.hosts = s.hosts.map fun r => { r with queue := r.queue ++ added r.id }

namespace Invalidates

variable {P : Instance → Prop} {s s' s'' : State}

theorem of_hosts (h : s'.hosts = s.hosts) : Invalidates P s s' := by
  refine ⟨fun _ => [], fun _ _ hq => absurd hq List.not_mem_nil, ?_⟩
  simp only [List.append_nil]
  rw [h]
  exact (List.map_id _).symm

theorem trans (h : Invalidates P s s') (h' : Invalidates P s' s'') : Invalidates P s s'' := by
  obtain ⟨added, hadded, hs⟩ := h
  obtain ⟨added', hadded', hs'⟩ := h'
  refine ⟨fun id => added id ++ added' id, fun id q hq => ?_, ?_⟩
  · exact (List.mem_append.1 hq).elim (hadded id q) (hadded' id q)
  · rw [hs', hs, List.map_map]
    refine List.map_congr_left fun r _ => ?_
    simp only [Function.comp, List.append_assoc]

instance : Lenient (Invalidates P) where
  of_undisturbed h := .of_hosts h.hosts
  trans h h' := h.trans h'

end Invalidates

/-- Requests and their answers are as they were. -/
structure Unsent (s s' : State) : Prop where
  fetches : s'.fetches = s.fetches
  network : s'.network = s.network

instance : Lenient Unsent where
  of_undisturbed h := ⟨h.fetches, h.network⟩
  trans h h' := ⟨h'.fetches.trans h.fetches, h'.network.trans h.network⟩

namespace Engine

variable {α : Type} {P : Instance → Prop}

/-- From every state the step only invalidates some of the given instances, if it gives a result at all. -/
abbrev Queues (P : Instance → Prop) (x : Engine α) : Prop := Always (Invalidates P) x

theorem Queues.invalidate {i : Instance} (hi : P i) : Queues P (invalidate i) := by
  refine fun s => .of_run rfl ⟨fun id => if id = i.host then [i.id] else [], fun id q hq => ?_, ?_⟩
  · dsimp only at hq
    split at hq
    · obtain rfl := List.mem_singleton.1 hq
      rw [‹id = i.host›]
      exact hi
    · cases hq
  · refine List.map_congr_left fun r _ => ?_
    by_cases hr : r.id = i.host
    · simp [hr]
    · simp [hr]

theorem invalidate_unsent (i : Instance) : Always Unsent (invalidate i) := .modify fun _ => ⟨rfl, rfl⟩

end Engine

variable {P : Instance → Prop} {R : State → State → Prop} [Mild R]

/-! ### Handlers -/

namespace Engine

variable {write : Writer}

theorem perform_always (hwrite : ∀ scope path value, Always R (write scope path value)) (args : List Json) (a : Action) :
    Always R (perform write args a) := by
  unfold perform
  split
  · refine .bind .get fun s => ?_
    split
    · exact .pure _
    · split
      · exact hwrite _ _ _
      · exact hwrite _ _ _
      · exact .modifyStore _
      · exact .modifyStore _
  · exact .pure _

variable (hinvalidate : ∀ i, Always R (invalidate i))

include hinvalidate

theorem setValue_always (depth : Nat) (scope : Scope) (path : String) (value : Json) :
    Always R (setValue depth scope path value) := by
  induction depth generalizing scope path value with
  | zero => exact .endless
  | succ depth ih =>
    have tell (root : String) (current : Json) (who : Subscriber) :
        Always R (notify (setValue depth) root current who) := by
      cases who with
      | proxy target key => exact .bind (.trace _) fun _ => hinvalidate target
      | listener who =>
        exact .bind (.emit rfl) fun _ => .bind .get fun _ => .forM (perform_always ih [current]) _
    unfold setValue
    split
    · exact .log _
    · exact .bind .get fun _ => .bind (.log _) fun _ => .bind (.modifyStore _) fun _ => .bind .get fun _ =>
        .forM (tell _ _) _

/-- A handler that is called invalidates what follows the variables that are written. -/
theorem call_always : (h : Handler) → (args : List Json) → Always R (call h args)
  | .user id actions, args =>
    .bind (.emit rfl) fun _ => .forM (perform_always (setValue_always hinvalidate cascadeLimit) args) actions
  | .field hook path scope user, args => by
    unfold call
    cases user with
    | none =>
      dsimp only
      split
      · exact (setValue_always hinvalidate cascadeLimit scope path _).bind fun _ => .pure _
      · exact .bind (.log _) fun _ => .pure _
    | some h =>
      dsimp only
      split
      · exact (setValue_always hinvalidate cascadeLimit scope path _).bind fun _ => call_always h args
      · exact .bind (.log _) fun _ => call_always h args
  | .container form scope user, args => .bind .get fun _ => call_always user _

end Engine

/-! ### Requests -/

namespace Fetch

section

variable (hput : ∀ r, Always R (putFetch r))

include hput

theorem complete_always {c : Completion} (hc : Always R (invalidate c.owner)) (outcome : Outcome) :
    Always R (complete c outcome) := by
  refine (fetchRecord?_always _).bind fun record => ?_
  split
  · split
    · split
      · exact (hput _).bind fun _ => hc
      · exact .bind (.log _) fun _ => (hput _).bind fun _ => hc
    · exact .log _
  · exact .log _

theorem unmount_always (self : Instance) : Always R (Fetch.unmount self) := by
  refine (fetchRecord?_always _).bind fun record => ?_
  split
  · exact hput _
  · exact .pure _

variable (hnetwork : ∀ f : State → Network, Always R (modify fun s => { s with network := f s }))

include hnetwork

theorem deliver_always (hall : ∀ i, Always R (invalidate i)) (number : Nat) (outcome : Outcome) :
    Always R (deliver number outcome) := by
  refine .bind .get fun s => ?_
  dsimp only
  split
  · exact .pure _
  · exact .bind (hnetwork _) fun _ => .bind (complete_always hput (hall _) outcome) fun _ => .pure _

theorem send_always (request : Request) {c : Completion} (hc : Always R (invalidate c.owner)) :
    Always R (send request c) := by
  refine .bind .get fun s => .bind (hnetwork _) fun _ => ?_
  split
  · exact complete_always hput hc _
  · exact hnetwork _

theorem mount_always (f : Fetch) {self : Instance} (hself : Always R (invalidate self)) : Always R (f.mount self) := by
  refine (hput _).bind fun _ => (request?_always f).bind fun request => ?_
  split
  · exact .bind (.log _) fun _ => hput _
  · split
    · exact .bind (.log _) fun _ => hput _
    · exact .bind (.log _) fun _ => send_always hput hnetwork _ hself

end

theorem putFetch_queues (r : FetchRecord) : Queues P (putFetch r) := .modify fun _ => .of_hosts rfl

theorem network_queues (f : State → Network) : Queues P (modify fun s => { s with network := f s }) :=
  .modify fun _ => .of_hosts rfl

theorem mount_queues (f : Fetch) {self : Instance} (hself : P self) : Queues P (f.mount self) :=
  f.mount_always putFetch_queues network_queues (Queues.invalidate hself)

end Fetch

/-! ### Hooks that may invalidate -/

namespace Probe

theorem render_always (p : Probe) {self : Instance} (hself : Always R (invalidate self)) : Always R (p.render self) := by
  refine .bind (.emit rfl) fun _ => .bind .get fun s => ?_
  have hcount (n : Nat) : Always R (modify fun s : State =>
      { s with probeRenders := Fields.set s.probeRenders p.name n }) :=
    .modify fun _ => Mild.of_aside (.of_events ⟨rfl, rfl, rfl⟩ rfl rfl)
  dsimp only
  split
  · exact .bind hself fun _ => hcount _
  · exact hcount _

theorem poke_always (hall : ∀ i, Always R (invalidate i)) (names : List String) : Always R (poke names) := by
  refine .forM (fun name => .bind .get fun s => ?_) names
  split
  · exact hall _
  · exact .pure _

end Probe

namespace Component

variable {self : Instance}

theorem mount_always (c : Component) (hfetch : ∀ f, c = .fetch f → Always R (f.mount self)) :
    Always R (c.mount self) := by
  cases c with
  | proxy p => exact (p.mount_always self).bind fun _ => .pure _
  | fetch f => exact (hfetch f rfl).bind fun _ => .pure _
  | probe p kids =>
    refine .bind (.emit rfl) fun _ => .bind ?_ fun _ => .pure _
    exact .modify fun _ => Mild.of_aside (.of_events ⟨rfl, rfl, rfl⟩ rfl rfl)
  | _ => exact .pure _

/-- Only a fetch component does anything to requests when it is mounted. -/
theorem mount_calm {c : Component} (hc : ∀ f, c ≠ .fetch f) : Calm (c.mount self) :=
  c.mount_always fun f h => absurd h (hc f)

theorem mount_queues (hself : P self) (c : Component) : Queues P (c.mount self) :=
  c.mount_always fun f _ => f.mount_queues hself

theorem render_always {R : State → State → Prop} [Lenient R] {render : Renderer}
    (hrender : ∀ i v scope, Calm (render i v scope)) (c : Component)
    (hself : ∀ p kids, c = .probe p kids → Always R (invalidate self)) : Always R (c.render render self) := by
  cases c with
  | proxy p => exact (p.node_calm hrender).always.bind fun _ => .pure _
  | conditional props => exact (Props.render_calm hrender _ _).always
  | forEach props => exact (ForEach.render_calm hrender _).always
  | slot props => exact (Slot.render_calm hrender _).always
  | fetch f => exact (f.render_calm hrender self).always
  | probe p kids => exact (p.render_always (hself p kids rfl)).bind fun _ => .pure _
  | plain kids => exact .bind (.emit rfl) fun _ => .pure _

theorem render_queues {render : Renderer} (hrender : ∀ i v scope, Calm (render i v scope)) (c : Component)
    (hself : ∀ p kids, c = .probe p kids → P self) : Queues P (c.render render self) :=
  render_always hrender c fun p kids hc => Queues.invalidate (hself p kids hc)

/-- A probe that is unmounted may invalidate any other. -/
theorem unmount_always (c : Component) (hfetch : ∀ f, c = .fetch f → Always R (Fetch.unmount self))
    (hprobe : ∀ p kids, c = .probe p kids → ∀ i, Always R (invalidate i)) : Always R (c.unmount self) := by
  cases c with
  | proxy p => exact p.unmount_always
  | fetch f => exact hfetch f rfl
  | probe p kids => exact .bind (.emit rfl) fun _ => Probe.poke_always (hprobe p kids rfl) _
  | _ => exact .pure _

theorem unmount_queues (self : Instance) (c : Component) (hc : ∀ p kids, c = .probe p kids → ∀ i, P i) :
    Queues P (c.unmount self) :=
  unmount_always c (fun _ _ => Fetch.unmount_always Fetch.putFetch_queues self) fun p kids h i =>
    Queues.invalidate (hc p kids h i)

end Component

namespace Mounted

variable {host : Nat}

mutual

theorem unmount_always (hunmount : ∀ (c : Component) self, Always R (c.unmount self)) :
    (m : Mounted) → Always R (m.unmount host)
  | .primitive _ => .pure ()
  | .element _ _ _ children => unmountAll_always hunmount children
  | .component _ _ c _ children =>
    .bind (.trace _) fun _ => (hunmount c _).bind fun _ => unmountAll_always hunmount children
  | .fragment _ children => unmountAll_always hunmount children

theorem unmountAll_always (hunmount : ∀ (c : Component) self, Always R (c.unmount self)) :
    (ms : List Mounted) → Always R (unmountAll host ms)
  | [] => .pure ()
  | m :: rest => (unmount_always hunmount m).bind fun _ => unmountAll_always hunmount rest

end

end Mounted
end LiveLayout
