import LiveLayout.Proofs.Fetching.Rounds
/-!
Hosts of fetch components through operations, answers in any order and whatever else happens: each mount sends its
one request, whose answer changes its state once or comes too late, and after a flush that state is shown.
-/
namespace LiveLayout

open Engine Lifecycle

/-- The world has changed, and instances have been invalidated. -/
def Lifecycle.Machine.meanwhile (m : Machine State) (world : State) (ids : List Nat) : Machine State :=
  { m with world, queue := m.queue ++ ids, log := m.log ++ ids.map .invalidated }

/-- Nothing has been requested by a component of the host. -/
structure State.Unasked (host : Nat) (s : State) : Prop where
  numbered : s.network.Numbered
  records : ∀ id, s.record? ⟨host, id⟩ = none
  waiting : ∀ e ∈ s.network.waiting, e.2.owner.host ≠ host

/-- A request that has its answer keeps it. -/
def Persists (host : Nat) (m m' : Machine State) : Prop :=
  ∀ id r, m.world.record? ⟨host, id⟩ = some r →
    ∃ r', m'.world.record? ⟨host, id⟩ = some r' ∧ (r.state ≠ .pending → r'.state = r.state)

theorem Persists.refl {host : Nat} (m : Machine State) : Persists host m m := fun _ r hr => ⟨r, hr, fun _ => rfl⟩

theorem Persists.trans {host : Nat} {m m' m'' : Machine State} (h : Persists host m m') (h' : Persists host m' m'') :
    Persists host m m'' := by
  intro id r hr
  obtain ⟨r', hr', hstate⟩ := h id r hr
  obtain ⟨r'', hr'', hstate'⟩ := h' id r' hr'
  refine ⟨r'', hr'', fun hdone => ?_⟩
  have hsame := hstate hdone
  rw [← hsame] at hdone
  exact (hstate' hdone).trans hsame

/-- The nodes are what the component renders for the state of its request, in a fork that binds what the answer
brings. -/
def Fetch.Shows (f : Fetch) (state : FetchState) (s : State) (nodes : List Node) : Prop :=
  match f.props.rendering?, fork? f.props state with
  | some r, some (layout, bindings) => ∃ depth s',
    Renderer.kids (Renderer.upTo depth) r layout (some ("Fetch", bindings)) s = some (nodes, s')
  | _, _ => nodes = []

namespace Host

variable {host : Nat} {reply : State → Option Outcome} {m m' : Machine State}
  {roots next : List (Lifecycle.Tree Component)} {es : List (Resident State Component Node)}

/-- What happens to a host: an operation on it, an answer to a request, or anything that leaves the requests of its
components alone. -/
inductive Step (host : Nat) (reply : State → Option Outcome) :
    List (Lifecycle.Tree Component) × Machine State → List (Lifecycle.Tree Component) × Machine State → Prop
  | operate {roots next : List (Lifecycle.Tree Component)} {m m' : Machine State} {op : Family.Operation State Node}
    (own : ∀ change ids, op ≠ .meanwhile change ids)
    (run : (answering host reply).perform roots op m = some (next, m')) : Step host reply (roots, m) (next, m')
  | deliver {roots : List (Lifecycle.Tree Component)} {m : Machine State} {number : Nat} {outcome : Outcome}
    {found : Bool} {world : State} {ids : List Nat}
    (run : hook host (Engine.deliver number outcome) m = some (found, world, ids)) :
    Step host reply (roots, m) (roots, m.meanwhile world ids)
  | meanwhile {roots : List (Lifecycle.Tree Component)} {m : Machine State} {world : State} {ids : List Nat}
    (has : ∃ r, world.host? host = some r) (apart : Apart host m.world world) :
    Step host reply (roots, m) (roots, m.meanwhile world ids)

abbrev Later (host : Nat) (reply : State → Option Outcome) :=
  Relation.ReflTransGen (Step host reply)

/-- The host began without anything. -/
def Reaches (host : Nat) (reply : State → Option Outcome)
    (p : List (Lifecycle.Tree Component) × Machine State) : Prop :=
  ∃ m : Machine State, m.Has host ∧ m.lastId = 0 ∧ m.world.Unasked host ∧ Later host reply ([], m) p

theorem Reaches.step {p p' : List (Lifecycle.Tree Component) × Machine State} (h : Reaches host reply p)
    (hstep : Step host reply p p') : Reaches host reply p' := by
  obtain ⟨m, hm, hlast, hnone, hlater⟩ := h
  exact ⟨m, hm, hlast, hnone, hlater.tail hstep⟩

end Host
end LiveLayout
