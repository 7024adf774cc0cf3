import LiveLayout.Render.Component
/-!
A retained tree of nodes. New nodes are matched with mounted ones by key, or by position where they have
none, and by kind; what is matched is updated in place, and the rest is mounted or unmounted.
-/
namespace LiveLayout

open Engine

structure Host where
  id : Nat
  roots : List Mounted := []

namespace Reconcile

/-- The mounted nodes that are still there, at their old positions. -/
abbrev Slots := List (Option Mounted)

/-- The position of the mounted node that a new node at `index` takes over. -/
def position? (slots : Slots) (index : Nat) (n : Node) : Option Nat :=
  match n.key? with
  | some key => slots.findIdx? fun m => m.any fun m => m.key? == some key && m.sameKind n
  | none =>
    match slots[index]? with
    | some (some m) => if m.key?.isNone && m.sameKind n then some index else none
    | _ => none

/-- Each new node with the mounted node that it takes over, and what is left of the mounted ones. -/
def assign (slots : Slots) (index : Nat) : List Node → List (Option Mounted × Node) × List Mounted
  | [] => ([], slots.filterMap id)
  | n :: rest =>
    let taken := position? slots index n
    let old := taken.bind fun i => (slots[i]?).join
    let slots := match taken with
      | some i => slots.set i none
      | none => slots
    let (pairs, left) := assign slots (index + 1) rest
    ((old, n) :: pairs, left)

end Reconcile

namespace Mounted

mutual

/-- Unmounts a node; a component goes before what is in it. -/
def unmount (host : Nat) : Mounted → Engine Unit
  | .primitive _ => pure ()
  | .element _ _ _ children => unmountAll host children
  | .component id key c _ children => do
    trace (.unmounted c.name key)
    c.unmount ⟨host, id⟩
    unmountAll host children
  | .fragment _ children => unmountAll host children

def unmountAll (host : Nat) : List Mounted → Engine Unit
  | [] => pure ()
  | m :: rest => do
    m.unmount host
    unmountAll host rest

end

/-- Mounts a node, in a tree at most so deep. -/
def mount (host : Nat) : Nat → Node → Engine Mounted
  | 0, _ => endless
  | depth + 1, n =>
    match n with
    | .primitive v => return .primitive v
    | .element tag key props children =>
      return .element tag key props (← children.mapM (mount host depth))
    | .fragment key children => return .fragment key (← children.mapM (mount host depth))
    | .component key c => do
      let self ← nextInstance host
      trace (.mounted c.name key)
      let c ← c.mount self
      let nodes ← c.render (Renderer.upTo depth) self
      return .component self.id key c 1 (← nodes.mapM (mount host depth))

/-- Updates mounted nodes to new ones, given how one node is updated to another. -/
def reconcile (host depth : Nat) (update : Mounted → Node → Engine Mounted) (old : List Mounted)
    (new : List Node) : Engine (List Mounted) := do
  let (pairs, left) := Reconcile.assign (old.map some) 0 new
  let next ← pairs.mapM fun (m, n) =>
    match m with
    | some m => update m n
    | none => mount host depth n
  unmountAll host left
  return next

/-- Renders a component again and updates what is in it. -/
def rerender (host depth : Nat) (update : Mounted → Node → Engine Mounted) (id : Nat)
    (key : Option String) (c : Component) (renders : Nat) (children : List Mounted) :
    Engine Mounted := do
  let nodes ← c.render (Renderer.upTo depth) ⟨host, id⟩
  trace (.rerendered c.name key (renders + 1))
  return .component id key c (renders + 1) (← reconcile host depth update children nodes)

/-- Updates a mounted node to a new one, in a tree at most so deep. A component that refuses is
unmounted, and the new one mounted in its place. -/
def update (host : Nat) : Nat → Mounted → Node → Engine Mounted
  | 0, _, _ => endless
  | depth + 1, m, n =>
    match m, n with
    | .primitive _, .primitive v => return .primitive v
    | .element tag _ _ old, .element _ key props new =>
      return .element tag key props (← reconcile host depth (update host depth) old new)
    | .fragment _ old, .fragment key new =>
      return .fragment key (← reconcile host depth (update host depth) old new)
    | .component id key c renders children, .component newKey next => do
      match ← c.receive? next with
      | some c => rerender host depth (update host depth) id key c renders children
      | none =>
        unmount host (.component id key c renders children)
        mount host (depth + 1) (.component newKey next)
    | m, n => do
      unmount host m
      mount host (depth + 1) n

mutual

/-- The component with a number. -/
def find? (id : Nat) : Mounted → Option Mounted
  | .primitive _ => none
  | .element _ _ _ children => findAll? id children
  | .component i key c renders children =>
    if i = id then some (.component i key c renders children) else findAll? id children
  | .fragment _ children => findAll? id children

def findAll? (id : Nat) : List Mounted → Option Mounted
  | [] => none
  | m :: rest => (m.find? id).or (findAll? id rest)

end

mutual

/-- The tree with another node in the place of the component with a number. -/
def replace (id : Nat) (next : Mounted) : Mounted → Mounted
  | .primitive v => .primitive v
  | .element tag key props children => .element tag key props (replaceAll id next children)
  | .component i key c renders children =>
    if i = id then next else .component i key c renders (replaceAll id next children)
  | .fragment key children => .fragment key (replaceAll id next children)

def replaceAll (id : Nat) (next : Mounted) : List Mounted → List Mounted
  | [] => []
  | m :: rest => replace id next m :: replaceAll id next rest

end

end Mounted

namespace Host

/-- Trees and layouts may be this deep. -/
def depthLimit : Nat := 1000000

/-- How many rounds of a flush may invalidate components again. -/
def roundLimit : Nat := 64

def make : Engine Host := modifyGet fun s =>
  (⟨s.hostCount, []⟩,
    { s with hosts := ⟨s.hostCount, [], 0⟩ :: s.hosts, hostCount := s.hostCount + 1 })

/-- Updates the tree to new nodes. -/
def render (h : Host) (nodes : List Node) : Engine Host :=
  return { h with
    roots := ← Mounted.reconcile h.id depthLimit (Mounted.update h.id depthLimit) h.roots nodes }

def queue (h : Host) : Engine (List Nat) := return ((← host? h.id).map HostRecord.queue).getD []

def clearQueue (h : Host) : Engine Unit := modifyHost h.id fun r => { r with queue := [] }

def hasPending (h : Host) : Engine Bool := return !(← h.queue).isEmpty

/-- Renders the components again that are still mounted, and says how many those are. -/
def rerenderAll (h : Host) (count : Nat) : List Nat → Engine (Host × Nat)
  | [] => return (h, count)
  | id :: rest => do
    match Mounted.findAll? id h.roots with
    | some (.component _ key c renders children) =>
      let m ← Mounted.rerender h.id depthLimit (Mounted.update h.id depthLimit) id key c renders children
      rerenderAll { h with roots := Mounted.replaceAll id m h.roots } (count + 1) rest
    | _ =>
      trace (.notMounted id)
      rerenderAll h count rest

/-- Rounds of rendering until nothing is invalidated any more. -/
def flushRounds (h : Host) (count : Nat) : Nat → Engine (Host × Nat)
  | 0 => do
    let pending ← h.queue
    h.clearQueue
    if !pending.isEmpty then log (.endlessFlush roundLimit)
    return (h, count)
  | rounds + 1 => do
    let pending ← h.queue
    h.clearQueue
    if pending.isEmpty then return (h, count)
    let (h, count) ← h.rerenderAll count pending.eraseDups
    flushRounds h count rounds

/-- Renders every invalidated component again, and says how often that was done. -/
def flush (h : Host) : Engine (Host × Nat) := h.flushRounds 0 roundLimit

def clear (h : Host) : Engine Host := do
  Mounted.unmountAll h.id h.roots
  h.clearQueue
  return { h with roots := [] }

/-- Unmounts everything for good; what is invalidated later goes nowhere. -/
def drop (h : Host) : Engine Unit := do
  let _ ← h.clear
  modify fun s => { s with hosts := s.hosts.filter (·.id ≠ h.id) }

end Host
end LiveLayout
