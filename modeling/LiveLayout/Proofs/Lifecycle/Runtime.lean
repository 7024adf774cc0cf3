import LiveLayout.Host
/-!
A host for components of any kind. Their hooks may change the world as they like and invalidate whatever
they like; the runtime keeps the tree and the queue, and records every call of a hook.
-/
namespace LiveLayout.Lifecycle

/-- A call of one of a component's hooks. -/
inductive Call where
  | mount
  | render
  | receive (accepted : Bool)
  | unmount
  deriving DecidableEq, Repr

inductive Entry where
  | called (id : Nat) (call : Call)
  | invalidated (id : Nat)
  /-- A flush has reached its last round, and what waited then is dropped. -/
  | gaveUp
  deriving DecidableEq, Repr

structure Machine (W : Type) where
  world : W
  queue : List Nat := []
  lastId : Nat := 0
  /-- All that has happened, latest last. -/
  log : List Entry := []

/-- A hook gives its result, the world as it leaves it, and the instances that it invalidates. -/
abbrev Hook (W α : Type) := Machine W → Option (α × W × List Nat)

abbrev Run (W α : Type) := StateT (Machine W) Option α

inductive Shape (C N : Type) where
  | primitive (v : Json)
  | element (tag : String) (key : Option String) (props : Props) (children : List N)
  | component (key : Option String) (c : C)
  | fragment (key : Option String) (children : List N)

namespace Shape

variable {C N : Type}

def key? : Shape C N → Option String
  | .primitive _ => none
  | .element _ key _ _ => key
  | .component key _ => key
  | .fragment key _ => key

end Shape

/-- Components `C` in a world `W`, and the nodes `N` that they render. A hook knows the key and the number
of the instance. -/
structure Family (W C N : Type) where
  shape : N → Shape C N
  mount : Option String → Nat → C → Hook W C
  /-- Renders what may be so deep, for the first time or after so many renders. -/
  render (depth : Nat) (before : Option Nat) : Option String → Nat → C → Hook W (C × List N)
  /-- Accepts to become the second component, or refuses and gives back what is mounted instead. -/
  receive : Nat → C → C → Hook W (Except (C × C) C)
  unmount : Option String → Nat → C → Hook W Unit
  /-- Notes that an instance that was invalidated is not there. -/
  noteMissing : Nat → W → W
  /-- Notes that a flush gives up. -/
  noteEndless : W → W

inductive Tree (C : Type) where
  | primitive (v : Json)
  | element (tag : String) (key : Option String) (props : Props) (children : List (Tree C))
  | component (id : Nat) (key : Option String) (c : C) (renders : Nat) (children : List (Tree C))
  | fragment (key : Option String) (children : List (Tree C))

namespace Tree

variable {C N : Type}

def key? : Tree C → Option String
  | .primitive _ => none
  | .element _ key _ _ => key
  | .component _ key _ _ _ => key
  | .fragment key _ => key

def sameKind : Tree C → Shape C N → Bool
  | .primitive _, .primitive _ => true
  | .element tag _ _ _, .element tag' _ _ _ => tag == tag'
  | .component .., .component .. => true
  | .fragment .., .fragment .. => true
  | _, _ => false

mutual

/-- The instances in a tree. -/
def ids : Tree C → List Nat
  | .primitive _ => []
  | .element _ _ _ children => idsAll children
  | .component id _ _ _ children => id :: idsAll children
  | .fragment _ children => idsAll children

def idsAll : List (Tree C) → List Nat
  | [] => []
  | t :: rest => t.ids ++ idsAll rest

end

mutual

def find? (id : Nat) : Tree C → Option (Tree C)
  | .primitive _ => none
  | .element _ _ _ children => findAll? id children
  | .component i key c renders children =>
    if i = id then some (.component i key c renders children) else findAll? id children
  | .fragment _ children => findAll? id children

def findAll? (id : Nat) : List (Tree C) → Option (Tree C)
  | [] => none
  | t :: rest => (t.find? id).or (findAll? id rest)

end

mutual

def replace (id : Nat) (next : Tree C) : Tree C → Tree C
  | .primitive v => .primitive v
  | .element tag key props children => .element tag key props (replaceAll id next children)
  | .component i key c renders children =>
    if i = id then next else .component i key c renders (replaceAll id next children)
  | .fragment key children => .fragment key (replaceAll id next children)

def replaceAll (id : Nat) (next : Tree C) : List (Tree C) → List (Tree C)
  | [] => []
  | t :: rest => replace id next t :: replaceAll id next rest

end

end Tree

variable {W C N α : Type}

/-- Runs a hook of an instance and records the call and what it invalidates. -/
def Hook.call (id : Nat) (call : α → Call) (hook : Hook W α) : Run W α := fun m =>
  (hook m).map fun (a, world, ids) =>
    (a, { m with world, queue := m.queue ++ ids, log := m.log ++ .called id (call a) :: ids.map .invalidated })

def issue : Run W Nat := modifyGet fun m => (m.lastId + 1, { m with lastId := m.lastId + 1 })

def takeQueue : Run W (List Nat) := modifyGet fun m => (m.queue, { m with queue := [] })

namespace Family

variable (F : Family W C N)

/-! ### Trees -/

mutual

def unmountTree : Tree C → Run W Unit
  | .primitive _ => pure ()
  | .element _ _ _ children => unmountAll children
  | .component id key c _ children => do
    (F.unmount key id c).call id fun _ => .unmount
    unmountAll children
  | .fragment _ children => unmountAll children

def unmountAll : List (Tree C) → Run W Unit
  | [] => pure ()
  | t :: rest => do
    unmountTree t
    unmountAll rest

end

/-- Mounts a component, given how what it renders is mounted. -/
def mountComponent (depth : Nat) (mount : N → Run W (Tree C)) (key : Option String) (c : C) :
    Run W (Tree C) := do
  let id ← issue
  let c ← (F.mount key id c).call id fun _ => .mount
  let (c, nodes) ← (F.render depth none key id c).call id fun _ => .render
  return .component id key c 1 (← nodes.mapM mount)

/-- Mounts a node, in a tree at most so deep. -/
def mountTree : Nat → N → Run W (Tree C)
  | 0, _ => fun _ => none
  | depth + 1, n =>
    match F.shape n with
    | .primitive v => return .primitive v
    | .element tag key props children =>
      return .element tag key props (← children.mapM (mountTree depth))
    | .fragment key children => return .fragment key (← children.mapM (mountTree depth))
    | .component key c => F.mountComponent depth (mountTree depth) key c

/-- The position of the tree that a new node at `index` takes over. -/
def position? (slots : List (Option (Tree C))) (index : Nat) (n : N) : Option Nat :=
  match (F.shape n).key? with
  | some key => slots.findIdx? fun t => t.any fun t => t.key? == some key && t.sameKind (F.shape n)
  | none =>
    match slots[index]? with
    | some (some t) => if t.key?.isNone && t.sameKind (F.shape n) then some index else none
    | _ => none

/-- Each new node with the tree that it takes over, and what is left of the trees. -/
def assign (slots : List (Option (Tree C))) (index : Nat) :
    List N → List (Option (Tree C) × N) × List (Tree C)
  | [] => ([], slots.filterMap id)
  | n :: rest =>
    let taken := F.position? slots index n
    let old := taken.bind fun i => (slots[i]?).join
    let slots := match taken with
      | some i => slots.set i none
      | none => slots
    let (pairs, left) := assign slots (index + 1) rest
    ((old, n) :: pairs, left)

/-- Updates trees to new nodes, given how one tree is updated to another node. -/
def reconcile (depth : Nat) (update : Tree C → N → Run W (Tree C)) (old : List (Tree C))
    (new : List N) : Run W (List (Tree C)) := do
  let (pairs, left) := F.assign (old.map some) 0 new
  let next ← pairs.mapM fun (t, n) =>
    match t with
    | some t => update t n
    | none => F.mountTree depth n
  F.unmountAll left
  return next

/-- Renders an instance again and updates what is in it. -/
def rerender (depth : Nat) (update : Tree C → N → Run W (Tree C)) (id : Nat) (key : Option String)
    (c : C) (renders : Nat) (children : List (Tree C)) : Run W (Tree C) := do
  let (c, nodes) ← (F.render depth (some renders) key id c).call id fun _ => .render
  return .component id key c (renders + 1) (← F.reconcile depth update children nodes)

/-- Updates a tree to a new node. An instance that refuses is unmounted, and what it gives back mounted
in its place. -/
def update : Nat → Tree C → N → Run W (Tree C)
  | 0, _, _ => fun _ => none
  | depth + 1, t, n =>
    match t, F.shape n with
    | .primitive _, .primitive v => return .primitive v
    | .element tag _ _ old, .element _ key props new =>
      return .element tag key props (← F.reconcile depth (update depth) old new)
    | .fragment _ old, .fragment key new =>
      return .fragment key (← F.reconcile depth (update depth) old new)
    | .component id key c renders children, .component newKey next => do
      match ← (F.receive id c next).call id fun r => .receive r.toBool with
      | .ok c => F.rerender depth (update depth) id key c renders children
      | .error (c, next) =>
        F.unmountTree (.component id key c renders children)
        F.mountComponent depth (F.mountTree depth) newKey next
    | t, _ => do
      F.unmountTree t
      F.mountTree (depth + 1) n

/-! ### Hosts -/

/-- Renders the instances again that are still there, and says how many those are. -/
def rerenderAll (roots : List (Tree C)) (count : Nat) : List Nat → Run W (List (Tree C) × Nat)
  | [] => return (roots, count)
  | id :: rest => do
    match Tree.findAll? id roots with
    | some (.component _ key c renders children) =>
      let t ← F.rerender Host.depthLimit (F.update Host.depthLimit) id key c renders children
      rerenderAll (Tree.replaceAll id t roots) (count + 1) rest
    | _ =>
      modify fun m => { m with world := F.noteMissing id m.world }
      rerenderAll roots count rest

/-- Gives up with what waits, if anything does. -/
def giveUp (waiting : List Nat) : Run W Unit :=
  if waiting.isEmpty then pure ()
  else modify fun m => { m with world := F.noteEndless m.world, log := m.log ++ [.gaveUp] }

def flushRounds (roots : List (Tree C)) (count : Nat) : Nat → Run W (List (Tree C) × Nat)
  | 0 => do
    F.giveUp (← takeQueue)
    return (roots, count)
  | rounds + 1 => do
    let pending ← takeQueue
    if pending.isEmpty then return (roots, count)
    let (roots, count) ← F.rerenderAll roots count pending.eraseDups
    flushRounds roots count rounds

/-- What is done with a host, and what happens around it. -/
inductive Operation (W N : Type) where
  | render (nodes : List N)
  | flush
  /-- A round of a flush, which goes through such rounds. -/
  | round
  | clear
  /-- The world changes, and instances are invalidated from outside. -/
  | meanwhile (change : W → W) (ids : List Nat)

def perform (roots : List (Tree C)) : Operation W N → Run W (List (Tree C))
  | .render nodes => F.reconcile Host.depthLimit (F.update Host.depthLimit) roots nodes
  | .flush => return (← F.flushRounds roots 0 Host.roundLimit).1
  | .round => do
    let pending ← takeQueue
    return (← F.rerenderAll roots 0 pending.eraseDups).1
  | .clear => do
    F.unmountAll roots
    let _ ← takeQueue
    return []
  | .meanwhile change ids => do
    modify fun m => { m with
      world := change m.world, queue := m.queue ++ ids, log := m.log ++ ids.map .invalidated }
    return roots

def performAll (roots : List (Tree C)) : List (Operation W N) → Run W (List (Tree C))
  | [] => return roots
  | op :: rest => do performAll (← F.perform roots op) rest

/-- The roots of a host and its machine after any operations. -/
inductive Reached : List (Tree C) → Machine W → Prop
  | new (world : W) : Reached [] { world }
  | after {roots next : List (Tree C)} {m m' : Machine W} (h : Reached roots m) (op : Operation W N)
      (done : F.perform roots op m = some (next, m')) : Reached next m'

end Family
end LiveLayout.Lifecycle
