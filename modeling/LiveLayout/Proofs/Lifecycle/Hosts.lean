import LiveLayout.Proofs.Engine.Queues
import LiveLayout.Proofs.Lifecycle.Rounds
import LiveLayout.Proofs.Mounting.Rounds
/-!
The hosts of the engine are hosts of a family of components whose world is the state of the engine: every
operation does the same to both.
-/
namespace LiveLayout

open Engine Lifecycle

namespace Node

def shape : Node → Shape Component Node
  | .primitive v => .primitive v
  | .element tag key props children => .element tag key props children
  | .component key c => .component key c
  | .fragment key children => .fragment key children

@[simp] theorem shape_key? (n : Node) : n.shape.key? = n.key? := by cases n <;> rfl

end Node

namespace Mounted

mutual

def tree : Mounted → Lifecycle.Tree Component
  | .primitive v => .primitive v
  | .element tag key props children => .element tag key props (trees children)
  | .component id key c renders children => .component id key c renders (trees children)
  | .fragment key children => .fragment key (trees children)

def trees : List Mounted → List (Lifecycle.Tree Component)
  | [] => []
  | m :: rest => m.tree :: trees rest

end

theorem trees_eq_map (ms : List Mounted) : trees ms = ms.map tree := by
  induction ms with
  | nil => rfl
  | cons m rest ih => rw [trees, ih, List.map_cons]

@[simp] theorem tree_key? (m : Mounted) : m.tree.key? = m.key? := by cases m <;> rfl

@[simp] theorem tree_sameKind (m : Mounted) (n : Node) : m.tree.sameKind n.shape = m.sameKind n := by
  cases m <;> cases n <;> rfl

variable {id : Nat}

mutual

theorem tree_find? : (m : Mounted) → m.tree.find? id = (m.find? id).map tree
  | .primitive _ => rfl
  | .element _ _ _ children => trees_findAll? children
  | .component i key c renders children => by
    rw [tree, Lifecycle.Tree.find?, find?]
    split
    · rfl
    · exact trees_findAll? children
  | .fragment _ children => trees_findAll? children

theorem trees_findAll? : (ms : List Mounted) → Lifecycle.Tree.findAll? id (trees ms) = (findAll? id ms).map tree
  | [] => rfl
  | m :: rest => by
    rw [trees, Lifecycle.Tree.findAll?, findAll?, tree_find? m, trees_findAll? rest]
    cases m.find? id <;> rfl

end

variable {next : Mounted}

mutual

theorem tree_replace : (m : Mounted) → (replace id next m).tree = Lifecycle.Tree.replace id next.tree m.tree
  | .primitive _ => rfl
  | .element _ _ _ children => by
    rw [replace, tree, tree, Lifecycle.Tree.replace, trees_replaceAll children]
  | .component i key c renders children => by
    rw [replace, tree, Lifecycle.Tree.replace]
    split
    · rfl
    · rw [tree, trees_replaceAll children]
  | .fragment _ children => by
    rw [replace, tree, tree, Lifecycle.Tree.replace, trees_replaceAll children]

theorem trees_replaceAll : (ms : List Mounted) →
    trees (replaceAll id next ms) = Lifecycle.Tree.replaceAll id next.tree (trees ms)
  | [] => rfl
  | m :: rest => by
    rw [replaceAll, trees, trees, Lifecycle.Tree.replaceAll, tree_replace m, trees_replaceAll rest]

end

end Mounted

/-! ### Machines of hosts -/

namespace Lifecycle

/-- The state of the engine in which the host has the queue and the last number of the machine. -/
def Machine.state (host : Nat) (m : Machine State) : State :=
  { m.world with hosts := m.world.hosts.map fun r =>
    if r.id = host then { r with queue := m.queue, lastId := m.lastId } else r }

/-- The world of the machine has the host. -/
def Machine.Has (m : Machine State) (host : Nat) : Prop := ∃ r, m.world.host? host = some r

/-- A step of the engine as a hook. -/
def hook {α : Type} (host : Nat) (x : Engine α) : Hook State α := fun m =>
  (x (m.state host)).map fun (a, s) =>
    (a, s, (((s.host? host).map HostRecord.queue).getD []).drop m.queue.length)

end Lifecycle

/-- The components of the engine, in a host. -/
def Host.family (host : Nat) : Family State Component Node where
  shape := Node.shape
  mount key id c := hook host do
    trace (.mounted c.name key)
    c.mount ⟨host, id⟩
  render depth before key id c := hook host do
    let nodes ← c.render (Renderer.upTo depth) ⟨host, id⟩
    match before with
    | some renders => trace (.rerendered c.name key (renders + 1))
    | none => pure ()
    return (c, nodes)
  receive _ c next := hook host do
    return ((← c.receive? next).map Except.ok).getD (.error (c, next))
  unmount key id c := hook host do
    trace (.unmounted c.name key)
    c.unmount ⟨host, id⟩
  noteMissing id s := if s.tracing then { s with notices := .notMounted id :: s.notices } else s
  noteEndless s := { s with notices := .endlessFlush Host.roundLimit :: s.notices }

namespace Lifecycle

variable {α β γ δ : Type} {host : Nat} {m : Machine State}

theorem state_host? {r : HostRecord} (h : m.world.host? host = some r) :
    (m.state host).host? host = some { r with queue := m.queue, lastId := m.lastId } := by
  have hid : r.id = host := by simpa using List.find?_some h
  have hfind := host?_modifyHost m.world host (f := fun r => { r with queue := m.queue, lastId := m.lastId })
    (fun _ => rfl) host
  rw [h, Option.map_some, if_pos hid] at hfind
  exact hfind

theorem state_modifyHost (m m' : Machine State) (hworld : m'.world = m.world) {f : HostRecord → HostRecord}
    (hf : ∀ r : HostRecord, f { r with queue := m.queue, lastId := m.lastId } =
      { r with queue := m'.queue, lastId := m'.lastId }) :
    modifyHost host f (m.state host) = some ((), m'.state host) := by
  rw [modifyHost, modify_run]
  refine congrArg (fun s => some ((), s)) ?_
  simp only [Machine.state, hworld, List.map_map]
  congr 1
  refine List.map_congr_left fun r _ => ?_
  by_cases hr : r.id = host
  · simpa [hr] using hf r
  · simp [hr]

theorem queue_state (roots : List Mounted) (hm : m.Has host) :
    (Host.mk host roots).queue (m.state host) = some (m.queue, m.state host) := by
  obtain ⟨r, hr⟩ := hm
  have hfind := state_host? (m := m) hr
  simp only [Host.queue, bind_run, Option.bind_some, Engine.host?, get_run, pure_run]
  rw [State.host?] at hfind
  rw [hfind]
  rfl

/-- From every machine that has the host, the step of the engine does what the run does. -/
def Follows (host : Nat) (f : α → β) (x : Engine α) (y : Run State β) : Prop :=
  ∀ m : Machine State, m.Has host →
    Yields x (m.state host) (y m) fun a r s' => r.1 = f a ∧ s' = r.2.state host ∧ r.2.Has host

namespace Follows

theorem run {f : α → β} {x : Engine α} {y : Run State β} {a : α} {s : State} (h : Follows host f x y)
    (hm : m.Has host) (hx : x (m.state host) = some (a, s)) :
    ∃ m', y m = some (f a, m') ∧ s = m'.state host ∧ m'.Has host := by
  rcases (h m hm).cases with ⟨hnone, -⟩ | ⟨a', r, s', hx', hy, ha, hs, hr⟩
  · cases hx.symm.trans hnone
  · cases hx.symm.trans hx'
    refine ⟨r.2, ?_, hs, hr⟩
    rw [hy, ← ha]

theorem pure {f : α → β} {a : α} : Follows host f (pure a) (pure (f a)) :=
  fun _ hm => .pure ⟨rfl, rfl, hm⟩

theorem bind {f : α → β} {g : γ → δ} {x : Engine α} {y : Run State β} {k : α → Engine γ}
    {l : β → Run State δ} (h : Follows host f x y) (hk : ∀ a, Follows host g (k a) (l (f a))) :
    Follows host g (x >>= k) (y >>= l) := by
  intro m hm
  refine (h m hm).bind fun a r s' => ?_
  obtain ⟨b, m'⟩ := r
  rintro ⟨rfl, rfl, hm'⟩
  exact hk a m' hm'

theorem none {f : α → β} : Follows host f endless fun _ => none := fun _ _ => .endless

theorem mapM {f : α → β} {x : γ → Engine α} {y : δ → Run State β} {g : γ → δ}
    (h : ∀ a, Follows host f (x a) (y (g a))) (as : List γ) :
    Follows host (List.map f) (as.mapM x) ((as.map g).mapM y) := by
  induction as with
  | nil => exact pure
  | cons a rest ih =>
    rw [List.map_cons, List.mapM_cons, List.mapM_cons]
    exact (h a).bind fun b => ih.bind fun bs => pure (f := List.map f) (a := b :: bs)

/-- What is known of the results of a step is known to what follows. -/
theorem bind_of {f : α → β} {g : γ → δ} {x : Engine α} {y : Run State β} {k : α → Engine γ}
    {l : β → Run State δ} {P : α → Prop} (h : Follows host f x y) (hP : ∀ s, Ensures x s fun a _ => P a)
    (hk : ∀ a, P a → Follows host g (k a) (l (f a))) : Follows host g (x >>= k) (y >>= l) := by
  intro m hm
  have hx : Yields x (m.state host) (y m) fun a r s' =>
      (r.1 = f a ∧ s' = r.2.state host ∧ r.2.Has host) ∧ P a := by
    rcases (h m hm).cases with ⟨hx, hy⟩ | ⟨a, r, s', hx, hy, hr⟩
    · simp [Yields, hx, hy]
    · rw [hy]
      exact .of_run hx ⟨hr, hP _ a s' hx⟩
  refine hx.bind fun a r s' => ?_
  obtain ⟨b, m'⟩ := r
  rintro ⟨⟨rfl, rfl, hm'⟩, ha⟩
  exact hk a ha m' hm'

theorem trace (n : Notice) : Follows host (fun a => a) (trace n) (modify fun m => { m with
    world := if m.world.tracing then { m.world with notices := n :: m.world.notices } else m.world }) := by
  rintro m ⟨r, hr⟩
  cases htracing : m.world.tracing with
  | true =>
    have hrun : Engine.trace n (m.state host) = Engine.log n (m.state host) := by
      simp [Engine.trace, bind_run, Machine.state, htracing]
    refine .of_run hrun ⟨rfl, ?_, r, ?_⟩
    · simp [Machine.state, htracing]
    · simpa [htracing, State.host?] using hr
  | false =>
    have hrun : Engine.trace n (m.state host) = some ((), m.state host) := by
      simp [Engine.trace, bind_run, Machine.state, htracing]
    refine .of_run hrun ⟨rfl, ?_, r, ?_⟩
    · simp [htracing]
    · simpa [htracing] using hr

/-- What a step has invalidated has been added to the queue of the machine. -/
theorem state_of_invalidates {P : Instance → Prop} {s' : State} (hm : m.Has host)
    (h : Invalidates P (m.state host) s') (log : List Entry) :
    let ids := (((s'.host? host).map HostRecord.queue).getD []).drop m.queue.length
    let m' : Machine State := { m with world := s', queue := m.queue ++ ids, log }
    s' = m'.state host ∧ m'.Has host := by
  intro ids m'
  obtain ⟨added, -, hs'⟩ := h
  obtain ⟨r, hr⟩ := hm
  have hfind : s'.host? host = some { r with queue := m.queue ++ added r.id, lastId := m.lastId } := by
    have hstate := state_host? hr
    unfold State.host? at hstate ⊢
    rw [hs', List.find?_map]
    simp only [Function.comp_def]
    rw [hstate]
    rfl
  have hid : r.id = host := by simpa using List.find?_some hr
  have hids : ids = added host := by
    simp only [ids, hfind, hid, Option.map_some, Option.getD_some, List.drop_left]
  refine ⟨?_, _, hfind⟩
  have hhosts : s'.hosts = s'.hosts.map fun r =>
      if r.id = host then { r with queue := m.queue ++ ids, lastId := m.lastId } else r := by
    rw [hs', hids, Machine.state, List.map_map, List.map_map]
    refine List.map_congr_left fun r _ => ?_
    by_cases hr : r.id = host
    · simp [hr]
    · simp [hr]
  unfold Machine.state
  rw [← hhosts]

/-- A hook does to the machine what the step of the engine does. -/
theorem call {x : Engine α} {f : α → β} (hx : Queues (fun _ => True) x) (id : Nat) (call : β → Call) :
    Follows host f x ((hook host (return f (← x))).call id call) := by
  intro m hm
  have hrun := hx (m.state host)
  unfold Yields
  simp only [Hook.call, hook, bind_run, Option.map_map]
  cases h : x (m.state host) with
  | none => trivial
  | some r => exact ⟨rfl, state_of_invalidates hm (hrun r.1 r.2 h) _⟩

theorem call_self {x : Engine α} (hx : Queues (fun _ => True) x) (id : Nat) (call : α → Call) :
    Follows host (fun a => a) x ((hook host x).call id call) := by
  have h : Follows host (fun a => a) x ((hook host (x >>= Pure.pure)).call id call) :=
    Follows.call hx id call
  rwa [bind_pure] at h

theorem issue {f : α → β} {k : Instance → Engine α} {l : Nat → Run State β}
    (hk : ∀ id, Follows host f (k ⟨host, id⟩) (l id)) :
    Follows host f (nextInstance host >>= k) (issue >>= l) := by
  intro m hm
  obtain ⟨r, hr⟩ := hm
  let m' : Machine State := { m with lastId := m.lastId + 1 }
  have hstate : nextInstance host (m.state host) = some (⟨host, m.lastId + 1⟩, m'.state host) := by
    have hmodify : modifyHost host (fun h => { h with lastId := h.lastId + 1 }) (m.state host) =
        some ((), m'.state host) := state_modifyHost m m' rfl fun _ => rfl
    have hfind := state_host? (m := m') hr
    simp only [nextInstance, bind_run, hmodify, Option.bind_some, Engine.host?, get_run, pure_run]
    rw [State.host?] at hfind
    rw [hfind]
    rfl
  exact .bind_run hstate (hk _ m' ⟨r, hr⟩)

theorem clearQueue {f : α → β} {roots : List Mounted} {k : Engine α} {l : List Nat → Run State β}
    (hk : ∀ pending, Follows host f k (l pending)) :
    Follows host f (do (Host.mk host roots).clearQueue; k) (takeQueue >>= l) := by
  intro m hm
  let m' : Machine State := { m with queue := [] }
  have hclear : (Host.mk host roots).clearQueue (m.state host) = some ((), m'.state host) :=
    state_modifyHost m m' rfl fun _ => rfl
  exact .bind_run hclear (hk m.queue m' hm)

theorem takeQueue {f : α → β} {roots : List Mounted} {k : List Nat → Engine α} {l : List Nat → Run State β}
    (hk : ∀ pending, Follows host f (k pending) (l pending)) :
    Follows host f (do
      let pending ← (Host.mk host roots).queue
      (Host.mk host roots).clearQueue
      k pending) (takeQueue >>= l) := by
  intro m hm
  let m' : Machine State := { m with queue := [] }
  have hclear : (Host.mk host roots).clearQueue (m.state host) = some ((), m'.state host) :=
    state_modifyHost m m' rfl fun _ => rfl
  exact .bind_run (queue_state roots hm) (.bind_run hclear (hk _ m' hm))

theorem modify {f : State → State} {g : Machine State → Machine State}
    (h : ∀ m : Machine State, m.Has host → f (m.state host) = (g m).state host ∧ (g m).Has host) :
    Follows host (fun a => a) (modify f) (modify g) := by
  intro m hm
  exact .of_run rfl ⟨rfl, h m hm⟩

end Follows
end Lifecycle

open Lifecycle

variable {host : Nat}

namespace Mounted

mutual

theorem unmount_follows : (m : Mounted) →
    Follows host (fun a => a) (m.unmount host) ((Host.family host).unmountTree m.tree)
  | .primitive _ => .pure
  | .element _ _ _ children => unmountAll_follows children
  | .component id key c _ children => by
    rw [unmount, ← bind_assoc]
    refine (Follows.call_self ?_ id _).bind fun _ => unmountAll_follows children
    exact .bind (.trace _) fun _ => c.unmount_queues _ fun _ _ _ _ => trivial
  | .fragment _ children => unmountAll_follows children

theorem unmountAll_follows : (ms : List Mounted) →
    Follows host (fun a => a) (unmountAll host ms) ((Host.family host).unmountAll (trees ms))
  | [] => .pure
  | m :: rest => (unmount_follows m).bind fun _ => unmountAll_follows rest

end

theorem render_follows (c : Component) (depth id : Nat) (key : Option String) :
    Follows host (fun nodes => (c, nodes)) (c.render (Renderer.upTo depth) ⟨host, id⟩)
      (((Host.family host).render depth none key id c).call id fun _ => .render) :=
  Follows.call (c.render_queues (Renderer.upTo_calm depth) fun _ _ _ => trivial) id _

theorem renderAgain_follows (c : Component) (depth id renders : Nat) (key : Option String) :
    Follows host (fun nodes => (c, nodes)) (do
      let nodes ← c.render (Renderer.upTo depth) ⟨host, id⟩
      trace (.rerendered c.name key (renders + 1))
      return nodes) (((Host.family host).render depth (some renders) key id c).call id fun _ => .render) := by
  have hqueues : Queues (fun _ => True) (do
      let nodes ← c.render (Renderer.upTo depth) ⟨host, id⟩
      trace (.rerendered c.name key (renders + 1))
      return nodes) :=
    .bind (c.render_queues (Renderer.upTo_calm depth) fun _ _ _ => trivial) fun _ =>
      .bind (.trace _) fun _ => .pure _
  have hhook : (Host.family host).render depth (some renders) key id c = hook host (do
      let nodes ← (do
        let nodes ← c.render (Renderer.upTo depth) ⟨host, id⟩
        trace (.rerendered c.name key (renders + 1))
        return nodes)
      return (c, nodes)) := by
    simp only [Host.family, bind_assoc, pure_bind]
  rw [hhook]
  exact Follows.call hqueues id _

theorem mapM_follows {x : Node → Engine Mounted} {y : Node → Run State (Lifecycle.Tree Component)}
    (h : ∀ n, Follows host tree (x n) (y n)) (nodes : List Node) :
    Follows host trees (nodes.mapM x) (nodes.mapM y) := by
  have hmapM := Follows.mapM (g := fun n => n) h nodes
  rw [List.map_id'] at hmapM
  rwa [funext trees_eq_map]

theorem mountComponent_follows {depth : Nat} {mount : Node → Run State (Lifecycle.Tree Component)}
    (h : ∀ n, Follows host tree (Mounted.mount host depth n) (mount n)) (key : Option String) (c : Component) :
    Follows host tree (Mounted.mount host (depth + 1) (.component key c))
      ((Host.family host).mountComponent depth mount key c) := by
  rw [Mounted.mount]
  refine Follows.issue fun id => ?_
  rw [← bind_assoc]
  refine (Follows.call_self (.bind (.trace _) fun _ => c.mount_queues trivial) id _).bind fun c => ?_
  refine (render_follows c depth id key).bind fun nodes => (mapM_follows h nodes).bind fun children => ?_
  exact .pure (f := tree) (a := .component id key c 1 children)

theorem mount_follows (depth : Nat) (n : Node) :
    Follows host tree (mount host depth n) ((Host.family host).mountTree depth n) := by
  induction depth generalizing n with
  | zero => exact .none
  | succ depth ih =>
    cases n with
    | primitive v => exact .pure
    | element tag key props children =>
      exact (mapM_follows ih children).bind fun children => .pure (f := tree) (a := .element tag key props children)
    | component key c => exact mountComponent_follows ih key c
    | fragment key children =>
      exact (mapM_follows ih children).bind fun children => .pure (f := tree) (a := .fragment key children)

/-! ### Matching -/

theorem position?_trees (slots : Reconcile.Slots) (index : Nat) (n : Node) :
    (Host.family host).position? (slots.map (Option.map tree)) index n = Reconcile.position? slots index n := by
  unfold Family.position? Reconcile.position?
  rw [show (Host.family host).shape n = n.shape from rfl, Node.shape_key?]
  cases n.key? with
  | some key =>
    dsimp only
    rw [List.findIdx?_map]
    congr 1
    funext m
    cases m <;> simp
  | none =>
    simp only [List.getElem?_map]
    cases slots[index]? with
    | none => rfl
    | some slot => cases slot <;> simp

theorem assign_trees (slots : Reconcile.Slots) (index : Nat) (new : List Node) :
    (Host.family host).assign (slots.map (Option.map tree)) index new =
      ((Reconcile.assign slots index new).1.map fun p => (p.1.map tree, p.2),
        trees (Reconcile.assign slots index new).2) := by
  induction new generalizing slots index with
  | nil =>
    simp only [Family.assign, Reconcile.assign, List.map_nil, trees_eq_map, List.filterMap_map, List.map_filterMap]
    rfl
  | cons n rest ih =>
    simp only [Family.assign, Reconcile.assign, position?_trees]
    cases Reconcile.position? slots index n with
    | none => simp [ih]
    | some i =>
      have hset : (slots.map (Option.map tree)).set i none = (slots.set i none).map (Option.map tree) := by
        rw [List.map_set]
        rfl
      have hold : ((slots.map (Option.map tree))[i]?).join = ((slots[i]?).join).map tree := by
        rw [List.getElem?_map]
        cases slots[i]? with
        | none => rfl
        | some slot => cases slot <;> rfl
      simp only [Option.bind_some, hset, hold, ih, List.map_cons]

theorem reconcile_follows {depth : Nat} {update : Mounted → Node → Engine Mounted}
    {updateTree : Lifecycle.Tree Component → Node → Run State (Lifecycle.Tree Component)}
    (h : ∀ m n, Follows host tree (update m n) (updateTree m.tree n)) (old : List Mounted)
    (new : List Node) :
    Follows host trees (reconcile host depth update old new)
      ((Host.family host).reconcile depth updateTree (trees old) new) := by
  have hslots : (trees old).map some = (old.map some).map (Option.map tree) := by
    simp [trees_eq_map, Function.comp_def]
  unfold reconcile Family.reconcile
  rw [hslots, assign_trees]
  dsimp only
  refine Follows.bind (f := trees) ?_ fun next => ?_
  · rw [funext trees_eq_map]
    refine Follows.mapM (fun p => ?_) _
    obtain ⟨m, n⟩ := p
    cases m with
    | some m => exact h m n
    | none => exact mount_follows depth n
  · exact (unmountAll_follows _).bind fun _ => .pure

theorem rerender_follows {depth : Nat} {update : Mounted → Node → Engine Mounted}
    {updateTree : Lifecycle.Tree Component → Node → Run State (Lifecycle.Tree Component)}
    (h : ∀ m n, Follows host tree (update m n) (updateTree m.tree n)) (id : Nat) (key : Option String)
    (c : Component) (renders : Nat) (children : List Mounted) :
    Follows host tree (rerender host depth update id key c renders children)
      ((Host.family host).rerender depth updateTree id key c renders (trees children)) := by
  have hassoc : rerender host depth update id key c renders children = (do
      let nodes ← (do
        let nodes ← c.render (Renderer.upTo depth) ⟨host, id⟩
        trace (.rerendered c.name key (renders + 1))
        return nodes)
      return .component id key c (renders + 1) (← reconcile host depth update children nodes)) := by
    simp only [rerender, bind_assoc, pure_bind]
  rw [hassoc]
  refine (renderAgain_follows c depth id renders key).bind fun nodes => ?_
  refine (reconcile_follows h children nodes).bind fun children => ?_
  exact .pure (f := tree) (a := .component id key c (renders + 1) children)

theorem update_follows (depth : Nat) (m : Mounted) (n : Node) :
    Follows host tree (update host depth m n) ((Host.family host).update depth m.tree n) := by
  induction depth generalizing m n with
  | zero => exact .none
  | succ depth ih =>
    have hreplace (m : Mounted) (n : Node) : Follows host tree (do
        unmount host m
        mount host (depth + 1) n) (do
        (Host.family host).unmountTree m.tree
        (Host.family host).mountTree (depth + 1) n) :=
      (unmount_follows m).bind fun _ => mount_follows (depth + 1) n
    cases m with
    | primitive _ =>
      cases n with
      | primitive v => exact .pure
      | _ => exact hreplace _ _
    | element tag key props children =>
      cases n with
      | element tag' key' props' new =>
        refine (reconcile_follows ih children new).bind fun children => ?_
        exact .pure (f := tree) (a := .element tag key' props' children)
      | _ => exact hreplace _ _
    | fragment key children =>
      cases n with
      | fragment key' new =>
        refine (reconcile_follows ih children new).bind fun children => ?_
        exact .pure (f := tree) (a := .fragment key' children)
      | _ => exact hreplace _ _
    | component id key c renders children =>
      cases n with
      | component newKey next =>
        refine (Follows.call (c.receive?_calm next).always id _).bind fun answer => ?_
        cases answer with
        | some c => exact rerender_follows ih id key c renders children
        | none =>
          refine (unmount_follows (.component id key c renders children)).bind fun _ => ?_
          exact mountComponent_follows (mount_follows depth) newKey next
      | _ => exact hreplace _ _

end Mounted

/-! ### Operations -/

namespace Host

open Mounted

theorem rerenderAll_id (h : Host) (count : Nat) (pending : List Nat) (s : State) :
    Ensures (h.rerenderAll count pending) s fun r _ => r.1.id = h.id := by
  induction pending generalizing h count s with
  | nil => exact .pure rfl
  | cons id rest ih =>
    unfold rerenderAll
    split
    · exact .bind (Q := fun _ _ => True) (fun _ _ _ => trivial) fun m s' _ => ih _ _ s'
    · exact .bind (Q := fun _ _ => True) (fun _ _ _ => trivial) fun _ s' _ => ih _ _ s'

theorem rerenderAll_follows (roots : List Mounted) (count : Nat) (pending : List Nat) :
    Follows host (fun r : Host × Nat => (trees r.1.roots, r.2)) (rerenderAll ⟨host, roots⟩ count pending)
      ((Host.family host).rerenderAll (trees roots) count pending) := by
  induction pending generalizing roots count with
  | nil => exact .pure
  | cons id rest ih =>
    unfold rerenderAll Family.rerenderAll
    rw [trees_findAll?]
    have hmissing : Follows host (fun r : Host × Nat => (trees r.1.roots, r.2)) (do
        trace (.notMounted id)
        rerenderAll ⟨host, roots⟩ count rest) (do
        modify fun m => { m with world := (Host.family host).noteMissing id m.world }
        (Host.family host).rerenderAll (trees roots) count rest) := by
      exact (Follows.trace (.notMounted id)).bind fun _ => ih roots count
    cases hfind : findAll? id roots with
    | none => exact hmissing
    | some old =>
      obtain ⟨key, c, renders, children, rfl⟩ := exists_of_findAll? roots hfind
      refine (rerender_follows (update_follows depthLimit) id key c renders children).bind fun m => ?_
      rw [← trees_replaceAll]
      exact ih _ _

theorem flushRounds_follows (roots : List Mounted) (count rounds : Nat) :
    Follows host (fun r : Host × Nat => (trees r.1.roots, r.2)) (flushRounds ⟨host, roots⟩ count rounds)
      ((Host.family host).flushRounds (trees roots) count rounds) := by
  induction rounds generalizing roots count with
  | zero =>
    refine Follows.takeQueue fun pending => ?_
    unfold Family.giveUp
    cases pending with
    | nil => exact .pure
    | cons id rest =>
      refine Follows.bind (f := fun a => a) ?_ fun _ => .pure
      exact .modify fun m hm => ⟨rfl, hm⟩
  | succ rounds ih =>
    refine Follows.takeQueue fun pending => ?_
    cases pending with
    | nil => exact .pure
    | cons id rest =>
      refine (rerenderAll_follows roots count _).bind_of (rerenderAll_id _ _ _) ?_
      rintro ⟨⟨_, next⟩, count⟩ rfl
      exact ih next count

/-! An operation on a host of the engine is that operation on the host of the family. -/

theorem render_follows (roots : List Mounted) (nodes : List Node) :
    Follows host (fun h : Host => trees h.roots) (Host.render ⟨host, roots⟩ nodes)
      ((Host.family host).perform (trees roots) (.render nodes)) := by
  have hroots : Follows host trees (reconcile host depthLimit (update host depthLimit) roots nodes)
      ((family host).reconcile depthLimit ((family host).update depthLimit) (trees roots) nodes) :=
    reconcile_follows (update_follows depthLimit) roots nodes
  have h := hroots.bind (k := fun roots => pure (Host.mk host roots)) (l := pure)
    (g := fun h : Host => trees h.roots) fun _ => .pure
  rwa [bind_pure] at h

theorem flush_follows (roots : List Mounted) :
    Follows host (fun r : Host × Nat => trees r.1.roots) (Host.flush ⟨host, roots⟩)
      ((Host.family host).perform (trees roots) .flush) := by
  have h : Follows host (fun r : Host × Nat => trees r.1.roots) (Host.flush ⟨host, roots⟩ >>= pure)
      ((Host.family host).perform (trees roots) .flush) :=
    (flushRounds_follows roots 0 roundLimit).bind fun _ => .pure
  rwa [bind_pure] at h

theorem clear_follows (roots : List Mounted) :
    Follows host (fun h : Host => trees h.roots) (Host.clear ⟨host, roots⟩)
      ((Host.family host).perform (trees roots) .clear) := by
  refine (unmountAll_follows roots).bind fun _ => ?_
  exact Follows.clearQueue fun _ => .pure

end Host
end LiveLayout
