import LiveLayout.Proofs.Refreshing.UpToDate
/-!
Refreshing a tree, whose components receive and render without any of them being mounted or unmounted. A tree
that is up to date is refreshed when it is updated to nodes like its own, and shows the same.
-/
namespace LiveLayout

open Engine

namespace Engine

variable {α β : Type} {s : State} {x y : Engine α}

/-- Both steps give a result from the state, and the same one. -/
def Together (x y : Engine α) (s : State) (Q : α → State → Prop) : Prop :=
  ∃ a s', x s = some (a, s') ∧ y s = some (a, s') ∧ Q a s'

namespace Together

variable {Q Q' : α → State → Prop} {R : β → State → Prop}

theorem pure {a : α} (h : Q a s) : Together (pure a) (pure a) s Q := ⟨a, s, rfl, rfl, h⟩

theorem mono (h : Together x y s Q) (hQ : ∀ a s', Q a s' → Q' a s') : Together x y s Q' := by
  obtain ⟨a, s', hx, hy, hq⟩ := h
  exact ⟨a, s', hx, hy, hQ a s' hq⟩

theorem bind {f g : α → Engine β} (h : Together x y s Q)
    (hf : ∀ a t, Q a t → Together (f a) (g a) t R) : Together (x >>= f) (y >>= g) s R := by
  obtain ⟨a, t, hx, hy, hq⟩ := h
  obtain ⟨b, s', hf, hg, hr⟩ := hf a t hq
  refine ⟨b, s', ?_, ?_, hr⟩
  · rw [Engine.bind_run, hx]
    exact hf
  · rw [Engine.bind_run, hy]
    exact hg

theorem bind_run {f g : α → Engine β} {a : α} {t : State} (hx : x s = some (a, t))
    (hf : Together (f a) (g a) t R) : Together (x >>= f) (x >>= g) s R :=
  bind (Q := fun b t' => b = a ∧ t' = t) ⟨a, t, hx, hx, rfl, rfl⟩ (by rintro _ _ ⟨rfl, rfl⟩; exact hf)

end Together
end Engine

/-! ### What can be seen of a tree -/

namespace Mounted

mutual

/-- The tree without what only the engine needs to know, and without how often its components have rendered. -/
def bare : Mounted → Mounted
  | .primitive v => .primitive v
  | .element tag key props children => .element tag key props.bare (bareAll children)
  | .component id key c _ children => .component id key c.bare 0 (bareAll children)
  | .fragment key children => .fragment key (bareAll children)

def bareAll : List Mounted → List Mounted
  | [] => []
  | m :: rest => m.bare :: bareAll rest

end

mutual

theorem flatten_bare (around : String) : (m : Mounted) →
    flatten around m.bare = Output.bareAll (flatten around m)
  | .primitive _ => rfl
  | .element tag key props children => by
    rw [bare, flatten, flatten, flattenAll_bareAll around children]
    rfl
  | .component _ _ _ _ children => flattenAll_bareAll around children
  | .fragment (some key) children => flattenAll_bareAll (scopedKey around key) children
  | .fragment none children => flattenAll_bareAll around children

theorem flattenAll_bareAll (around : String) : (ms : List Mounted) →
    flattenAll around (bareAll ms) = Output.bareAll (flattenAll around ms)
  | [] => rfl
  | m :: rest => by
    rw [bareAll, flattenAll, flattenAll, flatten_bare around m, flattenAll_bareAll around rest,
      Output.bareAll_append]

end

/-- Trees that are the same but for what only the engine needs to know show the same. -/
theorem toJsonAll_of_bareAll {ms ns : List Mounted} (h : bareAll ms = bareAll ns) :
    Output.toJsonAll (snapshot ms) = Output.toJsonAll (snapshot ns) := by
  rw [← Output.toJsonAll_bare, ← Output.toJsonAll_bare (snapshot ns), snapshot, snapshot,
    ← flattenAll_bareAll, ← flattenAll_bareAll, h]

/-- The components of trees, with the layers that they stand in and what can be seen of them. -/
def marks (σ : Store) (host : Nat) (ms : List Mounted) : List (Instance × Layers × Component) :=
  (componentsAll host ms).map fun e => (e.1, e.2.layers σ, e.2.bare)

/-! ### Refreshing -/

/-- Goes through mounted and new nodes side by side. -/
def refreshAll (refresh : Mounted → Node → Engine Mounted) (old : List Mounted) (new : List Node) :
    Engine (List Mounted) :=
  (old.zip new).mapM fun (m, n) => refresh m n

/-- Updates a mounted node to a new one of the same kind, where every component receives the new one and
renders. No component is mounted or unmounted. -/
def refresh (host : Nat) : Nat → Mounted → Node → Engine Mounted
  | 0, _, _ => endless
  | depth + 1, m, n =>
    match m, n with
    | .primitive _, .primitive v => return .primitive v
    | .element tag _ _ old, .element _ key props new =>
      return .element tag key props (← refreshAll (refresh host depth) old new)
    | .fragment _ old, .fragment key new =>
      return .fragment key (← refreshAll (refresh host depth) old new)
    | .component id key c renders children, .component _ next => do
      match ← c.receive? next with
      | some c =>
        let nodes ← c.render (Renderer.upTo depth) ⟨host, id⟩
        trace (.rerendered c.name key (renders + 1))
        return .component id key c (renders + 1) (← refreshAll (refresh host depth) children nodes)
      | none => endless
    | _, _ => endless

end Mounted

/-- Nothing has happened but that proxies may have moved to other scopes. -/
structure Unshaken (s s' : State) : Prop where
  keeps : Keeps s s'
  undisturbed : Undisturbed s s'
  tidy : s'.store.Tidy
  listeners : ∀ k x, (s'.store.subscribersAt k x).filter (!·.isProxy) =
    (s.store.subscribersAt k x).filter (!·.isProxy)

namespace Unshaken

variable {s s' s'' : State}

theorem trans (h : Unshaken s s') (h' : Unshaken s' s'') : Unshaken s s'' :=
  ⟨h.keeps.trans h'.keeps, Lenient.trans h.undisturbed h'.undisturbed, h'.tidy, fun k x =>
    (h'.listeners k x).trans (h.listeners k x)⟩

theorem of_forked (h : Forked s s') (ht : s.store.Tidy) : Unshaken s s' :=
  ⟨h.keeps, ⟨h.hosts, h.fetches, h.network⟩, h.store.tidy ht, fun k x => by rw [h.store.subscribers]⟩

theorem refl (ht : s.store.Tidy) : Unshaken s s := of_forked (.refl s) ht

theorem recalls {host : Nat} (h : Unshaken s s') : Recalls host s s' := Lenient.of_undisturbed h.undisturbed

end Unshaken

namespace Proxy

theorem tidy_moved (p : Proxy) (scope : Scope) (who : Subscriber) {σ : Store} (ht : σ.Tidy) :
    (p.moved scope who σ).Tidy := by
  unfold moved
  split
  · exact ht
  · exact (ht.unsubscribeAll _ _ _).subscribeAll _ _ _

/-- Who listens by name does not notice that a proxy moves to another scope. -/
theorem listeners_moved {p : Proxy} {scope : Nat} {self : Instance} {key : Option String} {σ : Store}
    (ht : σ.Tidy) (hp : p.scope < σ.levels.size) (hscope : scope < σ.levels.size) (k : Nat) (x : String) :
    ((p.moved scope (.proxy self key) σ).subscribersAt k x).filter (!·.isProxy) =
      (σ.subscribersAt k x).filter (!·.isProxy) := by
  have hadd (whos : List Subscriber) : (whos ++ [Subscriber.proxy self key]).filter (!·.isProxy) =
      whos.filter (!·.isProxy) := by
    rw [List.filter_append, List.filter_cons_of_neg (by simp [Subscriber.isProxy]), List.filter_nil,
      List.append_nil]
  have hdrop (whos : List Subscriber) : (whos.filter (· ≠ Subscriber.proxy self key)).filter (!·.isProxy) =
      whos.filter (!·.isProxy) := by
    rw [List.filter_filter]
    refine List.filter_congr fun w _ => ?_
    cases w <;> simp [Subscriber.isProxy]
  unfold moved
  split
  · rfl
  · have hun := σ.keepsValues_unsubscribeAll p.scope p.depends (.proxy self key)
    rw [Store.subscribersAt_subscribeAll (hun.keepsScopes.lt_size hscope),
      Store.subscribersAt_unsubscribeAll ht hp]
    split <;> split <;> simp only [hadd, hdrop]

end Proxy

namespace Component

variable {s : State} {i scope scope' : Nat} {tr : Bool} {c next : Component} {self : Instance}

/-- A component accepts to become one that is the same but for where it stands. -/
theorem receive?_alike (ht : s.store.Tidy) (hc : c.At i tr scope) (hfollows : c.Follows s.store self)
    (hnext : next.At i tr scope') (hscope : scope' < s.store.levels.size) (hbare : c.bare = next.bare) :
    ∃ c' s', c.receive? next s = some (some c', s') ∧ Unshaken s s' ∧ c'.At i tr scope' ∧
      c'.bare = next.bare ∧ (∀ σ, c'.layers σ = next.layers σ) ∧ c'.Follows s'.store self := by
  cases c with
  | proxy p =>
    cases next with
    | proxy q =>
      obtain ⟨⟨key, hsub⟩, hp⟩ := hfollows
      obtain ⟨hi, rfl, hfixed, hparsed⟩ := hnext
      simp only [bare, Component.proxy.injEq, Proxy.mk.injEq] at hbare
      obtain ⟨htarget, hkey, -, hdynamic, -, hchildren, -, hdepends, -⟩ := hbare
      have hsame : p.sameBrick q = true := by simp [Proxy.sameBrick, htarget, hdynamic]
      have hturned : p.turned q = { q with subscriber := p.subscriber } := by
        rw [Proxy.turned, hdynamic, hdepends]
      have hrun : (Component.proxy p).receive? (.proxy q) s = some (some (.proxy (p.turned q)),
          { s with store := p.moved q.scope (.proxy self key) s.store }) := by
        simp only [Component.receive?, bind_run, Proxy.receive?_run hsame hsub, Option.bind_some]
        rfl
      have hkeep := p.keepsValues_moved q.scope (.proxy self key) s.store
      refine ⟨_, _, hrun, ⟨.store s hkeep, ⟨rfl, rfl, rfl⟩, ?_, fun k x => ?_⟩, ?_, ?_, fun _ => rfl,
        ⟨key, hsub⟩, hkeep.keepsScopes.lt_size hscope⟩
      · exact Proxy.tidy_moved p q.scope _ ht
      · exact Proxy.listeners_moved ht hp hscope k x
      · rw [hturned]
        exact ⟨hi, rfl, hfixed, hparsed⟩
      · rw [hturned]
        rfl
    | _ => simp [bare] at hbare
  | conditional props =>
    cases next with
    | conditional props' => exact ⟨_, s, rfl, .refl ht, hnext, rfl, fun _ => rfl, trivial⟩
    | _ => simp [bare] at hbare
  | forEach props =>
    cases next with
    | forEach props' => exact ⟨_, s, rfl, .refl ht, hnext, rfl, fun _ => rfl, trivial⟩
    | _ => simp [bare] at hbare
  | slot props =>
    cases next with
    | slot props' => exact ⟨_, s, rfl, .refl ht, hnext, rfl, fun _ => rfl, trivial⟩
    | _ => simp [bare] at hbare
  | fetch f =>
    cases next with
    | fetch g =>
      obtain ⟨-, htr, -⟩ := hc
      obtain ⟨hs, htr', hp⟩ := hnext
      refine ⟨_, s, rfl, .refl ht, ⟨hs, htr, hp⟩, ?_, fun _ => rfl, trivial⟩
      simp only [bare, htr, htr']
    | _ => simp [bare] at hbare
  | probe | plain => exact hc.elim

end Component

namespace Mounted

variable {host i root depth depth' : Nat} {sc : Scene} {s s' s₁ t : State} {ms next children : List Mounted}
  {ns : List Node}

/-- A component that is mounted in its place, and subscribed if it is a proxy. -/
def Enrolled (s : State) (i : Nat) (tr : Bool) (root : Scope) (e : Instance × Component) : Prop :=
  Stationed s i tr root e ∧ e.2.Follows s.store e.1

theorem Enrolled.keep {waits : Nat → Prop} {tr : Bool} {e : Instance × Component}
    (h : Enrolled s i tr root e) (hk : KeepsFor waits s s') : Enrolled s' i tr root e :=
  ⟨h.1.keep hk, h.2.keep hk.values.keepsScopes⟩

/-- Mounted nodes that stand on their host, all up to date. -/
structure Sound (host i : Nat) (root : Scope) (sc : Scene) (depth : Nat) (s : State) (ms : List Mounted) :
    Prop where
  ready : Ready s host i root sc
  tidy : s.store.Tidy
  enrolled : ∀ e ∈ componentsAll host ms, Enrolled s i sc.transport root e
  upToDate : ∀ m ∈ ms, UpToDate sc s host depth m

theorem Sound.keep {waits : Nat → Prop} (h : Sound host i root sc depth s ms) (hk : KeepsFor waits s s')
    (hr : Recalls host s s') (ht : s'.store.Tidy) : Sound host i root sc depth s' ms := by
  refine ⟨h.ready.keep hk, ht, fun e he => (h.enrolled e he).keep hk, fun m hm => ?_⟩
  refine (h.upToDate m hm).congr fun e he => ?_
  exact (h.enrolled e (mem_componentsAll.2 ⟨m, hm, he⟩)).1.untouched hk (host_of_mem m e he ▸ hr)

theorem Sound.cons_inv {m : Mounted} (h : Sound host i root sc depth s (m :: ms)) :
    Sound host i root sc depth s [m] ∧ Sound host i root sc depth s ms := by
  refine ⟨⟨h.ready, h.tidy, fun e he => h.enrolled e (List.mem_append_left _ ?_), ?_⟩,
    ⟨h.ready, h.tidy, fun e he => h.enrolled e (List.mem_append_right _ he),
      fun m hm => h.upToDate m (List.mem_cons_of_mem _ hm)⟩⟩
  · rwa [componentsAll_singleton] at he
  · exact List.forall_mem_singleton.2 (h.upToDate m (List.mem_cons_self ..))

/-- The new nodes are just like the mounted ones. -/
structure Alike (host i : Nat) (root : Scope) (sc : Scene) (depth : Nat) (s : State) (ms : List Mounted)
    (ns : List Node) : Prop where
  sound : Sound host i root sc depth s ms
  placed : ∀ n ∈ ns, n.Placed (Within s.store i sc.transport root)
  sketch : ns.map (Node.sketch s.store) = sketchAll s.store ms

namespace Alike

variable {m : Mounted} {n : Node}

theorem untouched (h : Alike host i root sc depth s ms ns) (hu : Unshaken s s') :
    ∀ e ∈ componentsAll host ms, Untouched s s' e := fun e he =>
  (h.sound.enrolled e he).1.untouched hu.keeps hu.recalls

theorem keep (h : Alike host i root sc depth s ms ns) (hu : Unshaken s s') :
    Alike host i root sc depth s' ms ns := by
  refine ⟨h.sound.keep hu.keeps hu.recalls hu.tidy,
    fun n hn => (h.placed n hn).mono fun _ hw => hw.keep hu.keeps.values.keepsScopes, ?_⟩
  rw [sketchAll_congr ms fun e he => (h.untouched hu e he).1, ← h.sketch]
  exact List.map_congr_left fun n hn =>
    (h.placed n hn).sketch_congr fun _ hw => hw.layers_eq hu.keeps.values.keepsForks

/-- Nodes that are alike are so one by one. -/
theorem cons_inv (h : Alike host i root sc depth s (m :: ms) (n :: ns)) :
    Alike host i root sc depth s [m] [n] ∧ Alike host i root sc depth s ms ns := by
  have hsketch := h.sketch
  rw [List.map_cons, sketchAll, List.cons.injEq] at hsketch
  obtain ⟨hm, hms⟩ := h.sound.cons_inv
  exact ⟨⟨hm, List.forall_mem_singleton.2 (h.placed n (List.mem_cons_self ..)), congrArg ([·]) hsketch.1⟩,
    ⟨hms, fun n hn => h.placed n (List.mem_cons_of_mem _ hn), hsketch.2⟩⟩

end Alike

/-- Mounted nodes have been refreshed: they are up to date, and what can be seen of them is as it was. -/
structure Refreshed (host i : Nat) (root : Scope) (sc : Scene) (depth : Nat) (s : State) (ms next : List Mounted)
    (s' : State) : Prop where
  unshaken : Unshaken s s'
  enrolled : ∀ e ∈ componentsAll host next, Enrolled s' i sc.transport root e
  upToDate : ∀ m ∈ next, UpToDate sc s' host depth m
  sketch : sketchAll s'.store next = sketchAll s.store ms
  bare : bareAll next = bareAll ms
  marks : marks s'.store host next = marks s.store host ms

namespace Refreshed

theorem untouched (h : Refreshed host i root sc depth s ms next s₁) (hu : Unshaken s₁ s') :
    ∀ e ∈ componentsAll host next, Untouched s₁ s' e := fun e he =>
  (h.enrolled e he).1.untouched hu.keeps hu.recalls

/-- What comes before leaves the nodes alone. -/
theorem after (h : Refreshed host i root sc depth s₁ ms next s') (hu : Unshaken s s₁)
    (hstill : ∀ e ∈ componentsAll host ms, Untouched s s₁ e) :
    Refreshed host i root sc depth s ms next s' := by
  refine ⟨hu.trans h.unshaken, h.enrolled, h.upToDate, ?_, h.bare, ?_⟩
  · rw [h.sketch, sketchAll_congr ms fun e he => (hstill e he).1]
  · rw [h.marks, Mounted.marks, Mounted.marks]
    exact List.map_congr_left fun e he => by rw [(hstill e he).1]

/-- One node, and then others. -/
theorem cons {m m' : Mounted} (hm : Refreshed host i root sc depth s [m] [m'] s₁)
    (h : Refreshed host i root sc depth s₁ ms next s')
    (hstill : ∀ e ∈ componentsAll host ms, Untouched s s₁ e) :
    Refreshed host i root sc depth s (m :: ms) (m' :: next) s' := by
  have hu := h.unshaken
  have hm' := hm.untouched hu
  rw [componentsAll_singleton] at hm'
  refine ⟨hm.unshaken.trans hu, fun e he => ?_, fun k hk => ?_, ?_, ?_, ?_⟩
  · rcases List.mem_append.1 he with he | he
    · exact (hm.enrolled e (by rwa [componentsAll_singleton])).keep hu.keeps
    · exact h.enrolled e he
  · rcases List.mem_cons.1 hk with rfl | hk
    · exact (hm.upToDate _ (List.mem_singleton_self _)).congr hm'
    · exact h.upToDate k hk
  · have hone := hm.sketch
    rw [sketchAll, sketchAll, sketchAll, sketchAll] at hone
    rw [sketchAll, sketchAll, h.sketch, sketchAll_congr ms fun e he => (hstill e he).1,
      sketch_congr m' fun e he => (hm' e he).1, (List.cons.inj hone).1]
  · have hone := hm.bare
    rw [bareAll, bareAll, bareAll, bareAll] at hone
    rw [bareAll, bareAll, h.bare, (List.cons.inj hone).1]
  · have hone := hm.marks
    simp only [Mounted.marks, componentsAll_singleton] at hone
    have hrest := h.marks
    unfold Mounted.marks at hrest ⊢
    rw [componentsAll, componentsAll, List.map_append, List.map_append, ← hone, hrest]
    congr 1
    · exact List.map_congr_left fun e he => by rw [(hm' e he).1]
    · exact List.map_congr_left fun e he => by rw [(hstill e he).1]

/-- What is refreshed in place. -/
theorem element {tag : String} {key : Option String} {props props' : Props}
    (h : Refreshed host i root sc depth s ms next s') (hprops : props'.bare = props.bare) :
    Refreshed host i root sc (depth + 1) s [.element tag key props ms] [.element tag key props' next] s' := by
  refine ⟨h.unshaken, ?_, List.forall_mem_singleton.2 h.upToDate, ?_, ?_, ?_⟩
  · rw [componentsAll_singleton]
    exact h.enrolled
  · simp only [sketchAll, Mounted.sketch, h.sketch, hprops]
  · simp only [bareAll, Mounted.bare, h.bare, hprops]
  · simp only [Mounted.marks, componentsAll_singleton]
    exact h.marks

theorem fragment {key : Option String} (h : Refreshed host i root sc depth s ms next s') :
    Refreshed host i root sc (depth + 1) s [.fragment key ms] [.fragment key next] s' := by
  refine ⟨h.unshaken, ?_, List.forall_mem_singleton.2 h.upToDate, ?_, ?_, ?_⟩
  · rw [componentsAll_singleton]
    exact h.enrolled
  · simp only [sketchAll, Mounted.sketch, h.sketch]
  · simp only [bareAll, Mounted.bare, h.bare]
  · simp only [Mounted.marks, componentsAll_singleton]
    exact h.marks

/-- A component that stays where it is, with what is refreshed in it. -/
theorem component {id : Nat} {key : Option String} {c : Component} {renders renders' : Nat}
    (hc : Enrolled s i sc.transport root (⟨host, id⟩, c))
    (hchildren : ∀ e ∈ componentsAll host ms, Untouched s s₁ e)
    (hks : sc.again (sc.upTo depth) (c.layers s.store) (s.fetchState ⟨host, id⟩) c.bare =
      some (sketchAll s.store ms))
    (h : Refreshed host i root sc depth s₁ ms next s') (hu : Unshaken s s₁) :
    Refreshed host i root sc (depth + 1) s [.component id key c renders ms]
      [.component id key c renders' next] s' := by
  have hu' := hu.trans h.unshaken
  obtain ⟨hlayers, hstate⟩ := hc.1.untouched hu'.keeps hu'.recalls
  refine ⟨hu', ?_, List.forall_mem_singleton.2 ⟨?_, h.upToDate⟩, ?_, ?_, ?_⟩
  · rw [componentsAll_singleton, components, List.forall_mem_cons]
    exact ⟨hc.keep hu'.keeps, h.enrolled⟩
  · rw [hlayers, hstate, h.sketch, sketchAll_congr ms fun e he => (hchildren e he).1]
    exact hks
  · simp only [sketchAll, Mounted.sketch, hlayers]
  · simp only [bareAll, Mounted.bare, h.bare]
  · have hmarks := h.marks
    unfold Mounted.marks at hmarks ⊢
    simp only [componentsAll_singleton, components, List.map_cons, hlayers, hmarks]
    exact congrArg _ (List.map_congr_left fun e he => by rw [(hchildren e he).1])

/-- What is left alone. -/
theorem refl (h : Sound host i root sc depth s ms) : Refreshed host i root sc depth s ms ms s :=
  ⟨.refl h.tidy, h.enrolled, h.upToDate, rfl, rfl, rfl⟩

end Refreshed

/-- How one node is updated to another that is like it: it is refreshed. -/
def Refreshes (host i : Nat) (root : Scope) (sc : Scene) (depth : Nat)
    (update refresh : Mounted → Node → Engine Mounted) : Prop :=
  ∀ s m n, Alike host i root sc depth s [m] [n] →
    Together (update m n) (refresh m n) s fun m' s' => Refreshed host i root sc depth s [m] [m'] s'

theorem fits_of_sketch {m : Mounted} {n : Node} (h : n.sketch t.store = m.sketch t.store) : Reconcile.Fits m n := by
  cases m <;> cases n <;> simp_all [Node.sketch, sketch, Reconcile.Fits, key?, Node.key?, sameKind]

theorem reconcile_refreshes {update refresh : Mounted → Node → Engine Mounted}
    (hupdate : Refreshes host i root sc depth update refresh) (h : Alike host i root sc depth s ms ns) :
    Together (reconcile host depth' update ms ns) (refreshAll refresh ms ns) s fun next s' =>
      Refreshed host i root sc depth s ms next s' := by
  have hsketch := h.sketch
  have hfits : List.Forall₂ Reconcile.Fits ms ns := by
    rw [sketchAll_eq_map] at hsketch
    have hall : List.Forall₂ (fun k m => k = Mounted.sketch s.store m) (ns.map (Node.sketch s.store)) ms := by
      rw [hsketch]
      exact List.forall₂_map_left_iff.2 (List.forall₂_same.2 fun _ _ => rfl)
    exact ((List.forall₂_map_left_iff.1 hall).imp fun _ _ hk => fits_of_sketch hk).flip
  have hassign := Reconcile.assign_of_fits hfits 0
  rw [List.replicate_zero, List.nil_append] at hassign
  have hrun : reconcile host depth' update ms ns = refreshAll update ms ns := by
    unfold reconcile refreshAll
    rw [hassign]
    dsimp only
    have hzip : (ms.map some).zip ns = (ms.zip ns).map fun e => (some e.1, e.2) := by
      rw [List.zip_map_left]
      rfl
    rw [hzip, List.mapM_map]
    exact bind_pure _
  rw [hrun]
  clear hrun hassign hsketch
  unfold refreshAll
  induction hfits generalizing s with
  | nil =>
    simp only [List.zip_nil_left, List.mapM_nil]
    exact .pure (.refl h.sound)
  | @cons m n ms ns _ _ ih =>
    obtain ⟨hm, hms⟩ := h.cons_inv
    rw [List.zip_cons_cons, List.mapM_cons, List.mapM_cons]
    refine (hupdate s m n hm).bind fun m' t hm' => ?_
    refine (ih (hms.keep hm'.unshaken)).bind fun next s' hnext => .pure ?_
    exact hm'.cons hnext (hms.untouched hm'.unshaken)

/-- A component that shows what it would render now renders that again. -/
theorem rerender_refreshes {update refresh : Mounted → Node → Engine Mounted}
    (hupdate : Refreshes host i root sc depth update refresh) (hdepth : depth ≤ depth') {id : Nat}
    (key : Option String) {c : Component} (renders : Nat) (hready : Ready s host i root sc)
    (htidy : s.store.Tidy) (hc : Enrolled s i sc.transport root (⟨host, id⟩, c))
    (hchildren : ∀ e ∈ componentsAll host children, Enrolled s i sc.transport root e)
    (h : UpToDate sc s host (depth + 1) (.component id key c renders children)) :
    Together (rerender host depth' update id key c renders children) (do
      let nodes ← c.render (Renderer.upTo depth') ⟨host, id⟩
      trace (.rerendered c.name key (renders + 1))
      return .component id key c (renders + 1) (← refreshAll refresh children nodes)) s
      fun m s' => (∃ next, m = .component id key c (renders + 1) next) ∧
        Refreshed host i root sc (depth + 1) s [.component id key c renders children] [m] s' := by
  obtain ⟨scope, hscope, hroot, hat⟩ := hc.1.1
  obtain ⟨hks, hup⟩ := h
  have hrender := Component.again_yields hready.onStage hscope hroot hat ⟨host, id⟩ depth'
  rw [Scene.again_le hdepth _ _ _ _ hks] at hrender
  obtain ⟨nodes, _, s₁, hrun, hdrawn, hf, hd⟩ := hrender.cases.resolve_left (by simp)
  obtain rfl := Option.some.inj hdrawn
  obtain ⟨_, s₂, htrace, hq⟩ := silent_trace (.rerendered c.name key (renders + 1)) s₁
  have hf₂ := hf.trans hq.forked
  have hu := Unshaken.of_forked hf₂ htidy
  have hd₂ := hd.keep (by rw [hq.store]; exact Store.KeepsForks.refl _ : s₁.store.KeepsForks s₂.store)
  have hstill : ∀ e ∈ componentsAll host children, Untouched s s₂ e := fun e he =>
    (hchildren e he).1.untouched hu.keeps hu.recalls
  have hsound : Sound host i root sc depth s children := ⟨hready, htidy, hchildren, hup⟩
  have halike : Alike host i root sc depth s₂ children nodes := by
    refine ⟨hsound.keep hu.keeps hu.recalls hu.tidy, hd₂.placed, ?_⟩
    rw [sketchAll_congr children fun e he => (hstill e he).1]
    exact hd₂.sketch
  refine .bind_run hrun (.bind_run htrace ((reconcile_refreshes hupdate halike).bind fun next s₃ hl => .pure ?_))
  exact ⟨⟨next, rfl⟩, .component hc hstill hks hl hu⟩

theorem update_refreshes (depth : Nat) : ∀ depth', depth ≤ depth' →
    Refreshes host i root sc depth (update host depth') (refresh host depth') := by
  induction depth with
  | zero => exact fun _ _ s m n h => (h.sound.upToDate m (List.mem_singleton_self _)).elim
  | succ depth ih =>
    intro depth' hdepth s m n h
    obtain ⟨depth', rfl⟩ : ∃ d, depth' = d + 1 := ⟨depth' - 1, by omega⟩
    have hle : depth ≤ depth' := Nat.le_of_succ_le_succ hdepth
    have hup := h.sound.upToDate m (List.mem_singleton_self _)
    have hplaced := h.placed n (List.mem_singleton_self _)
    have henrolled := h.sound.enrolled
    rw [componentsAll_singleton] at henrolled
    have hsketch : n.sketch s.store = m.sketch s.store := (List.cons.inj h.sketch).1
    cases m with
    | primitive v =>
      cases n with
      | primitive v' =>
        simp only [Node.sketch, sketch, Sketch.primitive.injEq] at hsketch
        subst hsketch
        exact .pure (.refl h.sound)
      | _ => simp [Node.sketch, sketch] at hsketch
    | element tag key props old =>
      cases n with
      | element tag' key' props' new =>
        simp only [Node.sketch, sketch, Sketch.element.injEq] at hsketch
        obtain ⟨rfl, rfl, hprops, hchildren⟩ := hsketch
        rw [Node.sketchAll_eq] at hchildren
        have halike : Alike host i root sc depth s old new :=
          ⟨⟨h.sound.ready, h.sound.tidy, henrolled, hup⟩, Node.placed_element.1 hplaced, hchildren⟩
        exact (reconcile_refreshes (ih depth' hle) halike).bind fun _ _ hl => .pure (hl.element hprops)
      | _ => simp [Node.sketch, sketch] at hsketch
    | fragment key old =>
      cases n with
      | fragment key' new =>
        simp only [Node.sketch, sketch, Sketch.fragment.injEq] at hsketch
        obtain ⟨rfl, hchildren⟩ := hsketch
        rw [Node.sketchAll_eq] at hchildren
        have halike : Alike host i root sc depth s old new :=
          ⟨⟨h.sound.ready, h.sound.tidy, henrolled, hup⟩, Node.placed_fragment.1 hplaced, hchildren⟩
        exact (reconcile_refreshes (ih depth' hle) halike).bind fun _ _ hl => .pure hl.fragment
      | _ => simp [Node.sketch, sketch] at hsketch
    | component id key c renders children =>
      cases n with
      | component key' next =>
        simp only [Node.sketch, sketch, Sketch.component.injEq] at hsketch
        obtain ⟨rfl, hlayers, hbare⟩ := hsketch
        rw [components, List.forall_mem_cons] at henrolled
        obtain ⟨hc, hchildren⟩ := henrolled
        obtain ⟨scope, hscope, hroot, hat⟩ := hc.1.1
        obtain ⟨scope', hscope', hroot', hnext⟩ := Node.placed_component.1 hplaced
        obtain ⟨c', s₁, hrun, hu, hat', hbare', hlayers', hfollows⟩ :=
          Component.receive?_alike h.sound.tidy hat hc.2 hnext hscope' hbare.symm
        have hkeep := hu.keeps.values.keepsForks
        have hc' : Enrolled s₁ i sc.transport root (⟨host, id⟩, c') :=
          ⟨⟨Within.keep ⟨scope', hscope', hroot', hat'⟩ hkeep.keepsScopes, hc.1.2.keep hu.keeps⟩, hfollows⟩
        have hlayers₁ : c'.layers s₁.store = c.layers s.store := by
          rw [hlayers', hnext.layers_congr (hkeep.layers_eq hscope'), hlayers]
        have hbare₁ : c'.bare = c.bare := hbare'.trans hbare
        have hstill : ∀ e ∈ componentsAll host children, Untouched s s₁ e := fun e he =>
          (hchildren e he).1.untouched hu.keeps hu.recalls
        have hup₁ : UpToDate sc s₁ host (depth + 1) (.component id key' c' renders children) := by
          obtain ⟨hks, hup⟩ := hup
          refine ⟨?_, fun m hm => (hup m hm).congr fun e he => hstill e (mem_componentsAll.2 ⟨m, hm, he⟩)⟩
          rw [hlayers₁, hbare₁, hu.recalls.fetchState_eq hc.1.2,
            sketchAll_congr children fun e he => (hstill e he).1]
          exact hks
        refine .bind_run hrun ?_
        refine (rerender_refreshes (ih depth' hle) hle key' renders (h.sound.ready.keep hu.keeps) hu.tidy hc'
          (fun e he => (hchildren e he).keep hu.keeps) hup₁).mono fun m' s₂ ⟨_, hl⟩ => ?_
        refine ⟨hu.trans hl.unshaken, hl.enrolled, hl.upToDate, ?_, ?_, ?_⟩
        · rw [hl.sketch]
          simp only [sketchAll, Mounted.sketch, hlayers₁, hbare₁]
        · rw [hl.bare]
          simp only [bareAll, Mounted.bare, hbare₁]
        · rw [hl.marks]
          unfold Mounted.marks
          simp only [componentsAll_singleton, components, List.map_cons, hlayers₁, hbare₁]
          exact congrArg _ (List.map_congr_left fun e he => by rw [(hstill e he).1])
      | _ => simp [Node.sketch, sketch] at hsketch

end Mounted
end LiveLayout
