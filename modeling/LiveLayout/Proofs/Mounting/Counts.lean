import LiveLayout.Proofs.Engine.Queues
import LiveLayout.Proofs.Mounting.Depicted
import LiveLayout.Proofs.Mounting.Lines
/-!
Whoever stays in a tree that is updated renders once more, and so does whoever stays in a component that is
rendered again. What is queued meanwhile has been mounted meanwhile.
-/
namespace LiveLayout

open Engine

/-! ### What is queued -/

theorem State.queue_of_hosts {s s' : State} (h : s'.hosts = s.hosts) (id : Nat) : s'.queue id = s.queue id := by
  unfold State.queue State.host?
  rw [h]

/-- What is queued after invalidations was queued before, or has been invalidated. -/
theorem Invalidates.queue {P : Instance → Prop} {s s' : State} (h : Invalidates P s s') (id : Nat) :
    ∀ q ∈ s'.queue id, q ∈ s.queue id ∨ P ⟨id, q⟩ := by
  obtain ⟨added, hadded, hhosts⟩ := h
  intro q hq
  unfold State.queue State.host? at hq ⊢
  rw [hhosts, List.find?_map] at hq
  simp only [Function.comp_def] at hq
  cases hr : s.hosts.find? (·.id = id) with
  | none => simp [hr] at hq
  | some r =>
    have hid : r.id = id := by simpa using List.find?_some hr
    rw [hr, Option.map_some, Option.map_some, Option.getD_some, List.mem_append, hid] at hq
    exact hq.imp_right (hadded id q)

/-- A change of one host's record that leaves its queue alone leaves all queues alone. -/
theorem queue_modifyHost (s : State) (host : Nat) {f : HostRecord → HostRecord} (hf : ∀ r, (f r).id = r.id)
    (hqueue : ∀ r, (f r).queue = r.queue) (id : Nat) :
    State.queue { s with hosts := s.hosts.map fun h => if h.id = host then f h else h } id = s.queue id := by
  unfold State.queue
  rw [host?_modifyHost s host hf, Option.map_map]
  congr 2
  funext r
  dsimp only [Function.comp]
  split
  · exact hqueue r
  · rfl

/-- Steps on the trees of a host. What they queue are components of that host with numbers after the given
one. -/
structure Stirs (host last : Nat) (s s' : State) : Prop where
  keeps : Keeps s s'
  queue : ∀ id, ∀ q ∈ s'.queue id, q ∈ s.queue id ∨ id = host ∧ last < q

/-- The host has given out the number. -/
def GivenOut (host last : Nat) (s : State) : Prop := ∃ r, s.host? host = some r ∧ last ≤ r.lastId

section

variable {host last : Nat} {s s' s'' : State}

theorem GivenOut.keep {waits : Nat → Prop} (h : GivenOut host last s) (hk : KeepsFor waits s s') :
    GivenOut host last s' := by
  obtain ⟨r, hr, hle⟩ := h
  obtain ⟨r', hr', hg⟩ := hk.hosts _ r hr
  exact ⟨r', hr', Nat.le_trans hle hg.lastId⟩

namespace Stirs

theorem refl (host last : Nat) (s : State) : Stirs host last s s := ⟨.refl s, fun _ _ hq => .inl hq⟩

theorem trans (h : Stirs host last s s') (h' : Stirs host last s' s'') : Stirs host last s s'' :=
  ⟨h.keeps.trans h'.keeps, fun id q hq => (h'.queue id q hq).elim (h.queue id q) .inr⟩

theorem of_hosts (hk : Keeps s s') (h : s'.hosts = s.hosts) : Stirs host last s s' := by
  refine ⟨hk, fun id q hq => ?_⟩
  rw [State.queue_of_hosts h] at hq
  exact .inl hq

theorem of_forked (h : Forked s s') : Stirs host last s s' := of_hosts h.keeps h.hosts

theorem of_invalidates {P : Instance → Prop} (hk : Keeps s s') (h : Invalidates P s s')
    (hP : ∀ i, P i → i.host = host ∧ last < i.id) : Stirs host last s s' :=
  ⟨hk, fun id q hq => (h.queue id q hq).imp_right (hP ⟨id, q⟩)⟩

end Stirs
end

/-! ### Trees -/

namespace Mounted

variable {host last i root : Nat} {sc : Scene} {s s' : State}

mutual

/-- Unmounting what comes from layouts queues nothing. -/
theorem unmount_queues {P : Instance → Prop} : (m : Mounted) → (∀ e ∈ m.components host, e.2.OfLayout) →
    Queues P (m.unmount host)
  | .primitive _, _ => .pure _
  | .element _ _ _ children, h => unmountAll_queues children h
  | .component id key c _ children, h => by
    rw [components, List.forall_mem_cons] at h
    refine .bind (.trace _) fun _ => .bind (c.unmount_queues _ ?_) fun _ => unmountAll_queues children h.2
    rintro p kids rfl
    obtain ⟨_, _, _, hat⟩ := h.1
    exact hat.elim
  | .fragment _ children, h => unmountAll_queues children h

theorem unmountAll_queues {P : Instance → Prop} : (ms : List Mounted) →
    (∀ e ∈ componentsAll host ms, e.2.OfLayout) → Queues P (unmountAll host ms)
  | [], _ => .pure _
  | m :: rest, h => by
    rw [componentsAll, List.forall_mem_append] at h
    exact .bind (unmount_queues m h.1) fun _ => unmountAll_queues rest h.2

end

theorem unmount_stirs (last : Nat) (m : Mounted) (s : State) (h : ∀ e ∈ m.components host, e.2.OfLayout) :
    ∃ s', m.unmount host s = some ((), s') ∧ Stirs host last s s' := by
  obtain ⟨s', hrun, hk⟩ := unmount_run m s h
  have hqueues : Queues (fun _ => False) (m.unmount host) := unmount_queues m h
  exact ⟨s', hrun, .of_invalidates hk (hqueues s _ _ hrun) fun _ => False.elim⟩

theorem unmountAll_stirs (last : Nat) (ms : List Mounted) (s : State)
    (h : ∀ e ∈ componentsAll host ms, e.2.OfLayout) :
    ∃ s', unmountAll host ms s = some ((), s') ∧ Stirs host last s s' := by
  obtain ⟨s', hrun, hk⟩ := unmountAll_run ms s h
  have hqueues : Queues (fun _ => False) (unmountAll host ms) := unmountAll_queues ms h
  exact ⟨s', hrun, .of_invalidates hk (hqueues s _ _ hrun) fun _ => False.elim⟩

/-- All components have numbers after the given one. -/
def Young (host last : Nat) (ms : List Mounted) : Prop := ∀ e ∈ componentsAll host ms, last < e.1.id

theorem Young.append {ms ns : List Mounted} (h : Young host last ms) (h' : Young host last ns) :
    Young host last (ms ++ ns) := by
  unfold Young
  rw [componentsAll_append, List.forall_mem_append]
  exact ⟨h, h'⟩

theorem Young.regrown {ms : List Mounted} (h : Young host last ms) (again : List Nat → Nat) (above : List Nat)
    (old : List Line) : Regrown last again old (linesAll above ms) := by
  refine .of_young fun l hl => ?_
  obtain ⟨e, he, heq⟩ := List.mem_map.1 ((mem_ids_iff host _).1 (List.mem_map_of_mem hl))
  have hlt := h e he
  rwa [heq] at hlt

/-- How mounting a component begins: it gets a number after all that have been given out, and whatever is
queued is the component itself. -/
theorem enter_stirs {c : Component} (hs : Ready s host i root sc) (hlast : GivenOut host last s)
    (hc : Within s.store i sc.transport root c) (key : Option String) : ∃ id c' s₁ s₂ s',
      nextInstance host s = some (⟨host, id⟩, s₁) ∧ trace (.mounted c.name key) s₁ = some ((), s₂) ∧
      c.mount ⟨host, id⟩ s₂ = some (c', s') ∧ Entered s host i root sc c id c' s' ∧ last < id ∧
      Stirs host last s s' := by
  obtain ⟨id, c', s₁, s₂, s', hnext, htrace, hmount, he⟩ := enter hs hc key
  obtain ⟨r, hr, hle⟩ := hlast
  obtain ⟨t, hnext', -, -, -, -⟩ := nextInstance_run hr
  obtain ⟨hid, rfl⟩ : r.lastId + 1 = id ∧ t = s₁ := by
    rw [hnext] at hnext'
    simpa [eq_comm] using hnext'
  have hlt : last < id := by
    rw [← hid]
    exact Nat.lt_succ_of_le hle
  refine ⟨id, c', t, s₂, s', hnext, htrace, hmount, he, hlt, he.keeps, fun j q hq => ?_⟩
  have hsame : t.queue j = s.queue j := by
    obtain ⟨-, rfl⟩ := Prod.mk.inj (Option.some.inj hnext)
    exact queue_modifyHost s host (f := fun h => { h with lastId := h.lastId + 1 }) (fun _ => rfl) (fun _ => rfl) j
  have hqueues : Queues (· = ⟨host, id⟩) (do trace (.mounted c.name key); c.mount ⟨host, id⟩) :=
    .bind (.trace _) fun _ => c.mount_queues (P := (· = ⟨host, id⟩)) rfl
  have hrun : (do trace (.mounted c.name key); c.mount ⟨host, id⟩) t = some (c', s') := by
    rw [bind_run, htrace]
    exact hmount
  rw [← hsame]
  refine ((hqueues t c' s' hrun).queue j q hq).imp_right ?_
  rintro ⟨⟩
  exact ⟨rfl, hlt⟩

/-- Nodes are mounted one after the other, given how one node is. -/
theorem mountAll_young {depth : Nat} (hmount : ∀ s n, Ready s host i root sc → GivenOut host last s →
      n.Placed (Within s.store i sc.transport root) →
      Ensures (mount host depth n) s fun m s' => Stirs host last s s' ∧ Young host last [m])
    (nodes : List Node) (hs : Ready s host i root sc) (hlast : GivenOut host last s)
    (hn : ∀ n ∈ nodes, n.Placed (Within s.store i sc.transport root)) :
    Ensures (nodes.mapM (mount host depth)) s fun ms s' => Stirs host last s s' ∧ Young host last ms := by
  refine (Ensures.mapM (I := fun rest done t => Stirs host last s t ∧ Young host last done ∧
    ∀ n ∈ rest, n.Placed (Within s.store i sc.transport root)) (fun n rest done t h => ?_)
    nodes [] ⟨.refl host last s, nofun, hn⟩).mono fun ms s' h => ⟨h.1, h.2.1⟩
  obtain ⟨hstirs, hdone, hrest⟩ := h
  rw [List.forall_mem_cons] at hrest
  have hk := hstirs.keeps
  have step := hmount t n (hs.keep hk) (hlast.keep hk) (hrest.1.mono fun _ hw => hw.keep hk.values.keepsScopes)
  exact step.mono fun m t' h => ⟨hstirs.trans h.1, hdone.append h.2, hrest.2⟩

/-- Whatever is mounted is young. -/
theorem mount_young (depth : Nat) : ∀ s n, Ready s host i root sc → GivenOut host last s →
    n.Placed (Within s.store i sc.transport root) →
    Ensures (mount host depth n) s fun m s' => Stirs host last s s' ∧ Young host last [m] := by
  induction depth with
  | zero => exact fun _ _ _ _ _ => .endless
  | succ depth ih =>
    intro s n hs hlast hn
    cases n with
    | primitive v => exact .pure ⟨.refl host last s, nofun⟩
    | element tag key props children =>
      refine .bind (mountAll_young ih children hs hlast (Node.placed_element.1 hn)) fun ms s' h => .pure ⟨h.1, ?_⟩
      exact fun e he => h.2 e (by simpa [components] using he)
    | fragment key children =>
      refine .bind (mountAll_young ih children hs hlast (Node.placed_fragment.1 hn)) fun ms s' h => .pure ⟨h.1, ?_⟩
      exact fun e he => h.2 e (by simpa [components] using he)
    | component key c =>
      obtain ⟨id, c', s₁, s₂, s₃, hnext, htrace, hmount, he, hlt, hstirs⟩ :=
        enter_stirs hs hlast (Node.placed_component.1 hn) key
      refine .bind_run hnext (.bind_run htrace (.bind_run hmount ?_))
      refine .bind (he.yields hs depth).ensures fun nodes s₄ h => ?_
      obtain ⟨ks, -, hf, hd⟩ := h
      have h₄ := hstirs.trans (.of_forked hf)
      refine .bind (mountAll_young ih nodes (hs.keep h₄.keeps) (hlast.keep h₄.keeps) hd.placed) fun ms s₅ h => ?_
      refine .pure ⟨h₄.trans h.1, fun e hmem => ?_⟩
      rw [componentsAll_singleton, components] at hmem
      rcases List.mem_cons.1 hmem with rfl | hmem
      · exact hlt
      · exact h.2 e hmem

/-- Updating what comes from layouts to a node that fits: every component that stays renders once more. -/
def Renews (host i : Nat) (root : Scope) (sc : Scene) (last : Nat) (update : Mounted → Node → Engine Mounted) :
    Prop :=
  ∀ s m n, Reconcile.Fits m n → (∀ e ∈ m.components host, e.2.OfLayout) → Ready s host i root sc →
    GivenOut host last s → n.Placed (Within s.store i sc.transport root) →
    Ensures (update m n) s fun m' s' => Stirs host last s s' ∧
      ∀ above, Regrown last (fun _ => 1) (m.lines above) (m'.lines above)

theorem Renews.reconcile {update : Mounted → Node → Engine Mounted} (h : Renews host i root sc last update)
    (depth : Nat) {old : List Mounted} (hold : ∀ e ∈ componentsAll host old, e.2.OfLayout) {nodes : List Node}
    (hs : Ready s host i root sc) (hlast : GivenOut host last s)
    (hn : ∀ n ∈ nodes, n.Placed (Within s.store i sc.transport root)) :
    Ensures (reconcile host depth update old nodes) s fun ms s' => Stirs host last s s' ∧
      ∀ above, Regrown last (fun _ => 1) (linesAll above old) (linesAll above ms) := by
  have hperm := Reconcile.perm_assign (old.map some) 0 nodes
  have hmap := Reconcile.map_snd_assign (old.map some) 0 nodes
  have hfits := @Reconcile.fits_of_mem_assign (old.map some) 0 nodes
  unfold Mounted.reconcile
  generalize Reconcile.assign (old.map some) 0 nodes = assigned at hperm hmap hfits
  obtain ⟨pairs, left⟩ := assigned
  rw [List.filterMap_map, Function.id_comp, List.filterMap_some] at hperm
  subst hmap
  have hmem : ∀ m ∈ pairs.filterMap (·.1) ++ left, m ∈ old := fun m => hperm.mem_iff.2
  have htaken : ∀ e ∈ pairs, (∀ m, e.1 = some m → Reconcile.Fits m e.2 ∧ m ∈ old) ∧
      e.2.Placed (Within s.store i sc.transport root) := by
    intro e he
    refine ⟨fun m hm => ⟨hfits (by rw [← hm]; exact he), hmem m ?_⟩, hn e.2 (List.mem_map_of_mem he)⟩
    exact List.mem_append_left _ (List.mem_filterMap.2 ⟨e, he, hm⟩)
  refine .bind (Ensures.mapM (I := fun rest done t => Stirs host last s t ∧
    (∀ above, Regrown last (fun _ => 1) (linesAll above old) (linesAll above done)) ∧
    ∀ e ∈ rest, (∀ m, e.1 = some m → Reconcile.Fits m e.2 ∧ m ∈ old) ∧
      e.2.Placed (Within s.store i sc.transport root))
    (fun e rest done t hI => ?_) pairs [] ⟨.refl host last s, fun _ => .nil, htaken⟩) fun ms t hI => ?_
  · obtain ⟨hstirs, hdone, hrest⟩ := hI
    obtain ⟨m, n⟩ := e
    rw [List.forall_mem_cons] at hrest
    obtain ⟨⟨hm, hplaced⟩, hrest⟩ := hrest
    have hk := hstirs.keeps
    have ht := hs.keep hk
    have hplaced := hplaced.mono fun _ hw => hw.keep hk.values.keepsScopes
    refine .mono (Q := fun m' t' => Stirs host last t t' ∧
      ∀ above, Regrown last (fun _ => 1) (linesAll above old) (m'.lines above)) ?_ fun m' t' h => ?_
    · cases m with
      | none =>
        refine (mount_young depth t n ht (hlast.keep hk) hplaced).mono fun m' t' h => ⟨h.1, fun above => ?_⟩
        have hlines := h.2.regrown (fun _ => 1) above (linesAll above old)
        rwa [linesAll, linesAll, List.append_nil] at hlines
      | some m =>
        obtain ⟨hfit, hin⟩ := hm m rfl
        have hlayout : ∀ e ∈ m.components host, e.2.OfLayout := fun e he =>
          hold e (mem_componentsAll.2 ⟨m, hin, he⟩)
        refine (h t m n hfit hlayout ht (hlast.keep hk) hplaced).mono fun m' t' h => ⟨h.1, fun above => ?_⟩
        exact (h.2 above).mono fun l hl => mem_linesAll.2 ⟨m, hin, hl⟩
    · refine ⟨hstirs.trans h.1, fun above => ?_, hrest⟩
      rw [linesAll_append, linesAll, linesAll, List.append_nil]
      exact (hdone above).append (h.2 above)
  · obtain ⟨hstirs, hdone, -⟩ := hI
    have hleft : ∀ e ∈ componentsAll host left, e.2.OfLayout := by
      intro e he
      obtain ⟨m, hin, he⟩ := mem_componentsAll.1 he
      exact hold e (mem_componentsAll.2 ⟨m, hmem m (List.mem_append_right _ hin), he⟩)
    obtain ⟨u, hrun, hu⟩ := unmountAll_stirs last left t hleft
    exact .bind_run hrun (.pure ⟨hstirs.trans hu, hdone⟩)

/-- A component that renders again, and whatever stays in it, render once more. -/
theorem Renews.rerender {update : Mounted → Node → Engine Mounted} (h : Renews host i root sc last update)
    (depth id : Nat) (key : Option String) {c : Component} (renders : Nat) {children : List Mounted}
    (hchildren : ∀ e ∈ componentsAll host children, e.2.OfLayout) (hs : Ready s host i root sc)
    (hlast : GivenOut host last s) {scope : Nat} (hscope : scope < s.store.levels.size)
    (hroot : s.store.root scope = root) {tr : Bool} (hat : c.At i tr scope) :
    Ensures (rerender host depth update id key c renders children) s fun m s' => Stirs host last s s' ∧
      ∃ next, m = .component id key c (renders + 1) next ∧
        ∀ above, Regrown last (fun _ => 1) (linesAll above children) (linesAll above next) := by
  refine .bind (c.render_meets hs.onStage hscope hroot hat ⟨host, id⟩ depth).ensures fun nodes s₁ h₁ => ?_
  obtain ⟨hf, hplaced, -⟩ := h₁
  obtain ⟨_, s₂, htrace, hq⟩ := silent_trace (.rerendered c.name key (renders + 1)) s₁
  have hf₂ := hf.trans hq.forked
  rw [← hq.store] at hplaced
  refine .bind_run htrace (.bind (h.reconcile depth hchildren (hs.keep hf₂.keeps) (hlast.keep hf₂.keeps) hplaced)
    fun next s₃ h₃ => .pure ⟨(Stirs.of_forked hf₂).trans h₃.1, next, rfl, h₃.2⟩)

theorem update_renews (depth : Nat) : Renews host i root sc last (update host depth) := by
  induction depth with
  | zero => exact fun _ _ _ _ _ _ _ _ => .endless
  | succ depth ih =>
    intro s m n hfits hm hs hlast hn
    -- A node of another kind, or one that is refused, takes the place of the old one.
    have replace {s₁ : State} (h₁ : Stirs host last s s₁) :
        Ensures (do m.unmount host; mount host (depth + 1) n) s₁ fun m' s' => Stirs host last s s' ∧
          ∀ above, Regrown last (fun _ => 1) (m.lines above) (m'.lines above) := by
      obtain ⟨s₂, hrun, h₂⟩ := unmount_stirs last m s₁ hm
      have h₂ := h₁.trans h₂
      have hplaced := hn.mono fun _ hw => hw.keep h₂.keeps.values.keepsScopes
      refine .bind_run hrun ((mount_young (depth + 1) s₂ n (hs.keep h₂.keeps) (hlast.keep h₂.keeps) hplaced).mono
        fun m' s' h => ⟨h₂.trans h.1, fun above => ?_⟩)
      have hlines := h.2.regrown (fun _ => 1) above (m.lines above)
      rwa [linesAll, linesAll, List.append_nil] at hlines
    cases m with
    | primitive v =>
      cases n with
      | primitive v' => exact .pure ⟨.refl host last s, fun _ => .nil⟩
      | _ => exact replace (.refl host last s)
    | element tag key props old =>
      cases n with
      | element tag' key' props' new =>
        exact .bind (ih.reconcile depth hm hs hlast (Node.placed_element.1 hn)) fun ms s' h => .pure h
      | _ => exact replace (.refl host last s)
    | fragment key old =>
      cases n with
      | fragment key' new =>
        exact .bind (ih.reconcile depth hm hs hlast (Node.placed_fragment.1 hn)) fun ms s' h => .pure h
      | _ => exact replace (.refl host last s)
    | component id key c renders children =>
      cases n with
      | component newKey next =>
        obtain ⟨scope, hscope, hroot, hnext⟩ := Node.placed_component.1 hn
        obtain ⟨r, s₁, hrun, hk, hr⟩ := c.receive?_run (hm _ (List.mem_cons_self ..)) hnext s
        have hqueues : Queues (fun _ => False) (c.receive? next) := (c.receive?_calm next).always
        have h₁ : Stirs host last s s₁ := .of_invalidates hk (hqueues s _ _ hrun) fun _ => False.elim
        refine .bind_run hrun ?_
        cases r with
        | none => exact replace h₁
        | some c' =>
          obtain ⟨⟨tr, hat'⟩, -, -, -⟩ := hr c' rfl
          have hkeep := hk.values.keepsForks.keepsScopes
          refine (ih.rerender depth id key renders (fun e he => hm e (List.mem_cons_of_mem _ he)) (hs.keep hk)
            (hlast.keep hk) (hkeep.lt_size hscope) ((hkeep.root_eq hscope).trans hroot) hat').mono fun m' s' h => ?_
          obtain ⟨hstirs, next', rfl, hlines⟩ := h
          exact ⟨h₁.trans hstirs, fun above => (hlines (id :: above)).cons id above renders⟩
      | _ => exact replace (.refl host last s)

end Mounted
end LiveLayout
