import LiveLayout.Proofs.Engine.Queues
import LiveLayout.Proofs.Fetching.Records
import LiveLayout.Proofs.Mounting.Frame
/-!
Whatever is mounted and updated, and whichever handlers are called, the requests of components that were there
before stay in their states.
-/
namespace LiveLayout

open Engine

variable {host : Nat} {s s' : State}

theorem State.fetchState_congr {i : Instance} (h : s'.record? i = s.record? i) :
    s'.fetchState i = s.fetchState i :=
  congrArg (fun r : Option FetchRecord => (r.map FetchRecord.state).getD .pending) h

/-- The host is still there, and its instances so far have their requests in the same states. -/
def Recalls (host : Nat) (s s' : State) : Prop :=
  ∀ r, s.host? host = some r → ∃ r', s'.host? host = some r' ∧ r.lastId ≤ r'.lastId ∧
    ∀ id ≤ r.lastId, s'.fetchState ⟨host, id⟩ = s.fetchState ⟨host, id⟩

namespace Recalls

theorem refl (s : State) : Recalls host s s := fun r hr => ⟨r, hr, Nat.le_refl _, fun _ _ => rfl⟩

theorem trans {s'' : State} (h : Recalls host s s') (h' : Recalls host s' s'') : Recalls host s s'' := by
  intro r hr
  obtain ⟨r', hr', hle, hstate⟩ := h r hr
  obtain ⟨r'', hr'', hle', hstate'⟩ := h' r' hr'
  exact ⟨r'', hr'', Nat.le_trans hle hle', fun id hid =>
    (hstate' id (Nat.le_trans hid hle)).trans (hstate id hid)⟩

theorem of_hosts (h : s'.hosts = s.hosts) (hf : ∀ i, s'.fetchState i = s.fetchState i) : Recalls host s s' :=
  fun r hr => ⟨r, by rwa [State.host?, h], Nat.le_refl _, fun _ _ => hf _⟩

instance : Lenient (Recalls host) where
  of_undisturbed h := of_hosts h.hosts fun i => State.fetchState_congr (by simp [State.record?, h.fetches])
  trans h h' := h.trans h'

theorem fetchState_eq (h : Recalls host s s') {id : Nat} (hid : Numbered s [⟨host, id⟩]) :
    s'.fetchState ⟨host, id⟩ = s.fetchState ⟨host, id⟩ := by
  obtain ⟨r, hr, hle⟩ := hid _ (List.mem_singleton_self _)
  obtain ⟨_, -, -, hstate⟩ := h r hr
  exact hstate id hle

/-- Changing the records of hosts leaves those of requests. -/
theorem modifyHost (other : Nat) {f : HostRecord → HostRecord} (hid : ∀ r, (f r).id = r.id)
    (hlast : ∀ r, r.lastId ≤ (f r).lastId) : Always (Recalls host) (modifyHost other f) := by
  refine .modify fun s r hr => ?_
  refine ⟨if r.id = other then f r else r, ?_, ?_, fun _ _ => rfl⟩
  · rw [host?_modifyHost s other hid, hr, Option.map_some]
  · split
    · exact hlast r
    · exact Nat.le_refl _

theorem invalidate (i : Instance) : Always (Recalls host) (Engine.invalidate i) :=
  modifyHost i.host (fun _ => rfl) fun _ => Nat.le_refl _

end Recalls

/-- A handler that is called touches no request. -/
theorem Engine.call_recalls (h : Handler) (args : List Json) : Always (Recalls host) (call h args) :=
  call_always Recalls.invalidate h args

theorem Invalidates.host? {P : Instance → Prop} (h : Invalidates P s s') {r : HostRecord}
    (hr : s.host? host = some r) : ∃ r', s'.host? host = some r' ∧ r'.lastId = r.lastId := by
  obtain ⟨added, -, hs⟩ := h
  refine ⟨{ r with queue := r.queue ++ added r.id }, ?_, rfl⟩
  rw [State.host?, hs, List.find?_map]
  exact Option.map_eq_some_iff.2 ⟨r, hr, rfl⟩

namespace Component

variable {self : Instance}

/-- A component that is mounted touches no request but its own. -/
theorem mount_fetchState (c : Component) (self : Instance) (s : State) :
    Ensures (c.mount self) s fun _ s' => ∀ i, i ≠ self → s'.fetchState i = s.fetchState i := by
  by_cases hc : ∃ f, c = .fetch f
  · obtain ⟨f, rfl⟩ := hc
    obtain ⟨own, s', hrun, hs⟩ := f.mount_sends self s
    refine .bind_run hrun (.pure fun i hi => State.fetchState_congr ?_)
    rw [hs.record, if_neg hi]
  · refine (mount_calm fun f h => hc ⟨f, h⟩) s |>.mono fun _ s' h i _ => State.fetchState_congr ?_
    simp [State.record?, h.fetches]

theorem unmount_recalls (c : Component) : Always (Recalls host) (c.unmount self) := by
  refine unmount_always c (fun _ _ s => ?_) fun _ _ _ => Recalls.invalidate
  obtain ⟨s', hrun, -, hhosts, hrecord⟩ := Fetch.unmount_records self s
  refine .of_run hrun (.of_hosts hhosts fun i => ?_)
  by_cases hi : i = self
  · -- Its record is marked, and the state in it stays.
    subst hi
    unfold State.fetchState
    rw [← State.record?, ← State.record?, hrecord, if_pos rfl, Option.map_map]
    rfl
  · exact State.fetchState_congr (by rw [hrecord, if_neg hi])

theorem render_recalls (c : Component) (depth : Nat) :
    Always (Recalls host) (c.render (Renderer.upTo depth) self) :=
  render_always (Renderer.upTo_calm depth) c fun _ _ _ => Recalls.invalidate self

end Component

namespace Mounted

variable {own : Nat}

theorem unmount_recalls (m : Mounted) : Always (Recalls host) (m.unmount own) :=
  m.unmount_always fun c _ => c.unmount_recalls

theorem unmountAll_recalls (ms : List Mounted) : Always (Recalls host) (unmountAll own ms) :=
  unmountAll_always (fun c _ => c.unmount_recalls) ms

/-- A number that is given out is none of those that the host has given out before. -/
theorem nextInstance_recalls (own : Nat) (s : State) : Ensures (nextInstance own) s fun self s' =>
    Recalls host s s' ∧ ∀ r, s.host? host = some r → ∀ id ≤ r.lastId, (⟨host, id⟩ : Instance) ≠ self := by
  refine .bind_run (modify_run _ s) (.bind_run rfl (.pure ⟨?_, fun r hr id hle => ?_⟩))
  · exact Recalls.modifyHost own (f := fun h => { h with lastId := h.lastId + 1 }) (fun _ => rfl)
      (fun _ => Nat.le_succ _) s () _ rfl
  · rintro ⟨rfl, rfl⟩
    have hrecord := host?_modifyHost s host (f := fun h => { h with lastId := h.lastId + 1 }) (fun _ => rfl) host
    have hid : r.id = host := by simpa using List.find?_some hr
    rw [hr, Option.map_some, if_pos hid] at hrecord
    unfold State.host? at hrecord
    simp only [hrecord, Option.map_some, Option.getD_some] at hle
    exact absurd hle (Nat.not_succ_le_self _)

/-- Whatever goes on from a component that has entered, it recalls the requests from before. -/
theorem enter_recalls {α : Type} (key : Option String) (c : Component) {f : Instance → Component → Engine α}
    (hf : ∀ self c, Always (Recalls host) (f self c)) : Always (Recalls host) (do
      let self ← nextInstance own
      trace (.mounted c.name key)
      f self (← c.mount self)) := by
  intro s
  refine .bind (@nextInstance_recalls host own s) fun self s₁ ⟨h₁, hself⟩ => ?_
  refine .bind ((Always.trace (R := Undisturbed) _) s₁) fun _ s₂ h₂ => ?_
  have hold : Recalls host s s₂ := h₁.trans (Lenient.of_undisturbed h₂)
  have hqueues : Queues (fun _ => True) (c.mount self) := c.mount_queues trivial
  have hmount := (hqueues s₂).and (c.mount_fetchState self s₂)
  refine .bind hmount fun c' s₃ ⟨hqueued, hstate⟩ => (hf self c' s₃).mono fun _ s' h => Recalls.trans ?_ h
  intro r hr
  obtain ⟨r₂, hr₂, hle, hstate₂⟩ := hold r hr
  obtain ⟨r₃, hr₃, hlast⟩ := hqueued.host? hr₂
  exact ⟨r₃, hr₃, hlast ▸ hle, fun id hid => (hstate _ (hself r hr id hid)).trans (hstate₂ id hid)⟩

theorem mount_recalls (depth : Nat) (n : Node) : Always (Recalls host) (mount own depth n) := by
  induction depth generalizing n with
  | zero => exact .endless
  | succ depth ih =>
    cases n with
    | primitive v => exact .pure _
    | element tag key props children => exact (Always.mapM ih children).bind fun _ => .pure _
    | fragment key children => exact (Always.mapM ih children).bind fun _ => .pure _
    | component key c =>
      exact enter_recalls key c fun self c' => (c'.render_recalls depth).bind fun nodes =>
        (Always.mapM ih nodes).bind fun _ => .pure _

theorem reconcile_recalls {update : Mounted → Node → Engine Mounted}
    (hupdate : ∀ m n, Always (Recalls host) (update m n)) (depth : Nat)
    (old : List Mounted) (new : List Node) : Always (Recalls host) (reconcile own depth update old new) := by
  unfold reconcile
  dsimp only
  refine (Always.mapM (fun e => ?_) _).bind fun _ => (unmountAll_recalls _).bind fun _ => .pure _
  split
  · exact hupdate _ _
  · exact mount_recalls depth _

theorem rerender_recalls {update : Mounted → Node → Engine Mounted}
    (hupdate : ∀ m n, Always (Recalls host) (update m n)) (depth id : Nat) (key : Option String)
    (c : Component) (renders : Nat) (children : List Mounted) :
    Always (Recalls host) (rerender own depth update id key c renders children) :=
  (c.render_recalls depth).bind fun nodes => .bind (.trace _) fun _ =>
    (reconcile_recalls hupdate depth children nodes).bind fun _ => .pure _

theorem update_recalls (depth : Nat) (m : Mounted) (n : Node) :
    Always (Recalls host) (update own depth m n) := by
  induction depth generalizing m n with
  | zero => exact .endless
  | succ depth ih =>
    unfold update
    split
    · exact .pure _
    · exact (reconcile_recalls ih depth _ _).bind fun _ => .pure _
    · exact (reconcile_recalls ih depth _ _).bind fun _ => .pure _
    · refine (Component.receive?_calm _ _).always.bind fun received => ?_
      split
      · exact rerender_recalls ih depth _ _ _ _ _
      · exact (unmount_recalls _).bind fun _ => mount_recalls (depth + 1) _
    · exact (unmount_recalls _).bind fun _ => mount_recalls (depth + 1) _

end Mounted

namespace Host

theorem render_recalls (h : Host) (nodes : List Node) : Always (Recalls host) (h.render nodes) :=
  (Mounted.reconcile_recalls (Mounted.update_recalls depthLimit) depthLimit h.roots nodes).bind fun _ => .pure _

theorem clearQueue_recalls (h : Host) : Always (Recalls host) h.clearQueue :=
  Recalls.modifyHost h.id (fun _ => rfl) fun _ => Nat.le_refl _

theorem rerenderAll_recalls (ids : List Nat) (h : Host) (count : Nat) :
    Always (Recalls host) (h.rerenderAll count ids) := by
  induction ids generalizing h count with
  | nil => exact .pure _
  | cons id rest ih =>
    unfold rerenderAll
    split
    · exact (Mounted.rerender_recalls (Mounted.update_recalls depthLimit) depthLimit _ _ _ _ _).bind fun _ => ih _ _
    · exact .bind (.trace _) fun _ => ih h count

theorem flushRounds_recalls (rounds : Nat) (h : Host) (count : Nat) :
    Always (Recalls host) (h.flushRounds count rounds) := by
  have hqueue (h : Host) : Always (Recalls host) h.queue := .bind (.bind .get fun _ => .pure _) fun _ => .pure _
  induction rounds generalizing h count with
  | zero =>
    refine (hqueue h).bind fun pending => h.clearQueue_recalls.bind fun _ => ?_
    split
    · exact .bind (.log _) fun _ => .pure _
    · exact .pure _
  | succ rounds ih =>
    refine (hqueue h).bind fun pending => h.clearQueue_recalls.bind fun _ => ?_
    split
    · exact .pure _
    · exact (rerenderAll_recalls _ h count).bind fun _ => ih _ _

theorem flush_recalls (h : Host) : Always (Recalls host) h.flush := flushRounds_recalls roundLimit h 0

/-- A host that is dropped leaves the others as they are. -/
theorem drop_recalls (h : Host) (hne : h.id ≠ host) : Always (Recalls host) h.drop := by
  have hclear : Always (Recalls host) h.clear :=
    (Mounted.unmountAll_recalls h.roots).bind fun _ => h.clearQueue_recalls.bind fun _ => .pure _
  refine hclear.bind fun _ => .modify fun s r hr => ⟨r, ?_, Nat.le_refl _, fun _ _ => rfl⟩
  rw [State.host?, List.find?_filter]
  refine (congrArg (List.find? · s.hosts) (funext fun r' => ?_)).trans hr
  by_cases hid : r'.id = host
  · simp [hid, hne.symm]
  · simp [hid]

end Host
end LiveLayout
