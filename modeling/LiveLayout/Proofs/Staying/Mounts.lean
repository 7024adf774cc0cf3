import LiveLayout.Proofs.Refreshing.Targets
import LiveLayout.Proofs.Staying.Rounds
/-!
Layouts side by side while one or another of them is rendered. A flush leaves whatever it does not render where it is,
and after it every proxy shows what its brick has.
-/
namespace LiveLayout

open Engine Mounted

variable {m m' : Mount} {ms : List Mount} {s s' : State} {r : Interpreter}

namespace Mount

/-- The components of a mounted layout, with what is in them. -/
def tenants (m : Mount) : List Tenant := m.host.tenants

theorem line_mem {e : Tenant} (he : e ∈ m.tenants) : e.toLine ∈ m.lines := line_mem_of_mem he

theorem exists_tenant {l : Line} (hl : l ∈ m.lines) : ∃ e ∈ m.tenants, e.toLine = l := by
  rw [lines, ← map_tenantsAll] at hl
  exact List.mem_map.1 hl

/-- Every proxy of the layout that does not wait shows what its brick has. -/
def Attuned (m : Mount) (s : State) : Prop := ∃ r, s.interpreters[m.interpreter]? = some r ∧
  ∀ e ∈ m.tenants, e.id ∈ s.queue m.host.id ∨ e.Shown r.transport s.store

/-- The rows of all lists in the layout, and what fetches show in it, stand in forks. -/
def Housed (m : Mount) (s : State) : Prop := ∃ r, s.interpreters[m.interpreter]? = some r ∧
  ∀ e ∈ m.tenants, e.Housed m.interpreter r.transport s.store

theorem Stands.within_tenants (h : m.Stands s) (hr : s.interpreters[m.interpreter]? = some r) :
    ∀ e ∈ m.tenants, Within s.store m.interpreter r.transport (s.store.root m.scope) e.component := by
  obtain ⟨r', hr', -, hwithin⟩ := h.interpreter
  cases hr.symm.trans hr'
  exact fun e he => hwithin _ (component_mem_of_mem m.host.id he)

theorem UpToDate.attuned (h : m.UpToDate s r) (hm : m.Stands s) : m.Attuned s := by
  refine ⟨r, h.interpreter, fun e he => .inr ?_⟩
  obtain ⟨r', hr', -, hwithin⟩ := hm.interpreter
  cases h.interpreter.symm.trans hr'
  obtain ⟨n, hn, he⟩ := mem_tenantsAll.1 he
  exact (h.roots n hn).shown_tenants rfl (fun c hc => hwithin c (mem_componentsAll.2 ⟨n, hn, hc⟩)) [] e he

end Mount

/-- What waits on the host goes on waiting, and all values, and what decides what is shown, stay. -/
structure Leaves (host : Nat) (s s' : State) : Prop where
  values : s.store.KeepsValues s'.store
  transports : ∀ (i : Nat) r, s.interpreters[i]? = some r →
    ∃ r', s'.interpreters[i]? = some r' ∧ r'.transport = r.transport
  queue : ∀ q ∈ s.queue host, q ∈ s'.queue host

namespace Leaves

variable {host : Nat} {s s' s'' : State}

theorem trans (h : Leaves host s s') (h' : Leaves host s' s'') : Leaves host s s'' := by
  refine ⟨h.values.trans h'.values, fun i r hr => ?_, fun q hq => h'.queue q (h.queue q hq)⟩
  obtain ⟨r', hr', heq⟩ := h.transports i r hr
  obtain ⟨r'', hr'', heq'⟩ := h'.transports i r' hr'
  exact ⟨r'', hr'', heq'.trans heq⟩

theorem of_keeps {waits : Nat → Prop} (hk : KeepsFor waits s s') (hw : waits host) : Leaves host s s' := by
  refine ⟨hk.values, fun i r hr => ?_, fun q hq => hk.queue hw hq⟩
  obtain ⟨r', hr', hlike⟩ := hk.interpreters i r hr
  exact ⟨r', hr', hlike.transport⟩

/-- Steps that leave interpreters and hosts alone. -/
theorem of_hosts (hvalues : s.store.KeepsValues s'.store) (hinterpreters : s'.interpreters = s.interpreters)
    (hhosts : s'.hosts = s.hosts) : Leaves host s s' := by
  refine ⟨hvalues, fun i r hr => ⟨r, hinterpreters ▸ hr, rfl⟩, fun q hq => ?_⟩
  rwa [State.queue_of_hosts hhosts]

theorem refl (host : Nat) (s : State) : Leaves host s s := of_hosts (.refl _) rfl rfl

end Leaves

/-- After rounds of rendering, a component that has been rendered as often as before has stayed, and so has what it has
rendered. All that does not wait shows what it should, if it did before. -/
structure Mount.Endures (m : Mount) (s : State) (m' : Mount) (s' : State) : Prop where
  interpreter : m'.interpreter = m.interpreter
  stays : ∀ r, s.interpreters[m.interpreter]? = some r → ∀ d ∈ m.tenants, ∀ e ∈ m'.tenants, e.id = d.id →
    e.renders = d.renders → d.Stays m.interpreter r.transport e
  attuned : m.Attuned s → m'.Attuned s'
  housed : m.Housed s → m'.Housed s'

namespace Mount

/-- What is left alone stays attuned. -/
theorem Attuned.leaves (h : m.Attuned s) (hm : m.Stands s) (hl : Leaves m.host.id s s') : m.Attuned s' := by
  obtain ⟨r, hr, hshown⟩ := h
  obtain ⟨r', hr', heq⟩ := hl.transports _ r hr
  refine ⟨r', hr', fun e he => (hshown e he).imp (hl.queue _) fun hshown => ?_⟩
  rw [heq]
  exact hshown.keep (hm.within_tenants hr e he) hl.values

theorem Housed.leaves (h : m.Housed s) (hl : Leaves m.host.id s s') : m.Housed s' := by
  obtain ⟨r, hr, hhoused⟩ := h
  obtain ⟨r', hr', heq⟩ := hl.transports _ r hr
  refine ⟨r', hr', fun e he => ?_⟩
  rw [heq]
  exact (hhoused e he).keep hl.values.keepsScopes

theorem Housed.wrote (h : m.Housed s) (hw : Wrote s s') : m.Housed s' := by
  obtain ⟨r, hr, hhoused⟩ := h
  exact ⟨r, hw.interpreters ▸ hr, fun e he => (hhoused e he).keep hw.scopes⟩

/-- A write leaves no proxy behind but those that wait. -/
theorem Attuned.wrote (h : m.Attuned s) (hsteady : Steady (m :: ms) s) (hw : Wrote s s') : m.Attuned s' := by
  obtain ⟨r, hr, hshown⟩ := h
  have hm := hsteady.stands m (List.mem_cons_self ..)
  have hm' := (hsteady.wrote hw).stands m (List.mem_cons_self ..)
  have hwaits {s : State} (hhost : ∃ r, s.host? m.host.id = some r) (id : Nat) :
      id ∈ s.queue m.host.id ↔ s.Waits ⟨m.host.id, id⟩ := by
    obtain ⟨record, hrecord⟩ := hhost
    simp [State.queue, State.Waits, hrecord]
  refine ⟨r, hw.interpreters ▸ hr, fun e he => ?_⟩
  rw [hwaits hm'.host]
  rcases hshown e he with hwait | hshown
  · exact .inl (hw.waits ((hwaits hm.host _).1 hwait))
  · have hwithin := hm.within_tenants hr e he
    have hmem : (⟨m.host.id, e.id⟩, e.component) ∈ mountedComponents (m :: ms) :=
      List.mem_flatMap.2 ⟨m, List.mem_cons_self .., component_mem_of_mem m.host.id he⟩
    by_cases hwait : s'.Waits ⟨m.host.id, e.id⟩
    · exact .inl hwait
    · refine .inr (hshown.congr fun p hp => ?_)
      rw [hp] at hwithin hmem
      obtain ⟨_, -, -, -, rfl, -, hparsed⟩ := hwithin
      exact ⟨hparsed, (hsteady.ledger.told hw hmem).resolve_left hwait⟩

end Mount

/-! ### Flushing -/

/-- What a flush of its own makes of a layout. -/
theorem Steady.flush_endures (h : Steady (m :: ms) s) : Ensures m.host.flush s fun res s' =>
    m.Endures s { m with host := res.1 } s' ∧ s'.queue m.host.id = [] := by
  obtain ⟨r, hr, hready, hheld⟩ := h.focus
  obtain ⟨record, hrecord⟩ := hready.host
  have hheld' : Held s m.interpreter (m.scene s r).transport (s.store.root m.scope) (mountedComponents ms)
      (m.components ++ []) := by rwa [List.append_nil]
  have hle := h.le_lastId hrecord
  intro res s' hrun
  obtain ⟨hendures, hempty⟩ := Host.flush_endures hready ⟨record, hrecord, Nat.le_refl _⟩ hheld' res s' hrun
  obtain ⟨hturned, -⟩ := h.flush_turned res s' hrun
  have heq {d e : Tenant} (hd : d ∈ m.tenants) (he : e ∈ m.tenants) (hid : d.id = e.id) : d = e :=
    eq_of_mem_tenants hheld'.nodup hd he hid
  refine ⟨⟨rfl, fun r' hr' d hd e he hid hrenders => ?_, fun hattuned => ?_, fun hhoused => ?_⟩, hempty⟩
  · cases hr.symm.trans hr'
    rcases hendures.outlasts e he with ⟨d', hd', hstays⟩ | ⟨-, hlt | ⟨d', hd', hid', hlt⟩⟩
    · obtain rfl := heq hd' hd (hstays.id_eq.symm.trans hid)
      exact hstays
    · exact absurd (hle _ (Mount.line_mem hd)) (Nat.not_le.2 (hid ▸ hlt))
    · obtain rfl := heq hd' hd (hid'.trans hid)
      exact absurd hrenders (Nat.ne_of_gt hlt)
  · obtain ⟨r', hr', hshown⟩ := hattuned
    cases hr.symm.trans hr'
    obtain ⟨r', hr', hlike⟩ := hendures.keeps.interpreters _ r hr
    refine ⟨r', hr', fun e he => .inr ?_⟩
    rw [hlike.transport]
    rcases hendures.outlasts e he with ⟨d, hd, hstays⟩ | ⟨hdrawn, -⟩
    · -- What has stayed has not waited.
      obtain ⟨-, hrenders⟩ := hturned _ (Mount.line_mem hd) _ (Mount.line_mem he) hstays.id_eq
      have hnot : d.id ∉ s.queue m.host.id := by
        rw [hstays.renders_eq, Nat.left_eq_add, List.countP_eq_zero] at hrenders
        simpa using hrenders d.id (List.mem_cons_self ..)
      have hd'' := ((hshown d hd).resolve_left hnot).keep (Host.within_tenants hheld' d hd) hendures.keeps.values
      exact hd''.stays hstays
    · exact hdrawn.shown
  · obtain ⟨r', hr', hhoused⟩ := hhoused
    cases hr.symm.trans hr'
    obtain ⟨r', hr', hlike⟩ := hendures.keeps.interpreters _ r hr
    refine ⟨r', hr', fun e he => ?_⟩
    rw [hlike.transport]
    rcases hendures.outlasts e he with ⟨d, hd, hstays⟩ | ⟨hdrawn, -⟩
    · exact ((hhoused d hd).keep hendures.keeps.values.keepsScopes).stays hstays
    · exact hdrawn.housed

namespace Mount.Endures

variable {t : State}

theorem after_leaves (h : m.Endures t m' s') (hm : m.Stands s) (hl : Leaves m.host.id s t) : m.Endures s m' s' := by
  refine ⟨h.interpreter, fun r hr d hd e he hid hrenders => ?_, fun hattuned => h.attuned (hattuned.leaves hm hl),
    fun hhoused => h.housed (hhoused.leaves hl)⟩
  obtain ⟨r', hr', heq⟩ := hl.transports _ r hr
  rw [← heq]
  exact h.stays r' hr' d hd e he hid hrenders

theorem before_leaves (h : m.Endures s m' t) (hm : m'.Stands t) (hl : Leaves m'.host.id t s') : m.Endures s m' s' :=
  ⟨h.interpreter, h.stays, fun hattuned => (h.attuned hattuned).leaves hm hl,
    fun hhoused => (h.housed hhoused).leaves hl⟩

end Mount.Endures

namespace App

variable {a a' : App} {name : String}

/-- Layouts are flushed one after the other, and the given one is still to come, or has been flushed. -/
inductive Enduring (name : String) (m : Mount) (s : State) (done rest : List (String × Mount)) (t : State) : Prop where
  | later (mem : (name, m) ∈ rest) (leaves : Leaves m.host.id s t)
  | flushed {m' : Mount} (mem : (name, m') ∈ done) (id : m'.host.id = m.host.id) (endures : m.Endures s m' t)
    (idle : t.queue m.host.id = [])

theorem Enduring.step {done rest : List (String × Mount)} {t t' : State} {other : String} {k : Mount} {res : Host × Nat}
    (h : Enduring name m s done ((other, k) :: rest) t) (hm : m.Stands s) (hsteady : Steady (k :: ms) t)
    (hmem : ∀ e ∈ done ++ rest, e.2 ∈ ms) (hrun : k.host.flush t = some (res, t')) :
    Enduring name m s (done ++ [(other, { k with host := res.1 })]) rest t' := by
  obtain ⟨-, hk, hqueue, hflushed⟩ := hsteady.flush res t' hrun
  have hne {n : Mount} {name : String} (hn : (name, n) ∈ done ++ rest) : n.host.id ≠ k.host.id := fun heq =>
    (List.nodup_cons.1 hsteady.hosts).1 (List.mem_map.2 ⟨n, hmem _ hn, heq⟩)
  cases h with
  | later mem leaves =>
    rcases List.mem_cons.1 mem with heq | mem
    · cases heq
      obtain ⟨hendures, hempty⟩ := hsteady.flush_endures res t' hrun
      exact .flushed (List.mem_append_right _ (List.mem_singleton_self _)) (hflushed name).id
        (hendures.after_leaves hm leaves) hempty
    · exact .later mem (leaves.trans (.of_keeps hk (hne (List.mem_append_right _ mem))))
  | flushed mem id endures idle =>
    have hne' := hne (List.mem_append_left _ mem)
    have hstands := hsteady.stands _ (List.mem_cons_of_mem _ (hmem _ (List.mem_append_left _ mem)))
    refine .flushed (List.mem_append_left _ mem) id (endures.before_leaves hstands (.of_keeps hk hne')) ?_
    rw [id] at hne'
    refine List.eq_nil_iff_forall_not_mem.2 fun q hq => ?_
    have hold := hqueue _ hne' q hq
    rw [idle] at hold
    cases hold

/-- A flush of all targets lets every layout endure, and leaves nothing waiting. -/
theorem flush_endures (h : a.Consistent s) (hm : Fields.get? a.mounts name = some m) :
    Ensures a.flush s fun res s' => ∃ m', Fields.get? res.1.mounts name = some m' ∧ m'.host.id = m.host.id ∧
      m.Endures s m' s' ∧ s'.queue m.host.id = [] := by
  have hstands := h.steady.stands m (List.mem_map_of_mem (f := (·.2)) (Fields.mem_of_get? hm))
  refine .bind (Ensures.foldlM (I := fun rest b t => Steady ((b.1 ++ rest).map (·.2)) t ∧
    (b.1 ++ rest).map (·.1) = a.mounts.map (·.1) ∧ Enduring name m s b.1 rest t)
    (fun e rest b t hI => ?_) a.mounts ([], 0)
      ⟨h.steady, rfl, .later (Fields.mem_of_get? hm) (.refl _ s)⟩) fun res s' hI => ?_
  · obtain ⟨hsteady, hnames, hturn⟩ := hI
    obtain ⟨other, k⟩ := e
    have hperm : ((b.1 ++ (other, k) :: rest).map (·.2)).Perm (k :: (b.1 ++ rest).map (·.2)) := by
      simp only [List.map_append, List.map_cons]
      exact List.perm_middle
    have hfocus := hsteady.perm hperm
    have hflush : Ensures k.host.flush t fun res t' =>
        Enduring name m s (b.1 ++ [(other, { k with host := res.1 })]) rest t' := fun res t' hrun =>
      hturn.step hstands hfocus (fun e he => List.mem_map_of_mem he) hrun
    refine .bind (hfocus.flush.and hflush) fun res t' hnext => .pure ?_
    obtain ⟨⟨hsteady', -⟩, hturn'⟩ := hnext
    refine ⟨hsteady'.perm ?_, ?_, hturn'⟩
    · simp only [List.append_assoc, List.map_append, List.map_cons, List.singleton_append]
      exact List.perm_middle.symm
    · rw [← hnames]
      simp
  · obtain ⟨-, hnames, hturn⟩ := hI
    rw [List.append_nil] at hnames
    cases hturn with
    | later mem => cases mem
    | flushed mem id endures idle =>
      refine .pure ⟨_, Fields.get?_of_mem ?_ mem, id, endures, idle⟩
      rw [hnames]
      exact h.sorted.nodup

end App
end LiveLayout
