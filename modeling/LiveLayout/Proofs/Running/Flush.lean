import LiveLayout.Proofs.Mounting.Turns
import LiveLayout.Proofs.Running.Steady
/-!
Flushing all targets, one after the other. Each layout is renewed by its own flush, and the others leave it
as it is.
-/
namespace LiveLayout

open Engine Mounted

/-- Whether a component waits to be rendered again, by the number of its instance. -/
def Mount.Waits (m : Mount) (s : State) (e : Instance × Component) : Prop :=
  e.1 ∈ (s.queue m.host.id).map (Instance.mk m.host.id)

namespace Mount

/-- The components of a mounted layout, with those they lie in and how often they have rendered. -/
def lines (m : Mount) : List Line := linesAll [] m.host.roots

/-- What has stayed mounted lies where it lay, and has rendered once for each component that waited and in
which it lies. -/
def Turned (s : State) (m m' : Mount) : Prop := ∀ l ∈ m.lines, ∀ l' ∈ m'.lines, l'.id = l.id →
  l'.above = l.above ∧ l'.renders = l.renders + l.path.countP (· ∈ s.queue m.host.id)

variable {s s' : State} {m m' : Mount}

theorem Turned.of_queue (h : m.Turned s' m') (hq : ∀ q, q ∈ s'.queue m.host.id ↔ q ∈ s.queue m.host.id) :
    m.Turned s m' := by
  intro l hl l' hl' hid
  obtain ⟨habove, hrenders⟩ := h l hl l' hl' hid
  refine ⟨habove, ?_⟩
  simpa only [hq] using hrenders

/-- Where all numbers have been given out, what has its turns in the host has them in the layout. -/
theorem turned_of_host {r : Host} {last : Nat} (hnodup : ((m.components).map (·.1)).Nodup)
    (hle : ∀ l ∈ m.lines, l.id ≤ last)
    (h : Host.Turned last (Host.turns (s.queue m.host.id).eraseDups) s m.host r s') :
    m.Turned s { m with host := r } := by
  have hids : (m.lines.map Line.id).Nodup := nodup_ids m.host.id hnodup
  intro l hl l' hl' hid
  have hold : ¬last < l'.id := Nat.not_lt.2 (hid ▸ hle l hl)
  obtain ⟨n, hn, hrenders⟩ := (h.lines l' hl').resolve_left hold
  have hsame : (⟨l'.id, l'.above, n⟩ : Line) = l := List.inj_on_of_nodup_map hids hn hl hid
  have hpath : l.path.Nodup := nodup_path_all .nil m.host.roots hids nofun l hl
  subst hsame
  refine ⟨rfl, ?_⟩
  rw [hrenders, ← Host.turns_eraseDups hpath]
  rfl

end Mount

/-- A layout after its flush: it stands for the same sketches, the components that were current or waited are
current, and all have had their turns. -/
structure Flushed (s : State) (e e' : String × Mount) (s' : State) : Prop where
  target : e'.1 = e.1
  mount : e'.2 = { e.2 with host := e'.2.host }
  id : e'.2.host.id = e.2.host.id
  renews : ∀ r excused, s.interpreters[e.2.interpreter]? = some r → (∀ c, c.2.Fetches → excused c) →
    (e.2.scene s r).Fresh s.store (fun c => e.2.Waits s c ∨ excused c)
      (renderedAll s.store e.2.host.id e.2.host.roots) →
    sketchAll s'.store e'.2.host.roots = sketchAll s.store e.2.host.roots ∧
      (e.2.scene s r).Fresh s'.store excused (renderedAll s'.store e'.2.host.id e'.2.host.roots)
  turned : e.2.Turned s e'.2

section

variable {m : Mount} {ms : List Mount} {s s' s'' : State} {e e' : String × Mount}

/-- The layers of the components of a mounted layout stay while forks do. -/
theorem Mount.Stands.layers_eq (h : m.Stands s) (hk : s.store.KeepsForks s'.store) :
    ∀ c ∈ m.components, c.2.layers s'.store = c.2.layers s.store := fun c hc =>
  let ⟨_, _, _, hw⟩ := h.interpreter
  (hw c hc).layers_eq hk

theorem Flushed.keep (h : Flushed s e e' s') (hstands : e'.2.Stands s')
    (hk : s'.store.KeepsValues s''.store) : Flushed s e e' s'' := by
  have hl := hstands.layers_eq hk.keepsForks
  refine ⟨h.target, h.mount, h.id, fun r excused hr hexcused hf => ?_, h.turned⟩
  obtain ⟨hsketch, hfresh⟩ := h.renews r excused hr hexcused hf
  exact ⟨(sketchAll_congr _ hl).trans hsketch, hfresh.keep hl⟩

/-- What waits for a host that is left alone still waits. -/
theorem KeepsFor.queue {waits : Nat → Prop} {id q : Nat} (hk : KeepsFor waits s s') (hid : waits id)
    (hq : q ∈ s.queue id) : q ∈ s'.queue id := by
  unfold State.queue at hq ⊢
  cases hr : s.host? id with
  | none => simp [hr] at hq
  | some r =>
    obtain ⟨r', hr', hg⟩ := hk.hosts id r hr
    rw [hr, Option.map_some, Option.getD_some] at hq
    rw [hr', Option.map_some, Option.getD_some]
    exact hg.queue hid q hq

theorem Mount.scene_keep {waits : Nat → Prop} {r r' : Interpreter} (hk : KeepsFor waits s s') (hl : r.Like r')
    (hscope : m.scope < s.store.levels.size) : m.scene s' r' = m.scene s r := by
  have hlt : s.store.root m.scope < s.store.levels.size :=
    Nat.lt_of_le_of_lt (s.store.root_le _) hscope
  unfold Mount.scene
  rw [hk.registry, hk.immediate, hk.values.keepsScopes.root_eq hscope, hk.values.valueAt?_eq hlt, hl.config,
    hl.source, hl.transport]

/-- A layout that is flushed later was left alone until then. -/
theorem Flushed.of_later {waits : Nat → Prop} (h : Flushed s' e e' s'') (hk : KeepsFor waits s s')
    (hstands : e.2.Stands s) (hw : waits e.2.host.id)
    (hqueue : ∀ q ∈ s'.queue e.2.host.id, q ∈ s.queue e.2.host.id) : Flushed s e e' s'' := by
  have hl := hstands.layers_eq hk.values.keepsForks
  refine ⟨h.target, h.mount, h.id, fun r excused hr hexcused hf => ?_,
    h.turned.of_queue fun q => ⟨hqueue q, hk.queue hw⟩⟩
  obtain ⟨r', hr', hlike⟩ := hk.interpreters _ r hr
  have hscene := Mount.scene_keep hk hlike hstands.scope
  have hf' : (e.2.scene s r).Fresh s'.store (fun c => e.2.Waits s' c ∨ excused c)
      (renderedAll s'.store e.2.host.id e.2.host.roots) := by
    refine (hf.keep hl).mono fun c _ hc => hc.imp_left fun hc => ?_
    obtain ⟨q, hq, heq⟩ := List.mem_map.1 hc
    exact List.mem_map.2 ⟨q, hk.queue hw hq, heq⟩
  rw [← hscene] at hf' ⊢
  rw [← sketchAll_congr _ hl]
  exact h.renews r' excused hr' hexcused hf'

/-- No component of a layout has a number that its host has yet to give out. -/
theorem Steady.le_lastId (h : Steady (m :: ms) s) {record : HostRecord} (hrecord : s.host? m.host.id = some record) :
    ∀ l ∈ m.lines, l.id ≤ record.lastId := by
  obtain ⟨r, -, -, hheld⟩ := h.focus
  intro l hl
  have hmem := (mem_ids_iff m.host.id _).1 (List.mem_map_of_mem hl)
  obtain ⟨record', hrecord', hle⟩ := hheld.numbered ⟨m.host.id, l.id⟩ (by
    rw [List.map_append]
    exact List.mem_append_left _ hmem)
  cases hrecord.symm.trans hrecord'
  exact hle

/-- The components of a layout have their turns in its flush, and nothing waits on other hosts that did not. -/
theorem Steady.flush_turned (h : Steady (m :: ms) s) :
    Ensures m.host.flush s fun r s' => m.Turned s { m with host := r.1 } ∧
      ∀ id, id ≠ m.host.id → ∀ q ∈ s'.queue id, q ∈ s.queue id := by
  obtain ⟨r, hr, hready, hheld⟩ := h.focus
  obtain ⟨record, hrecord⟩ := hready.host
  have hheld' : Held s m.interpreter r.transport (s.store.root m.scope) (mountedComponents ms)
      (componentsAll m.host.id m.host.roots ++ []) := by
    rw [List.append_nil]
    exact hheld
  have hle := h.le_lastId hrecord
  have hsettled : Host.Settled record.lastId m.host := by
    intro l hl _ j hj
    rcases List.mem_cons.1 hj with rfl | hj
    · exact hle l hl
    · have hids := (mem_above_of_mem_linesAll m.host.roots hl hj).resolve_left List.not_mem_nil
      obtain ⟨l', hl', rfl⟩ := List.mem_map.1 hids
      exact hle l' hl'
  have step := Host.flush_turned hready ⟨record, hrecord, Nat.le_refl _⟩ hheld' hsettled
  exact step.mono fun res s' hturned => ⟨Mount.turned_of_host hheld'.nodup hle hturned, hturned.queue⟩

/-- One layout is flushed beside the others. -/
theorem Steady.flush (h : Steady (m :: ms) s) :
    Ensures m.host.flush s fun r s' => Steady ({ m with host := r.1 } :: ms) s' ∧
      KeepsFor (· ≠ m.host.id) s s' ∧ (∀ id, id ≠ m.host.id → ∀ q ∈ s'.queue id, q ∈ s.queue id) ∧
      ∀ target, Flushed s (target, m) (target, { m with host := r.1 }) s' := by
  obtain ⟨r, hr, hready, hheld⟩ := h.focus
  have hheld' : Held s m.interpreter r.transport (s.store.root m.scope) (mountedComponents ms)
      (m.components ++ []) := by rwa [List.append_nil]
  -- Whatever is known of the tree before, the flush keeps.
  have renewed (excused : Instance × Component → Prop) (hexcused : ∀ c, c.2.Fetches → excused c)
      (hf : (m.scene s r).Fresh s.store (fun c => m.Waits s c ∨ excused c)
        (renderedAll s.store m.host.id m.host.roots)) := Host.flush_renewed hexcused hready hheld' hf
  intro res s' hres
  have hall := renewed (fun _ => True) (fun _ _ => trivial) (fun _ _ => .inl (.inr trivial)) res s' hres
  have hheld₂ := hall.held
  rw [List.append_nil] at hheld₂
  obtain ⟨hturned, hqueue⟩ := h.flush_turned res s' hres
  refine ⟨h.refocus hr hall.keeps hheld₂ rfl hall.id, hall.keeps, hqueue, fun target =>
    ⟨rfl, rfl, hall.id, fun r' excused hr' hexcused hf => ?_, hturned⟩⟩
  cases hr.symm.trans hr'
  have hres' := renewed excused hexcused hf res s' hres
  exact ⟨hres'.sketch, hres'.fresh⟩

end

theorem Flushed.map_target {s s' : State} {es es' : List (String × Mount)}
    (h : List.Forall₂ (fun e e' => Flushed s e e' s') es es') : es'.map (·.1) = es.map (·.1) := by
  induction h with
  | nil => rfl
  | cons hfl _ ih => rw [List.map_cons, List.map_cons, hfl.target, ih]

/-- The layout of a target after a flush is what became of the one before. -/
theorem Flushed.get? {s s' : State} {target : String} {m : Mount} {es es' : List (String × Mount)}
    (h : List.Forall₂ (fun e e' => Flushed s e e' s') es es') (hm : Fields.get? es target = some m) :
    ∃ m', Fields.get? es' target = some m' ∧ Flushed s (target, m) (target, m') s' := by
  induction h with
  | nil => cases hm
  | @cons e e' _ _ hfl _ ih =>
    obtain ⟨k, v⟩ := e
    obtain ⟨k', v'⟩ := e'
    obtain rfl : k' = k := hfl.target
    unfold Fields.get? at hm ⊢
    split at hm
    · rename_i hk
      subst hk
      cases hm
      exact ⟨v', if_pos rfl, hfl⟩
    · rename_i hk
      rw [if_neg hk]
      exact ih hm

namespace App

/-- A flush renews every layout. -/
theorem flush_ensures {a : App} {s : State} (h : Steady (a.mounts.map (·.2)) s) :
    Ensures a.flush s fun r s' => r.1 = { a with mounts := r.1.mounts } ∧
      Steady (r.1.mounts.map (·.2)) s' ∧ KeepsFor (fun _ => False) s s' ∧
      List.Forall₂ (fun e e' => Flushed s e e' s') a.mounts r.1.mounts := by
  refine .bind (Ensures.foldlM (I := fun rest b t =>
    Steady ((b.1 ++ rest).map (·.2)) t ∧ KeepsFor (· ∉ b.1.map (·.2.host.id)) s t ∧
      (∀ id ∉ b.1.map (·.2.host.id), ∀ q ∈ t.queue id, q ∈ s.queue id) ∧ ∃ done, done ++ rest = a.mounts ∧
        List.Forall₂ (fun e e' => Flushed s e e' t ∧ e'.2.Stands t) done b.1)
    (fun e rest b t hI => ?_) a.mounts ([], 0) ⟨h, .refl s, fun _ _ _ hq => hq, [], rfl, .nil⟩) fun r s' hI => ?_
  · obtain ⟨hsteady, hk, hqueue, done, hdone, hflushed⟩ := hI
    obtain ⟨target, m⟩ := e
    have hperm : ((b.1 ++ (target, m) :: rest).map (·.2)).Perm (m :: (b.1 ++ rest).map (·.2)) := by
      simp only [List.map_append, List.map_cons]
      exact List.perm_middle
    have hstands : m.Stands s := by
      refine h.stands m (List.mem_map.2 ⟨(target, m), ?_, rfl⟩)
      rw [← hdone]
      exact List.mem_append_right _ (List.mem_cons_self ..)
    have hother : m.host.id ∉ b.1.map (·.2.host.id) := by
      have hn := (hsteady.perm hperm).hosts
      rw [List.map_cons, List.map_map, List.map_append] at hn
      exact fun hmem => (List.nodup_cons.1 hn).1 (List.mem_append_left _ hmem)
    refine .bind (hsteady.perm hperm).flush fun r t' hr => .pure ?_
    obtain ⟨hsteady', hk', hqueue', hf⟩ := hr
    have hr : r.1.id = m.host.id := (hf target).id
    refine ⟨hsteady'.perm ?_, ?_, ?_, done ++ [(target, m)], by simpa using hdone, ?_⟩
    · simp only [List.append_assoc, List.map_append, List.map_cons, List.singleton_append]
      exact List.perm_middle.symm
    · refine (hk.mono fun id hid hmem => ?_).trans (hk'.mono fun id hid heq => ?_)
      · exact hid (by rw [List.map_append]; exact List.mem_append_left _ hmem)
      · refine hid ?_
        rw [List.map_append]
        exact List.mem_append_right _ (by simp [heq, hr])
    · intro id hid q hq
      rw [List.map_append, List.mem_append, not_or] at hid
      exact hqueue id hid.1 q (hqueue' id (fun heq => hid.2 (by simp [heq, hr])) q hq)
    · refine List.rel_append (hflushed.imp fun e e' hfl => ?_) (.cons ⟨?_, ?_⟩ .nil)
      · exact ⟨hfl.1.keep hfl.2 hk'.values, hfl.2.carry (hk'.carries fun _ => True) trivial⟩
      · exact (hf target).of_later hk hstands hother (hqueue _ hother)
      · exact hsteady'.stands _ (List.mem_cons_self ..)
  · obtain ⟨hsteady, hk, -, done, hdone, hflushed⟩ := hI
    rw [List.append_nil] at hsteady hdone
    subst hdone
    exact .pure ⟨rfl, hsteady, hk.mono fun _ h => h.elim, hflushed.imp fun _ _ hfl => hfl.1⟩

end App
end LiveLayout
