import LiveLayout.Proofs.Running.Flush
import LiveLayout.Proofs.Text
/-!
The steps of an app. Whatever the app and those who use its variables do, the layouts that are mounted
stand side by side.
-/
namespace LiveLayout

open Engine

namespace App

variable {a a' : App} {s s' : State}

/-- Every target has one layout, and all of them are steady. -/
structure Consistent (a : App) (s : State) : Prop where
  sorted : Fields.Sorted a.mounts
  issued : s.Issued
  steady : Steady (a.mounts.map (·.2)) s

/-! ### Mounting -/

/-- Mounts a layout on a target that is free. -/
def place (a : App) (layout : Json) (target : String) (scope : Scope) (source : HandlerSource) :
    Engine (App × Except AppError Unit) := do
  let layout := annotate (← get).registry { keyPrefix := a.config.keyPrefix } layout
  let interpreter ← addInterpreter a.config a.transport (some source)
  let m ← renderMount { layout, scope, interpreter, host := ← Host.make }
  log (.layoutMounted target (Mounted.countAll m.host.roots))
  return (a.put target m, .ok ())

/-- Frees a target. -/
def free (a : App) (target : String) : Engine Unit :=
  match Fields.get? a.mounts target with
  | some previous => do
    log (.replacing target)
    previous.host.drop
  | none => pure ()

theorem mount_eq (a : App) (layout : Json) (target : String) (scope : Scope) (source : HandlerSource) :
    a.mount layout target scope source =
      if Text.trim target = "" then pure (a, .error .noTarget)
      else if layout.isNull then pure (a, .error .noLayout)
      else a.free (Text.trim target) >>= fun _ => a.place layout (Text.trim target) scope source := by
  unfold mount free
  dsimp only
  split
  · rfl
  · split
    · rfl
    · cases Fields.get? a.mounts (Text.trim target) <;> rfl

/-- What a layout on a scope of the app is drawn from. -/
def scene (a : App) (s : State) (scope : Scope) (source : HandlerSource) : Scene where
  registry := s.registry
  config := a.config
  source := some source
  transport := a.transport
  answer := s.network.immediate
  root := s.store.valueAt? (s.store.root scope)

/-- The state with one more interpreter and one more host, which has nothing mounted. -/
def furnish (s : State) (r : Interpreter) : State := { s with
  interpreters := s.interpreters ++ [r]
  hosts := ⟨s.hostCount, [], 0⟩ :: s.hosts
  hostCount := s.hostCount + 1 }

/-- A new interpreter and a new host leave all that is mounted as it is. -/
theorem carries_furnish (s : State) (r : Interpreter) : Carries (· < s.hostCount) s (furnish s r) := by
  refine ⟨.refl _, fun i r' hr' => ⟨r', ?_, rfl, fun h => h⟩, fun id r' hlt hr' => ⟨r', ?_, Nat.le_refl _⟩⟩
  · exact (List.getElem?_append_left (List.getElem?_eq_some_iff.1 hr').1).trans hr'
  · rw [furnish, State.host?, List.find?_cons_of_neg (by simpa using Nat.ne_of_gt hlt)]
    exact hr'

theorem furnish_issued (h : s.Issued) (r : Interpreter) : (furnish s r).Issued := by
  intro id hid
  rcases List.mem_cons.1 hid with rfl | hid
  · exact Nat.lt_succ_self _
  · exact Nat.lt_succ_of_lt (h id hid)

theorem interpreter_furnish (s : State) (r : Interpreter) :
    (furnish s r).interpreters[s.interpreters.length]? = some r := by
  rw [furnish, List.getElem?_append_right (Nat.le_refl _), Nat.sub_self]
  rfl

/-- A layout that is about to be mounted on the new host stands beside the others. -/
theorem steady_furnish {ms : List Mount} (h : Steady ms s) (hissued : s.Issued) (layout : Json) {scope : Scope}
    (hscope : scope < s.store.levels.size) {r : Interpreter} (hr : r.Faithful) :
    Steady ({ layout, scope, interpreter := s.interpreters.length, host := ⟨s.hostCount, []⟩ } :: ms)
      (furnish s r) := by
  have hlt : ∀ n ∈ ms, n.host.id < s.hostCount := by
    intro n hn
    obtain ⟨_, hr⟩ := (h.stands n hn).host
    exact hissued.lt hr
  have hms := h.carry (carries_furnish s r) hlt h.ledger
  refine ⟨hms.ledger, hms.numbered, ?_, ?_⟩
  · rw [List.forall_mem_cons]
    refine ⟨⟨⟨⟨s.hostCount, [], 0⟩, ?_⟩, hscope, r, interpreter_furnish s r, hr, nofun⟩, hms.stands⟩
    simp [State.host?, furnish]
  · rw [List.map_cons, List.nodup_cons]
    refine ⟨fun hmem => ?_, hms.hosts⟩
    obtain ⟨n, hn, heq⟩ := List.mem_map.1 hmem
    exact absurd heq (Nat.ne_of_lt (hlt n hn))

/-- A layout has been mounted: it stands beside the others, and shows what the scene draws. -/
structure Placed (a : App) (s : State) (layout : Json) (scope : Scope) (source : HandlerSource)
    (ms : List Mount) (m : Mount) (s' : State) : Prop where
  steady : Steady (m :: ms) s'
  issued : s'.Issued
  layout_eq : m.layout = annotate s.registry { keyPrefix := a.config.keyPrefix } layout
  scope_eq : m.scope = scope
  values : s.store.KeepsValues s'.store
  registry : s'.registry = s.registry
  immediate : s'.network.immediate = s.network.immediate
  interpreter : ∃ r, s'.interpreters[m.interpreter]? = some r ∧ r.config = a.config ∧
    r.transport = a.transport ∧ r.source = some source
  roots : Scene.tree ((a.scene s scope source).upTo Host.depthLimit) (s.store.layers scope) m.layout =
    some (Mounted.sketchAll s'.store m.host.roots)
  fresh : (a.scene s scope source).Fresh s'.store (fun _ => False)
    (Mounted.renderedAll s'.store m.host.id m.host.roots)

/-- Mounting on a free target gives a result just when the scene has pictures of the layout. -/
theorem place_yields (a : App) {ms : List Mount} (layout : Json) (target : String) {scope : Scope}
    (source : HandlerSource) (hs : Steady ms s) (hissued : s.Issued) (hscope : scope < s.store.levels.size) :
    Yields (a.place layout target scope source) s
      ((a.scene s scope source).pictures Host.depthLimit (s.store.layers scope)
        (annotate s.registry { keyPrefix := a.config.keyPrefix } layout))
      fun r ps s' => ∃ m, r = (a.put target m, .ok ()) ∧ Placed a s layout scope source ms m s' ∧
        s'.network.requests = s.network.requests ++ Picture.sentAll ps := by
  let r : Interpreter := { config := a.config, transport := a.transport, source := some source }
  let t : State := furnish s r
  let m : Mount :=
    { layout := annotate s.registry { keyPrefix := a.config.keyPrefix } layout
      scope
      interpreter := s.interpreters.length
      host := ⟨s.hostCount, []⟩ }
  have hr : t.interpreters[m.interpreter]? = some r := interpreter_furnish s r
  have hs' : Steady (m :: ms) t := steady_furnish hs hissued _ hscope nofun
  have hissued' : t.Issued := furnish_issued hissued r
  obtain ⟨r', hr', hready, hheld⟩ := hs'.focus
  cases hr.symm.trans hr'
  have hheld : Held t m.interpreter (a.scene s scope source).transport (t.store.root m.scope)
    (mountedComponents ms) [] := hheld
  have step := renderMount_yields rfl hready hscope hheld
  refine .bind_run (get_run s) (.bind_run (t := { s with interpreters := s.interpreters ++ [r] }) rfl
    (.bind_run (t := t) rfl ?_))
  refine step.then_run fun n ps s₁ hmounted => ?_
  obtain ⟨hn, hid, ⟨ks, hks, hl⟩, hreq⟩ := hmounted
  let s₂ : State := { s₁ with notices := .layoutMounted target (Mounted.countAll n.host.roots) :: s₁.notices }
  have hq : Quiet s₁ s₂ := ⟨rfl, .refl _⟩
  have hk : Keeps t s₂ := hl.keeps.trans hq.keeps
  obtain ⟨r', hr', hlike⟩ := hk.interpreters _ r hr
  obtain ⟨hlayout, hscope', hinterpreter⟩ : n.layout = m.layout ∧ n.scope = m.scope ∧
      n.interpreter = m.interpreter := by rw [hn]; exact ⟨rfl, rfl, rfl⟩
  refine ⟨_, s₂, rfl, n, rfl, ⟨?_, hk.issued hissued', hlayout, hscope', hk.values, hk.registry, hk.immediate,
    ⟨r', by rw [hinterpreter]; exact hr', hlike.config, hlike.transport, hlike.source⟩, ?_, ?_⟩, hreq⟩
  · refine hs'.refocus hr hk ?_ hn hid
    have hheld' := hl.held.forked hq.forked
    rw [List.append_nil, ← hid] at hheld'
    exact hheld'
  · rw [hlayout]
    exact hks.trans (congrArg some hl.sketch.symm)
  · rw [hid]
    exact hl.fresh

/-! ### Freeing targets -/

/-- Nothing that layouts are drawn from has changed. -/
structure Unmoved (s s' : State) : Prop where
  values : s.store.KeepsValues s'.store
  registry : s'.registry = s.registry
  immediate : s'.network.immediate = s.network.immediate

theorem Unmoved.refl (s : State) : Unmoved s s := ⟨.refl _, rfl, rfl⟩

theorem host?_forget (s : State) {id host : Nat} (hne : host ≠ id) :
    { s with hosts := s.hosts.filter (·.id ≠ id) }.host? host = s.host? host := by
  rw [State.host?, List.find?_filter]
  refine congrArg (List.find? · s.hosts) (funext fun r => ?_)
  by_cases hid : r.id = host
  · simp [hid, hne]
  · simp [hid]

/-- A host that is forgotten leaves those of the others. -/
theorem carries_forget (s : State) (id : Nat) :
    Carries (· ≠ id) s { s with hosts := s.hosts.filter (·.id ≠ id) } :=
  ⟨.refl _, fun _ r hr => ⟨r, hr, rfl, fun h => h⟩, fun _ r hj hr => ⟨r, (host?_forget s hj).trans hr, Nat.le_refl _⟩⟩

theorem drop_steady {m : Mount} {ms : List Mount} (h : Steady (m :: ms) s) (hissued : s.Issued) :
    Ensures m.host.drop s fun _ s' => Steady ms s' ∧ s'.Issued ∧ Unmoved s s' := by
  obtain ⟨r, hr, hready, hheld⟩ := h.focus
  have hheld' : Held s m.interpreter r.transport (s.store.root m.scope) (mountedComponents ms)
      (m.components ++ []) := by rwa [List.append_nil]
  have hother := (List.nodup_cons.1 h.hosts).1
  refine (Host.drop_ensures hheld').mono ?_
  rintro _ _ ⟨t, hk, ht, rfl⟩
  have hms : Steady ms t := by
    refine ⟨ht.ledger, ht.numbered, fun n hn => ?_, (List.nodup_cons.1 h.hosts).2⟩
    exact (h.stands n (List.mem_cons_of_mem _ hn)).carry (hk.carries fun _ => True) trivial
  refine ⟨hms.carry (carries_forget t m.host.id) (fun n hn heq => hother ?_) hms.ledger, ?_,
    hk.values, hk.registry, hk.immediate⟩
  · exact List.mem_map.2 ⟨n, hn, heq⟩
  · intro id hid
    refine hk.issued hissued id ?_
    exact ((List.filter_sublist (l := t.hosts)).map _).subset hid

/-- The layouts besides that of a target. -/
structure Beside (a : App) (target : String) (ms : List Mount) : Prop where
  put : ∀ m, ((a.put target m).mounts.map (·.2)).Perm (m :: ms)
  erase : ((Fields.erase a.mounts target).map (·.2)).Perm ms

theorem beside_of_get? {a : App} {target : String} {m : Mount} (h : Fields.Sorted a.mounts)
    (htrim : Text.trim target = target) (hm : Fields.get? a.mounts target = some m) :
    ∃ ms, (a.mounts.map (·.2)).Perm (m :: ms) ∧ a.Beside target ms := by
  obtain ⟨before, after, hmounts, hins, herase⟩ := h.split hm
  refine ⟨(before ++ after).map (·.2), ?_, fun n => ?_, ?_⟩
  · rw [hmounts]
    exact (List.perm_middle (a := (target, m))).map (·.2)
  · rw [put, htrim, hins]
    exact (List.perm_middle (a := (target, n))).map (·.2)
  · rw [herase]

theorem beside_of_free {a : App} {target : String} (htrim : Text.trim target = target)
    (hm : Fields.get? a.mounts target = none) : a.Beside target (a.mounts.map (·.2)) := by
  refine ⟨fun n => ?_, ?_⟩
  · rw [put, htrim]
    exact (Fields.perm_insertSorted hm).map (·.2)
  · rw [Fields.erase_of_get?_eq_none hm]

theorem free_ensures {a : App} (h : a.Consistent s) {target : String} (htrim : Text.trim target = target) :
    Ensures (a.free target) s fun _ s' => ∃ ms, Steady ms s' ∧ s'.Issued ∧ Unmoved s s' ∧
      a.Beside target ms := by
  unfold free
  cases hm : Fields.get? a.mounts target with
  | none => exact .pure ⟨_, h.steady, h.issued, .refl s, beside_of_free htrim hm⟩
  | some m =>
    obtain ⟨ms, hperm, hbeside⟩ := beside_of_get? h.sorted htrim hm
    have hsteady := h.steady.perm hperm
    have hq : Quiet s { s with notices := .replacing target :: s.notices } := ⟨rfl, .refl _⟩
    refine .bind_run (log_run _ s) ?_
    refine (drop_steady (hsteady.carry (hq.keeps.carries fun _ => True) (fun _ _ => trivial) hsteady.ledger)
      h.issued).mono fun _ s' ⟨hms, hissued, hun⟩ => ⟨ms, hms, hissued, ⟨?_, ?_, ?_⟩, hbeside⟩
    · exact hun.values
    · exact hun.registry
    · exact hun.immediate

/-! ### Steps -/

/-- One thing that an app does, or that happens to its variables and its settings. -/
inductive Step : App × State → App × State → Prop where
  | mount {a a' : App} {s s' : State} {layout : Json} {target : String} {scope : Scope}
      {source : HandlerSource} {r : Except AppError Unit} (valid : scope < s.store.levels.size)
      (run : a.mount layout target scope source s = some ((a', r), s')) : Step (a, s) (a', s')
  | unmount {a a' : App} {s s' : State} {target : String} {r : Except AppError Unit}
      (run : a.unmount target s = some ((a', r), s')) : Step (a, s) (a', s')
  | rerender {a a' : App} {s s' : State} {target : String} {r : Except AppError Unit}
      (run : a.rerender target s = some ((a', r), s')) : Step (a, s) (a', s')
  | setHandlers {a a' : App} {s s' : State} {target : String} {source : HandlerSource}
      {r : Except AppError Unit} (run : a.setHandlers target source s = some ((a', r), s')) :
      Step (a, s) (a', s')
  | flush {a a' : App} {s s' : State} {n : Nat} (run : a.flush s = some ((a', n), s')) :
      Step (a, s) (a', s')
  | write {a : App} {s s' : State} {scope : Scope} {path : String} {value : Json}
      (run : Engine.set scope path value s = some ((), s')) : Step (a, s) (a, s')
  | dispatch {a : App} {s s' : State} {target key property : String} {args : List Json}
      {r : Except AppError Unit} (run : a.dispatch target key property args s = some (r, s')) :
      Step (a, s) (a, s')
  | deliver {a : App} {s s' : State} {number : Nat} {outcome : Outcome} {r : Bool}
      (run : Engine.deliver number outcome s = some (r, s')) : Step (a, s) (a, s')
  | addRoot {a : App} {s : State} (values : List (String × Json)) :
      Step (a, s) (a, { s with store := (s.store.addRoot values).2 })
  | fork {a : App} {s : State} {parent : Scope} (label : String) (bindings : List (String × Json))
      (valid : parent < s.store.levels.size) :
      Step (a, s) (a, { s with store := (s.store.fork parent label bindings).2 })
  | configure {a : App} {s : State} (config : Config) (transport : Bool) (registry : Registry)
      (immediate : Option Outcome) (tracing : Bool) (scopes : List (String × Scope))
      (listeners : List (String × List Action)) :
      Step (a, s) ({ a with config, transport }, { s with
        registry, tracing, scopes, listeners, network := { s.network with immediate } })

/-- The states that an app can get into, together with its variables. -/
inductive Reachable : App × State → Prop where
  | start (config : Config) (transport : Bool) : Reachable ({ config, transport }, {})
  | step {c c' : App × State} (before : Reachable c) (step : Step c c') : Reachable c'

theorem Consistent.put {a : App} {target : String} {m : Mount} {ms : List Mount}
    (h : Fields.Sorted a.mounts) (hb : a.Beside target ms) (hissued : s.Issued) (hs : Steady (m :: ms) s) :
    (a.put target m).Consistent s :=
  ⟨h.insertSorted _ _, hissued, hs.perm (hb.put m).symm⟩

/-- Mounting is refused and changes nothing, or it frees the target and places the layout there. -/
theorem mount_ensures {a : App} (h : a.Consistent s) (layout : Json) (target : String) {scope : Scope}
    (source : HandlerSource) (hscope : scope < s.store.levels.size) :
    Ensures (a.mount layout target scope source) s fun r s' =>
      (∃ e, r = (a, .error e) ∧ s' = s) ∨
        ∃ t ms m, Unmoved s t ∧ a.Beside (Text.trim target) ms ∧ r = (a.put (Text.trim target) m, .ok ()) ∧
          Placed a t layout scope source ms m s' := by
  rw [mount_eq]
  split
  · exact .pure (.inl ⟨_, rfl, rfl⟩)
  · split
    · exact .pure (.inl ⟨_, rfl, rfl⟩)
    · refine .bind (free_ensures h (Text.trim_trim target)) fun _ s₁ ⟨ms, hms, hissued, hun, hb⟩ => ?_
      have hscope₁ := hun.values.keepsScopes.lt_size hscope
      refine (place_yields a layout _ source hms hissued hscope₁).ensures.mono ?_
      rintro _ s₂ ⟨ps, -, m, rfl, hm, -⟩
      exact .inr ⟨s₁, ms, m, hun, hb, rfl, hm⟩

theorem mount_consistent {a : App} (h : a.Consistent s) (layout : Json) (target : String) {scope : Scope}
    (source : HandlerSource) (hscope : scope < s.store.levels.size) :
    Ensures (a.mount layout target scope source) s fun r s' => r.1.Consistent s' := by
  refine (mount_ensures h layout target source hscope).mono ?_
  rintro _ s' (⟨e, rfl, rfl⟩ | ⟨t, ms, m, -, hb, rfl, hm⟩)
  · exact h
  · exact .put h.sorted hb hm.issued hm.steady

theorem exists_of_find? {a : App} (h : a.Consistent s) {target : String} {m : Mount}
    (hm : a.find? target = .ok m) : ∃ ms, Steady (m :: ms) s ∧ a.Beside (Text.trim target) ms := by
  have hget : Fields.get? a.mounts (Text.trim target) = some m := by
    unfold find? at hm
    split at hm
    · cases hm
      assumption
    · cases hm
  obtain ⟨ms, hperm, hb⟩ := beside_of_get? h.sorted (Text.trim_trim target) hget
  exact ⟨ms, h.steady.perm hperm, hb⟩

theorem put_trim (a : App) (target : String) (m : Mount) : a.put (Text.trim target) m = a.put target m := by
  rw [put, put, Text.trim_trim]

theorem unmount_consistent {a : App} (h : a.Consistent s) (target : String) :
    Ensures (a.unmount target) s fun r s' => r.1.Consistent s' := by
  unfold unmount
  cases hm : a.find? target with
  | error e => exact .pure h
  | ok m =>
    obtain ⟨ms, hms, hb⟩ := exists_of_find? h hm
    refine .bind (drop_steady hms h.issued) fun _ s₁ ⟨hs₁, hissued, _⟩ => ?_
    have hq : Quiet s₁ { s₁ with notices := .layoutUnmounted target :: s₁.notices } := ⟨rfl, .refl _⟩
    refine .bind_run (log_run _ s₁) (.pure ⟨h.sorted.erase _, hissued, ?_⟩)
    exact (hs₁.carry (hq.keeps.carries fun _ => True) (fun _ _ => trivial) hs₁.ledger).perm hb.erase.symm

theorem renderMount_steady {m : Mount} {ms : List Mount} (h : Steady (m :: ms) s) (hissued : s.Issued) :
    Ensures (renderMount m) s fun m' s' => Steady (m' :: ms) s' ∧ s'.Issued := by
  obtain ⟨r, hr, hready, hheld⟩ := h.focus
  have hheld' : Held s m.interpreter (m.scene s r).transport (s.store.root m.scope) (mountedComponents ms)
      (m.components ++ []) := by rwa [List.append_nil]
  refine (renderMount_ensures hready (h.stands m (List.mem_cons_self ..)).scope hheld').mono ?_
  rintro m' s' ⟨hm', hid, ks, -, hl⟩
  refine ⟨h.refocus hr hl.keeps ?_ hm' hid, hl.keeps.issued hissued⟩
  have hheld₂ := hl.held
  rw [List.append_nil, ← hid] at hheld₂
  exact hheld₂

theorem rerender_consistent {a : App} (h : a.Consistent s) (target : String) :
    Ensures (a.rerender target) s fun r s' => r.1.Consistent s' := by
  unfold rerender
  cases hm : a.find? target with
  | error e => exact .pure h
  | ok m =>
    obtain ⟨ms, hms, hb⟩ := exists_of_find? h hm
    refine .bind (renderMount_steady hms h.issued) fun m' s₁ ⟨hs₁, hissued⟩ => .pure ?_
    rw [← put_trim]
    exact .put h.sorted hb hissued hs₁

/-- Another source of handlers leaves all that is mounted as it is. -/
theorem carries_source (s : State) (i : Nat) (source : Option HandlerSource) :
    Carries (fun _ => True) s { s with
      interpreters := s.interpreters.modify i fun r => { r with source, bound := [] } } := by
  refine ⟨.refl _, fun j r hr => ?_, fun _ r _ hr => ⟨r, hr, Nat.le_refl _⟩⟩
  rw [List.getElem?_modify, hr]
  by_cases hj : i = j
  · exact ⟨{ r with source, bound := [] }, by simp [hj], rfl, fun _ => nofun⟩
  · exact ⟨r, by simp [hj], rfl, fun h => h⟩

theorem setHandlers_consistent {a : App} (h : a.Consistent s) (target : String) (source : HandlerSource) :
    Ensures (a.setHandlers target source) s fun r s' => r.1.Consistent s' := by
  unfold App.setHandlers
  cases hm : a.find? target with
  | error e => exact .pure h
  | ok m =>
    obtain ⟨ms, hms, hb⟩ := exists_of_find? h hm
    have hms₁ := hms.carry (carries_source s m.interpreter (some source)) (fun _ _ => trivial) hms.ledger
    refine .bind_run (t := { s with interpreters := s.interpreters.modify m.interpreter fun r =>
      { r with source := some source, bound := [] } }) rfl ?_
    refine .bind (renderMount_steady hms₁ h.issued) fun m' s₁ ⟨hs₁, hissued⟩ => .pure ?_
    rw [← put_trim]
    exact .put h.sorted hb hissued hs₁

theorem flush_consistent {a : App} (h : a.Consistent s) :
    Ensures a.flush s fun r s' => r.1.Consistent s' :=
  (flush_ensures h.steady).mono fun _ _ ⟨_, hsteady, hk, hflushed⟩ =>
    ⟨h.sorted.of_names (Flushed.map_target hflushed), hk.issued h.issued, hsteady⟩

theorem Consistent.wrote {a : App} (h : a.Consistent s) (hw : Wrote s s') : a.Consistent s' :=
  ⟨h.sorted, hw.issued h.issued, h.steady.wrote hw⟩

theorem Consistent.settles {a : App} (h : a.Consistent s) (hs : Settles s s') : a.Consistent s' := by
  refine ⟨h.sorted, hs.keeps.issued h.issued, ?_⟩
  exact h.steady.carry (hs.keeps.carries fun _ => True) (fun _ _ => trivial) (hs.store ▸ h.steady.ledger)

theorem Consistent.extends {a : App} {σ : Store} (h : a.Consistent s) (hσ : s.store.Extends σ) :
    a.Consistent { s with store := σ } := by
  refine ⟨h.sorted, h.issued, ?_⟩
  have hk : Keeps s { s with store := σ } := .store s hσ.values
  exact h.steady.carry (hk.carries fun _ => True) (fun _ _ => trivial) (h.steady.ledger.extend hσ)

theorem dispatch_wrote {a : App} (h : a.Consistent s) (target key property : String) (args : List Json) :
    Ensures (a.dispatch target key property args) s fun _ s' => Wrote s s' := by
  unfold dispatch
  have hlog := Wrote.of_records h.steady.ledger.tidy
  cases a.tree target with
  | error e => exact .pure (hlog s.notices s.events)
  | ok shown =>
    dsimp only
    cases handler? shown key property with
    | none => exact .pure (hlog s.notices s.events)
    | some hd =>
      have hwrote := hlog (.dispatched key property target :: s.notices) s.events
      exact .bind_run (log_run _ s) ((call_wrote hd _ args hwrote.tidy).bind fun _ _ hw => .pure (hwrote.trans hw))

theorem dispatch_consistent {a : App} (h : a.Consistent s) (target key property : String)
    (args : List Json) : Ensures (a.dispatch target key property args) s fun _ s' => a.Consistent s' :=
  (dispatch_wrote h target key property args).mono fun _ _ hw => h.wrote hw

theorem deliver_settles (number : Nat) (outcome : Outcome) (s : State) :
    Ensures (deliver number outcome) s fun _ s' => Settles s s' := by
  unfold deliver
  refine .bind_run (get_run s) ?_
  dsimp only
  cases s.network.waiting.find? (·.1 = number) with
  | none => exact .pure ⟨.refl s, rfl⟩
  | some e =>
    let n : Network := { s.network with waiting := s.network.waiting.filter (·.1 ≠ number) }
    obtain ⟨s', hrun, hs', -⟩ := complete_run { s with network := n } e.2 outcome
    have hn : Settles s { s with network := n } := settles_network s rfl
    exact .bind_run (modify_run _ s) (.bind_run hrun (.pure (hn.trans hs')))

/-- Other settings leave all that is mounted as it is. -/
theorem carries_configure {s : State} (registry : Registry) (immediate : Option Outcome) (tracing : Bool)
    (scopes : List (String × Scope)) (listeners : List (String × List Action)) :
    Carries (fun _ => True) s { s with
      registry, tracing, scopes, listeners, network := { s.network with immediate } } :=
  ⟨.refl _, fun _ r hr => ⟨r, hr, rfl, fun h => h⟩, fun _ r _ hr => ⟨r, hr, Nat.le_refl _⟩⟩

/-- What one step preserves. -/
theorem Step.consistent {c c' : App × State} (h : Step c c') (hc : c.1.Consistent c.2) :
    c'.1.Consistent c'.2 := by
  cases h with
  | mount valid run => exact mount_consistent hc _ _ _ valid _ _ run
  | unmount run => exact unmount_consistent hc _ _ _ run
  | rerender run => exact rerender_consistent hc _ _ _ run
  | setHandlers run => exact setHandlers_consistent hc _ _ _ _ run
  | flush run => exact flush_consistent hc _ _ run
  | write run => exact hc.wrote (set_writes _ _ _ _ hc.steady.ledger.tidy _ _ run)
  | dispatch run => exact dispatch_consistent hc _ _ _ _ _ _ run
  | deliver run => exact hc.settles (deliver_settles _ _ _ _ _ run)
  | addRoot values => exact hc.extends (Store.extends_push _ rfl)
  | fork label bindings valid => exact hc.extends (Store.extends_push _ rfl)
  | configure config transport registry immediate tracing scopes listeners =>
    refine ⟨hc.sorted, hc.issued, ?_⟩
    exact hc.steady.carry (carries_configure registry immediate tracing scopes listeners)
      (fun _ _ => trivial) hc.steady.ledger

/-- What holds of every state that an app gets into. -/
theorem Reachable.consistent {c : App × State} (h : Reachable c) : c.1.Consistent c.2 := by
  induction h with
  | start config transport =>
    refine ⟨.nil, nofun, ⟨fun k level hk => ?_, .nil, nofun, fun k x => ?_⟩, nofun, nofun, .nil⟩
    · simp [Store.level?] at hk
    · simp [Store.subscribersAt, Store.level?, mountedComponents]
  | step _ step ih => exact step.consistent ih

end App
end LiveLayout
