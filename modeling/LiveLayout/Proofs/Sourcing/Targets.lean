import LiveLayout.Proofs.Refreshing.Targets
import LiveLayout.Proofs.Sourcing.Trees
/-!
The handlers of targets. From when a target got its source of handlers, all handlers that it shows are from there, and
every interpreter asks for each of them once.
-/
namespace LiveLayout

open Engine

mutual

/-- All handlers of the elements. -/
def Output.handlers : Output → List Handler
  | .primitive _ => []
  | .element _ _ props children => props.filterMap (·.2.handler?) ++ handlersAll children

def Output.handlersAll : List Output → List Handler
  | [] => []
  | o :: rest => o.handlers ++ handlersAll rest

end

namespace Mounted

variable {i : Nat} {source : Option HandlerSource}

theorem handler_from {p : Props} (hp : p.From i source) : ∀ h ∈ p.filterMap (·.2.handler?), h.From source := by
  intro h hh
  obtain ⟨e, he, heq⟩ := List.mem_filterMap.1 hh
  have hfrom := hp e he
  cases hv : e.2 with
  | handler h' =>
    rw [hv] at heq hfrom
    cases heq
    exact hfrom
  | value v =>
    rw [hv] at heq
    cases heq
  | rendering r =>
    rw [hv] at heq
    cases heq

theorem handlersAll_append (os more : List Output) :
    Output.handlersAll (os ++ more) = Output.handlersAll os ++ Output.handlersAll more := by
  induction os with
  | nil => rfl
  | cons o rest ih => rw [List.cons_append, Output.handlersAll, Output.handlersAll, ih, List.append_assoc]

mutual

theorem From.handlers : (around : String) → (m : Mounted) → m.From i source →
    ∀ h ∈ Output.handlersAll (m.flatten around), h.From source
  | _, .primitive _, _ => fun _ hh => nomatch hh
  | around, .element _ _ props children, .element own inner => by
    intro h hh
    simp only [flatten, Output.handlersAll, Output.handlers, List.append_nil, List.mem_append] at hh
    exact hh.elim (handler_from own h) (From.handlersAll around children inner h)
  | around, .component _ _ _ _ children, .component _ inner => From.handlersAll around children inner
  | around, .fragment (some key) children, .fragment inner => From.handlersAll (scopedKey around key) children inner
  | around, .fragment none children, .fragment inner => From.handlersAll around children inner

theorem From.handlersAll : (around : String) → (ms : List Mounted) → (∀ m ∈ ms, m.From i source) →
    ∀ h ∈ Output.handlersAll (flattenAll around ms), h.From source
  | _, [], _ => fun _ hh => nomatch hh
  | around, m :: rest, hms => by
    rw [List.forall_mem_cons] at hms
    intro h hh
    rw [flattenAll, handlersAll_append, List.mem_append] at hh
    exact hh.elim (From.handlers around m hms.1 h) (From.handlersAll around rest hms.2 h)

end

end Mounted

/-! ### Mounted layouts -/

/-- The tree of the layout is from a source that its interpreter has. -/
def Mount.Sourced (m : Mount) (s : State) : Prop :=
  ∃ source, s.Serves m.interpreter (some source) ∧ ∀ k ∈ m.host.roots, k.From m.interpreter (some source)

/-- All trees are from the sources of their interpreters, and no two layouts have one interpreter. -/
structure Sourced (ms : List Mount) (s : State) : Prop where
  each : ∀ m ∈ ms, m.Sourced s
  apart : (ms.map (·.interpreter)).Nodup

namespace State.Serves

variable {s : State} {i : Nat} {source source' : Option HandlerSource}

theorem unique (h : s.Serves i source) (h' : s.Serves i source') : source' = source := by
  obtain ⟨r, hr, rfl, -⟩ := h
  obtain ⟨r', hr', rfl, -⟩ := h'
  cases hr.symm.trans hr'
  rfl

theorem lt_length (h : s.Serves i source) : i < s.interpreters.length :=
  let ⟨_, hr, _⟩ := h
  (List.getElem?_eq_some_iff.1 hr).1

end State.Serves

namespace Sourced

variable {m m' : Mount} {ms ns : List Mount} {s s' : State}

theorem subset (h : Sourced ms s) (hsub : ∀ m ∈ ns, m ∈ ms) (hnodup : (ns.map (·.interpreter)).Nodup) : Sourced ns s :=
  ⟨fun m hm => h.each m (hsub m hm), hnodup⟩

theorem perm (h : Sourced ms s) (hp : ms.Perm ns) : Sourced ns s :=
  h.subset (fun _ hm => hp.mem_iff.2 hm) ((hp.map _).nodup_iff.1 h.apart)

theorem keep (h : Sourced ms s) (hkeep : Interpreter.Keep s.interpreters s'.interpreters) : Sourced ms s' := by
  refine ⟨fun m hm => ?_, h.apart⟩
  obtain ⟨source, hserves, hroots⟩ := h.each m hm
  exact ⟨source, hserves.keep hkeep, hroots⟩

/-- One more layout, by an interpreter that none of the others has. -/
theorem cons (h : Sourced ms s) (hm : m.Sourced s) (hne : ∀ n ∈ ms, n.interpreter ≠ m.interpreter) :
    Sourced (m :: ms) s := by
  refine ⟨List.forall_mem_cons.2 ⟨hm, h.each⟩, List.nodup_cons.2 ⟨fun hmem => ?_, h.apart⟩⟩
  obtain ⟨n, hn, heq⟩ := List.mem_map.1 hmem
  exact hne n hn heq

theorem tail (h : Sourced (m :: ms) s) : Sourced ms s :=
  h.subset (fun _ hm => List.mem_cons_of_mem _ hm) (List.nodup_cons.1 h.apart).2

theorem ne_of_mem (h : Sourced (m :: ms) s) {n : Mount} (hn : n ∈ ms) : n.interpreter ≠ m.interpreter :=
  fun heq => (List.nodup_cons.1 h.apart).1 (List.mem_map.2 ⟨n, hn, heq⟩)

end Sourced

theorem renderMount_cites (m : Mount) (source : Option HandlerSource) :
    Cites m.interpreter source (App.renderMount m) fun m' =>
      m' = { m with host := m'.host } ∧ ∀ k ∈ m'.host.roots, k.From m.interpreter source := by
  have htree : Cites m.interpreter source (renderTree m.interpreter m.layout m.scope) fun ns =>
      ∀ n ∈ ns, n.From m.interpreter source :=
    Renderer.tree_cites (Renderer.upTo_cites Host.depthLimit) m.layout m.scope
  exact htree.bind fun ns hns => (m.host.render_cites hns).bind fun h hh => .pure ⟨rfl, hh⟩

namespace Sourced

variable {m : Mount} {ms : List Mount} {s : State}

/-- Whatever the tree of a layout becomes is from the source that its interpreter has. -/
theorem refocus {α : Type} {x : Engine α} (next : α → Mount) (h : Sourced (m :: ms) s)
    (hx : ∀ source, s.Serves m.interpreter (some source) → (∀ k ∈ m.host.roots, k.From m.interpreter (some source)) →
      Cites m.interpreter (some source) x fun a => (next a).interpreter = m.interpreter ∧
        ∀ k ∈ (next a).host.roots, k.From m.interpreter (some source)) :
    Ensures x s fun a s' => (next a).interpreter = m.interpreter ∧ Sourced (next a :: ms) s' ∧
      Asks (· = m.interpreter) s s' := by
  obtain ⟨source, hserves, hroots⟩ := h.each m List.mem_cons_self
  refine (hx source hserves hroots s hserves).mono fun a s' ⟨hasks, hi, hnext⟩ => ⟨hi, ?_, hasks⟩
  refine (h.tail.keep hasks.interpreters).cons ⟨source, ?_, ?_⟩ fun n hn => ?_
  · rw [hi]
    exact hserves.keep hasks.interpreters
  · rw [hi]
    exact hnext
  · rw [hi]
    exact h.ne_of_mem hn

theorem renderMount (h : Sourced (m :: ms) s) : Ensures (App.renderMount m) s fun m' s' =>
    m'.interpreter = m.interpreter ∧ Sourced (m' :: ms) s' ∧ Asks (· = m.interpreter) s s' := by
  refine h.refocus id fun source _ _ => (renderMount_cites m _).mono fun m' ⟨heq, hm'⟩ => ⟨?_, hm'⟩
  rw [heq]
  rfl

theorem flush (h : Sourced (m :: ms) s) : Ensures m.host.flush s fun res s' =>
    Sourced ({ m with host := res.1 } :: ms) s' ∧ Asks (· = m.interpreter) s s' := by
  have hflush := h.refocus (fun res : Host × Nat => { m with host := res.1 }) fun source _ hroots =>
    (Host.flush_cites hroots).mono fun res hres => ⟨rfl, hres⟩
  exact hflush.mono fun _ _ hres => hres.2

end Sourced

/-! ### Apps -/

namespace App

variable {a a' : App} {s s' : State} {target : String}

/-- The layouts of all targets are from their sources. -/
abbrev Sourced (a : App) (s : State) : Prop := LiveLayout.Sourced (a.mounts.map (·.2)) s

/-- The targets with their interpreters. -/
def interpreters (a : App) : List (String × Nat) := a.mounts.map fun e => (e.1, e.2.interpreter)

/-- The targets have the same interpreters as before, and nobody but these has asked. -/
structure Goes (a : App) (s : State) (a' : App) (s' : State) : Prop where
  interpreters : a'.interpreters = a.interpreters
  asks : Asks (· ∈ a.interpreters.map (·.2)) s s'

theorem Goes.of_asks (h : Asks (· ∈ a.interpreters.map (·.2)) s s') : Goes a s a s' := ⟨rfl, h⟩

theorem Goes.refl (a : App) (s : State) : Goes a s a s := .of_asks (.refl s)

theorem Goes.trans {a'' : App} {s'' : State} (h : Goes a s a' s') (h' : Goes a' s' a'' s'') : Goes a s a'' s'' := by
  refine ⟨h'.interpreters.trans h.interpreters, h.asks.trans (h'.asks.mono fun i hi => ?_)⟩
  rwa [h.interpreters] at hi

/-- The layout of a target may have changed, but not its interpreter. -/
theorem Goes.get? (h : Goes a s a' s') {name : String} {m : Mount} (hm : Fields.get? a.mounts name = some m) :
    ∃ m', Fields.get? a'.mounts name = some m' ∧ m'.interpreter = m.interpreter := by
  have hsame : Fields.get? a'.interpreters name = Fields.get? a.interpreters name := by rw [h.interpreters]
  rw [App.interpreters, App.interpreters, Fields.get?_map, Fields.get?_map, hm] at hsame
  exact Option.map_eq_some_iff.1 hsame

/-- Different targets have different interpreters. -/
theorem Sourced.interpreter_ne (h : a.Sourced s) {name other : String} {m n : Mount}
    (hm : Fields.get? a.mounts name = some m) (hn : Fields.get? a.mounts other = some n) (hne : name ≠ other) :
    m.interpreter ≠ n.interpreter := by
  intro hi
  have hnodup := h.apart
  rw [List.map_map] at hnodup
  have heq := List.inj_on_of_nodup_map hnodup (Fields.mem_of_get? hm) (Fields.mem_of_get? hn) hi
  exact hne (congrArg Prod.fst heq)

theorem mem_interpreters {m : Mount} (h : m ∈ a.mounts.map (·.2)) : m.interpreter ∈ a.interpreters.map (·.2) := by
  obtain ⟨e, he, rfl⟩ := List.mem_map.1 h
  exact List.mem_map.2 ⟨(e.1, e.2.interpreter), List.mem_map.2 ⟨e, he, rfl⟩, rfl⟩

/-- The layouts of the other targets. -/
def others (a : App) (target : String) : List Mount := (Fields.erase a.mounts (Text.trim target)).map (·.2)

theorem perm_put (h : Fields.Sorted a.mounts) (target : String) (m : Mount) :
    ((a.put target m).mounts.map (·.2)).Perm (m :: a.others target) := by
  have hbeside {ms : List Mount} (hb : a.Beside (Text.trim target) ms) :
      ((a.put target m).mounts.map (·.2)).Perm (m :: a.others target) := by
    have hput := hb.put m
    rw [put_trim] at hput
    exact hput.trans (hb.erase.symm.cons m)
  cases hm : Fields.get? a.mounts (Text.trim target) with
  | none => exact hbeside (beside_of_free (Text.trim_trim target) hm)
  | some n =>
    obtain ⟨ms, -, hb⟩ := beside_of_get? h (Text.trim_trim target) hm
    exact hbeside hb

theorem perm_of_get? (h : Fields.Sorted a.mounts) {m : Mount} (hm : Fields.get? a.mounts (Text.trim target) = some m) :
    (a.mounts.map (·.2)).Perm (m :: a.others target) := by
  obtain ⟨ms, hperm, hb⟩ := beside_of_get? h (Text.trim_trim target) hm
  exact hperm.trans (hb.erase.symm.cons m)

theorem Sourced.others (h : a.Sourced s) (target : String) : LiveLayout.Sourced (a.others target) s := by
  have hsub := (Fields.erase_sublist a.mounts (Text.trim target)).map (·.2)
  exact h.subset (fun _ hm => hsub.mem hm) ((hsub.map _).nodup h.apart)

/-- A target whose layout keeps its interpreter. -/
theorem interpreters_put (h : Fields.Sorted a.mounts) {m m' : Mount}
    (hm : Fields.get? a.mounts (Text.trim target) = some m) (hi : m'.interpreter = m.interpreter) :
    (a.put target m').interpreters = a.interpreters := by
  obtain ⟨before, after, hmounts, hins, -⟩ := h.split hm
  unfold interpreters put
  dsimp only
  rw [hins, hmounts, List.map_append, List.map_append, List.map_cons, List.map_cons, hi]

theorem rerender_sourced (h : a.Sourced s) (hc : a.Consistent s) (target : String) :
    Ensures (a.rerender target) s fun res s' => res.1.Sourced s' ∧ Goes a s res.1 s' := by
  unfold rerender
  cases hm : a.find? target with
  | error e => exact .pure ⟨h, .refl a s⟩
  | ok m =>
    have hget := get?_of_find? hm
    have hperm := perm_of_get? hc.sorted hget
    refine .bind (h.perm hperm).renderMount fun m' s' ⟨hi, hsourced, hasks⟩ => .pure ?_
    refine ⟨hsourced.perm (perm_put hc.sorted target m').symm, interpreters_put hc.sorted hget hi, hasks.mono ?_⟩
    rintro i rfl
    exact mem_interpreters (hperm.mem_iff.2 List.mem_cons_self)

/-- The targets are flushed one after the other: some are done, and the rest is as it was. -/
structure Midway (a : App) (s : State) (rest done : List (String × Mount)) (t : State) : Prop where
  sourced : LiveLayout.Sourced ((done ++ rest).map (·.2)) t
  interpreters : (done ++ rest).map (fun e => (e.1, e.2.interpreter)) = a.interpreters
  asks : Asks (· ∈ a.interpreters.map (·.2)) s t

theorem Midway.flush {m : Mount} {rest done : List (String × Mount)} {t : State}
    (h : Midway a s ((target, m) :: rest) done t) : Ensures m.host.flush t fun res t' =>
      Midway a s rest (done ++ [(target, { m with host := res.1 })]) t' := by
  have hperm (m : Mount) : ((done ++ (target, m) :: rest).map (·.2)).Perm (m :: (done ++ rest).map (·.2)) := by
    rw [List.map_append, List.map_append, List.map_cons]
    exact List.perm_middle
  refine (h.sourced.perm (hperm m)).flush.mono fun res t' ⟨hsourced, hasks⟩ => ?_
  constructor
  · rw [List.append_assoc, List.singleton_append]
    exact hsourced.perm (hperm _).symm
  · rw [List.append_assoc, List.singleton_append, ← h.interpreters]
    simp only [List.map_append, List.map_cons]
  · refine h.asks.trans (hasks.mono ?_)
    rintro i rfl
    rw [← h.interpreters]
    simp

theorem flush_sourced (h : a.Sourced s) : Ensures a.flush s fun res s' => res.1.Sourced s' ∧ Goes a s res.1 s' := by
  have hstart : Midway a s a.mounts [] s := ⟨h, rfl, .refl s⟩
  refine .bind (Ensures.foldlM (I := fun rest b t => Midway a s rest b.1 t) (fun e rest b t hmidway => ?_) a.mounts
    ([], 0) hstart) fun res s' hdone => ?_
  · exact .bind hmidway.flush fun res t' hmidway' => .pure hmidway'
  · obtain ⟨hsourced, hinterpreters, hasks⟩ := hdone
    rw [List.append_nil] at hsourced hinterpreters
    exact .pure ⟨hsourced, hinterpreters, hasks⟩

/-! ### New sources -/

/-- The layout has a source for its handlers. When the source was new, its interpreter knew nothing, and nobody else
has asked since or lost a source. -/
structure Supplied (m : Mount) (source : HandlerSource) (s s' : State) : Prop where
  serves : s'.Serves m.interpreter (some source)
  others : ∀ i before, i ≠ m.interpreter → s.Serves i before → s'.Serves i before
  asks : ∃ t, t.events = s.events ∧ (∀ id i, t.Knows id i ↔ i ≠ m.interpreter ∧ s.Knows id i) ∧
    Asks (· = m.interpreter) t s'

/-- A new interpreter knows nothing. -/
theorem knows_furnish {r : Interpreter} (h : r.bound = []) (id : String) (i : Nat) :
    (furnish s r).Knows id i ↔ s.Knows id i := by
  unfold State.Knows
  by_cases hi : i < s.interpreters.length
  · rw [furnish, List.getElem?_append_left hi]
  · have hnone : s.interpreters[i]? = none := List.getElem?_eq_none (Nat.le_of_not_lt hi)
    rw [hnone]
    constructor
    · rintro ⟨r', hr, -, hknown⟩
      rw [furnish, List.getElem?_append_right (Nat.le_of_not_lt hi)] at hr
      obtain rfl := List.mem_singleton.1 (List.mem_of_getElem? hr)
      rw [h] at hknown
      cases hknown
    · rintro ⟨r', hr, -⟩
      cases hr

theorem asks_furnish {who : Nat → Prop} (s : State) {r : Interpreter} (h : r.bound = []) : Asks who s (furnish s r) := by
  have hknows (id : String) (i : Nat) := knows_furnish (s := s) h id i
  refine ⟨fun i r' hr => ⟨r', ?_, .refl r'⟩, fun id i => (hknows id i).2, [], rfl, fun id => ?_⟩
  · rw [furnish, List.getElem?_append_left (List.getElem?_eq_some_iff.1 hr).1]
    exact hr
  · exact Asks.exists_nil List.not_mem_nil fun i => (hknows id i).1

/-- A layout that is placed on a free target has an interpreter of its own. -/
theorem place_sourced (hc : Fields.Sorted a.mounts) (h : LiveLayout.Sourced (a.others target) s) (layout : Json)
    (scope : Scope) (source : HandlerSource) : Ensures (a.place layout target scope source) s fun res s' =>
      ∃ m, res = (a.put target m, .ok ()) ∧ (a.put target m).Sourced s' ∧ s'.Serves m.interpreter (some source) ∧
        (∀ id, ¬s.Knows id m.interpreter) ∧ Asks (· = m.interpreter) s s' := by
  let r : Interpreter := { config := a.config, transport := a.transport, source := some source }
  have hserves : (furnish s r).Serves s.interpreters.length (some source) :=
    ⟨r, interpreter_furnish s r, rfl, Interpreter.faithful_of_bound rfl⟩
  refine .bind_run (get_run s) (.bind_run (a := s.interpreters.length)
    (t := { s with interpreters := s.interpreters ++ [r] }) rfl ?_)
  refine .bind_run (a := ⟨s.hostCount, []⟩) (t := furnish s r) rfl ?_
  refine .bind (renderMount_cites _ (some source) (furnish s r) hserves) fun m s' ⟨hrender, heq, hroots⟩ => ?_
  have hi : m.interpreter = s.interpreters.length := by rw [heq]
  rw [← hi] at hserves
  rw [← hi] at hrender hroots
  have hasks := hrender.trans (Asks.of_same rfl rfl : Asks _ s' { s' with
    notices := .layoutMounted target (Mounted.countAll m.host.roots) :: s'.notices })
  have hserves' := hserves.keep hasks.interpreters
  have hall := (asks_furnish s rfl).trans hasks
  refine .bind_run (log_run _ s') (.pure ⟨m, rfl, ?_, hserves', ?_, hall⟩)
  · refine Sourced.perm ((h.keep hall.interpreters).cons ⟨source, hserves', hroots⟩ fun n hn heq => ?_)
      (perm_put hc target m).symm
    obtain ⟨_, hn, -⟩ := h.each n hn
    exact absurd hn.lt_length (by rw [heq, hi]; exact Nat.lt_irrefl _)
  · rintro id ⟨_, hr, -⟩
    rw [hi] at hr
    exact absurd (List.getElem?_eq_some_iff.1 hr).1 (Nat.lt_irrefl _)

theorem free_asks {who : Nat → Prop} (a : App) (target : String) : Always (Asks who) (a.free target) := by
  unfold free
  split
  · exact .bind (.log _) fun _ => Host.drop_asks _
  · exact .pure _

/-- Where a layout is mounted, it has the source from then on. -/
theorem mount_sourced (h : a.Sourced s) (hc : a.Consistent s) (layout : Json) (target : String) (scope : Scope)
    (source : HandlerSource) : Ensures (a.mount layout target scope source) s fun res s' =>
      (∃ e, res = (a, .error e) ∧ s' = s) ∨
        ∃ m, res = (a.put target m, .ok ()) ∧ (a.put target m).Sourced s' ∧ Supplied m source s s' := by
  rw [mount_eq]
  split
  · exact .pure (.inl ⟨_, rfl, rfl⟩)
  · split
    · exact .pure (.inl ⟨_, rfl, rfl⟩)
    · have hnobody : Always (Asks fun _ => False) (a.free (Text.trim target)) := free_asks a _
      refine .bind (hnobody s) fun _ s₁ hfree => ?_
      have hothers := (h.others (Text.trim target)).keep hfree.interpreters
      refine (place_sourced hc.sorted hothers layout scope source).mono fun res s' hplaced => .inr ?_
      obtain ⟨m, rfl, hsourced, hserves, hnew, hasks⟩ := hplaced
      rw [put_trim] at hsourced ⊢
      have hall := (hfree.mono (fun _ hfalse => hfalse.elim)).trans hasks
      refine ⟨m, rfl, hsourced, hserves, fun i before _ hbefore => hbefore.keep hall.interpreters, s, rfl,
        fun id i => ⟨fun hknows => ⟨?_, hknows⟩, And.right⟩, hall⟩
      rintro rfl
      exact hnew id (hfree.knows id _ hknows)

/-- Where the source is changed, the new one is asked anew. -/
theorem setHandlers_sourced (h : a.Sourced s) (hc : a.Consistent s) (target : String) (source : HandlerSource) :
    Ensures (a.setHandlers target source) s fun res s' => (∃ e, res = (a, .error e) ∧ s' = s) ∨
      ∃ m, res = (a.put target m, .ok ()) ∧ (a.put target m).Sourced s' ∧ Supplied m source s s' := by
  unfold App.setHandlers
  cases hm : a.find? target with
  | error e => exact .pure (.inl ⟨e, rfl, rfl⟩)
  | ok m =>
    have hget := get?_of_find? hm
    have hfocus := h.perm (perm_of_get? hc.sorted hget)
    let t : State := { s with interpreters := s.interpreters.modify m.interpreter fun r =>
      { r with source := some source, bound := [] } }
    have hother {j : Nat} (hj : j ≠ m.interpreter) : t.interpreters[j]? = s.interpreters[j]? :=
      List.getElem?_modify_ne _ _ (Ne.symm hj)
    have hserves : t.Serves m.interpreter (some source) := by
      obtain ⟨_, ⟨r, hr, -, -⟩, -⟩ := hfocus.each m List.mem_cons_self
      refine ⟨{ r with source := some source, bound := [] }, ?_, rfl, Interpreter.faithful_of_bound rfl⟩
      rw [List.getElem?_modify, hr]
      simp
    have hreset (r : Interpreter) (hr : t.interpreters[m.interpreter]? = some r) : r.bound = [] := by
      rw [List.getElem?_modify] at hr
      obtain ⟨r', -, rfl⟩ := Option.map_eq_some_iff.1 hr
      simp
    refine .bind_run (t := t) rfl ?_
    refine .bind (renderMount_cites m (some source) t hserves) fun m' s' ⟨hasks, heq, hroots⟩ => ?_
    have hi : m'.interpreter = m.interpreter := by rw [heq]
    rw [← hi] at hserves hasks hroots hother hreset
    have hkept {j : Nat} {before : Option HandlerSource} (hj : j ≠ m'.interpreter) (hbefore : s.Serves j before) :
        t.Serves j before := by
      obtain ⟨r, hr, hrest⟩ := hbefore
      exact ⟨r, (hother hj).trans hr, hrest⟩
    have hothers : LiveLayout.Sourced (a.others target) t := by
      refine ⟨fun n hn => ?_, (h.others target).apart⟩
      obtain ⟨source', hbefore, hn'⟩ := (h.others target).each n hn
      exact ⟨source', hkept (hi ▸ hfocus.ne_of_mem hn) hbefore, hn'⟩
    have hserves' := hserves.keep hasks.interpreters
    refine .pure (.inr ⟨m', rfl, ?_, hserves', fun j before hj hbefore => (hkept hj hbefore).keep hasks.interpreters, t,
      rfl, fun id j => ?_, hasks⟩)
    · refine Sourced.perm ((hothers.keep hasks.interpreters).cons ⟨source, hserves', hroots⟩ fun n hn => ?_)
        (perm_put hc.sorted target m').symm
      exact hi ▸ hfocus.ne_of_mem hn
    · by_cases hj : j = m'.interpreter
      · refine ⟨?_, fun hknows => absurd hj hknows.1⟩
        rintro ⟨r, hr, -, hknown⟩
        rw [hj] at hr
        rw [hreset r hr] at hknown
        cases hknown
      · unfold State.Knows
        rw [hother hj]
        simp [hj]

theorem unmount_sourced (h : a.Sourced s) (target : String) : Ensures (a.unmount target) s fun res s' =>
    res.1.Sourced s' ∧ Interpreter.Keep s.interpreters s'.interpreters ∧
      ∀ other, other ≠ Text.trim target → Fields.get? res.1.mounts other = Fields.get? a.mounts other := by
  unfold unmount
  cases hm : a.find? target with
  | error e => exact .pure ⟨h, .refl _, fun _ _ => rfl⟩
  | ok m =>
    have hdrop : Always (Asks fun _ => False) m.host.drop := Host.drop_asks _
    refine .bind (hdrop s) fun _ s₁ hasks => .bind_run (log_run _ s₁) (.pure ⟨?_, hasks.interpreters, ?_⟩)
    · exact (h.others target).keep hasks.interpreters
    · exact fun other hne => Fields.get?_erase_of_ne _ hne

/-! ### Steps -/

theorem dispatch_asks {who : Nat → Prop} (a : App) (target key property : String) (args : List Json) :
    Always (Asks who) (a.dispatch target key property args) := by
  unfold dispatch
  split
  · exact .pure _
  · split
    · exact .pure _
    · exact .bind (.log _) fun _ => (call_asks _ args).bind fun _ => .pure _

/-- A step that neither mounts nor unmounts a layout, nor gives one another source of handlers. -/
inductive Meanwhile : App × State → App × State → Prop where
  | rerender {a a' : App} {s s' : State} {target : String} {r : Except AppError Unit}
      (run : a.rerender target s = some ((a', r), s')) : Meanwhile (a, s) (a', s')
  | flush {a a' : App} {s s' : State} {n : Nat} (run : a.flush s = some ((a', n), s')) :
      Meanwhile (a, s) (a', s')
  | write {a : App} {s s' : State} {scope : Scope} {path : String} {value : Json}
      (run : Engine.set scope path value s = some ((), s')) : Meanwhile (a, s) (a, s')
  | dispatch {a : App} {s s' : State} {target key property : String} {args : List Json}
      {r : Except AppError Unit} (run : a.dispatch target key property args s = some (r, s')) :
      Meanwhile (a, s) (a, s')
  | deliver {a : App} {s s' : State} {number : Nat} {outcome : Outcome} {r : Bool}
      (run : Engine.deliver number outcome s = some (r, s')) : Meanwhile (a, s) (a, s')
  | addRoot {a : App} {s : State} (values : List (String × Json)) :
      Meanwhile (a, s) (a, { s with store := (s.store.addRoot values).2 })
  | fork {a : App} {s : State} {parent : Scope} (label : String) (bindings : List (String × Json))
      (valid : parent < s.store.levels.size) :
      Meanwhile (a, s) (a, { s with store := (s.store.fork parent label bindings).2 })
  | configure {a : App} {s : State} (config : Config) (transport : Bool) (registry : Registry)
      (immediate : Option Outcome) (tracing : Bool) (scopes : List (String × Scope))
      (listeners : List (String × List Action)) :
      Meanwhile (a, s) ({ a with config, transport }, { s with
        registry, tracing, scopes, listeners, network := { s.network with immediate } })

variable {c c' : App × State}

theorem Meanwhile.step (h : Meanwhile c c') : Step c c' := by
  cases h with
  | rerender run => exact .rerender run
  | flush run => exact .flush run
  | write run => exact .write run
  | dispatch run => exact .dispatch run
  | deliver run => exact .deliver run
  | addRoot values => exact .addRoot values
  | fork label bindings valid => exact .fork label bindings valid
  | configure config transport registry immediate tracing scopes listeners =>
    exact .configure config transport registry immediate tracing scopes listeners

/-- Meanwhile, all layouts stay from their sources, and only their interpreters ask. -/
theorem Meanwhile.goes (h : Meanwhile c c') (hc : c.1.Consistent c.2) (hs : c.1.Sourced c.2) :
    c'.1.Sourced c'.2 ∧ Goes c.1 c.2 c'.1 c'.2 := by
  have stays {a : App} {s s' : State} (hs : a.Sourced s) (hasks : Asks (· ∈ a.interpreters.map (·.2)) s s') :
      a.Sourced s' ∧ Goes a s a s' := ⟨hs.keep hasks.interpreters, .of_asks hasks⟩
  cases h with
  | rerender run => exact rerender_sourced hs hc _ _ _ run
  | flush run => exact flush_sourced hs _ _ run
  | write run => exact stays hs (set_asks _ _ _ _ _ _ run)
  | dispatch run => exact stays hs (dispatch_asks _ _ _ _ _ _ _ _ run)
  | deliver run => exact stays hs (deliver_asks _ _ _ _ _ run)
  | addRoot | fork => exact stays hs (.of_same rfl rfl)
  | configure => exact ⟨Sourced.keep hs (.refl _), rfl, .of_same rfl rfl⟩

theorem Step.sourced (h : Step c c') (hc : c.1.Consistent c.2) (hs : c.1.Sourced c.2) : c'.1.Sourced c'.2 := by
  cases h with
  | mount valid run =>
    rcases mount_sourced hs hc _ _ _ _ _ _ run with ⟨e, heq, rfl⟩ | ⟨m, heq, hsourced, -⟩
    · cases heq
      exact hs
    · cases heq
      exact hsourced
  | setHandlers run =>
    rcases setHandlers_sourced hs hc _ _ _ _ run with ⟨e, heq, rfl⟩ | ⟨m, heq, hsourced, -⟩
    · cases heq
      exact hs
    · cases heq
      exact hsourced
  | unmount run => exact (unmount_sourced hs _ _ _ run).1
  | rerender run => exact ((Meanwhile.rerender run).goes hc hs).1
  | flush run => exact ((Meanwhile.flush run).goes hc hs).1
  | write run => exact ((Meanwhile.write run).goes hc hs).1
  | dispatch run => exact ((Meanwhile.dispatch run).goes hc hs).1
  | deliver run => exact ((Meanwhile.deliver run).goes hc hs).1
  | addRoot values => exact ((Meanwhile.addRoot values).goes hc hs).1
  | fork label bindings valid => exact ((Meanwhile.fork label bindings valid).goes hc hs).1
  | configure config transport registry immediate tracing scopes listeners =>
    exact ((Meanwhile.configure config transport registry immediate tracing scopes listeners).goes hc hs).1

/-- Whatever an app has come to, its layouts are from their sources. -/
theorem Reachable.sourced (h : Reachable c) : c.1.Sourced c.2 := by
  induction h with
  | start config transport => exact ⟨(fun _ hm => nomatch hm), .nil⟩
  | step before step ih => exact step.sourced before.consistent ih

/-- A target gets a layout with a source of handlers, or another source. -/
inductive Handover (target : String) (source : HandlerSource) : App × State → App × State → Prop where
  | mount {a a' : App} {s s' : State} {layout : Json} {scope : Scope} (valid : scope < s.store.levels.size)
      (run : a.mount layout target scope source s = some ((a', .ok ()), s')) : Handover target source (a, s) (a', s')
  | setHandlers {a a' : App} {s s' : State} (run : a.setHandlers target source s = some ((a', .ok ()), s')) :
      Handover target source (a, s) (a', s')

theorem Handover.step {source : HandlerSource} (h : Handover target source c c') : Step c c' := by
  cases h with
  | mount valid run => exact .mount valid run
  | setHandlers run => exact .setHandlers run

theorem Handover.supplied {source : HandlerSource} (h : Handover target source c c') (hc : c.1.Consistent c.2)
    (hs : c.1.Sourced c.2) : ∃ m, Fields.get? c'.1.mounts (Text.trim target) = some m ∧ Supplied m source c.2 c'.2 := by
  cases h with
  | mount valid run =>
    rcases mount_sourced hs hc _ _ _ _ _ _ run with ⟨e, heq, -⟩ | ⟨m, heq, -, hsupplied⟩
    · cases heq
    · cases heq
      exact ⟨m, get?_put _ _ _, hsupplied⟩
  | setHandlers run =>
    rcases setHandlers_sourced hs hc _ _ _ _ run with ⟨e, heq, -⟩ | ⟨m, heq, -, hsupplied⟩
    · cases heq
    · cases heq
      exact ⟨m, get?_put _ _ _, hsupplied⟩

/-- A step by which the target itself is neither mounted nor unmounted, nor given another source of handlers. -/
inductive Elsewhere (target : String) : App × State → App × State → Prop where
  | meanwhile {c c' : App × State} (step : Meanwhile c c') : Elsewhere target c c'
  | mount {a a' : App} {s s' : State} {layout : Json} {other : String} {scope : Scope} {source : HandlerSource}
      {r : Except AppError Unit} (ne : Text.trim other ≠ Text.trim target) (valid : scope < s.store.levels.size)
      (run : a.mount layout other scope source s = some ((a', r), s')) : Elsewhere target (a, s) (a', s')
  | unmount {a a' : App} {s s' : State} {other : String} {r : Except AppError Unit}
      (ne : Text.trim other ≠ Text.trim target) (run : a.unmount other s = some ((a', r), s')) :
      Elsewhere target (a, s) (a', s')
  | setHandlers {a a' : App} {s s' : State} {other : String} {source : HandlerSource} {r : Except AppError Unit}
      (ne : Text.trim other ≠ Text.trim target) (run : a.setHandlers other source s = some ((a', r), s')) :
      Elsewhere target (a, s) (a', s')

theorem Elsewhere.step (h : Elsewhere target c c') : Step c c' := by
  cases h with
  | meanwhile step => exact step.step
  | mount _ valid run => exact .mount valid run
  | unmount _ run => exact .unmount run
  | setHandlers _ run => exact .setHandlers run

/-- The interpreter of the target has the source. -/
def Uses (target : String) (source : HandlerSource) (c : App × State) : Prop :=
  ∃ m, Fields.get? c.1.mounts (Text.trim target) = some m ∧ c.2.Serves m.interpreter (some source)

/-- A layout that another target gets takes no source away. -/
theorem Uses.put {source new : HandlerSource} {a : App} {s s' : State} {other : String} {m : Mount}
    (h : Uses target source (a, s)) (ne : Text.trim other ≠ Text.trim target) (hs : (a.put other m).Sourced s')
    (hm : Supplied m new s s') : Uses target source (a.put other m, s') := by
  obtain ⟨n, hn, hserves⟩ := h
  have hn' := (get?_put_of_ne a ne m).trans hn
  exact ⟨n, hn', hm.others _ _ (hs.interpreter_ne hn' (get?_put a other m) ne.symm) hserves⟩

theorem Elsewhere.uses {source : HandlerSource} (h : Elsewhere target c c') (hc : c.1.Consistent c.2)
    (hs : c.1.Sourced c.2) (hu : Uses target source c) : Uses target source c' := by
  cases h with
  | meanwhile step =>
    obtain ⟨m, hm, hserves⟩ := hu
    have hgoes := (step.goes hc hs).2
    obtain ⟨m', hm', hi⟩ := hgoes.get? hm
    rw [← hi] at hserves
    exact ⟨m', hm', hserves.keep hgoes.asks.interpreters⟩
  | mount ne valid run =>
    rcases mount_sourced hs hc _ _ _ _ _ _ run with ⟨e, heq, rfl⟩ | ⟨m, heq, hsourced, hsupplied⟩
    · cases heq
      exact hu
    · cases heq
      exact hu.put ne hsourced hsupplied
  | unmount ne run =>
    obtain ⟨m, hm, hserves⟩ := hu
    obtain ⟨-, hkeep, hother⟩ := unmount_sourced hs _ _ _ run
    exact ⟨m, (hother _ ne.symm).trans hm, hserves.keep hkeep⟩
  | setHandlers ne run =>
    rcases setHandlers_sourced hs hc _ _ _ _ run with ⟨e, heq, rfl⟩ | ⟨m, heq, hsourced, hsupplied⟩
    · cases heq
      exact hu
    · cases heq
      exact hu.put ne hsourced hsupplied

theorem goes_of_meanwhile (h : Reachable c) (steps : Relation.ReflTransGen Meanwhile c c') :
    Goes c.1 c.2 c'.1 c'.2 := by
  have hgoes : Reachable c' ∧ Goes c.1 c.2 c'.1 c'.2 := by
    induction steps with
    | refl => exact ⟨h, .refl _ _⟩
    | tail _ step ih => exact ⟨.step ih.1 step.step, ih.2.trans (step.goes ih.1.consistent ih.1.sourced).2⟩
  exact hgoes.2

theorem uses_of_elsewhere {source : HandlerSource} (h : Reachable c) (hu : Uses target source c)
    (steps : Relation.ReflTransGen (Elsewhere target) c c') : Reachable c' ∧ Uses target source c' := by
  induction steps with
  | refl => exact ⟨h, hu⟩
  | tail _ step ih => exact ⟨.step ih.1 step.step, step.uses ih.1.consistent ih.1.sourced ih.2⟩

/-- From when a target has got its source of handlers until it gets another one, all handlers that it shows are from
that source, and so are those that the handlers of its forms call. As long as no other target gets a layout or a source
either, sources are asked by the interpreters of targets only, and by each of them at most once for an id, whether or
not there is such a handler. -/
theorem handlers_from_source {c c₁ : App × State} {a : App} {s : State} {target : String} {source : HandlerSource}
    (reachable : Reachable c) (given : Handover target source c c₁)
    (later : Relation.ReflTransGen (Elsewhere target) c₁ (a, s)) :
    ∃ m shown, a.find? target = .ok m ∧ a.tree target = .ok shown ∧
      (∀ h ∈ Output.handlersAll shown, ∀ f ∈ h.functions, source.find? f.1 = some f.2) ∧
      (Relation.ReflTransGen Meanwhile c₁ (a, s) → ∃ since, s.events = since ++ c.2.events ∧
        ∀ id, ∃ askers : List Nat, askers.Nodup ∧
          (∀ i, i ∈ askers ↔ s.Knows id i ∧ (i = m.interpreter ∨ ¬c.2.Knows id i)) ∧
          (∀ i ∈ askers, i ∈ a.mounts.map (·.2.interpreter)) ∧ (lookups since).count id = askers.length) := by
  have hreachable₁ : Reachable c₁ := .step reachable given.step
  obtain ⟨n, hn, hsupplied⟩ := given.supplied reachable.consistent reachable.sourced
  obtain ⟨hreachable, m, hm, hserves⟩ := uses_of_elsewhere hreachable₁ ⟨n, hn, hsupplied.serves⟩ later
  obtain ⟨source', hserves', hroots⟩ := hreachable.sourced.each m (List.mem_map_of_mem (Fields.mem_of_get? hm))
  cases hserves.unique hserves'
  have hfind : a.find? target = .ok m := by
    unfold find?
    rw [hm]
  refine ⟨m, Mounted.snapshot m.host.roots, hfind, tree_eq hm, ?_, fun meanwhile => ?_⟩
  · intro h hh f hf
    exact Mounted.From.handlersAll "" m.host.roots hroots h hh f hf
  · have hgoes := goes_of_meanwhile hreachable₁ meanwhile
    obtain ⟨m', hm', hi⟩ := hgoes.get? hn
    cases hm.symm.trans hm'
    obtain ⟨t, hevents, hknows, hasks⟩ := hsupplied.asks
    have hwho : ∀ i, i = n.interpreter → i ∈ c₁.1.interpreters.map (·.2) := by
      rintro i rfl
      exact mem_interpreters (List.mem_map_of_mem (Fields.mem_of_get? hn))
    obtain ⟨since, hsince, hasked⟩ := ((hasks.mono hwho).trans hgoes.asks).asked
    refine ⟨since, by rw [hsince, hevents], fun id => ?_⟩
    obtain ⟨askers, hnodup, hmem, hwho, hcount⟩ := hasked id
    refine ⟨askers, hnodup, fun i => ?_, fun i hi => ?_, hcount⟩
    · rw [hmem, hknows, ← hi, and_comm, not_and_or, not_not]
    · have hmounted := hwho i hi
      rw [← hgoes.interpreters, interpreters, List.map_map] at hmounted
      exact hmounted

/-- A form with a field, and two bricks that follow a variable and have one handler. -/
def clickable : Json := .array [
  .object [("type", .string "form"), ("name", .string "user"), ("onSubmit", .string "sent"),
    ("children", .object [("type", .string "input"), ("name", .string "mail"), ("onChange", .string "typed")])],
  .object [("type", .string "p"), ("id", .string "a"), ("title", .string "\x7bx\x7d"), ("onClick", .string "go")],
  .object [("type", .string "p"), ("id", .string "b"), ("title", .string "\x7bx\x7d"), ("onClick", .string "go"),
    ("onBlur", .string "gone")]]

def clickStart : App × State := ({}, {
  store := (Store.addRoot {} [("x", .nat 0)]).2
  registry := {
    containers := [("form", ["onSubmit"])]
    fields := [("input", [("onChange", ⟨0, none⟩)])] } })

theorem clickStart_reachable : Reachable clickStart :=
  .step (.step (.start {} false) (.configure {} false _ none false [] [])) (.addRoot [("x", .nat 0)])

/-- Other functions for the ids, except for one that has none any more. -/
def clicks : HandlerSource :=
  let action : Action := ⟨none, "main", .write "x" (.nat 2)⟩
  .table [("sent", [action]), ("typed", [action]), ("go", [action])]

/-- Mounts the layout, gives it the other source, writes the variable and flushes. -/
def clickRun : Option ((App × Except AppError Unit) × State × (App × Except AppError Unit) × State × State ×
    (App × Nat) × State) := do
  let (r, s) ← clickStart.1.mount clickable "main" 0 .anything clickStart.2
  let (r', s') ← r.1.setHandlers "main" clicks s
  let ((), t) ← Engine.set 0 "x" (.nat 1) s'
  let (n, t') ← r'.1.flush t
  return (r, s, r', s', t, n, t')

/-- The ids of the functions that the handlers on `main` call. -/
def shownIds (a : App) : Option (List (List String)) :=
  (a.tree "main").toOption.map fun shown => (Output.handlersAll shown).map fun h => h.functions.map (·.1)

/-- After two local renderings, everything calls the other functions, and nothing has been asked for twice. -/
theorem handlers_from_source_clicks : ∃ (c c₁ : App × State) (a : App) (s : State) (shown : List Output)
    (since : List Event), Reachable c ∧ Handover "main" clicks c c₁ ∧ Relation.ReflTransGen Meanwhile c₁ (a, s) ∧
    a.tree "main" = .ok shown ∧ a.shownIds = some [["sent"], ["typed"], ["go"], ["go"]] ∧
    (∀ h ∈ Output.handlersAll shown, ∀ f ∈ h.functions, clicks.find? f.1 = some f.2) ∧
    s.events = since ++ c.2.events ∧ lookups since = ["gone", "go", "typed", "sent"] := by
  have hchecked : clickRun.any (fun r => r.1.2.isOk && r.2.2.1.2.isOk &&
      decide (r.2.2.2.2.2.1.1.shownIds = some [["sent"], ["typed"], ["go"], ["go"]] ∧
        lookups r.2.1.events = ["gone", "go", "typed", "sent"] ∧ lookups r.2.2.2.2.2.2.events =
          ["gone", "go", "typed", "sent"] ++ ["gone", "go", "typed", "sent"])) = true := by decide +kernel
  obtain ⟨⟨⟨a, r⟩, s, ⟨a', r'⟩, s', t, ⟨b, n⟩, t'⟩, hrun, hchecked⟩ := (Option.any_eq_true _ _).1 hchecked
  simp only [Bool.and_eq_true, decide_eq_true_eq, and_assoc] at hchecked
  obtain ⟨hok, hok', hshown, hlookups, hlookups'⟩ := hchecked
  obtain ⟨⟨_, _⟩, hmount, hrun⟩ := Option.bind_eq_some_iff.1 hrun
  obtain ⟨⟨_, _⟩, hset, hrun⟩ := Option.bind_eq_some_iff.1 hrun
  obtain ⟨⟨_, _⟩, hwrite, hrun⟩ := Option.bind_eq_some_iff.1 hrun
  obtain ⟨⟨_, _⟩, hflush, hrun⟩ := Option.bind_eq_some_iff.1 hrun
  cases hrun
  obtain ⟨⟩ | ⟨⟩ := r
  · cases hok
  obtain ⟨⟩ | ⟨⟩ := r'
  · cases hok'
  have hreachable : Reachable (a, s) := clickStart_reachable.step (.mount (by decide) hmount)
  have hgiven : Handover "main" clicks (a, s) (a', s') := .setHandlers hset
  have hmeanwhile : Relation.ReflTransGen Meanwhile (a', s') (b, t') := .tail (.single (.write hwrite)) (.flush hflush)
  have hlater : Relation.ReflTransGen (Elsewhere "main") (a', s') (b, t') :=
    .tail (.single (.meanwhile (.write hwrite))) (.meanwhile (.flush hflush))
  obtain ⟨m, shown, -, htree, hfrom, hasked⟩ := handlers_from_source hreachable hgiven hlater
  obtain ⟨since, hevents, -⟩ := hasked hmeanwhile
  refine ⟨(a, s), (a', s'), b, t', shown, since, hreachable, hgiven, hmeanwhile, htree, hshown, hfrom, hevents, ?_⟩
  have happend : lookups (since ++ s.events) = lookups since ++ lookups s.events := List.filterMap_append ..
  rw [hevents, happend, hlookups] at hlookups'
  exact List.append_cancel_right hlookups'

end App
end LiveLayout
