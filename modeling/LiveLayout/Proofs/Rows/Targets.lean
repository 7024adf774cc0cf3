import LiveLayout.Proofs.Rows.Lasting
/-!
The rows of lists on a target, from when it was rendered from the top and as long as the brick types are the same:
whenever they are rendered again, they are kept by the ids of their elements.
-/
namespace LiveLayout

open Engine Mounted

/-- While one state becomes another, the layout on a host is rendered, and an answer still comes for every component
that waits for it and stays in the tree. -/
structure Mount.Continues (m : Mount) (s : State) (m' : Mount) (s' : State) : Prop where
  redrawn : ∃ t t', Bypasses m.host.id s t ∧ m.Redrawn t m' t' ∧ Bypasses m.host.id t' s'
  answers : ∀ number c r outcome, s.network.waiting.find? (·.1 = number) = some (number, c) →
    c.owner.host = m.host.id → c.owner.id ∈ numbers m.host.roots → c.owner.id ∈ numbers m'.host.roots →
    s.record? c.owner = some r → r.alive = true → ∃ t, deliver number outcome s' = some (true, t) ∧
      Answers { s' with network := s'.network.without number } c r outcome t

namespace Mount

variable {m m' : Mount} {s s' t t' : State}

theorem Redrawn.continues (h : m.Redrawn t m' t') (before : Bypasses m.host.id s t) (after : Bypasses m.host.id t' s') :
    m.Continues s m' s' := by
  refine ⟨⟨t, t', before, h, after⟩, fun number c r outcome hfind hhost hold hnew hr halive => ?_⟩
  obtain ⟨op, calls, hcalls⟩ := h.calls
  have hwaiting : s.network.waiting <+: s'.network.waiting := before.waiting.trans (hcalls.waiting.trans after.waiting)
  have hrecord : s'.record? c.owner = s.record? c.owner := by
    have howner : c.owner = ⟨m.host.id, c.owner.id⟩ := congrArg (Instance.mk · c.owner.id) hhost
    rw [howner]
    exact (after.records _).trans ((hcalls.records _ hold hnew).trans (before.records _))
  obtain ⟨added, hadded⟩ := hwaiting
  refine Host.deliver_answers outcome ?_ (hrecord.trans hr) halive
  rw [← hadded, List.find?_append, hfind]
  rfl

end Mount

namespace App

variable {a a' : App} {s s' : State} {target : String} {c c' : App × State} {m : Mount}

/-- The components of whatever is mounted on the target are where its outline leads. -/
def Shaped (target : String) (c : App × State) : Prop :=
  ∀ m, Fields.get? c.1.mounts (Text.trim target) = some m → m.Shaped c.2

/-! ### Flushing -/

/-- Layouts are flushed one after the other, and the one on the target is still to come, or has been flushed. -/
inductive InTurn (target : String) (m : Mount) (s : State) (done rest : List (String × Mount)) (t : State) : Prop where
  | later (mem : (target, m) ∈ rest) (shaped : m.Shaped t) (before : Bypasses m.host.id s t)
  | flushed {m' : Mount} {t₁ t₂ : State} (mem : (target, m') ∈ done) (shaped : m'.Shaped t)
    (before : Bypasses m.host.id s t₁) (redrawn : m.Redrawn t₁ m' t₂) (after : Bypasses m.host.id t₂ t)

theorem InTurn.step {done rest : List (String × Mount)} {ms : List Mount} {t t' : State} {other : String} {k : Mount}
    {res : Host × Nat} (h : InTurn target m s done ((other, k) :: rest) t) (hsteady : Steady (k :: ms) t)
    (hmem : ∀ e ∈ done ++ rest, e.2 ∈ ms) (ht : t.Distinct) (hrun : k.host.flush t = some (res, t')) :
    InTurn target m s (done ++ [(other, { k with host := res.1 })]) rest t' := by
  obtain ⟨-, hk, -⟩ := hsteady.flush res t' hrun
  obtain ⟨calls, hcalls⟩ := hsteady.operated ht (by nofun) (Host.flush_follows k.host.roots) hrun
  have haside {n : Mount} {name : String} (hn : (name, n) ∈ done ++ rest) : Bypasses n.host.id t t' := by
    refine .of_operated (hsteady.flush_spares n.host.id res t' hrun) hcalls fun heq => ?_
    exact (List.nodup_cons.1 hsteady.hosts).1 (List.mem_map.2 ⟨n, hmem _ hn, heq⟩)
  have hkeep {n : Mount} (hn : n.Shaped t) : n.Shaped t' := hn.keep hk.registry (Steady.configs_of_keep hk)
  cases h with
  | later mem shaped before =>
    rcases List.mem_cons.1 mem with heq | mem
    · cases heq
      obtain ⟨hredrawn, hshaped⟩ := hsteady.flush_redrawn ht shaped res t' hrun
      exact .flushed (List.mem_append_right _ (List.mem_singleton_self _)) hshaped before hredrawn (.refl _ t')
    · exact .later mem (hkeep shaped) (before.trans (haside (List.mem_append_right _ mem)))
  | flushed mem shaped before redrawn after =>
    have hafter := haside (List.mem_append_left _ mem)
    rw [redrawn.id] at hafter
    exact .flushed (List.mem_append_left _ mem) (hkeep shaped) before redrawn (after.trans hafter)

/-- A flush of all targets renders the layout of each of them. -/
theorem flush_continues (h : a.Consistent s) (hs : s.Distinct) (hm : Fields.get? a.mounts target = some m)
    (hshaped : m.Shaped s) : Ensures a.flush s fun res s' =>
      ∃ m', Fields.get? res.1.mounts target = some m' ∧ m'.Shaped s' ∧ m.Continues s m' s' := by
  refine .bind (Ensures.foldlM (I := fun rest b t => Steady ((b.1 ++ rest).map (·.2)) t ∧ t.Distinct ∧
    (b.1 ++ rest).map (·.1) = a.mounts.map (·.1) ∧ InTurn target m s b.1 rest t)
    (fun e rest b t hI => ?_) a.mounts ([], 0)
      ⟨h.steady, hs, rfl, .later (Fields.mem_of_get? hm) hshaped (.refl _ s)⟩) fun res s' hI => ?_
  · obtain ⟨hsteady, hdistinct, hnames, hturn⟩ := hI
    obtain ⟨other, k⟩ := e
    have hperm : ((b.1 ++ (other, k) :: rest).map (·.2)).Perm (k :: (b.1 ++ rest).map (·.2)) := by
      simp only [List.map_append, List.map_cons]
      exact List.perm_middle
    have hfocus := hsteady.perm hperm
    have hflush : Ensures k.host.flush t fun res t' =>
        InTurn target m s (b.1 ++ [(other, { k with host := res.1 })]) rest t' := fun res t' hrun =>
      hturn.step hfocus (fun e he => List.mem_map_of_mem he) hdistinct hrun
    refine .bind (hfocus.flush.and hflush) fun res t' hnext => .pure ?_
    obtain ⟨⟨hsteady', hk, -⟩, hturn'⟩ := hnext
    refine ⟨hsteady'.perm ?_, hk.distinct hdistinct, ?_, hturn'⟩
    · simp only [List.append_assoc, List.map_append, List.map_cons, List.singleton_append]
      exact List.perm_middle.symm
    · rw [← hnames]
      simp
  · obtain ⟨-, -, hnames, hturn⟩ := hI
    rw [List.append_nil] at hnames
    cases hturn with
    | later mem => cases mem
    | flushed mem shaped before redrawn after =>
      refine .pure ⟨_, Fields.get?_of_mem ?_ mem, shaped, redrawn.continues before after⟩
      rw [hnames]
      exact h.sorted.nodup

/-! ### Steps -/

/-- Rendering a target from the top. -/
theorem rerender_continues (h : a.Consistent s) (hs : s.Distinct)
    (hm : Fields.get? a.mounts (Text.trim target) = some m) (hshaped : m.Shaped s) :
    Ensures (a.rerender target) s fun res s' =>
      ∃ m', res = (a.put target m', .ok ()) ∧ m'.Shaped s' ∧ m.Continues s m' s' := by
  obtain ⟨ms, hsteady⟩ := steady_of_get? h hm
  have hfind : a.find? target = .ok m := by rw [find?, hm]
  unfold rerender
  rw [hfind]
  refine (hsteady.renderMount_redrawn hs hshaped).bind fun m' s' hm' => .pure ?_
  obtain ⟨⟨t, hbypasses, hredrawn⟩, hshaped'⟩ := hm'
  exact ⟨m', rfl, hshaped', hredrawn.continues hbypasses (.refl _ s')⟩

theorem Shaped.of_current (h : Current target c) : Shaped target c := by
  obtain ⟨m, r, hm, hup⟩ := h
  intro m' hm'
  cases hm.symm.trans hm'
  exact hup.shaped

/-- What is mounted on a target stays shaped where it is left alone. -/
theorem Shaped.keep (h : Shaped target (a, s)) (hl : Lasts s s') (hregistry : s'.registry = s.registry)
    (hmounts : Fields.get? a'.mounts (Text.trim target) = Fields.get? a.mounts (Text.trim target)) :
    Shaped target (a', s') :=
  fun m hm => (h m (hmounts.symm.trans hm)).keep hregistry hl.configs

/-- A layout that is up to date has been put on the target or on another one. -/
theorem Shaped.put {other : String} {n : Mount} {r : Interpreter} (h : Shaped target (a, s)) (hl : Lasts s s')
    (hregistry : s'.registry = s.registry) (hn : n.UpToDate s' r) : Shaped target (a.put other n, s') := by
  by_cases heq : Text.trim other = Text.trim target
  · intro m hm
    rw [← heq, get?_put] at hm
    cases hm
    exact hn.shaped
  · exact h.keep hl hregistry (get?_put_of_ne a heq n)

/-- What one step preserves, unless it changes the brick types. -/
theorem Step.shaped (h : Step c c') (hc : c.1.Consistent c.2) (hs : c.2.Distinct)
    (hregistry : c'.2.registry = c.2.registry) (hshaped : Shaped target c) : Shaped target c' := by
  have hl := h.lasts hc
  cases h with
  | mount valid run =>
    rcases mount_current hc _ _ _ valid _ _ run with ⟨e, heq, rfl⟩ | ⟨⟨n, r, heq, hup⟩, -⟩
    · cases heq
      exact hshaped
    · cases heq
      exact hshaped.put hl hregistry hup
  | @unmount _ _ _ _ other _ run =>
    rcases unmount_spares hc _ _ _ run with ⟨e, heq, rfl⟩ | ⟨heq, -⟩
    · cases heq
      exact hshaped
    · by_cases hsame : Text.trim target = Text.trim other
      · intro m hm
        rw [hsame, show _ = Fields.erase _ _ from heq, Fields.get?_erase_self hc.sorted.nodup] at hm
        cases hm
      · exact hshaped.keep hl hregistry ((congrArg (Fields.get? · _) heq).trans (Fields.get?_erase_of_ne _ hsame))
  | rerender run =>
    rcases rerender_current hc _ _ _ run with ⟨e, heq, rfl⟩ | ⟨⟨n, r, heq, hup⟩, -⟩
    · cases heq
      exact hshaped
    · cases heq
      exact hshaped.put hl hregistry hup
  | setHandlers run =>
    rcases setHandlers_current hc _ _ _ _ run with ⟨e, heq⟩ | ⟨n, r, heq, hup⟩
    · cases heq
      exact hshaped.keep hl hregistry rfl
    · cases heq
      exact hshaped.put hl hregistry hup
  | flush run =>
    intro m' hm'
    obtain ⟨-, -, -, hflushed⟩ := flush_ensures hc.steady _ _ run
    obtain ⟨⟨name, m⟩, hmem, hf⟩ := exists_of_mem_right hflushed (Fields.mem_of_get? hm')
    have hm := Fields.get?_of_mem hc.sorted.nodup hmem
    obtain rfl : Text.trim target = name := hf.target
    obtain ⟨m'', hm'', hshaped', -⟩ := flush_continues hc hs hm (hshaped m hm) _ _ run
    cases hm'.symm.trans hm''
    exact hshaped'
  | write | dispatch | deliver | addRoot | fork | configure => exact hshaped.keep hl hregistry rfl

/-- From when a target was rendered from the top, its layout stays shaped as long as the brick types are the same. -/
theorem shaped_of_steps (hc : c.1.Consistent c.2) (hs : c.2.Distinct) (hshaped : Shaped target c)
    (steps : Relation.ReflTransGen (fun x y => Step x y ∧ y.2.registry = x.2.registry) c c') :
    c'.1.Consistent c'.2 ∧ c'.2.Distinct ∧ Shaped target c' := by
  induction steps with
  | refl => exact ⟨hc, hs, hshaped⟩
  | tail _ step ih =>
    obtain ⟨hc, hs, hshaped⟩ := ih
    exact ⟨step.1.consistent hc, (step.1.lasts hc).distinct hs, step.1.shaped hc hs step.2 hshaped⟩

/-- From when a target was rendered from the top, as long as the brick types are the same: wherever a flush or another
rendering gives a list other elements with ids of their own, the components of the template stay in the rows of the ids
that stay, down to its special bricks. Nothing there is mounted or unmounted or sends a request, and an answer that one
of them waits for still comes. Every row is in a new fork for its element, where its proxies read. The rows of other ids
are mounted or unmounted once, and the rows are in the order of the elements. -/
theorem rows_keep_identity {m : Mount} (reachable : Reachable c) (walk : Walk target c c')
    (meanwhile : Relation.ReflTransGen (fun x y => Step x y ∧ y.2.registry = x.2.registry) c' (a, s))
    (found : a.find? target = .ok m) :
    (∀ a' n s', a.flush s = some ((a', n), s') → ∃ m', a'.find? target = .ok m' ∧ m.Continues s m' s') ∧
    ∀ a' res s', a.rerender target s = some ((a', res), s') →
      res = .ok () ∧ ∃ m', a'.find? target = .ok m' ∧ m.Continues s m' s' := by
  have hc := reachable.consistent
  have hwalked : Shaped target c' := .of_current (walk.current hc)
  obtain ⟨hc', hs, hshaped⟩ := shaped_of_steps (walk.step.consistent hc)
    ((walk.step.lasts hc).distinct reachable.distinct) hwalked meanwhile
  have hm := get?_of_find? found
  refine ⟨fun a' n s' hrun => ?_, fun a' res s' hrun => ?_⟩
  · obtain ⟨m', hm', -, hcontinues⟩ := flush_continues hc' hs hm (hshaped m hm) _ _ hrun
    exact ⟨m', by rw [find?, hm'], hcontinues⟩
  · obtain ⟨m', heq, -, hcontinues⟩ := rerender_continues hc' hs hm (hshaped m hm) _ _ hrun
    cases heq
    exact ⟨rfl, m', by rw [find?, get?_put], hcontinues⟩

/-- The components in the rows of an id on `main`, down to the special bricks in them. -/
def rowOf (a : App) (id : String) : List Nat :=
  (a.find? "main").toOption.toList.flatMap fun m => (partsAll m.host.roots).flatMap fun e => e.children.flatMap fun
    | .fragment key kids => if key = some (ForEach.rowKey id) then (nearAll kids).map Prod.fst else []
    | _ => []

/-- A list of the variable's elements. -/
def listOf (template : Json) : Json := .object [("type", .string "ForEach"), ("id", .string "l"),
  ("items", .string "\x7bxs\x7d"), ("as", .string "x"), ("template", template)]

/-- Mounts a layout for some elements, then flushes it for others. -/
def listRun (c : App × State) (layout : Json) (items items' : List Json) :
    Option ((App × Except AppError Unit) × State × State × (App × Nat) × State) := do
  let (r, s) ← c.1.mount layout "main" 0 .anything { c.2 with store := (c.2.store.addRoot [("xs", .array items)]).2 }
  let ((), s₁) ← Engine.set 0 "xs" (.array items') s
  let (n, s₂) ← r.1.flush s₁
  return (r, s, s₁, n, s₂)

/-- Such a run goes through reachable states, and its one step between is a write, which leaves the brick types alone. -/
theorem steps_of_listRun {layout : Json} {items items' : List Json} {s₁ s₂ : State} {n : App × Nat} (h : Reachable c)
    (hrun : listRun c layout items items' = some ((a, .ok ()), s, s₁, n, s₂)) :
    ∃ c', Reachable c' ∧ Walk "main" c' (a, s) ∧
      Relation.ReflTransGen (fun x y => Step x y ∧ y.2.registry = x.2.registry) (a, s) (a, s₁) ∧
      a.flush s₁ = some (n, s₂) := by
  obtain ⟨⟨_, _⟩, hmount, hrun⟩ := Option.bind_eq_some_iff.1 hrun
  obtain ⟨⟨_, _⟩, hset, hrun⟩ := Option.bind_eq_some_iff.1 hrun
  obtain ⟨⟨_, _⟩, hflush, hrun⟩ := Option.bind_eq_some_iff.1 hrun
  cases hrun
  have hreachable : Reachable (c.1, { c.2 with store := (c.2.store.addRoot [("xs", .array items)]).2 }) :=
    h.step (.addRoot _)
  have hwalk : Walk "main" _ (a, s) := .mount (by simp [Store.addRoot]) hmount
  have hc := hwalk.step.consistent hreachable.consistent
  exact ⟨_, hreachable, hwalk, .single ⟨.write hset, (set_writes _ _ _ _ hc.steady.ledger.tidy _ _ hset).registry⟩, hflush⟩

/-- In every row, a brick that reads the element and one that fetches. -/
def fetching : Json := listOf (.array [
  .object [("type", .string "p"), ("id", .string "t"), ("title", .string "\x7bx.t\x7d")],
  .object [("type", .string "Fetch"), ("id", .string "f"), ("url", .string "/u"), ("loading", .string "i")]])

def titled (id : String) (title : Nat) : Json := .object [("id", .string id), ("t", .nat title)]

/-- The elements change from `a` and `b` to `b` and `c` while the requests of the first two rows are in flight. -/
def fetchingRun : Option ((App × Except AppError Unit) × State × State × (App × Nat) × State) :=
  listRun ({ transport := true }, {}) fetching [titled "a" 1, titled "b" 2] [titled "b" 3, titled "c" 4]

def requesters (s : State) : List Nat := s.network.waiting.map (·.2.owner.id)

/-- Only the new row sends a request, and the one that stays still waits for its answer. -/
theorem rows_keep_identity_fetching : ∃ (a a' : App) (s s₁ s₂ : State) (n : Nat) (m m' : Mount),
    fetchingRun = some ((a, .ok ()), s, s₁, (a', n), s₂) ∧ a.find? "main" = .ok m ∧ a'.find? "main" = .ok m' ∧
      a.rowOf "a" = [3, 4] ∧ a.rowOf "b" = [5, 6] ∧ a.rowOf "c" = [] ∧ requesters s₁ = [4, 6] ∧
      a'.rowOf "a" = [] ∧ a'.rowOf "b" = [5, 6] ∧ a'.rowOf "c" = [7, 8] ∧ requesters s₂ = [4, 6, 8] ∧
      m.Continues s₁ m' s₂ := by
  have hchecked : fetchingRun.any (fun r => r.1.2.isOk &&
      decide (["a", "b", "c"].map r.1.1.rowOf = [[3, 4], [5, 6], []] ∧ requesters r.2.2.1 = [4, 6] ∧
        ["a", "b", "c"].map r.2.2.2.1.1.rowOf = [[], [5, 6], [7, 8]] ∧ requesters r.2.2.2.2 = [4, 6, 8])) = true := by
    decide +kernel
  obtain ⟨⟨⟨a, r⟩, s, s₁, ⟨a', n⟩, s₂⟩, hrun, hchecked⟩ := (Option.any_eq_true _ _).1 hchecked
  simp only [Bool.and_eq_true, decide_eq_true_eq, List.map_cons, List.map_nil, List.cons.injEq, and_true, and_assoc] at hchecked
  obtain ⟨hok, ha, hb, hc, hwaiting, ha', hb', hc', hwaiting'⟩ := hchecked
  obtain ⟨⟩ | ⟨⟩ := r
  · cases hok
  obtain ⟨c, hreachable, hwalk, hsteps, hflush⟩ := steps_of_listRun (.start {} true) hrun
  obtain ⟨m, -, hm, -⟩ := hwalk.current hreachable.consistent
  have hfind : a.find? "main" = .ok m := by rw [find?, hm]
  obtain ⟨m', hfind', hcontinues⟩ := (rows_keep_identity hreachable hwalk hsteps hfind).1 _ _ _ hflush
  exact ⟨a, a', s, s₁, s₂, n, m, m', hrun, hfind, hfind', ha, hb, hc, hwaiting, ha', hb', hc', hwaiting', hcontinues⟩

/-- In every row, a brick with a part that it leaves out if an expression has no value. -/
def carded : Json := listOf (.object [("type", .string "Card"), ("id", .string "c"), ("header", .string "\x7bx.h.y\x7d"),
  ("children", .object [("type", .string "p"), ("id", .string "t"), ("title", .string "\x7bx.t\x7d")])])

def cardStart : App × State :=
  ({}, { registry := (Registry.register {} "Card" (.recipe .card) ["header", "footer"]).toOption.getD {} })

def cardItems : List Json := [.object [("id", .string "a"), ("t", .string "x")]]

def cardItems' : List Json :=
  [.object [("id", .string "a"), ("t", .string "x"), ("h", .object [("y", .string "H")])]]

/-- A recipe decides anew in each rendering where it puts its children. The card gets a header, and what was in its body
is unmounted and mounted anew, in a row that stays. -/
theorem recipe_mounts_anew : ∃ (a a' : App) (s s₁ s₂ : State) (n : Nat) (m' : Mount),
    Reachable cardStart ∧ listRun cardStart carded cardItems cardItems' = some ((a, .ok ()), s, s₁, (a', n), s₂) ∧
      ForEach.Identified cardItems ["a"] ∧ ForEach.Identified cardItems' ["a"] ∧ a'.find? "main" = .ok m' ∧
      a.rowOf "a" = [3, 4] ∧ a'.rowOf "a" = [3, 5] ∧ 4 ∉ numbers m'.host.roots := by
  have hchecked : (listRun cardStart carded cardItems cardItems').any (fun r => r.1.2.isOk &&
      decide (r.1.1.rowOf "a" = [3, 4] ∧ r.2.2.2.1.1.rowOf "a" = [3, 5]) &&
        (r.2.2.2.1.1.find? "main").toOption.any (fun m => decide (4 ∉ numbers m.host.roots))) = true := by
    decide +kernel
  obtain ⟨⟨⟨a, r⟩, s, s₁, ⟨a', n⟩, s₂⟩, hrun, hchecked⟩ := (Option.any_eq_true _ _).1 hchecked
  simp only [Bool.and_eq_true, decide_eq_true_eq, and_assoc] at hchecked
  obtain ⟨hok, hrow, hrow', hgone⟩ := hchecked
  obtain ⟨⟩ | ⟨⟩ := r
  · cases hok
  cases hfind : a'.find? "main" with
  | error e =>
    rw [hfind] at hgone
    cases hgone
  | ok m' =>
    rw [hfind] at hgone
    exact ⟨a, a', s, s₁, s₂, n, m', .step (.start {} false) (.configure {} false _ none false [] []), hrun,
      ⟨by decide, by decide⟩, ⟨by decide, by decide⟩, hfind, hrow, hrow', of_decide_eq_true hgone⟩

end App
end LiveLayout
