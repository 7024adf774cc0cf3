import LiveLayout.Proofs.Rows.Targets
import LiveLayout.Proofs.Staying.Courses
/-!
The rows of a list, and all else that a special brick puts into scopes of its own, from one of its renderings to the
next: whatever the app does meanwhile, they stay in their scopes, and what has been written there is read and shown.
-/
namespace LiveLayout

open Engine Mounted

/-- A name that a level binds is read there. -/
theorem Store.lookup?_of_valueAt? {σ : Store} {scope : Nat} {x : String} {v : Json} (h : σ.valueAt? scope x = some v) :
    σ.lookup? scope x = some v := by
  obtain ⟨level, hlevel, hv⟩ := Option.bind_eq_some_iff.1 h
  have hhas : Fields.has level.values x = true := by simp [Fields.has, hv]
  have howner : σ.owner scope x = scope := by
    rw [owner, hlevel]
    cases hp : level.parent <;> simp [hp, hhas]
  rw [lookup?, howner, h]

namespace Mount

/-- The component shows what its brick has, if it is a proxy. -/
def Shows (m : Mount) (s : State) (e : Tenant) : Prop :=
  ∃ r, s.interpreters[m.interpreter]? = some r ∧ e.Shown r.transport s.store

/-- What the component on the line has rendered at the position stands in the scope. -/
def Lodges (m : Mount) (s : State) (l : Line) (j : Nat) (scope : Scope) (row : Mounted) : Prop :=
  ∃ r e, s.interpreters[m.interpreter]? = some r ∧ e ∈ m.tenants ∧ e.toLine = l ∧ e.children[j]? = some row ∧
    row.Inside m.interpreter r.transport scope

/-- Every proxy of the row, down to special bricks, reads the value of the variable in the scope, and shows what its
brick has unless it waits. -/
def Reads (m : Mount) (s : State) (row : Mounted) (scope : Scope) (x : String) (v : Json) : Prop :=
  ∀ e ∈ m.tenants, ∀ p, e.component = .proxy p → (e.id, e.component) ∈ row.near →
    p.scope = scope ∧ s.store.lookup? scope x = some v ∧ (e.id ∉ s.queue m.host.id → m.Shows s e)

end Mount

namespace App

variable {a a' : App} {m m' : Mount} {s s' : State} {c c' : App × State} {target x : String} {l : Line} {j scope : Nat}
  {row : Mounted} {v : Json}

/-- Every proxy on the target that does not wait shows what its brick has. -/
def Attuned (target : String) (c : App × State) : Prop :=
  ∀ m, Fields.get? c.1.mounts (Text.trim target) = some m → m.Attuned c.2

theorem Consistent.stands (h : a.Consistent s) {name : String} (hm : Fields.get? a.mounts name = some m) : m.Stands s :=
  h.steady.stands m (List.mem_map_of_mem (f := (·.2)) (Fields.mem_of_get? hm))

/-- What one step preserves. -/
theorem Step.attuned (h : Step c c') (hc : c.1.Consistent c.2) (hattuned : Attuned target c) : Attuned target c' := by
  intro m' hm'
  cases h.course hc hm' with
  | left before leaves => exact (hattuned _ before).leaves (hc.stands before) leaves
  | wrote before wrote =>
    obtain ⟨ms, hsteady⟩ := steady_of_get? hc before
    exact (hattuned _ before).wrote hsteady wrote
  | flushed before _ endures _ => exact endures.attuned (hattuned _ before)
  | drawn upToDate _ _ => exact upToDate.attuned ((h.consistent hc).stands hm')

/-- The rows of all lists on the target, and what fetches show there, stand in forks. -/
def Housed (target : String) (c : App × State) : Prop :=
  ∀ m, Fields.get? c.1.mounts (Text.trim target) = some m → m.Housed c.2

theorem Step.housed (h : Step c c') (hc : c.1.Consistent c.2) (hhoused : Housed target c) : Housed target c' := by
  intro m' hm'
  cases h.course hc hm' with
  | left before leaves => exact (hhoused _ before).leaves leaves
  | wrote before wrote => exact (hhoused _ before).wrote wrote
  | flushed before _ endures _ => exact endures.housed (hhoused _ before)
  | drawn _ housed _ => exact housed

theorem Reachable.housed (h : Reachable c) (target : String) : Housed target c := by
  induction h with
  | start config transport => exact nofun
  | step before step ih => exact step.housed before.consistent ih

/-- Whatever an app has done, every proxy that does not wait shows what its brick has. -/
theorem Reachable.attuned (h : Reachable c) (target : String) : Attuned target c := by
  induction h with
  | start config transport => exact nofun
  | step before step ih => exact step.attuned before.consistent ih

/-- One step of an app by which the component on the line is not rendered, and the variable keeps its value. -/
structure Passes (target : String) (host : Nat) (l : Line) (scope : Scope) (x : String) (c c' : App × State) :
    Prop where
  step : Step c c'
  line : ∃ m, c'.1.find? target = .ok m ∧ m.host.id = host ∧ l ∈ m.lines
  value : c'.2.store.valueAt? scope x = c.2.store.valueAt? scope x

/-- What a component has put into a scope stays there where the component is not rendered. -/
theorem Step.lodges (h : Step c c') (hc : c.1.Consistent c.2) (hm : Fields.get? c.1.mounts (Text.trim target) = some m)
    (hm' : Fields.get? c'.1.mounts (Text.trim target) = some m') (hid : m'.host.id = m.host.id) (hl : l ∈ m'.lines)
    (hrow : m.Lodges c.2 l j scope row) : ∃ row', m'.Lodges c'.2 l j scope row' := by
  obtain ⟨r, d, hr, hd, rfl, hchild, hinside⟩ := hrow
  cases h.course hc hm' with
  | left before leaves =>
    cases hm.symm.trans before
    obtain ⟨r', hr', heq⟩ := leaves.transports _ r hr
    exact ⟨row, r', d, hr', hd, rfl, hchild, heq ▸ hinside⟩
  | wrote before wrote =>
    cases hm.symm.trans before
    exact ⟨row, r, d, wrote.interpreters ▸ hr, hd, rfl, hchild, hinside⟩
  | flushed before _ endures keeps =>
    cases hm.symm.trans before
    obtain ⟨e, he, hline⟩ := m'.exists_tenant hl
    obtain ⟨r', hr', hlike⟩ := keeps.interpreters _ r hr
    have hstays := endures.stays r hr d hd e he (congrArg Line.id hline) (congrArg Line.renders hline)
    obtain ⟨hlt, rfl⟩ := List.getElem?_eq_some_iff.1 hchild
    have hlt' : j < e.children.length := hstays.children.length_eq ▸ hlt
    refine ⟨e.children[j], r', e, endures.interpreter ▸ hr', he, hline, List.getElem?_eq_getElem hlt', ?_⟩
    rw [endures.interpreter, hlike.transport]
    exact (hstays.children.get hlt hlt').inside scope hinside
  | drawn _ _ anew => exact absurd hl (anew m hm hid _ (m.line_mem hd))

/-- What one step after another preserves. -/
theorem lodges_of_passes (hc : Reachable c) (hm : c.1.find? target = .ok m) (hrow : m.Lodges c.2 l j scope row)
    (run : Relation.ReflTransGen (Passes target m.host.id l scope x) c c') : Reachable c' ∧
      c'.2.store.valueAt? scope x = c.2.store.valueAt? scope x ∧
      ∃ m' row', c'.1.find? target = .ok m' ∧ m'.host.id = m.host.id ∧ m'.Lodges c'.2 l j scope row' := by
  induction run with
  | refl => exact ⟨hc, rfl, m, row, hm, rfl, hrow⟩
  | tail _ step ih =>
    obtain ⟨hc', hvalue, m', row', hm', hid, hrow'⟩ := ih
    obtain ⟨m'', hm'', hid'', hl⟩ := step.line
    have hget' := get?_of_find? hm'
    obtain ⟨row'', hrow''⟩ := step.step.lodges hc'.consistent hget' (get?_of_find? hm'') (hid''.trans hid.symm) hl hrow'
    exact ⟨hc'.step step.step, step.value.trans hvalue, m'', row'', hm'', hid'', hrow''⟩

/-- Every row of a list stands in a fork that binds the list's variable, and what a fetch shows is in its own scope or
in a fork that binds the names of an answer. And from one rendering of a special brick to its next, whatever it has put
into a scope stays there, whatever the app does meanwhile: it reads the value that a variable has kept in the scope, and
shows it unless it waits. After a flush nothing waits. -/
theorem rows_keep_values (reachable : Reachable c) (found : c.1.find? target = .ok m) :
    (∀ e ∈ m.tenants, ∀ p items binding template, e.component = .forEach p → ForEach.Lists p items binding template →
      ∀ j row, e.children[j]? = some row → ∃ scope, c.2.store.Binds scope binding ∧ m.Lodges c.2 e.toLine j scope row) ∧
    (∀ e ∈ m.tenants, ∀ f, e.component = .fetch f → ∃ scope,
      f.Enters (fun bindings scope => ∀ x, Fields.has bindings x = true → c.2.store.Binds scope x) scope ∧
      ∀ j row, e.children[j]? = some row → m.Lodges c.2 e.toLine j scope row) ∧
    ∀ l j scope row x v c', m.Lodges c.2 l j scope row → c.2.store.valueAt? scope x = some v →
      Relation.ReflTransGen (Passes target m.host.id l scope x) c c' →
      ∃ m' row', c'.1.find? target = .ok m' ∧ m'.Lodges c'.2 l j scope row' ∧ m'.Reads c'.2 row' scope x v ∧
        ∀ a n s, c'.1.flush c'.2 = some ((a, n), s) → s.queue m'.host.id = [] := by
  obtain ⟨r, hr, hhoused⟩ := reachable.housed target m (get?_of_find? found)
  refine ⟨fun e he p items binding template hp hlists j row hrow => ?_, fun e he f hf => ?_,
    fun l j scope row x v c' lodges value run => ?_⟩
  · obtain ⟨scope, hbinds, hinside⟩ := (hhoused e he).rows p items binding template hp hlists row
      (List.mem_of_getElem? hrow)
    exact ⟨scope, hbinds, r, e, hr, he, rfl, hrow, hinside⟩
  · obtain ⟨scope, henters, hinside⟩ := (hhoused e he).body f hf
    exact ⟨scope, henters, fun j row hrow => ⟨r, e, hr, he, rfl, hrow, hinside row (List.mem_of_getElem? hrow)⟩⟩
  · obtain ⟨hc, hvalue, m', row', hm', -, hrow'⟩ := lodges_of_passes reachable found lodges run
    have hget := get?_of_find? hm'
    refine ⟨m', row', hm', hrow', fun e he p hp hnear => ?_, fun a n s hrun => ?_⟩
    · obtain ⟨r, -, hr, -, -, -, hinside⟩ := hrow'
      have hat := hinside _ hnear
      rw [hp] at hat
      refine ⟨hat.2.1, Store.lookup?_of_valueAt? (hvalue.trans value), fun hnot => ?_⟩
      obtain ⟨r', hr', hshown⟩ := hc.attuned target m' hget
      exact ⟨r', hr', (hshown e he).resolve_left hnot⟩
    · obtain ⟨-, -, -, -, hidle⟩ := flush_endures hc.consistent hget _ _ hrun
      exact hidle

deriving instance DecidableEq for Line

/-- A row for every text, which shows it. -/
def texts : Json := listOf (.object [("type", .string "p"), ("id", .string "t"), ("title", .string "\x7bx\x7d")])

/-- Mounts rows for `a` and `b`, writes `c` to the variable of the first one and flushes. Then comes a write to another
variable and another flush, and at last the target is rendered again. -/
def textsRun : Option (((App × Except AppError Unit) × State) × State × ((App × Nat) × State) × State ×
    ((App × Nat) × State) × ((App × Except AppError Unit) × State)) := do
  let (r, s) ← App.mount {} texts "main" 0 .anything
    { store := (({} : Store).addRoot [("xs", .array [.string "a", .string "b"])]).2 }
  let ((), s₁) ← Engine.set 1 "x" (.string "c") s
  let (n, s₂) ← r.1.flush s₁
  let ((), s₃) ← Engine.set 0 "y" (.nat 7) s₂
  let (n', s₄) ← n.1.flush s₃
  let (r', s₅) ← n'.1.rerender "main" s₄
  return ((r, s), s₁, (n, s₂), s₃, (n', s₄), (r', s₅))

/-- The titles that the components on `main` show. -/
def titles (a : App) : List String :=
  (a.find? "main").toOption.toList.flatMap fun m => m.tenants.flatMap fun e => e.children.filterMap fun
    | .element _ _ props _ => props.text? "title"
    | _ => none

/-- The proxies on `main` with their scopes. -/
def proxies (a : App) : List (Nat × Scope) :=
  (a.find? "main").toOption.toList.flatMap fun m => m.tenants.filterMap fun e => match e.component with
    | .proxy p => some (e.id, p.scope)
    | _ => none

/-- The text that a level binds to the variable. -/
def textAt (s : State) (scope : Scope) : Option String := (s.store.valueAt? scope "x").bind Json.str?

/-- The component is a list, and its first row has a proxy in the scope. -/
def startsIn (scope : Scope) (e : Tenant) : Bool :=
  match e.component with
  | .forEach p => match p.rendering?, p.value? "items", p.text? "as", p.value? "template" with
    | some _, some (.array _), some _, some _ => e.children[0]?.any fun row => row.near.any fun
      | (_, .proxy q) => q.scope = scope
      | _ => false
    | _, _, _, _ => false
  | _ => false

def listLine : Line := ⟨2, [1], 1⟩

/-- The run goes through reachable states. -/
theorem steps_of_textsRun {r r' : App × Except AppError Unit} {n n' : App × Nat} {s s₁ s₂ s₃ s₄ s₅ : State}
    (hrun : textsRun = some ((r, s), s₁, (n, s₂), s₃, (n', s₄), (r', s₅))) :
    Reachable (n.1, s₂) ∧ Step (n.1, s₂) (n.1, s₃) ∧ Step (n.1, s₃) (n'.1, s₄) ∧
      n'.1.rerender "main" s₄ = some (r', s₅) := by
  obtain ⟨⟨_, _⟩, hmount, hrun⟩ := Option.bind_eq_some_iff.1 hrun
  obtain ⟨⟨_, _⟩, hset, hrun⟩ := Option.bind_eq_some_iff.1 hrun
  obtain ⟨⟨_, _⟩, hflush, hrun⟩ := Option.bind_eq_some_iff.1 hrun
  obtain ⟨⟨_, _⟩, hset', hrun⟩ := Option.bind_eq_some_iff.1 hrun
  obtain ⟨⟨_, _⟩, hflush', hrun⟩ := Option.bind_eq_some_iff.1 hrun
  obtain ⟨⟨_, _⟩, hrerender, hrun⟩ := Option.bind_eq_some_iff.1 hrun
  cases hrun
  have hstart : Reachable ({}, { store := (({} : Store).addRoot [("xs", .array [.string "a", .string "b"])]).2 }) :=
    .step (.start {} false) (.addRoot _)
  have hmounted := (hstart.step (.mount (by simp [Store.addRoot]) hmount)).step (.write hset)
  exact ⟨hmounted.step (.flush hflush), .write hset', .flush hflush', hrerender⟩

theorem lists_of_startsIn {scope : Scope} {e : Tenant} (h : startsIn scope e = true) :
    ∃ p items binding template row id q, e.component = .forEach p ∧ ForEach.Lists p items binding template ∧
      e.children[0]? = some row ∧ (id, .proxy q) ∈ row.near ∧ q.scope = scope := by
  unfold startsIn at h
  split at h
  · rename_i p hp
    split at h
    · rename_i r items binding template hr hitems hbinding htemplate
      obtain ⟨row, hrow, h⟩ := (Option.any_eq_true _ _).1 h
      obtain ⟨x, hx, h⟩ := List.any_eq_true.1 h
      split at h
      · rename_i id q
        exact ⟨p, items, binding, template, row, id, q, hp, ⟨by simp [hr], hitems, hbinding, htemplate⟩, hrow, hx,
          of_decide_eq_true h⟩
      · cases h
    · cases h
  · cases h

theorem eq_of_textAt {scope : Scope} {t : String} (h : textAt s scope = some t) :
    s.store.valueAt? scope "x" = some (.string t) := by
  obtain ⟨v, hv, ht⟩ := Option.bind_eq_some_iff.1 h
  cases v <;> cases ht
  exact hv

/-- A row reads and shows what has been written to its variable, over a write to another variable and a flush. -/
theorem rows_keep_values_texts : ∃ (c c' : App × State) (m m' : Mount) (row row' : Mounted), Reachable c ∧
    c.1.find? "main" = .ok m ∧ m.Lodges c.2 listLine 0 1 row ∧ c.2.store.valueAt? 1 "x" = some (.string "c") ∧
    titles c.1 = ["c", "b"] ∧ Relation.ReflTransGen (Passes "main" m.host.id listLine 1 "x") c c' ∧
    c'.1.find? "main" = .ok m' ∧ m'.Lodges c'.2 listLine 0 1 row' ∧ titles c'.1 = ["c", "b"] := by
  have hchecked : textsRun.any (fun r =>
      decide (textAt r.2.2.1.2 1 = some "c" ∧ textAt r.2.2.2.1 1 = some "c" ∧ textAt r.2.2.2.2.1.2 1 = some "c" ∧
        titles r.2.2.1.1.1 = ["c", "b"] ∧ titles r.2.2.2.2.1.1.1 = ["c", "b"]) &&
      (r.2.2.1.1.1.find? "main").toOption.any (fun m => decide (m.host.id = 0) &&
        m.tenants.any fun e => decide (e.toLine = listLine) && startsIn 1 e) &&
      (r.2.2.2.2.1.1.1.find? "main").toOption.any fun m => decide (m.host.id = 0 ∧ listLine ∈ m.lines)) = true := by
    decide +kernel
  obtain ⟨⟨⟨r, s⟩, s₁, ⟨⟨a, n⟩, s₂⟩, s₃, ⟨⟨a', n'⟩, s₄⟩, ⟨r', s₅⟩⟩, hrun, hchecked⟩ :=
    (Option.any_eq_true _ _).1 hchecked
  obtain ⟨hreachable, hwrite, hflush, -⟩ := steps_of_textsRun hrun
  simp only [Bool.and_eq_true, decide_eq_true_eq, Option.any_eq_true, List.any_eq_true] at hchecked
  obtain ⟨⟨⟨ht₂, ht₃, ht₄, htitles, htitles'⟩, m, hm, hid, e, he, hline, hstarts⟩, m', hm', hid', hline'⟩ := hchecked
  have hfind : a.find? "main" = .ok m := by
    cases hf : a.find? "main" <;> rw [hf] at hm <;> cases hm
    rfl
  have hfind' : a'.find? "main" = .ok m' := by
    cases hf : a'.find? "main" <;> rw [hf] at hm' <;> cases hm'
    rfl
  obtain ⟨hrows, -, hkeep⟩ := rows_keep_values hreachable hfind
  obtain ⟨p, items, binding, template, row, id, q, hp, hlists, hrow, hnear, hscope⟩ := lists_of_startsIn hstarts
  obtain ⟨scope, -, hlodges⟩ := hrows e he p items binding template hp hlists 0 row hrow
  have hscope' : scope = 1 := by
    obtain ⟨_, _, -, -, -, -, hinside⟩ := hlodges
    exact (hinside _ hnear).2.1.symm.trans hscope
  subst hscope'
  rw [hline] at hlodges
  have hl : listLine ∈ m.lines := hline ▸ m.line_mem he
  have run : Relation.ReflTransGen (Passes "main" m.host.id listLine 1 "x") (a, s₂) (a', s₄) := by
    refine .tail (.single ⟨hwrite, ⟨m, hfind, rfl, hl⟩, ?_⟩) ⟨hflush, ⟨m', hfind', hid'.trans hid.symm, hline'⟩, ?_⟩
    · exact (eq_of_textAt ht₃).trans (eq_of_textAt ht₂).symm
    · exact (eq_of_textAt ht₄).trans (eq_of_textAt ht₃).symm
  obtain ⟨m'', row', hm'', hlodges', -⟩ := hkeep listLine 0 1 row "x" _ _ hlodges (eq_of_textAt ht₂) run
  exact ⟨_, _, m, m'', row, row', hreachable, hfind, hlodges, eq_of_textAt ht₂, htitles, run, hm'', hlodges', htitles'⟩

/-- A list that is rendered again puts its rows into new forks. No variable has changed, but what had been written to
that of the first row is not read any more. -/
theorem rerender_forks_anew : ∃ (a a' : App) (s s' : State), Reachable (a, s) ∧
    a.rerender "main" s = some ((a', .ok ()), s') ∧ s.store.KeepsValues s'.store ∧
    proxies a = [(1, 0), (3, 1), (4, 2)] ∧ titles a = ["c", "b"] ∧
    proxies a' = [(1, 0), (3, 3), (4, 4)] ∧ titles a' = ["a", "b"] := by
  have hchecked : textsRun.any (fun r => r.2.2.2.2.2.1.2.isOk &&
      decide (proxies r.2.2.2.2.1.1.1 = [(1, 0), (3, 1), (4, 2)] ∧ titles r.2.2.2.2.1.1.1 = ["c", "b"] ∧
        proxies r.2.2.2.2.2.1.1 = [(1, 0), (3, 3), (4, 4)] ∧ titles r.2.2.2.2.2.1.1 = ["a", "b"])) = true := by
    decide +kernel
  obtain ⟨⟨⟨r, s⟩, s₁, ⟨⟨a, n⟩, s₂⟩, s₃, ⟨⟨a', n'⟩, s₄⟩, ⟨⟨a'', r'⟩, s₅⟩⟩, hrun, hchecked⟩ :=
    (Option.any_eq_true _ _).1 hchecked
  obtain ⟨hreachable, hwrite, hflush, hrerender⟩ := steps_of_textsRun hrun
  simp only [Bool.and_eq_true, decide_eq_true_eq] at hchecked
  obtain ⟨hok, hchecked⟩ := hchecked
  obtain ⟨⟩ | ⟨⟩ := r'
  · cases hok
  have hafter := (hreachable.step hwrite).step hflush
  refine ⟨a', a'', s₄, s₅, hafter, hrerender, ?_, hchecked⟩
  rcases rerender_anew hafter.consistent "main" _ _ hrerender with ⟨e, heq, -⟩ | ⟨m, m', -, -, hanew⟩
  · cases (Prod.mk.inj heq).2
  · exact (hanew.leaves m.host.id).values

end App
end LiveLayout
