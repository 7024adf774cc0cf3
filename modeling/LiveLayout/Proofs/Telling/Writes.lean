import LiveLayout.Proofs.Dotted.Lenses
import LiveLayout.Proofs.Telling.Last
import LiveLayout.Proofs.Telling.Listening
/-!
What a write from outside does to the variables, callbacks included. Where nobody who is told of it writes in turn,
writing and reading obey the laws of lenses. Of what is not written in turn, a write changes its own variable alone, and
in that no path that parts from its own, unless it goes through an array to what is no position of it.
-/
namespace LiveLayout

open Engine

/-! ### Variables that nobody writes -/

/-- Which variables of which levels there are is known from each level. -/
theorem Store.values_getElem? (σ : Store) (k : Scope) : σ.values[k]? = (σ.level? k).map Level.values := by
  simp [Store.values, Store.level?]

theorem Store.values_write (σ : Store) (scope : Scope) (root : String) (rest : List String) (v : Json) :
    (σ.write scope root rest v).values = σ.values.modify (σ.owner scope root) (Path.writeEntry v root rest) := by
  apply List.ext_getElem?
  intro k
  rw [List.getElem?_modify, Store.values_getElem?, Store.values_getElem?, Store.write, Store.level?_modify]
  cases σ.level? k with
  | none => simp
  | some level => by_cases hk : σ.owner scope root = k <;> simp [hk]

@[simp] theorem Store.size_put (σ : Store) (scope : Scope) (path : String) (v : Json) :
    (σ.put scope path v).levels.size = σ.levels.size := by
  unfold Store.put
  cases Path.segments path with
  | nil => rfl
  | cons root rest => exact Store.size_modify ..

theorem Heard.values_eq {s s' : State} (h : Heard s s') : s'.store.values = s.store.values := by
  apply List.ext_getElem?
  intro k
  rw [Store.values_getElem?, Store.values_getElem?]
  cases hlevel : s.store.level? k with
  | none =>
    have hk : s'.store.levels.size ≤ k := by
      rw [h.size]
      exact Store.level?_eq_none_iff.1 hlevel
    rw [Store.level?_eq_none_iff.2 hk]
  | some level =>
    obtain ⟨level', hlevel', -, hvalues⟩ := h.values k level hlevel
    simp [hlevel', hvalues]

theorem Heard.values_put {s s' : State} (h : Heard s s') {scope : Scope} (hscope : scope < s.store.levels.size)
    (path : String) (v : Json) : (s'.store.put scope path v).values = (s.store.put scope path v).values := by
  unfold Store.put
  cases Path.segments path with
  | nil => exact h.values_eq
  | cons root rest =>
    have howner : s'.store.owner scope root = s.store.owner scope root := h.values.keepsScopes.owner_eq hscope
    simp only [Store.values_write, h.values_eq, howner]

theorem Heard.read?_eq {s s' : State} (h : Heard s s') {scope : Scope} (hscope : scope < s.store.levels.size)
    (path : String) : s'.store.read? scope path = s.store.read? scope path := by
  unfold Store.read? Store.readSegments?
  cases Path.segments path with
  | nil => rfl
  | cons root rest => simp only [h.lookup?_eq hscope]

namespace Chronicle

variable {react : Reactions} {scope k : Scope} {path root x : String} {rest : List String} {v w : Json} {s s' : State}

/-- The value has been written, and nobody who was told of it wrote in turn. -/
def Sets (react : Reactions) (scope : Scope) (path : String) (v : Json) (s s' : State) : Prop :=
  ∃ first, ∃ told : Chronicle, setValue react cascadeLimit [] scope path v s = some (first :: told, s') ∧ told.Quiet

theorem sets_of_onlyListen (hpath : Path.segments path ≠ []) (scope : Scope) (v : Json)
    (hreact : react.OnlyListen s.listeners) : ∃ s', Sets react scope path v s s' ∧ react.OnlyListen s'.listeners := by
  obtain ⟨root, rest, hsegments⟩ := List.exists_cons_of_ne_nil hpath
  obtain ⟨told, s', hrun, hquiet, hs'⟩ := setValue_runs 999999 [] scope hsegments v hreact
  rw [← hs'] at hreact
  exact ⟨s', ⟨_, told, hrun, hquiet⟩, hreact⟩

/-- Apart from who is subscribed, what remains is the store with the value put at the path. -/
theorem Sets.heard (h : Sets react scope path v s s') :
    ∃ t : State, t.store = s.store.put scope path v ∧ Heard t s' := by
  obtain ⟨first, told, hrun, hquiet⟩ := h
  cases hsegments : Path.segments path with
  | nil =>
    have hnil : setValue react (999999 + 1) [] scope path v s =
        some ([], { s with notices := .emptyPath :: s.notices }) := by
      unfold setValue
      rw [hsegments]
      rfl
    cases hnil.symm.trans hrun
  | cons root rest =>
    obtain ⟨told', heq, hheard⟩ := setValue_quiet react 999999 [] scope hsegments v s _ s' hrun
    cases heq
    refine ⟨written s scope path root rest v, ?_, (hheard hquiet).2⟩
    rw [Store.put_eq_write hsegments, written]

theorem Sets.values_eq (h : Sets react scope path v s s') : s'.store.values = (s.store.put scope path v).values := by
  obtain ⟨t, hstore, hheard⟩ := h.heard
  rw [hheard.values_eq, hstore]

theorem Sets.read?_eq (h : Sets react scope path v s s') (hk : k < s.store.levels.size) (other : String) :
    s'.store.read? k other = (s.store.put scope path v).read? k other := by
  obtain ⟨t, hstore, hheard⟩ := h.heard
  rw [← Store.size_put s.store scope path v, ← hstore] at hk
  rw [hheard.read?_eq hk, hstore]

theorem Sets.values_put (h : Sets react scope path v s s') (hk : k < s.store.levels.size) (other : String) (w : Json) :
    (s'.store.put k other w).values = ((s.store.put scope path v).put k other w).values := by
  obtain ⟨t, hstore, hheard⟩ := h.heard
  rw [← Store.size_put s.store scope path v, ← hstore] at hk
  rw [hheard.values_put hk, hstore]

/-- Where nobody who is told of a write writes in turn: what has been written is read, to write what is read changes no
variable, and of two writes the second one remains. Where nobody writes at all when told, the writes come to an end. -/
theorem set_obeys_lens_laws (react : Reactions) {scope : Scope} {path : String} {s : State}
    (hscope : scope < s.store.levels.size) (hpath : Path.segments path ≠ []) (v w : Json) :
    (∀ t : State, Engine.set scope path v t =
      (setValue .scripted cascadeLimit [] scope path v t).map fun r => ((), r.2)) ∧
    (react.OnlyListen s.listeners → ∃ s₁ s₂ s₃, Sets react scope path v s s₁ ∧ Sets react scope path w s₁ s₂ ∧
      Sets react scope path w s s₃) ∧
    ∀ s₁, Sets react scope path v s s₁ →
      s₁.store.read? scope path = some v ∧
      (s.store.read? scope path = some v → s₁.store.values = s.store.values) ∧
      ∀ s₂ s₃, Sets react scope path w s₁ s₂ → Sets react scope path w s s₃ → s₂.store.values = s₃.store.values := by
  refine ⟨setValue_records cascadeLimit [] scope path v, fun hreact => ?_, fun s₁ h₁ => ⟨?_, fun hread => ?_, ?_⟩⟩
  · obtain ⟨s₁, h₁, hreact₁⟩ := sets_of_onlyListen hpath scope v hreact
    obtain ⟨s₂, h₂, -⟩ := sets_of_onlyListen hpath scope w hreact₁
    obtain ⟨s₃, h₃, -⟩ := sets_of_onlyListen hpath scope w hreact
    exact ⟨s₁, s₂, s₃, h₁, h₂, h₃⟩
  · rw [h₁.read?_eq hscope, Store.read?_put hscope hpath]
  · rw [h₁.values_eq, Store.put_read hread]
  · intro s₂ s₃ h₂ h₃
    rw [h₂.values_eq, h₁.values_put hscope, Store.put_put hscope, h₃.values_eq]

def userValue : Json := .object [("tags", .array [.nat 1, .nat 2]), ("age", .nat 3)]

/-- One who subscribes somebody else when it is told, on a fork that does not bind the variable. -/
def listeningState : State where
  store := ⟨#[{
      label := "root", values := [("user", userValue)], subscribers := [("user", [.listener "A"])], parent := none },
    { label := "row", values := [("row", .nat 0)], parent := some 0 }]⟩
  scopes := [("main", 0)]
  listeners := [("A", [⟨none, "main", .subscribe "B" "user"⟩])]

theorem listeningState_onlyListens : Reactions.OnlyListen .scripted listeningState.listeners := by
  apply Reactions.scripted_onlyListen
  simp [State.OnlyListens, listeningState, Passive, Effect.writes]

theorem set_obeys_lens_laws_forked : ∃ s₁ s₂ s₃,
    Engine.set 1 " user.tags . 0" (.nat 1) listeningState = some ((), s₁) ∧
    s₁.store.read? 1 " user.tags . 0" = some (.nat 1) ∧ s₁.store.values = listeningState.store.values ∧
    Sets .scripted 1 " user.tags . 0" (.null) s₁ s₂ ∧ Sets .scripted 1 " user.tags . 0" (.null) listeningState s₃ ∧
    s₂.store.values = s₃.store.values := by
  have hscope : 1 < listeningState.store.levels.size := by decide
  have hsegments : Path.segments " user.tags . 0" = ["user", "tags", "0"] := by decide
  have hpath : Path.segments " user.tags . 0" ≠ [] := by simp [hsegments]
  have hread : listeningState.store.read? 1 " user.tags . 0" = some (.nat 1) := by
    have hlookup : listeningState.store.lookup? 1 "user" = some userValue := by cbv
    rw [Store.read?_eq hsegments, hlookup]
    rfl
  obtain ⟨hrun, hexists, hlaws⟩ := set_obeys_lens_laws .scripted hscope hpath (.nat 1) .null
  obtain ⟨s₁, s₂, s₃, h₁, h₂, h₃⟩ := hexists listeningState_onlyListens
  obtain ⟨hput, hget, hagain⟩ := hlaws s₁ h₁
  have hset : Engine.set 1 " user.tags . 0" (.nat 1) listeningState = some ((), s₁) := by
    obtain ⟨first, told, hfirst, -⟩ := h₁
    rw [hrun, hfirst]
    rfl
  exact ⟨s₁, s₂, s₃, hset, hput, hget hread, h₂, h₃, hagain s₂ s₃ h₂ h₃⟩

/-- One who is told may write, and then something else is read. -/
theorem set_then_read_other : ¬∀ (s s' : State) (scope : Scope) (path : String) (v : Json),
    scope < s.store.levels.size → Path.segments path ≠ [] → Engine.set scope path v s = some ((), s') →
      s'.store.read? scope path = some v := by
  intro hall
  have hread : (eagerRun ["A"]).map (fun r => r.2.store.read? 0 "x") = some (some (.nat 2)) := by cbv
  obtain ⟨⟨log, s'⟩, hrun, htwo⟩ := Option.map_eq_some_iff.1 hread
  have hset : Engine.set 0 "x" (.nat 1) (eagerState ["A"]) = some ((), s') := by
    have hrecords : Engine.set 0 "x" (.nat 1) (eagerState ["A"]) = (eagerRun ["A"]).map fun r => ((), r.2) :=
      setValue_records cascadeLimit [] 0 "x" (.nat 1) (eagerState ["A"])
    rw [hrecords, hrun]
    rfl
  have hone := hall (eagerState ["A"]) s' 0 "x" (.nat 1) (by decide) (by decide) hset
  cases hone.symm.trans htwo

/-! ### Other variables, other paths -/

/-- Nobody who is told writes the variable of the level. -/
def Spares (log : Chronicle) (level : Scope) (name : String) : Prop :=
  ∀ round underway, .written round underway ∈ log → ¬round.Of level name

theorem Quiet.spares {log : Chronicle} (h : log.Quiet) (level : Scope) (name : String) : log.Spares level name := by
  intro round underway hmem
  obtain ⟨who, r, heq⟩ := h _ hmem
  cases heq

/-- A variable that nobody writes in turn has what the write itself has made of it. -/
theorem valueAt?_of_spares {first : Entry} {told : Chronicle} (hpath : Path.segments path = root :: rest)
    (hrun : setValue react cascadeLimit [] scope path v s = some (first :: told, s')) (hk : k < s.store.levels.size)
    (hspares : told.Spares k x) : s'.store.valueAt? k x = (s.store.write scope root rest v).valueAt? k x := by
  have hcovers := setValue_covers react cascadeLimit [] scope path v s _ s' hrun
  obtain ⟨told', heq, -⟩ := setValue_quiet react 999999 [] scope hpath v s _ s' hrun
  cases heq
  have htold : last? (Entry.write? k x) told = none := by
    cases hlast : last? (Entry.write? k x) told with
    | none => rfl
    | some w =>
      obtain ⟨hmem, hof⟩ := mem_of_last? hlast
      exact absurd hof (hspares _ _ hmem)
  rw [hcovers.values k x hk, last?_cons, htold, Option.none_or]
  by_cases hof : s.store.owner scope root = k ∧ root = x
  · obtain ⟨rfl, rfl⟩ := hof
    have hwrite : Entry.write? (s.store.owner scope root) root
        (.written (Round.starting s.store scope root rest v) []) = some (Round.starting s.store scope root rest v, []) :=
      if_pos ⟨rfl, rfl⟩
    rw [hwrite, Round.starting, Store.valueAt?_write hk]
    rfl
  · have hwrite : Entry.write? k x (.written (Round.starting s.store scope root rest v) []) = none := if_neg hof
    have hother : ¬(k = s.store.owner scope root ∧ x = root) := fun h => hof ⟨h.1.symm, h.2.symm⟩
    rw [hwrite, Store.valueAt?_write_of_ne hother]
    rfl

/-- Whatever is done by those who are told: of the variables that they do not write, a write changes the one that its
path begins with, at the level that this belongs to, and no other. In its value, a path that parts from the path of the
write reads what it has read, unless the write goes through an array to what is no position of it: then an object takes
the place of the array, and the other path reads nothing any more. -/
theorem set_spares (react : Reactions) {scope : Scope} {path root : String} {rest : List String} {s : State}
    (hscope : scope < s.store.levels.size) (hpath : Path.segments path = root :: rest) (v : Json) :
    (∀ t : State, Engine.set scope path v t =
      (setValue .scripted cascadeLimit [] scope path v t).map fun r => ((), r.2)) ∧
    (react.OnlyListen s.listeners → ∃ first, ∃ told : Chronicle, ∃ s',
      setValue react cascadeLimit [] scope path v s = some (first :: told, s') ∧ ∀ k x, told.Spares k x) ∧
    ∀ (first : Entry) (told : Chronicle) (s' : State),
      setValue react cascadeLimit [] scope path v s = some (first :: told, s') →
      (∀ k x, k < s.store.levels.size → told.Spares k x → ¬(k = s.store.owner scope root ∧ x = root) →
        s'.store.valueAt? k x = s.store.valueAt? k x) ∧
      ∀ old, s.store.valueAt? (s.store.owner scope root) root = some old →
        told.Spares (s.store.owner scope root) root →
        ∃ new, s'.store.valueAt? (s.store.owner scope root) root = some new ∧
          ∀ (common p q : List String) (a b : String) (u : Json), rest = common ++ a :: p → Path.Parts a b →
            Path.read? old (common ++ b :: q) = some u →
            (Path.read? new (common ++ b :: q) = some u ↔ ¬Path.Misses old common a) ∧
            (Path.Misses old common a → Path.read? new (common ++ b :: q) = none) := by
  refine ⟨setValue_records cascadeLimit [] scope path v, fun hreact => ?_, fun first told s' hrun => ⟨?_, ?_⟩⟩
  · obtain ⟨told, s', hrun, hquiet, -⟩ := setValue_runs 999999 [] scope hpath v hreact
    exact ⟨_, told, s', hrun, hquiet.spares⟩
  · intro k x hk hspares hother
    rw [valueAt?_of_spares hpath hrun hk hspares, Store.valueAt?_write_of_ne hother]
  · intro old hold hspares
    have howner : s.store.owner scope root < s.store.levels.size := Store.owner_lt_size hscope root
    refine ⟨Path.write v rest old, ?_, fun common p q a b u hrest hparts hread => ?_⟩
    · rw [valueAt?_of_spares hpath hrun howner hspares, Store.valueAt?_write howner, hold]
      rfl
    · have hlost : Path.Misses old common a → Path.read? (Path.write v rest old) (common ++ b :: q) = none := by
        intro hmisses
        rw [hrest, Path.read?_write_of_misses hparts.ne hmisses]
      refine ⟨⟨fun hkept hmisses => ?_, fun hmisses => ?_⟩, hlost⟩
      · cases hkept.symm.trans (hlost hmisses)
      · rw [hrest, Path.read?_write_of_parts hparts hmisses, hread]

/-- The age stays beside the tags, and of them nothing stays beside a third one that there is no place for. -/
theorem set_spares_age : ∃ s' new, Engine.set 1 "user.tags.2" (.nat 4) listeningState = some ((), s') ∧
    s'.store.valueAt? 1 "row" = some (.nat 0) ∧ s'.store.valueAt? 0 "user" = some new ∧
    Path.read? new ["age"] = some (.nat 3) ∧ Path.read? new ["tags", "0"] = none := by
  have hscope : 1 < listeningState.store.levels.size := by decide
  have hsegments : Path.segments "user.tags.2" = ["user", "tags", "2"] := by decide
  have howner : listeningState.store.owner 1 "user" = 0 := by cbv
  obtain ⟨hrecords, hexists, hspares⟩ := set_spares .scripted hscope hsegments (.nat 4)
  obtain ⟨first, told, s', hrun, htold⟩ := hexists listeningState_onlyListens
  obtain ⟨hothers, hpaths⟩ := hspares first told s' hrun
  rw [howner] at hothers hpaths
  obtain ⟨new, hnew, hread⟩ := hpaths userValue rfl (htold 0 "user")
  have hage : Path.Parts "tags" "age" := ⟨by decide, by decide⟩
  have hfirst : Path.Parts "2" "0" := ⟨by decide, by decide⟩
  have hobject : ¬Path.Misses userValue [] "tags" := by simp [Path.Misses, Path.read?, userValue]
  have hmisses : Path.Misses userValue ["tags"] "2" := ⟨[.nat 1, .nat 2], rfl, by decide⟩
  refine ⟨s', new, ?_, ?_, hnew, ?_, ?_⟩
  · rw [hrecords, hrun]
    rfl
  · exact hothers 1 "row" (by decide) (htold 1 "row") (by decide)
  · exact (hread [] ["2"] [] "tags" "age" _ rfl hage rfl).1.2 hobject
  · exact (hread ["tags"] [] [] "2" "0" (.nat 1) rfl hfirst rfl).2 hmisses

/-- A third element is written where there are two, and both are gone. -/
theorem set_loses_elements : Path.Parts "2" "0" ∧ listeningState.store.read? 0 "user.tags.0" = some (.nat 1) ∧
    ∃ s', Engine.set 0 "user.tags.2" (.nat 4) listeningState = some ((), s') ∧
      s'.store.read? 0 "user.tags.0" = none := by
  have hscope : 0 < listeningState.store.levels.size := by decide
  have hsegments : Path.segments "user.tags.2" = ["user", "tags", "2"] := by decide
  have hother : Path.segments "user.tags.0" = ["user", "tags", "0"] := by decide
  have hlookup : listeningState.store.lookup? 0 "user" = some userValue := by cbv
  have hpath : Path.segments "user.tags.2" ≠ [] := by simp [hsegments]
  have hlost : (listeningState.store.put 0 "user.tags.2" (.nat 4)).read? 0 "user.tags.0" = none := by
    rw [Store.put_eq_write hsegments, Store.read?_eq hother, Store.lookup?_write hscope rfl, hlookup]
    rfl
  obtain ⟨s', hsets, -⟩ := sets_of_onlyListen hpath 0 (.nat 4) listeningState_onlyListens
  refine ⟨⟨by decide, by decide⟩, ?_, s', ?_, (hsets.read?_eq hscope _).trans hlost⟩
  · rw [Store.read?_eq hother, hlookup]
    rfl
  · obtain ⟨first, told, hrun, -⟩ := hsets
    have hrecords : Engine.set 0 "user.tags.2" (.nat 4) listeningState =
        (setValue .scripted cascadeLimit [] 0 "user.tags.2" (.nat 4) listeningState).map fun r => ((), r.2) :=
      setValue_records cascadeLimit [] 0 "user.tags.2" (.nat 4) listeningState
    rw [hrecords, hrun]
    rfl

end Chronicle
end LiveLayout
