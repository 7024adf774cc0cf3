import LiveLayout.Proofs.Rows.Forks
import LiveLayout.Proofs.Staying.Fronts
/-!
The components of a tree with what is in them. Where one of them is rendered again, those around it stay as they are,
and so does what they have rendered: it shows the same of its own, and stands in the same scopes.
-/
namespace LiveLayout

open Mounted

/-- A component in a tree, with how often it has rendered and what is in it. -/
structure Tenant extends Line where
  key : Option String
  component : Component
  children : List Mounted

def Tenant.toPart (e : Tenant) : Part := ⟨e.id, e.component, e.children⟩

namespace Mounted

mutual

/-- The components of a tree that lies in the given components. -/
def tenants (above : List Nat) : Mounted → List Tenant
  | .primitive _ => []
  | .element _ _ _ children => tenantsAll above children
  | .component id key c renders children =>
    ⟨⟨id, above, renders⟩, key, c, children⟩ :: tenantsAll (id :: above) children
  | .fragment _ children => tenantsAll above children

def tenantsAll (above : List Nat) : List Mounted → List Tenant
  | [] => []
  | m :: rest => m.tenants above ++ tenantsAll above rest

end

theorem mem_tenantsAll {above : List Nat} {e : Tenant} {ms : List Mounted} :
    e ∈ tenantsAll above ms ↔ ∃ m ∈ ms, e ∈ m.tenants above := by
  induction ms with
  | nil => simp [tenantsAll]
  | cons m rest ih => simp [tenantsAll, ih]

mutual

theorem map_tenants (above : List Nat) : (m : Mounted) → (m.tenants above).map Tenant.toLine = m.lines above
  | .primitive _ => rfl
  | .element _ _ _ children => map_tenantsAll above children
  | .component id _ _ renders children => by rw [tenants, lines, List.map_cons, map_tenantsAll (id :: above) children]
  | .fragment _ children => map_tenantsAll above children

theorem map_tenantsAll (above : List Nat) : (ms : List Mounted) →
    (tenantsAll above ms).map Tenant.toLine = linesAll above ms
  | [] => rfl
  | m :: rest => by rw [tenantsAll, linesAll, List.map_append, map_tenants above m, map_tenantsAll above rest]

end

mutual

theorem map_components (host : Nat) (above : List Nat) : (m : Mounted) →
    (m.tenants above).map (fun e => (⟨host, e.id⟩, e.component)) = m.components host
  | .primitive _ => rfl
  | .element _ _ _ children => map_componentsAll host above children
  | .component id _ c _ children => by
    rw [tenants, components, List.map_cons, map_componentsAll host (id :: above) children]
  | .fragment _ children => map_componentsAll host above children

theorem map_componentsAll (host : Nat) (above : List Nat) : (ms : List Mounted) →
    (tenantsAll above ms).map (fun e => (⟨host, e.id⟩, e.component)) = componentsAll host ms
  | [] => rfl
  | m :: rest => by
    rw [tenantsAll, componentsAll, List.map_append, map_components host above m, map_componentsAll host above rest]

end

mutual

theorem map_toPart (above : List Nat) : (m : Mounted) → (m.tenants above).map Tenant.toPart = m.parts
  | .primitive _ => rfl
  | .element _ _ _ children => map_toPartAll above children
  | .component id _ _ _ children => by
    rw [tenants, parts, List.map_cons, map_toPartAll (id :: above) children, Tenant.toPart]
  | .fragment _ children => map_toPartAll above children

theorem map_toPartAll (above : List Nat) : (ms : List Mounted) →
    (tenantsAll above ms).map Tenant.toPart = partsAll ms
  | [] => rfl
  | m :: rest => by
    rw [tenantsAll, partsAll, List.map_append, map_toPart above m, map_toPartAll above rest]

end

theorem part_mem_of_mem {above : List Nat} {ms : List Mounted} {e : Tenant} (he : e ∈ tenantsAll above ms) :
    e.toPart ∈ partsAll ms := map_toPartAll above ms ▸ List.mem_map_of_mem he

theorem line_mem_of_mem {above : List Nat} {ms : List Mounted} {e : Tenant} (he : e ∈ tenantsAll above ms) :
    e.toLine ∈ linesAll above ms := map_tenantsAll above ms ▸ List.mem_map_of_mem he

theorem component_mem_of_mem (host : Nat) {above : List Nat} {ms : List Mounted} {e : Tenant}
    (he : e ∈ tenantsAll above ms) : (⟨host, e.id⟩, e.component) ∈ componentsAll host ms := by
  rw [← map_componentsAll host above]
  exact List.mem_map_of_mem (f := fun e : Tenant => ((⟨host, e.id⟩, e.component) : Instance × Component)) he

/-- No two components with the same number are in trees in which no two have it. -/
theorem eq_of_mem_tenants {host : Nat} {above : List Nat} {ms : List Mounted} {d e : Tenant}
    (hnodup : ((componentsAll host ms).map (·.1)).Nodup) (hd : d ∈ tenantsAll above ms) (he : e ∈ tenantsAll above ms)
    (hid : d.id = e.id) : d = e := by
  rw [← map_componentsAll host above, List.map_map] at hnodup
  exact List.inj_on_of_nodup_map hnodup hd he (congrArg (Instance.mk host) hid)

section

variable {id renders : Nat} {key : Option String} {c : Component} {children : List Mounted}

mutual

/-- What is found in a tree is one of its components. -/
theorem exists_tenant_of_find? (above : List Nat) : (m : Mounted) →
    m.find? id = some (component id key c renders children) →
    ∃ above', ⟨⟨id, above', renders⟩, key, c, children⟩ ∈ m.tenants above
  | .primitive _, h => nomatch h
  | .element _ _ _ ms, h => exists_tenant_of_findAll? above ms h
  | .component j _ _ _ ms, h => by
    rw [find?] at h
    split at h
    · cases h
      exact ⟨above, List.mem_cons_self ..⟩
    · obtain ⟨above', hmem⟩ := exists_tenant_of_findAll? (j :: above) ms h
      exact ⟨above', List.mem_cons_of_mem _ hmem⟩
  | .fragment _ ms, h => exists_tenant_of_findAll? above ms h

theorem exists_tenant_of_findAll? (above : List Nat) : (ms : List Mounted) →
    findAll? id ms = some (component id key c renders children) →
    ∃ above', ⟨⟨id, above', renders⟩, key, c, children⟩ ∈ tenantsAll above ms
  | [], h => nomatch h
  | m :: rest, h => by
    rw [findAll?] at h
    rcases Option.or_eq_some_iff.1 h with h | ⟨-, h⟩
    · obtain ⟨above', hmem⟩ := exists_tenant_of_find? above m h
      exact ⟨above', List.mem_append_left _ hmem⟩
    · obtain ⟨above', hmem⟩ := exists_tenant_of_findAll? above rest h
      exact ⟨above', List.mem_append_right _ hmem⟩

end

end

/-- The tree shows the same of its own as another one, and stands wherever that stands. -/
structure Abides (i : Nat) (tr : Bool) (m m' : Mounted) : Prop where
  front : m'.front = m.front
  inside : ∀ scope, m.Inside i tr scope → m'.Inside i tr scope

end Mounted

/-- The component has stayed as it is, and so has what it has rendered. -/
structure Tenant.Stays (i : Nat) (tr : Bool) (d e : Tenant) : Prop where
  line : e.toLine = d.toLine
  key : e.key = d.key
  component : e.component = d.component
  children : List.Forall₂ (Abides i tr) d.children e.children

variable {i last : Nat} {tr : Bool} {m m' m'' next : Mounted} {ms : List Mounted} {c d e : Tenant}

namespace Mounted.Abides

theorem refl (m : Mounted) : Abides i tr m m := ⟨rfl, fun _ h => h⟩

theorem trans (h : Abides i tr m m') (h' : Abides i tr m' m'') : Abides i tr m m'' :=
  ⟨h'.front.trans h.front, fun scope hm => h'.inside scope (h.inside scope hm)⟩

/-- What abides shows the same. -/
theorem map_front {xs ys : List Mounted} (h : List.Forall₂ (Abides i tr) xs ys) :
    ys.map Mounted.front = xs.map Mounted.front := by
  induction h with
  | nil => rfl
  | cons hm _ ih => rw [List.map_cons, List.map_cons, hm.front, ih]

theorem forall₂_trans {xs ys zs : List Mounted} (h : List.Forall₂ (Abides i tr) xs ys)
    (h' : List.Forall₂ (Abides i tr) ys zs) : List.Forall₂ (Abides i tr) xs zs := by
  induction h generalizing zs with
  | nil => exact h'
  | cons hm _ ih =>
    cases h' with
    | cons hm' hrest => exact .cons (hm.trans hm') (ih hrest)

end Mounted.Abides

namespace Tenant.Stays

theorem refl (e : Tenant) : e.Stays i tr e := ⟨rfl, rfl, rfl, List.forall₂_same.2 fun m _ => .refl m⟩

theorem trans (h : c.Stays i tr d) (h' : d.Stays i tr e) : c.Stays i tr e where
  line := h'.line.trans h.line
  key := h'.key.trans h.key
  component := h'.component.trans h.component
  children := Mounted.Abides.forall₂_trans h.children h'.children

theorem id_eq (h : d.Stays i tr e) : e.id = d.id := congrArg Line.id h.line

theorem renders_eq (h : d.Stays i tr e) : e.renders = d.renders := congrArg Line.renders h.line

end Tenant.Stays

/-- If it is a proxy, it shows what its brick has in the store. -/
def Tenant.Shown (tr : Bool) (σ : Store) (e : Tenant) : Prop :=
  ∀ p, e.component = .proxy p → e.children.map Mounted.front = [p.front tr σ]

namespace Tenant.Shown

variable {σ τ : Store}

theorem stays (h : d.Shown tr σ) (hs : d.Stays i tr e) : e.Shown tr σ := by
  intro p hp
  rw [← h p (hs.component.symm.trans hp)]
  exact Mounted.Abides.map_front hs.children

/-- A proxy goes on showing what its brick has where its variables keep their values. -/
theorem congr (h : e.Shown tr σ) (hlookup : ∀ p, e.component = .proxy p → p.Parsed ∧
    ∀ x ∈ p.depends, τ.lookup? p.scope x = σ.lookup? p.scope x) : e.Shown tr τ := by
  intro p hp
  obtain ⟨hparsed, hsame⟩ := hlookup p hp
  rw [p.front_congr hparsed tr hsame]
  exact h p hp

end Tenant.Shown

/-- The level is a fork that binds the name. -/
def Store.Binds (σ : Store) (scope : Scope) (x : String) : Prop := ∃ level parent, σ.level? scope = some level ∧
  level.parent = some parent ∧ parent < scope ∧ Fields.has level.values x = true

theorem Store.Binds.keep {σ τ : Store} {scope : Scope} {x : String} (h : σ.Binds scope x) (hk : σ.KeepsScopes τ) :
    τ.Binds scope x := by
  obtain ⟨level, parent, hlevel, hparent, hlt, hhas⟩ := h
  obtain ⟨level', hlevel', hsame⟩ := hk scope level hlevel
  exact ⟨level', parent, hlevel', hsame.parent.trans hparent, hlt, (hsame.names parent hparent hlt x).trans hhas⟩

theorem Store.Forks.binds {σ : Store} {parent scope : Scope} {values : List (String × Json)} {x : String}
    (h : σ.Forks parent values scope) (hx : Fields.has values x = true) : σ.Binds scope x := by
  obtain ⟨level, hlevel, hparent, hvalues⟩ := h.level
  exact ⟨level, parent, hlevel, hparent, h.below, hvalues ▸ hx⟩

/-- If it is a list, each of its rows stands in a fork that binds the list's variable. If it is a fetch, all that it
shows stands in one scope, which is its own or a fork that binds the names of what an answer brings. -/
structure Tenant.Housed (i : Nat) (tr : Bool) (σ : Store) (e : Tenant) : Prop where
  rows : ∀ p items binding template, e.component = .forEach p → ForEach.Lists p items binding template →
    ∀ row ∈ e.children, ∃ scope, σ.Binds scope binding ∧ row.Inside i tr scope
  body : ∀ f, e.component = .fetch f →
    f.Gathers (fun bindings scope => ∀ x, Fields.has bindings x = true → σ.Binds scope x) (Inside i tr) e.children

namespace Tenant.Housed

variable {σ τ : Store}

theorem stays (h : d.Housed i tr σ) (hs : d.Stays i tr e) : e.Housed i tr σ := by
  refine ⟨fun p items binding template hp hlists row hrow => ?_, fun f hf => ?_⟩
  · obtain ⟨old, hold, habides⟩ := exists_of_mem_right hs.children hrow
    obtain ⟨scope, hbinds, hinside⟩ := h.rows p items binding template (hs.component.symm.trans hp) hlists old hold
    exact ⟨scope, hbinds, habides.inside scope hinside⟩
  · refine (h.body f (hs.component.symm.trans hf)).imp (fun _ _ hbinds => hbinds) fun scope hall row hrow => ?_
    obtain ⟨old, hold, habides⟩ := exists_of_mem_right hs.children hrow
    exact habides.inside scope (hall old hold)

theorem keep (h : e.Housed i tr σ) (hk : σ.KeepsScopes τ) : e.Housed i tr τ := by
  refine ⟨fun p items binding template hp hlists row hrow => ?_, fun f hf => ?_⟩
  · obtain ⟨scope, hbinds, hinside⟩ := h.rows p items binding template hp hlists row hrow
    exact ⟨scope, hbinds.keep hk, hinside⟩
  · exact (h.body f hf).imp (fun _ _ hbinds x hx => (hbinds x hx).keep hk) fun _ hall => hall

/-- What has rendered has put its rows, or what it shows, into forks. -/
theorem of_forked {lo : Nat} (h : e.toPart.Forked i tr lo σ) : e.Housed i tr σ := by
  refine ⟨fun p items binding template hp hlists row hrow => ?_, fun f hf => ?_⟩
  · obtain ⟨parent, -, hrows⟩ := h.forEach p hp items binding template hlists
    obtain ⟨item, -, scope, -, hforks, hinside⟩ := exists_of_mem_right hrows hrow
    exact ⟨scope, hforks.binds (by simp [Fields.has, Fields.get?]), hinside⟩
  · exact (h.fetch f hf).imp (fun _ _ hforks x hx => hforks.binds hx) fun _ hall => hall

end Tenant.Housed

/-- The component has just rendered, and so it shows what it should, and its rows are in forks. -/
structure Tenant.Drawn (i : Nat) (tr : Bool) (σ : Store) (e : Tenant) : Prop where
  shown : e.Shown tr σ
  housed : e.Housed i tr σ

theorem Tenant.Drawn.stays {σ : Store} (h : d.Drawn i tr σ) (hs : d.Stays i tr e) : e.Drawn i tr σ :=
  ⟨h.shown.stays hs, h.housed.stays hs⟩

/-- In a tree that is up to date, all proxies show what their bricks have. -/
theorem Mounted.UpToDate.shown_tenants {sc : Scene} {s : State} {host depth root : Nat}
    (h : UpToDate sc s host depth m) (hroot : s.store.valueAt? root = sc.root)
    (hwithin : ∀ e ∈ m.components host, Within s.store i tr root e.2) (above : List Nat) :
    ∀ e ∈ m.tenants above, e.Shown sc.transport s.store := by
  induction depth generalizing m above with
  | zero => exact h.elim
  | succ depth ih =>
    have all {children : List Mounted} (h : ∀ m ∈ children, UpToDate sc s host depth m)
        (hwithin : ∀ e ∈ componentsAll host children, Within s.store i tr root e.2) (above : List Nat) :
        ∀ e ∈ tenantsAll above children, e.Shown sc.transport s.store := by
      intro e he
      obtain ⟨m, hm, he⟩ := mem_tenantsAll.1 he
      exact ih (h m hm) (fun e he => hwithin e (mem_componentsAll.2 ⟨m, hm, he⟩)) above e he
    cases m with
    | primitive v => exact nofun
    | element tag key props children => exact all h hwithin above
    | fragment key children => exact all h hwithin above
    | component id key c renders children =>
      refine List.forall_mem_cons.2 ⟨?_, all h.2 (fun e he => hwithin e (List.mem_cons_of_mem _ he)) (id :: above)⟩
      rintro p rfl
      obtain ⟨scope, -, hscope, -, rfl, -⟩ := hwithin _ (List.mem_cons_self ..)
      exact p.map_front (by rw [hscope, hroot]) h.1

/-! ### Replacing a component -/

section

variable {id renders : Nat} {key : Option String} {c : Component} {children : List Mounted}

theorem Mounted.mem_near_self (id : Nat) (key : Option String) (c : Component) (renders : Nat)
    (children : List Mounted) : (id, c) ∈ (Mounted.component id key c renders children).near := by
  cases c <;> exact List.mem_cons_self ..

mutual

/-- Where a component gives way to what it has rendered now, whatever is around it abides. -/
theorem abides_replace
    (hnext : ∀ scope, c.At i tr scope → (Mounted.component id key c renders children).Inside i tr scope)
    (above : List Nat) : (m : Mounted) → (∀ d ∈ m.tenants above, d.id = id → d.key = key ∧ d.component = c) →
    Abides i tr m (replace id (.component id key c renders children) m)
  | .primitive v, _ => .refl _
  | .element _ _ _ ms, h => ⟨rfl, fun scope hm => inside_replaceAll hnext above ms h scope hm⟩
  | .component j key' c' r ms, h => by
    rw [replace]
    split
    · subst j
      obtain ⟨hkey, hc⟩ := h _ (List.mem_cons_self ..) rfl
      dsimp only at hkey hc
      subst hkey hc
      exact ⟨rfl, fun scope hm => hnext scope (hm _ (mem_near_self ..))⟩
    · refine ⟨rfl, fun scope hm => ?_⟩
      have hms := inside_replaceAll hnext (j :: above) ms (fun d hd => h d (List.mem_cons_of_mem _ hd)) scope
      cases c' with
      | proxy p =>
        obtain ⟨hp, hinside⟩ := List.forall_mem_cons.1 hm
        exact List.forall_mem_cons.2 ⟨hp, hms hinside⟩
      | _ => exact hm
  | .fragment _ ms, h => ⟨rfl, fun scope hm => inside_replaceAll hnext above ms h scope hm⟩

theorem inside_replaceAll
    (hnext : ∀ scope, c.At i tr scope → (Mounted.component id key c renders children).Inside i tr scope)
    (above : List Nat) : (ms : List Mounted) →
    (∀ d ∈ tenantsAll above ms, d.id = id → d.key = key ∧ d.component = c) → ∀ scope,
    (∀ x ∈ nearAll ms, x.2.At i tr scope) →
    ∀ x ∈ nearAll (replaceAll id (.component id key c renders children) ms), x.2.At i tr scope
  | [], _, _, hms => hms
  | m :: ms, h, scope, hms => by
    rw [nearAll, List.forall_mem_append] at hms
    rw [replaceAll, nearAll, List.forall_mem_append]
    rw [tenantsAll, List.forall_mem_append] at h
    exact ⟨(abides_replace hnext above m h.1).inside scope hms.1, inside_replaceAll hnext above ms h.2 scope hms.2⟩

end

theorem abides_replaceAll
    (hnext : ∀ scope, c.At i tr scope → (Mounted.component id key c renders children).Inside i tr scope)
    (above : List Nat) (h : ∀ d ∈ tenantsAll above ms, d.id = id → d.key = key ∧ d.component = c) :
    List.Forall₂ (Abides i tr) ms (replaceAll id (.component id key c renders children) ms) := by
  induction ms with
  | nil => exact .nil
  | cons m ms ih =>
    rw [tenantsAll, List.forall_mem_append] at h
    exact .cons (abides_replace hnext above m h.1) (ih h.2)

mutual

/-- A component in the tree is in what has been rendered now, or has stayed. -/
theorem tenants_replace
    (hnext : ∀ scope, c.At i tr scope → (Mounted.component id key c renders children).Inside i tr scope)
    (above : List Nat) : (m : Mounted) → (∀ d ∈ m.tenants above, d.id = id → d.key = key ∧ d.component = c) →
    ∀ e ∈ (replace id (.component id key c renders children) m).tenants above,
      (∃ above', e ∈ (Mounted.component id key c renders children).tenants above') ∨
        ∃ d ∈ m.tenants above, d.Stays i tr e
  | .primitive _, _, _, he => nomatch he
  | .element _ _ _ ms, h, e, he => tenantsAll_replaceAll hnext above ms h e he
  | .component j _ _ _ ms, h, e, he => by
    rw [replace] at he
    have hms := fun d hd => h d (List.mem_cons_of_mem _ hd)
    split at he
    · exact .inl ⟨above, he⟩
    · rcases List.mem_cons.1 he with rfl | he
      · exact .inr ⟨_, List.mem_cons_self .., rfl, rfl, rfl, abides_replaceAll hnext (j :: above) hms⟩
      · exact (tenantsAll_replaceAll hnext (j :: above) ms hms e he).imp_right fun ⟨d, hd, hs⟩ =>
          ⟨d, List.mem_cons_of_mem _ hd, hs⟩
  | .fragment _ ms, h, e, he => tenantsAll_replaceAll hnext above ms h e he

theorem tenantsAll_replaceAll
    (hnext : ∀ scope, c.At i tr scope → (Mounted.component id key c renders children).Inside i tr scope)
    (above : List Nat) : (ms : List Mounted) →
    (∀ d ∈ tenantsAll above ms, d.id = id → d.key = key ∧ d.component = c) →
    ∀ e ∈ tenantsAll above (replaceAll id (.component id key c renders children) ms),
      (∃ above', e ∈ (Mounted.component id key c renders children).tenants above') ∨
        ∃ d ∈ tenantsAll above ms, d.Stays i tr e
  | [], _, _, he => nomatch he
  | m :: ms, h, e, he => by
    rw [replaceAll, tenantsAll, List.mem_append] at he
    rw [tenantsAll, List.forall_mem_append] at h
    rw [tenantsAll]
    rcases he with he | he
    · exact (tenants_replace hnext above m h.1 e he).imp_right fun ⟨d, hd, hs⟩ => ⟨d, List.mem_append_left _ hd, hs⟩
    · exact (tenantsAll_replaceAll hnext above ms h.2 e he).imp_right fun ⟨d, hd, hs⟩ =>
        ⟨d, List.mem_append_right _ hd, hs⟩

end

end

/-! ### Trees that have come out of others -/

/-- What there is in a tree that has come out of another one: each component has stayed, or it is as it has been drawn
now and has a number after the given one or has rendered more often. -/
def Outlasts (last i : Nat) (tr : Bool) (σ : Store) (old new : List Tenant) : Prop :=
  ∀ e ∈ new, (∃ d ∈ old, d.Stays i tr e) ∨
    e.Drawn i tr σ ∧ (last < e.id ∨ ∃ d ∈ old, d.id = e.id ∧ d.renders < e.renders)

namespace Outlasts

variable {σ τ : Store} {old mid new : List Tenant}

theorem refl (es : List Tenant) : Outlasts last i tr σ es es := fun e he => .inl ⟨e, he, .refl e⟩

theorem trans (h : Outlasts last i tr σ old mid) (h' : Outlasts last i tr τ mid new)
    (hstill : ∀ d ∈ mid, d.Drawn i tr σ → d.Drawn i tr τ) : Outlasts last i tr τ old new := by
  intro e he
  rcases h' e he with ⟨d, hd, hs⟩ | ⟨hdrawn, hyoung | ⟨d, hd, hid, hlt⟩⟩
  · rcases h d hd with ⟨c, hc, hs'⟩ | ⟨hdrawn, hyoung | ⟨c, hc, hid, hlt⟩⟩
    · exact .inl ⟨c, hc, hs'.trans hs⟩
    · exact .inr ⟨(hstill d hd hdrawn).stays hs, .inl (hs.id_eq ▸ hyoung)⟩
    · exact .inr ⟨(hstill d hd hdrawn).stays hs, .inr ⟨c, hc, hid.trans hs.id_eq.symm, hs.renders_eq ▸ hlt⟩⟩
  · exact .inr ⟨hdrawn, .inl hyoung⟩
  · rcases h d hd with ⟨c, hc, hs⟩ | ⟨-, hyoung | ⟨c, hc, hid', hlt'⟩⟩
    · exact .inr ⟨hdrawn, .inr ⟨c, hc, hs.id_eq.symm.trans hid, hs.renders_eq ▸ hlt⟩⟩
    · exact .inr ⟨hdrawn, .inl (hid ▸ hyoung)⟩
    · exact .inr ⟨hdrawn, .inr ⟨c, hc, hid'.trans hid, hlt'.trans hlt⟩⟩

end Outlasts
end LiveLayout
