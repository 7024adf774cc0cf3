import LiveLayout.Proofs.Annotating.Visits
import LiveLayout.Proofs.Running.Following
/-!
Updating a layout step by step shows what rendering it afresh shows.
-/
namespace LiveLayout

open Engine Mounted

/-- A level that is no fork. -/
def Store.IsRoot (σ : Store) (scope : Scope) : Prop :=
  ∃ level, σ.level? scope = some level ∧ level.parent = none

namespace Store.IsRoot

variable {σ τ : Store} {scope : Nat}

theorem keep (h : σ.IsRoot scope) (hk : σ.KeepsScopes τ) : τ.IsRoot scope := by
  obtain ⟨level, hlevel, hparent⟩ := h
  obtain ⟨level', hlevel', hsame⟩ := hk scope level hlevel
  exact ⟨level', hlevel', hsame.parent.trans hparent⟩

theorem lt_size (h : σ.IsRoot scope) : scope < σ.levels.size := by
  obtain ⟨level, hlevel, -⟩ := h
  exact lt_size_of_level? hlevel

theorem layers_eq (h : σ.IsRoot scope) : σ.layers scope = [] := by
  obtain ⟨level, hlevel, hparent⟩ := h
  exact layers_root hlevel hparent

theorem root_eq (h : σ.IsRoot scope) : σ.root scope = scope := by
  obtain ⟨level, hlevel, hparent⟩ := h
  exact root_root hlevel hparent

/-- A root owns every name. -/
theorem atRoot (h : σ.IsRoot scope) (path : String) : σ.AtRoot scope path := by
  refine ⟨h.lt_size, fun name _ _ level hlevel => ?_⟩
  obtain ⟨root, hroot, hparent⟩ := h
  rw [owner_root hroot hparent] at hlevel
  cases hroot.symm.trans hlevel
  exact hparent

end Store.IsRoot

namespace App

/-- What a layout on a root shows now is drawn from the given bricks alone, and nothing in it fetches. -/
def Confined (a : App) (bricks : List (String × Json) → Bool) (layout : Json) (scope : Scope)
    (source : HandlerSource) (s : State) : Prop :=
  (((a.scene s scope source).confine bricks).pictures Host.depthLimit [] layout).isSome = true

/-- Writes of variables that live at roots, in any order with flushes. After every flush, `shown` holds. -/
inductive Edits (shown : State → Prop) (c : App × State) : App × State → Prop where
  | none : Edits shown c c
  | write {a : App} {s s' : State} {scope : Scope} {path : String} {value : Json}
      (before : Edits shown c (a, s)) (root : s.store.AtRoot scope path) (listeners : s.ListensAtRoots)
      (run : Engine.set scope path value s = some ((), s')) : Edits shown c (a, s')
  | flush {a a' : App} {s s' : State} {n : Nat} (before : Edits shown c (a, s))
      (run : a.flush s = some ((a', n), s')) (after : shown s') : Edits shown c (a', s')

section

variable {a a' : App} {s s' : State} {layout : Json} {target : String} {scope : Nat} {source : HandlerSource}
  {bricks : List (String × Json) → Bool}

/-- The target's layout is abreast in the state, on a root. -/
structure Follows (a : App) (bricks : List (String × Json) → Bool) (layout : Json) (target : String)
    (scope : Scope) (source : HandlerSource) (c : App × State) (m : Mount) : Prop where
  consistent : c.1.Consistent c.2
  root : c.2.store.IsRoot scope
  mounted : Fields.get? c.1.mounts (Text.trim target) = some m
  layout_eq : m.layout = layout
  scope_eq : m.scope = scope
  abreast : ∃ r, m.Abreast bricks c.2 r ∧ r.config = a.config ∧ r.transport = a.transport ∧
    r.source = some source

theorem scene_eq {m : Mount} {r : Interpreter} (hscope : m.scope = scope) (hconfig : r.config = a.config)
    (htransport : r.transport = a.transport) (hsource : r.source = some source) (s : State) :
    m.scene s r = a.scene s scope source := by
  unfold Mount.scene App.scene
  rw [hscope, hconfig, htransport, hsource]

theorem Follows.wrote {b : App} {m : Mount} (h : a.Follows bricks layout target scope source (b, s) m)
    (hmarked : ∀ fields, bricks fields = true → (Brick.mk fields).Marked) (hw : Wrote s s')
    (hforks : s.store.KeepsForks s'.store) : a.Follows bricks layout target scope source (b, s') m := by
  obtain ⟨ms, hperm, -⟩ := beside_of_get? h.consistent.sorted (Text.trim_trim target) h.mounted
  obtain ⟨r, habreast, hr⟩ := h.abreast
  have hsteady := h.consistent.steady.perm hperm
  exact ⟨h.consistent.wrote hw, h.root.keep hforks.keepsScopes, h.mounted, h.layout_eq, h.scope_eq,
    r, habreast.wrote hsteady hw hforks hmarked, hr⟩

/-- What the scenes of two states with the same values and settings have in common. -/
theorem scene_keep {waits : Nat → Prop} (hk : KeepsFor waits s s') (hroot : s.store.IsRoot scope) :
    a.scene s' scope source = a.scene s scope source := by
  unfold App.scene
  rw [hk.registry, hk.immediate, hroot.root_eq, (hroot.keep hk.values.keepsScopes).root_eq,
    hk.values.valueAt?_eq hroot.lt_size]

theorem Follows.flushed {b b' : App} {m : Mount} {n : Nat}
    (h : a.Follows bricks layout target scope source (b, s) m) (hrun : b.flush s = some ((b', n), s'))
    (hconfined : a.Confined bricks layout scope source s') :
    ∃ m' ps, a.Follows bricks layout target scope source (b', s') m' ∧
      ((a.scene s' scope source).confine bricks).pictures Host.depthLimit [] layout = some ps ∧
      List.Forall₂ Shows m'.host.roots ps := by
  obtain ⟨ps, hps⟩ := Option.isSome_iff_exists.1 hconfined
  obtain ⟨r, habreast, hconfig, htransport, hsource⟩ := h.abreast
  obtain ⟨-, -, hk, hflushed⟩ := flush_ensures h.consistent.steady _ _ hrun
  obtain ⟨m', hm', hfl⟩ := Flushed.get? hflushed h.mounted
  have hstands : m.Stands s :=
    h.consistent.steady.stands m (List.mem_map_of_mem (Fields.mem_of_get? h.mounted))
  have hps' : ((m.scene s r).confine bricks).pictures Host.depthLimit (s.store.layers m.scope) m.layout =
      some ps := by
    rw [scene_eq h.scope_eq hconfig htransport hsource, h.scope_eq, h.root.layers_eq, h.layout_eq,
      ← scene_keep hk h.root]
    exact hps
  obtain ⟨r', hlike, habreast', hshows⟩ := habreast.flushed hstands hk hfl hps'
  have hmount : m'.scope = m.scope ∧ m'.layout = m.layout := by
    rw [show m' = { m with host := m'.host } from hfl.mount]
    exact ⟨rfl, rfl⟩
  refine ⟨m', ps, ⟨flush_consistent h.consistent _ _ hrun, h.root.keep hk.values.keepsScopes, hm', ?_, ?_,
    r', habreast', ?_⟩, hps, hshows⟩
  · rw [hmount.2, h.layout_eq]
  · rw [hmount.1, h.scope_eq]
  · rw [hlike.config, hlike.transport, hlike.source]
    exact ⟨hconfig, htransport, hsource⟩

theorem get?_put (a : App) (target : String) (m : Mount) :
    Fields.get? (a.put target m).mounts (Text.trim target) = some m := by
  unfold put
  rw [Fields.get?_insertSorted, if_pos rfl]

theorem tree_eq {m : Mount} (h : Fields.get? a.mounts (Text.trim target) = some m) :
    a.tree target = .ok (snapshot m.host.roots) := by
  unfold tree find?
  rw [h]
  rfl

/-- A layout that has been mounted on a root is abreast, if what it shows is confined. -/
theorem follows_of_mount (h : a.Consistent s) (hroot : s.store.IsRoot scope)
    (hrun : a.mount layout target scope source s = some ((a', .ok ()), s'))
    (hconfined : a.Confined bricks (annotate s.registry { keyPrefix := a.config.keyPrefix } layout) scope source s') :
    ∃ m, a.Follows bricks (annotate s.registry { keyPrefix := a.config.keyPrefix } layout) target scope source
      (a', s') m := by
  have hconsistent := mount_consistent h layout target source hroot.lt_size _ _ hrun
  rcases mount_ensures h layout target source hroot.lt_size _ _ hrun with ⟨_, heq, -⟩ | hplaced
  · cases heq
  obtain ⟨t, ms, m, hun, -, heq, hm⟩ := hplaced
  cases heq
  obtain ⟨ps, hps⟩ := Option.isSome_iff_exists.1 hconfined
  obtain ⟨r, hr, hconfig, htransport, hsource⟩ := hm.interpreter
  have hroot₁ := hroot.keep hun.values.keepsScopes
  have hroot' := hroot₁.keep hm.values.keepsScopes
  have hscene : m.scene s' r = a.scene t scope source := by
    rw [scene_eq hm.scope_eq hconfig htransport hsource]
    unfold App.scene
    rw [hm.registry, hm.immediate, hroot'.root_eq, hroot₁.root_eq, hm.values.valueAt?_eq hroot₁.lt_size]
  have hlayout : m.layout = annotate s.registry { keyPrefix := a.config.keyPrefix } layout := by
    rw [hm.layout_eq, hun.registry]
  refine ⟨m, hconsistent, hroot', ?_, hlayout, hm.scope_eq, r, ?_, hconfig, htransport, hsource⟩
  · rw [put_trim]
    exact get?_put a target m
  · refine (Mount.abreast_of_fresh hr ?_ ?_ (?_ : _ = some ps)).1
    · have hroots := hm.roots
      rw [hroot₁.layers_eq] at hroots
      rw [hscene, hm.scope_eq, hroot'.layers_eq]
      exact hroots
    · rw [hscene]
      exact hm.fresh.mono fun _ _ h => h.elim
    · rw [scene_eq hm.scope_eq hconfig htransport hsource, hm.scope_eq, hroot'.layers_eq, hlayout]
      exact hps

/-- Mounting on a free target gives a result and shows the pictures that the scene has. -/
theorem mount_shows {ps : List Picture} (h : a.Consistent s) (hscope : scope < s.store.levels.size)
    (htarget : Text.trim target ≠ "") (hlayout : layout.isNull = false)
    (hfree : Fields.get? a.mounts (Text.trim target) = none)
    (hps : (a.scene s scope source).pictures Host.depthLimit (s.store.layers scope)
      (annotate s.registry { keyPrefix := a.config.keyPrefix } layout) = some ps) :
    ∃ b t, a.mount layout target scope source s = some ((b, .ok ()), t) ∧
      (b.tree target).map Output.toJsonAll = .ok (Picture.toJsonAll ps) := by
  have hplace := place_yields a layout (Text.trim target) source h.steady h.issued hscope
  rw [hps] at hplace
  rcases hplace.cases with ⟨-, hnone⟩ | ⟨_, _, s', hrun, heq, m, rfl, hm, -⟩
  · cases hnone
  cases heq
  refine ⟨a.put (Text.trim target) m, s', ?_, ?_⟩
  · rw [mount_eq, if_neg htarget, if_neg (by simp [hlayout])]
    unfold free
    rw [hfree]
    exact hrun
  · have hshows := (hm.fresh.shows_layout (.refl _) rfl (fun _ h => h.elim) (hm.layout_eq ▸ hps) hm.roots).1
    rw [put_trim, tree_eq (get?_put a target m), ← toJsonAll_shows hshows]
    rfl

theorem isNull_of_mount (hrun : a.mount layout target scope source s = some ((a', .ok ()), s')) :
    layout.isNull = false := by
  rw [mount_eq] at hrun
  split at hrun
  · cases hrun
  · split at hrun
    · cases hrun
    · rename_i hnull
      exact Bool.eq_false_iff.2 hnull

/-- What one edit preserves, a run of edits preserves. -/
theorem Edits.follows {c c' : App × State} {m : Mount}
    (h : Edits (fun s => a.Confined bricks layout scope source s) c c')
    (hmarked : ∀ fields, bricks fields = true → (Brick.mk fields).Marked)
    (hm : a.Follows bricks layout target scope source c m) :
    ∃ m', a.Follows bricks layout target scope source c' m' := by
  induction h with
  | none => exact ⟨m, hm⟩
  | write before root listeners run ih =>
    obtain ⟨m', hm'⟩ := ih
    have hw := set_writes _ _ _ _ hm'.consistent.steady.ledger.tidy _ _ run
    have hroots := set_atRoots _ _ _ _ listeners root _ _ run
    exact ⟨m', hm'.wrote hmarked hw hroots.forks⟩
  | flush before run after ih =>
    obtain ⟨m', hm'⟩ := ih
    obtain ⟨m'', -, hm'', -⟩ := hm'.flushed run after
    exact ⟨m'', hm''⟩

end

/-- Updating step by step shows what mounting afresh shows. A layout has been mounted on a root; variables at
roots were written and the app was flushed, in any order, and flushed in the end. Whatever was shown after
the mount and after each flush is drawn from bricks that the annotation visits, and does not fetch. Then
another app with the same settings, where the variables of a root have the same values, can mount the
same annotated layout, and shows the same. -/
theorem tree_eq_fresh {a a₁ a₂ a' b : App} {s s₁ s₂ s' t : State} {layout layout' : Json}
    {target target' : String} {scope scope' : Scope} {source : HandlerSource} {n : Nat}
    {bricks : List (String × Json) → Bool}
    (hreachable : Reachable (a, s)) (hroot : s.store.IsRoot scope) (hwell : layout.wellFormed = true)
    (hbricks : ∀ fields, bricks fields = true → ∃ form before, Annotate.Visits s.registry none layout
      (annotate s.registry { keyPrefix := a.config.keyPrefix } layout) form before fields)
    (hmount : a.mount layout target scope source s = some ((a₁, .ok ()), s₁))
    (hshown : a.Confined bricks (annotate s.registry { keyPrefix := a.config.keyPrefix } layout) scope source s₁)
    (hedits : Edits (fun s' => a.Confined bricks
      (annotate s.registry { keyPrefix := a.config.keyPrefix } layout) scope source s') (a₁, s₁) (a₂, s₂))
    (hflush : a₂.flush s₂ = some ((a', n), s'))
    (hshown' : a.Confined bricks (annotate s.registry { keyPrefix := a.config.keyPrefix } layout) scope source s')
    (hfresh : Reachable (b, t)) (hconfig : b.config = a.config) (htransport : b.transport = a.transport)
    (hregistry : t.registry = s'.registry) (hroot' : t.store.IsRoot scope')
    (hvalues : ∀ x, t.store.valueAt? scope' x = s'.store.valueAt? scope x)
    (hsame : annotate t.registry { keyPrefix := b.config.keyPrefix } layout' =
      annotate s.registry { keyPrefix := a.config.keyPrefix } layout)
    (htarget : Text.trim target' ≠ "") (hfree : Fields.get? b.mounts (Text.trim target') = none) :
    ∃ b' t' shown, b.mount layout' target' scope' source t = some ((b', .ok ()), t') ∧
      (b'.tree target').map Output.toJsonAll = .ok shown ∧ (a'.tree target).map Output.toJsonAll = .ok shown := by
  have hmarked : ∀ fields, bricks fields = true → (Brick.mk fields).Marked := by
    intro fields hfields
    obtain ⟨form, before, hvisits⟩ := hbricks fields hfields
    obtain ⟨typeName, -, hannotated⟩ :=
      annotate_visits s.registry { keyPrefix := a.config.keyPrefix } hwell hvisits
    exact Annotate.marked_of_marks hannotated.marks
  obtain ⟨m₁, hm₁⟩ := follows_of_mount hreachable.consistent hroot hmount hshown
  obtain ⟨m₂, hm₂⟩ := hedits.follows hmarked hm₁
  obtain ⟨m', ps, hm', hps, hshows⟩ := hm₂.flushed hflush hshown'
  -- The scene of the fresh mount has the same pictures.
  have hpictures : (b.scene t scope' source).pictures Host.depthLimit (t.store.layers scope')
      (annotate t.registry { keyPrefix := b.config.keyPrefix } layout') = some ps := by
    have hle : ((a.scene s' scope source).confine bricks).Le ((b.scene t scope' source).confine bricks) :=
      Scene.confine_le_confine hmarked hregistry hconfig rfl htransport
    have hle' : ((b.scene t scope' source).confine bricks).Le (b.scene t scope' source) :=
      Scene.confine_le bricks fun _ => rfl
    have hsameroot : ((b.scene t scope' source).confine bricks).root =
        ((a.scene s' scope source).confine bricks).root := by
      show t.store.valueAt? (t.store.root scope') = s'.store.valueAt? (s'.store.root scope)
      rw [hroot'.root_eq, hm'.root.root_eq]
      exact funext hvalues
    rw [hroot'.layers_eq, hsame]
    apply Scene.pictures_le hle' rfl (Nat.le_refl _)
    exact Scene.pictures_le hle hsameroot (Nat.le_refl _) _ _ _ hps
  have hnull : layout'.isNull = false := by
    have hlayout := isNull_of_mount hmount
    have hboth := congrArg Json.isNull hsame
    unfold annotate at hboth
    rw [Annotate.isNull_value, Annotate.isNull_value, hlayout] at hboth
    exact hboth
  obtain ⟨b', t', hrun, htree⟩ :=
    mount_shows hfresh.consistent hroot'.lt_size htarget hnull hfree hpictures
  refine ⟨b', t', Picture.toJsonAll ps, hrun, htree, ?_⟩
  rw [tree_eq hm'.mounted, ← toJsonAll_shows hshows]
  rfl

/-- A text that is shown while a variable is true. -/
def whenLayout : Json := .object [("type", .string "If"), ("condition", .string "\x7bx\x7d"),
  ("then", .object [("type", .string "p"), ("children", .string "\x7bx\x7d")])]

/-- Its two bricks, as annotated. -/
def whenBricks : List (String × Json) → Bool
  | [("type", .string "If"), ("condition", .string "\x7bx\x7d"),
      ("then", .object [("type", .string "p"), ("children", .string "\x7bx\x7d"), ("id", .string "brick-2"),
        ("_expressions", .array [.string "children"])]),
      ("id", .string "brick-1"), ("_expressions", .array [.string "condition"])] => true
  | [("type", .string "p"), ("children", .string "\x7bx\x7d"), ("id", .string "brick-2"),
      ("_expressions", .array [.string "children"])] => true
  | _ => false

theorem whenBricks_visited {fields : List (String × Json)} (h : whenBricks fields = true) :
    ∃ form before, Annotate.Visits {} none whenLayout (annotate {} {} whenLayout) form before fields := by
  unfold whenBricks at h
  split at h
  · exact ⟨none, _, .brick (show (Brick.mk _).typeName? = some "If" by rfl)⟩
  · have hthen : "then" ∈ Annotate.nestedAttributes {} "If" [("type", .string "If"),
        ("condition", .string "\x7bx\x7d"),
        ("then", .object [("type", .string "p"), ("children", .string "\x7bx\x7d")])] := by decide
    exact ⟨none, _, .nested rfl hthen rfl rfl (.brick (show (Brick.mk _).typeName? = some "p" by rfl))⟩
  · cases h

/-- The variables of the first level. -/
def firstValues (s : State) : List (String × Json) := ((s.store.level? 0).map Level.values).getD []

/-- What has to hold in a state of the run below. -/
def whenHolds (s : State) : Bool :=
  (((App.scene {} s 0 .anything).confine whenBricks).pictures Host.depthLimit [] (annotate {} {} whenLayout)).isSome &&
    s.listeners.isEmpty && (s.store.level? 0).any (·.parent.isNone) &&
    (s.registry.bricks.isEmpty && s.registry.containers.isEmpty && s.registry.fields.isEmpty &&
      s.registry.registrations == 0)

/-- The variable is false when the layout is mounted, is set to true, and the app is flushed. -/
def whenRun : Option (((App × Except AppError Unit) × State) × State × (App × Nat) × State) := do
  let mounted ← App.mount {} whenLayout "main" 0 .anything { store := (Store.addRoot {} [("x", .bool false)]).2 }
  let written ← Engine.set 0 "x" (.bool true) mounted.2
  let flushed ← mounted.1.1.flush written.2
  return (mounted, written.2, flushed.1, flushed.2)

theorem registry_eq_empty {r : Registry}
    (h : (r.bricks.isEmpty && r.containers.isEmpty && r.fields.isEmpty && r.registrations == 0) = true) :
    r = {} := by
  obtain ⟨bricks, containers, fields, registrations⟩ := r
  simp only [Bool.and_eq_true, List.isEmpty_iff, beq_iff_eq] at h
  obtain ⟨⟨⟨rfl, rfl⟩, rfl⟩, rfl⟩ := h
  rfl

/-- The text that appears after the write is what a fresh mount shows. -/
theorem tree_eq_fresh_when : ∃ a₁ s₁ s₂ a' n s' b' t' shown,
    App.mount {} whenLayout "main" 0 .anything { store := (Store.addRoot {} [("x", .bool false)]).2 } =
      some ((a₁, .ok ()), s₁) ∧
    Engine.set 0 "x" (.bool true) s₁ = some ((), s₂) ∧ a₁.flush s₂ = some ((a', n), s') ∧
    App.mount {} whenLayout "main" 0 .anything { store := (Store.addRoot {} (firstValues s')).2 } =
      some ((b', .ok ()), t') ∧
    (b'.tree "main").map Output.toJsonAll = .ok shown ∧ (a'.tree "main").map Output.toJsonAll = .ok shown ∧
    shown.length = 1 := by
  have hsome : whenRun.isSome = true := by decide +kernel
  obtain ⟨r, hrun⟩ := Option.isSome_iff_exists.1 hsome
  have hcheck : whenRun.all (fun r => r.1.1.2.isOk && whenHolds r.1.2 && whenHolds r.2.2.2 &&
      (r.2.2.1.1.tree "main").toOption.any fun os => (Output.toJsonAll os).length == 1) = true := by
    decide +kernel
  rw [hrun, Option.all_some] at hcheck
  obtain ⟨⟨⟨a₁, res⟩, s₁⟩, hmount, hrun⟩ := Option.bind_eq_some_iff.1 hrun
  obtain ⟨⟨⟨⟩, s₂⟩, hwrite, hrun⟩ := Option.bind_eq_some_iff.1 hrun
  obtain ⟨⟨⟨a', n⟩, s'⟩, hflush, hrun⟩ := Option.bind_eq_some_iff.1 hrun
  cases hrun
  simp only [Bool.and_eq_true] at hcheck
  obtain ⟨⟨⟨hok, hholds⟩, hholds'⟩, hone⟩ := hcheck
  have hres : res = .ok () := by
    cases res with
    | error e => cases hok
    | ok => rfl
  subst hres
  simp only [whenHolds, Bool.and_eq_true, List.isEmpty_iff] at hholds hholds'
  obtain ⟨⟨⟨hshown, hlisteners⟩, hparent⟩, -⟩ := hholds
  obtain ⟨⟨⟨hshown', -⟩, hparent'⟩, hregistry⟩ := hholds'
  have root {s : State} (h : (s.store.level? 0).any (·.parent.isNone) = true) : s.store.IsRoot 0 := by
    rw [Option.any_eq_true] at h
    obtain ⟨level, hlevel, hparent⟩ := h
    exact ⟨level, hlevel, Option.isNone_iff_eq_none.1 hparent⟩
  have hlisten : s₁.ListensAtRoots := fun e he => by
    rw [hlisteners] at he
    cases he
  have hreachable : Reachable ({}, { store := (Store.addRoot {} [("x", .bool false)]).2 }) :=
    .step (.start {} false) (.addRoot [("x", .bool false)])
  have hfresh : Reachable ({}, { store := (Store.addRoot {} (firstValues s')).2 }) :=
    .step (.start {} false) (.addRoot (firstValues s'))
  have hvalues : ∀ x, (Store.addRoot {} (firstValues s')).2.valueAt? 0 x = s'.store.valueAt? 0 x := by
    intro x
    obtain ⟨level, hlevel, -⟩ := root hparent'
    unfold firstValues Store.valueAt?
    rw [hlevel]
    rfl
  obtain ⟨b', t', shown, hb', htree, htree'⟩ :=
    tree_eq_fresh hreachable ⟨_, rfl, rfl⟩ (by decide) (fun _ h => whenBricks_visited h) hmount hshown
      (.write .none ((root hparent).atRoot "x") hlisten hwrite) hflush hshown' hfresh rfl rfl
      (registry_eq_empty (by simpa using hregistry)).symm ⟨_, rfl, rfl⟩ hvalues rfl
      (show Text.trim "main" ≠ "" by decide) rfl
  refine ⟨a₁, s₁, s₂, a', n, s', b', t', shown, hmount, hwrite, hflush, hb', htree, htree', ?_⟩
  cases hshows : a'.tree "main" with
  | error e =>
    rw [hshows] at hone
    cases hone
  | ok os =>
    rw [hshows] at hone htree'
    cases htree'
    simpa [Except.toOption] using hone

end App
end LiveLayout
