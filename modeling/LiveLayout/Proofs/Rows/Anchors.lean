import LiveLayout.Proofs.Mounting.Matching
import LiveLayout.Proofs.Rows.Outlines
/-!
Where a layout's own components are in the trees that have been mounted for it. The outline of the layout leads to
them, from one tree as from the next.
-/
namespace LiveLayout

/-- A component in a tree, with its number and what is in it. -/
structure Part where
  id : Nat
  component : Component
  children : List Mounted

namespace Mounted

mutual

/-- The components of a tree, each before what is in it. -/
def parts : Mounted → List Part
  | .primitive _ => []
  | .element _ _ _ children => partsAll children
  | .component id _ c _ children => ⟨id, c, children⟩ :: partsAll children
  | .fragment _ children => partsAll children

def partsAll : List Mounted → List Part
  | [] => []
  | m :: rest => m.parts ++ partsAll rest

end

@[simp] theorem partsAll_singleton (m : Mounted) : partsAll [m] = m.parts := List.append_nil _

theorem mem_partsAll {e : Part} {ms : List Mounted} : e ∈ partsAll ms ↔ ∃ m ∈ ms, e ∈ m.parts := by
  induction ms with
  | nil => simp [partsAll]
  | cons m rest ih => simp [partsAll, ih]

mutual

theorem map_parts (host : Nat) : (m : Mounted) →
    m.parts.map (fun e => (⟨host, e.id⟩, e.component)) = m.components host
  | .primitive _ => rfl
  | .element _ _ _ children => map_partsAll host children
  | .component _ _ _ _ children => congrArg _ (map_partsAll host children)
  | .fragment _ children => map_partsAll host children

theorem map_partsAll (host : Nat) : (ms : List Mounted) →
    (partsAll ms).map (fun e => (⟨host, e.id⟩, e.component)) = componentsAll host ms
  | [] => rfl
  | m :: rest => by rw [partsAll, List.map_append, map_parts host m, map_partsAll host rest, componentsAll]

end

mutual

/-- What is in a part is part of the tree. -/
theorem sublist_parts {d : Part} : (m : Mounted) → d ∈ m.parts → (partsAll d.children).Sublist m.parts
  | .primitive _, hd => nomatch hd
  | .element _ _ _ children, hd => sublist_partsAll children hd
  | .component _ _ _ _ children, hd => by
    rcases List.mem_cons.1 hd with rfl | hd
    · exact List.sublist_cons_self ..
    · exact (sublist_partsAll children hd).cons _
  | .fragment _ children, hd => sublist_partsAll children hd

theorem sublist_partsAll {d : Part} : (ms : List Mounted) → d ∈ partsAll ms →
    (partsAll d.children).Sublist (partsAll ms)
  | [], hd => nomatch hd
  | m :: rest, hd => by
    rw [partsAll]
    rcases List.mem_append.1 hd with hd | hd
    · exact (sublist_parts m hd).trans (List.sublist_append_left ..)
    · exact (sublist_partsAll rest hd).trans (List.sublist_append_right ..)

end

end Mounted

namespace Scene

theorem componentOutline?_bare (sc : Scene) (key : Option String) (c : Component) :
    sc.componentOutline? key c.bare = sc.componentOutline? key c := by cases c <;> rfl

end Scene

namespace Outline

open Mounted

mutual

/-- The components that the outline leads to in a tree, with their numbers: through elements, lists and proxies, but
not into special bricks. -/
def anchors : Outline → Mounted → List (Nat × Component)
  | .node _ _ outlines, .element _ _ _ children => anchorsAll outlines children
  | .node _ _ outlines, .fragment _ children => anchorsAll outlines children
  | .proxy _ _ _ inside, .component id _ (.proxy p) _ (child :: _) => (id, .proxy p) :: anchors inside child
  | .special _ _, .component id _ c _ _ => [(id, c)]
  | _, _ => []

def anchorsAll : List Outline → List Mounted → List (Nat × Component)
  | o :: os, m :: ms => anchors o m ++ anchorsAll os ms
  | _, _ => []

end

def key? : Outline → Option String
  | .leaf _ key | .node _ key _ | .proxy key _ _ _ | .special key _ => key

def kind? : Outline → Option Kind
  | .leaf kind _ | .node kind _ _ => some kind
  | .proxy .. | .special .. => none

end Outline

namespace Scene

open Mounted

variable {sc : Scene} {o : Outline} {σ τ : Store} {m : Mounted} {n : Node}

theorem key?_of_componentOutline? {key : Option String} {c : Component} (h : sc.componentOutline? key c = some o) :
    o.key? = key ∧ o.kind? = none := by
  cases c <;> simp only [componentOutline?, Component.special?, Option.map_some, Option.map_none, Option.some.injEq,
    reduceCtorEq] at h
  all_goals
    subst h
    exact ⟨rfl, rfl⟩

theorem Outlined.key_eq {k : Sketch} (h : sc.Outlined o k) : k.key? = o.key? := by
  cases h with
  | leaf => rfl
  | node => rfl
  | component is_outline => exact (key?_of_componentOutline? is_outline).1.symm

theorem Outlined.kind_eq {k : Sketch} (h : sc.Outlined o k) : k.kind? = o.kind? := by
  cases h with
  | leaf is_kind => exact is_kind
  | node is_kind => exact is_kind
  | component is_outline => exact (key?_of_componentOutline? is_outline).2.symm

theorem Outlined.inner {kind : Outline.Kind} {key : Option String} {os : List Outline} {k : Sketch}
    (h : sc.Outlined (.node kind key os) k) : sc.OutlinedAll os k.children := by
  cases h with
  | node _ inner => exact inner
  | component is_outline => cases (key?_of_componentOutline? is_outline).2

/-- A node with the same kind and key has an outline too, if what is in it has. -/
theorem Outlined.congr {k l : Sketch} {kind : Outline.Kind} (h : sc.Outlined o k) (hkind : k.kind? = some kind)
    (hl : l.kind? = some kind) (hkey : l.key? = k.key?)
    (hinner : ∀ os, sc.OutlinedAll os k.children → sc.OutlinedAll os l.children) : sc.Outlined o l := by
  cases h with
  | leaf is_kind =>
    rw [← hkey]
    exact .leaf (hl.trans (hkind.symm.trans is_kind))
  | node is_kind inner =>
    rw [← hkey]
    exact .node (hl.trans (hkind.symm.trans is_kind)) (hinner _ inner)
  | component => cases hkind

theorem outlined_component {key : Option String} {layers : Layers} {c : Component} :
    sc.Outlined o (.component key layers c) ↔ sc.componentOutline? key c = some o := by
  constructor
  · intro h
    cases h with
    | leaf is_kind => cases is_kind
    | node is_kind => cases is_kind
    | component is_outline => exact is_outline
  · exact .component

/-- What has the outline of a mounted node may take it over. -/
theorem Outlined.fits (hm : sc.Outlined o (m.sketch σ)) (hn : sc.Outlined o (n.sketch τ)) :
    Reconcile.Fits m n := by
  have hkey := hm.key_eq.trans hn.key_eq.symm
  have hkind := hm.kind_eq.trans hn.kind_eq.symm
  cases m <;> cases n <;>
    simp_all [Mounted.sketch, Node.sketch, Sketch.key?, Sketch.kind?, Reconcile.Fits, Mounted.key?, Node.key?, sameKind]

theorem OutlinedAll.fits {os : List Outline} {ms : List Mounted} {ns : List Node}
    (hm : sc.OutlinedAll os (sketchAll σ ms)) (hn : sc.OutlinedAll os (ns.map (Node.sketch τ))) :
    List.Forall₂ Reconcile.Fits ms ns := by
  rw [sketchAll_eq_map, OutlinedAll, List.forall₂_map_right_iff] at hm
  rw [OutlinedAll, List.forall₂_map_right_iff] at hn
  induction hm generalizing ns with
  | nil =>
    rw [List.forall₂_nil_left_iff.1 hn]
    exact .nil
  | cons hm _ ih =>
    cases hn with
    | cons hn hns => exact .cons (hm.fits hn) (ih hns)

mutual

/-- It does not matter in which store a tree is sketched. -/
theorem Outlined.move {o : Outline} : (m : Mounted) → sc.Outlined o (m.sketch σ) → sc.Outlined o (m.sketch τ)
  | .primitive _, h => h
  | .element _ _ _ children, h => h.congr rfl rfl rfl fun _ => OutlinedAll.move children
  | .component .., h => outlined_component.2 (outlined_component.1 h)
  | .fragment _ children, h => h.congr rfl rfl rfl fun _ => OutlinedAll.move children

theorem OutlinedAll.move {os : List Outline} : (ms : List Mounted) → sc.OutlinedAll os (sketchAll σ ms) →
    sc.OutlinedAll os (sketchAll τ ms)
  | [], h => h
  | m :: rest, h => by
    rw [sketchAll] at h ⊢
    cases h with
    | cons hm hrest => exact .cons (Outlined.move m hm) (OutlinedAll.move rest hrest)

end

theorem lists_bare (p : Props) (items : List Json) (binding : String) (template : Json) :
    ForEach.Lists p.bare items binding template ↔ ForEach.Lists p items binding template := by
  have hrendering : p.bare.rendering?.isSome = p.rendering?.isSome := by rw [Props.rendering?_bare, Option.isSome_map]
  constructor
  · rintro ⟨hr, hitems, hbinding, htemplate⟩
    exact ⟨hrendering ▸ hr, by simpa using hitems, by simpa using hbinding, by simpa using htemplate⟩
  · rintro ⟨hr, hitems, hbinding, htemplate⟩
    exact ⟨hrendering ▸ hr, by simpa using hitems, by simpa using hbinding, by simpa using htemplate⟩

theorem yields_bare (c : Component) : sc.yields c.bare = sc.yields c := by
  cases c with
  | forEach p =>
    refine congrArg some ?_
    by_cases hlists : ∃ items binding template, ForEach.Lists p items binding template
    · obtain ⟨items, binding, template, hlists⟩ := hlists
      rw [rows_eq hlists, rows_eq ((lists_bare ..).2 hlists)]
    · have hnone : ∀ items binding template, ¬ForEach.Lists p items binding template :=
        fun items binding template h => hlists ⟨items, binding, template, h⟩
      rw [rows_eq_nil hnone, rows_eq_nil fun items binding template h => hnone _ _ _ ((lists_bare ..).1 h)]
  | _ => rfl

end Scene

namespace Mounted

variable {sc : Scene} {s : State} {host depth : Nat}

/-- Every component of the trees shows what has the outline that is known of it. -/
def Formed (sc : Scene) (ms : List Mounted) : Prop :=
  ∀ e ∈ partsAll ms, ∀ os, sc.yields e.component = some os → ∀ σ, sc.OutlinedAll os (sketchAll σ e.children)

theorem UpToDate.formed {m : Mounted} (h : UpToDate sc s host depth m) : Formed sc [m] := by
  intro e he
  rw [partsAll_singleton] at he
  induction depth generalizing m with
  | zero => exact h.elim
  | succ depth ih =>
    have all {children : List Mounted} (h : ∀ m ∈ children, UpToDate sc s host depth m) (he : e ∈ partsAll children) :
        ∀ os, sc.yields e.component = some os → ∀ σ, sc.OutlinedAll os (sketchAll σ e.children) := by
      obtain ⟨m, hm, he⟩ := mem_partsAll.1 he
      exact ih (h m hm) he
    cases m with
    | primitive v => cases he
    | element tag key props children => exact all h he
    | fragment key children => exact all h he
    | component id key c renders children =>
      rcases List.mem_cons.1 he with rfl | he
      · intro os hos σ
        rw [← Scene.yields_bare] at hos
        exact Scene.OutlinedAll.move children (Scene.again_outlined (Scene.upTo_outlined depth) h.1 os hos)
      · exact all h.2 he

theorem UpToDate.formed_all {ms : List Mounted} (h : ∀ m ∈ ms, UpToDate sc s host depth m) : Formed sc ms := by
  intro e he
  obtain ⟨m, hm, he⟩ := mem_partsAll.1 he
  exact (h m hm).formed e (by rwa [partsAll_singleton])

end Mounted
end LiveLayout
