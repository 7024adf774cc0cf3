import LiveLayout.Proofs.Reaching.Covered
import LiveLayout.Proofs.Reaching.Trees
import LiveLayout.Proofs.Refreshing.Targets
import LiveLayout.Proofs.Rows.Keys
/-!
No two elements of a layout are shown under the same key, as long as the ids of its bricks and the keys of its rows can
be told apart once they are joined.
-/
namespace LiveLayout

open Annotate (Visited)
open Json (Place)
open Mounted

/-! ### Layouts whose bricks are all their own -/

/-- No two bricks that the annotation visits have the same id. -/
def Annotate.DistinctIds (registry : Registry) (v : Json) : Prop :=
  ∀ p q id, Visited registry none v p → Visited registry none v q → v.idAt? p = some (.string id) →
    v.idAt? q = some (.string id) → p = q

/-- Rendering comes only to bricks that the annotation visits, and to none in the values of expressions. -/
structure Scene.StaysInside (sc : Scene) (states : FetchState → Prop) (layers : Layers) (v : Json) : Prop where
  visited : ∀ p layers' fields, sc.Comes states layers v p layers' (.object fields) →
    (Brick.mk fields).typeName? ≠ none → Visited sc.registry none v p
  plain : ∀ p layers' u inner w, sc.Comes states layers v p layers' u → sc.Leads states layers' u none inner w →
    sc.Brickless states inner w

namespace Scene

variable {sc : Scene} {states : FetchState → Prop} {layers : Layers} {v : Json} {p : Place} {id : String}

theorem Identifies.idAt? (h : sc.Identifies states layers v p id) : v.idAt? p = some (.string id) := by
  obtain ⟨layers', fields, hcomes, -, hid⟩ := h
  rw [Json.idAt?_of_object hcomes.at?]
  obtain ⟨w, hw, hs⟩ := Option.bind_eq_some_iff.1 hid
  cases w <;> cases hs
  exact hw

theorem StaysInside.visits (h : sc.StaysInside states layers v) (hid : sc.Identifies states layers v p id) :
    Visited sc.registry none v p := by
  obtain ⟨layers', fields, hcomes, htyped, -⟩ := hid
  exact h.visited p layers' fields hcomes htyped

theorem StaysInside.standing (h : sc.StaysInside states layers v) (hv : v.wellFormed = true)
    (hids : Annotate.DistinctIds sc.registry v) : sc.Standing states layers v where
  named := fun _ _ _ hcomes _ => (Json.wellFormed_object_iff.1 (Json.wellFormed_of_at? hv hcomes.at?)).1
  distinct p q id hp hq := hids p q id (h.visits hp) (h.visits hq) hp.idAt? hq.idAt?
  plain := h.plain

end Scene

/-- The key of a row begins with the mark. -/
theorem ForEach.head?_of_mem_keys {items : List Json} {seen : List String} {index : Nat} {row : String}
    (h : row ∈ ForEach.keys seen items index) : row.toList.head? = some '#' := by
  have marked (id : String) : (rowKey id).toList.head? = some '#' := by
    rw [rowKey, String.toList_append]
    rfl
  induction items generalizing seen index with
  | nil => cases h
  | cons item rest ih =>
    rcases List.mem_cons.1 h with rfl | h
    · split
      · rw [String.append_assoc]
        exact marked _
      · cases hown : ownId? item with
        | none =>
          rw [itemKey_eq_of_ownId?_eq_none hown]
          exact marked _
        | some id =>
          rw [itemKey_of_ownId? hown]
          exact marked _
    · exact ih h

theorem Component.head?_of_mem_rowKeys {c : Component} {row : String} (h : row ∈ c.rowKeys) :
    row.toList.head? = some '#' := by
  cases c with
  | forEach props =>
    dsimp only [rowKeys] at h
    split at h
    · exact ForEach.head?_of_mem_keys h
    · cases h
  | _ => cases h

/-! ### Mounted layouts -/

theorem Mounted.UpToDate.shows {sc : Scene} {s : State} {host depth : Nat} {m : Mounted}
    (h : UpToDate sc s host depth m) : ∀ e ∈ m.rendered s.store host, ∃ depth,
      sc.again (sc.upTo depth) (e.1.2.layers s.store) (s.fetchState e.1.1) e.1.2.bare = some e.2 := by
  intro e he
  induction depth generalizing m with
  | zero => exact h.elim
  | succ depth ih =>
    have all {children : List Mounted} (h : ∀ m ∈ children, UpToDate sc s host depth m)
        (he : e ∈ renderedAll s.store host children) : ∃ depth,
          sc.again (sc.upTo depth) (e.1.2.layers s.store) (s.fetchState e.1.1) e.1.2.bare = some e.2 := by
      induction children with
      | nil => cases he
      | cons m rest ihrest =>
        rcases List.mem_append.1 he with he | he
        · exact ih (h m (List.mem_cons_self ..)) he
        · exact ihrest (fun m hm => h m (List.mem_cons_of_mem _ hm)) he
    cases m with
    | primitive v => cases he
    | element tag key props children => exact all h he
    | fragment key children => exact all h he
    | component id key c renders children =>
      rcases List.mem_cons.1 he with rfl | he
      · exact ⟨depth, h.1⟩
      · exact all h.2 he

namespace Mount

variable {m : Mount} {s : State} {r : Interpreter}

/-- The states that the requests of the mounted components are in. -/
def requestStates (m : Mount) (s : State) (state : FetchState) : Prop :=
  ∃ e ∈ m.components, e.2.Fetches ∧ s.fetchState e.1 = state

/-- Every component of a layout that is up to date is in order, if its rows have different keys. -/
theorem UpToDate.orderly (h : m.UpToDate s r) {rowKeys : String → Prop}
    (hrows : ∀ e ∈ m.components, e.2.rowKeys.Nodup ∧ ∀ row ∈ e.2.rowKeys, rowKeys row) :
    ∀ e ∈ renderedAll s.store m.host.id m.host.roots,
      (m.scene s r).Orderly (m.requestStates s) rowKeys s.store e := by
  intro e he
  have hmem : e.1 ∈ m.components := by
    have hmem := List.mem_map_of_mem (f := (·.1)) he
    rwa [map_renderedAll] at hmem
  obtain ⟨n, hn, he⟩ : ∃ n ∈ m.host.roots, e ∈ n.rendered s.store m.host.id := by
    generalize m.host.roots = roots at he
    induction roots with
    | nil => cases he
    | cons n rest ih =>
      rcases List.mem_append.1 he with he | he
      · exact ⟨n, List.mem_cons_self .., he⟩
      · exact (ih he).imp fun n hn => ⟨List.mem_cons_of_mem _ hn.1, hn.2⟩
  obtain ⟨depth, hshows⟩ := (h.roots n hn).shows e he
  exact ⟨⟨depth, _, fun hfetches => ⟨e.1, hmem, hfetches, rfl⟩, hshows⟩, (hrows _ hmem).1, (hrows _ hmem).2⟩

/-- No two elements of an up-to-date layout have the same key, so that each is found by its own. All types come to
elements, rendering comes only to bricks that the annotation visits, these have different ids, and so have the rows of
each list. Besides, no key of a row contains the separator, and no id that contains it begins as the keys of rows do. -/
theorem keys_distinct (h : m.UpToDate s r) (hlayout : m.layout.wellFormed = true) (hregistry : s.registry.Elemental)
    (hinside : (m.scene s r).StaysInside (m.requestStates s) (s.store.layers m.scope) m.layout)
    (hids : Annotate.DistinctIds s.registry m.layout) (hrows : ∀ e ∈ m.components, e.2.rowKeys.Nodup)
    (hunseparated : ∀ e ∈ m.components, ∀ row ∈ e.2.rowKeys, '/' ∉ row.toList)
    (hunmarked : ∀ p id, Visited s.registry none m.layout p → m.layout.idAt? p = some (.string id) →
      '/' ∈ id.toList → id.toList.head? ≠ some '#') :
    (Output.keys (snapshot m.host.roots)).Nodup ∧ ∀ o ∈ Output.elementsAll (snapshot m.host.roots), ∀ key,
      o.key? = some key → Output.findAll? key (snapshot m.host.roots) = some o := by
  have hkeys : ∀ e ∈ m.components,
      e.2.rowKeys.Nodup ∧ ∀ row ∈ e.2.rowKeys, row.toList.head? = some '#' ∧ '/' ∉ row.toList := fun e he =>
    ⟨hrows e he, fun row hrow => ⟨Component.head?_of_mem_rowKeys hrow, hunseparated e he row hrow⟩⟩
  have hstanding := hinside.standing hlayout hids
  have hfits := Scene.trees_fit hregistry m.host.roots (h.orderly hkeys) _ _ _ h.tree hstanding
  have hnodup : (Output.keys (snapshot m.host.roots)).Nodup := by
    refine nodup_keys_snapshot hfits.nodup fun a ha => ⟨fun row hrow => (hfits.rows a ha row hrow).1,
      fun row hrow => (hfits.rows a ha row hrow).2, ?_⟩
    obtain ⟨p, -, hid⟩ := hfits.stems a ha
    exact hunmarked p a.id (hinside.visits hid) hid.idAt?
  exact ⟨hnodup, fun o ho key hkey => Output.findAll?_of_nodup hnodup ho hkey⟩

end Mount

/-! ### A list beside a button -/

namespace Scene

variable {sc : Scene} {states : FetchState → Prop} {layers inner layers' : Layers} {fields : List (String × Json)}
  {v w : Json} {p : Place} {origin : Option Place} {name typeName : String}

/-- Without a class, an entry becomes the property of its own name. -/
theorem Stems.get?_of_classless (h : sc.Stems layers fields name origin v) (hclass : Fields.get? fields "class" = none) :
    Fields.get? fields name = some v ∧ origin = some [.entry name] ∨
      (∃ raw, Fields.get? fields name = some (.string raw)) ∧ origin = none := by
  have same {key : String} {u : Json} (hentry : Fields.get? fields key = some u)
      (hname : Renderer.rename sc.config key = name) : key = name := by
    rw [← hname]
    refine (if_neg ?_).symm
    rintro rfl
    cases hclass.symm.trans hentry
  cases h with
  | entry hentry _ _ hname =>
    obtain rfl := same hentry hname
    exact .inl ⟨hentry, rfl⟩
  | text hentry hname =>
    obtain rfl := same hentry hname
    exact .inr ⟨⟨_, hentry⟩, rfl⟩

/-- Rendering does not go on from a brick without children that is not special. -/
theorem not_leads_of_leaf (htyped : (Brick.mk fields).typeName? = some typeName)
    (hplain : Special.ofName? typeName = none) (hclass : Fields.get? fields "class" = none)
    (hchildren : Fields.get? fields "children" = none) : ¬sc.Leads states layers (.object fields) origin inner w := by
  intro h
  cases h with
  | children _ _ entry => cases hchildren.symm.trans entry
  | evaluated _ _ stems =>
    rcases stems.get?_of_classless hclass with ⟨hget, -⟩ | ⟨⟨raw, hget⟩, -⟩ <;> cases hchildren.symm.trans hget
  | handed typed special =>
    cases htyped.symm.trans typed
    cases hplain.symm.trans special
  | slotted typed special =>
    cases htyped.symm.trans typed
    cases hplain.symm.trans special

/-- What each element of the list is shown as. -/
def listedRow : List (String × Json) := [("type", .string "p"), ("id", .string "t")]

def rowList : List (String × Json) :=
  [("type", .string "ForEach"), ("items", .array [.object [("id", .string "a")]]), ("as", .string "x"),
    ("template", .object listedRow), ("id", .string "l")]

def besideList (id : String) : List (String × Json) := [("type", .string "button"), ("id", .string id)]

def listing (id : String) : Json := .array [.object rowList, .object (besideList id)]

theorem typeName?_rowList : (Brick.mk rowList).typeName? = some "ForEach" := by decide

theorem typeName?_listedRow : (Brick.mk listedRow).typeName? = some "p" := by decide

theorem typeName?_besideList (id : String) : (Brick.mk (besideList id)).typeName? = some "button" := rfl

theorem leads_rowList (h : sc.Leads states layers (.object rowList) origin inner w) :
    origin = some [.entry "template"] ∧ w = .object listedRow := by
  have htyped := typeName?_rowList
  have hkind : Special.ofName? "ForEach" = some .forEach := Special.ofName?_name .forEach
  have hchildren : Fields.get? rowList "children" = none := rfl
  cases h with
  | children _ _ entry => cases hchildren.symm.trans entry
  | evaluated _ _ stems =>
    rcases stems.get?_of_classless rfl with ⟨hget, -⟩ | ⟨⟨raw, hget⟩, -⟩ <;> cases hchildren.symm.trans hget
  | handed typed special hands _ stems =>
    cases htyped.symm.trans typed
    cases hkind.symm.trans special
    cases hands with
    | template =>
      rcases stems.get?_of_classless rfl with ⟨hget, rfl⟩ | ⟨⟨raw, hget⟩, -⟩ <;> cases hget
      exact ⟨rfl, rfl⟩
  | slotted typed special =>
    cases htyped.symm.trans typed
    cases hkind.symm.trans special

theorem not_leads_listedRow : ¬sc.Leads states layers (.object listedRow) origin inner w :=
  not_leads_of_leaf typeName?_listedRow (by decide) rfl rfl

theorem not_leads_besideList (id : String) : ¬sc.Leads states layers (.object (besideList id)) origin inner w :=
  not_leads_of_leaf (typeName?_besideList id) (by decide) rfl rfl

/-- All that rendering comes to in the layout. -/
theorem comes_listing {id : String} (h : sc.Comes states layers (listing id) p layers' w) :
    p = [] ∧ w = listing id ∨ p = [.item 0] ∧ w = .object rowList ∨
      p = [.item 0, .entry "template"] ∧ w = .object listedRow ∨ p = [.item 1] ∧ w = .object (besideList id) := by
  cases h with
  | here => exact .inl ⟨rfl, rfl⟩
  | onward leads inside =>
    cases leads with
    | @item _ i _ item =>
      match i with
      | 0 =>
        cases item
        cases inside with
        | here => exact .inr (.inl ⟨rfl, rfl⟩)
        | onward leads inside =>
          obtain ⟨hway, rfl⟩ := leads_rowList leads
          cases hway
          cases inside with
          | here => exact .inr (.inr (.inl ⟨rfl, rfl⟩))
          | onward leads => exact absurd leads not_leads_listedRow
      | 1 =>
        cases item
        cases inside with
        | here => exact .inr (.inr (.inr ⟨rfl, rfl⟩))
        | onward leads => exact absurd leads (not_leads_besideList id)
      | i + 2 => cases item

theorem staysInside_listing (id : String) : sc.StaysInside states layers (listing id) := by
  have hkind : Special.ofName? "ForEach" = some .forEach := Special.ofName?_name .forEach
  have hlisted : "template" ∈ Annotate.nestedAttributes sc.registry "ForEach" rowList :=
    Annotate.mem_nestedAttributes hkind (by decide)
  constructor
  · intro p layers' fields hcomes _
    rcases comes_listing hcomes with ⟨-, hw⟩ | ⟨rfl, hw⟩ | ⟨rfl, hw⟩ | ⟨rfl, hw⟩ <;> cases hw
    · exact .item rfl (.here typeName?_rowList)
    · exact .item rfl (.nested typeName?_rowList hlisted (not_mem_own_of_kept (by decide) _) rfl
        (.here typeName?_listedRow))
    · exact .item rfl (.here (typeName?_besideList id))
  · intro p layers' u inner w hcomes hleads
    rcases comes_listing hcomes with ⟨-, rfl⟩ | ⟨-, rfl⟩ | ⟨-, rfl⟩ | ⟨-, rfl⟩
    · cases hleads
    · cases (leads_rowList hleads).1
    · exact absurd hleads not_leads_listedRow
    · exact absurd hleads (not_leads_besideList id)

end Scene

open Scene

theorem visited_listing {id : String} {p : Place} (h : Visited {} none (listing id) p) :
    p = [.item 0] ∨ p = [.item 0, .entry "template"] ∨ p = [.item 1] := by
  have htyped := typeName?_rowList
  cases h with
  | @item _ _ i _ _ item inside =>
    match i with
    | 0 =>
      cases item
      cases inside with
      | here => exact .inl rfl
      | entry untyped => cases untyped.symm.trans htyped
      | @nested _ _ _ name _ _ typed listed _ entry inside =>
        cases htyped.symm.trans typed
        have hnames : Annotate.nestedAttributes {} "ForEach" rowList = ["children", "template"] := by decide
        rw [hnames] at listed
        rcases List.mem_pair.1 listed with rfl | rfl <;> cases entry
        obtain rfl := inside.eq_nil "p" typeName?_listedRow (by decide)
        exact .inr (.inl rfl)
    | 1 =>
      cases item
      have hnames : Annotate.nestedAttributes {} "button" (besideList id) = ["children"] := by
        unfold Annotate.nestedAttributes
        rw [show Special.ofName? "button" = none by decide]
        rfl
      obtain rfl := inside.eq_nil "button" (typeName?_besideList id) fun name hname => by
        rw [hnames] at hname
        rw [List.mem_singleton.1 hname]
        rfl
      exact .inr (.inr rfl)
    | i + 2 => cases item

theorem distinctIds_listing {id : String} (hl : id ≠ "l") (ht : id ≠ "t") : Annotate.DistinctIds {} (listing id) := by
  intro p q k hp hq hpk hqk
  have hsame : (listing id).idAt? p = (listing id).idAt? q := hpk.trans hqk.symm
  have hids : (listing id).idAt? [.item 0] = some (.string "l") ∧
      (listing id).idAt? [.item 0, .entry "template"] = some (.string "t") ∧
      (listing id).idAt? [.item 1] = some (.string id) := ⟨rfl, rfl, rfl⟩
  obtain ⟨hlist, hrow, hbeside⟩ := hids
  rcases visited_listing hp with rfl | rfl | rfl <;> rcases visited_listing hq with rfl | rfl | rfl <;>
    first | rfl | simp_all

/-- A root without variables. -/
def emptyRoot : State := { store := (Store.addRoot {} []).2 }

/-- Where the layout is mounted, its rows have different keys, without the separator. -/
theorem exists_listing (id : String) (keys : List String) (hannotate : annotate {} {} (listing id) = listing id)
    (hrun : (App.mount {} (listing id) "main" 0 .anything emptyRoot).any (fun e : (App × Except AppError Unit) × State =>
      e.1.2.isOk && (Fields.get? e.1.1.mounts "main").any fun m =>
        m.components.all (fun e => decide (e.2.rowKeys.Nodup ∧ ∀ row ∈ e.2.rowKeys, '/' ∉ row.toList)) &&
          Output.keys (snapshot m.host.roots) == keys) = true) :
    ∃ (m : Mount) (s : State) (r : Interpreter), m.UpToDate s r ∧ m.layout = listing id ∧ s.registry = {} ∧
      (∀ e ∈ m.components, e.2.rowKeys.Nodup) ∧ (∀ e ∈ m.components, ∀ row ∈ e.2.rowKeys, '/' ∉ row.toList) ∧
      Output.keys (snapshot m.host.roots) = keys := by
  have hreachable : App.Reachable ({}, emptyRoot) := .step (.start {} false) (.addRoot [])
  have hconsistent := hreachable.consistent
  obtain ⟨⟨⟨a, res⟩, s⟩, hrun, hchecked⟩ := (Option.any_eq_true _ _).1 hrun
  obtain ⟨hok, hchecked⟩ := Bool.and_eq_true_iff.1 hchecked
  obtain ⟨m, hm, hchecked⟩ := (Option.any_eq_true _ _).1 hchecked
  obtain ⟨hrows, hkeys⟩ := Bool.and_eq_true_iff.1 hchecked
  have hrows : ∀ e ∈ m.components, e.2.rowKeys.Nodup ∧ ∀ row ∈ e.2.rowKeys, '/' ∉ row.toList := fun e he =>
    of_decide_eq_true (List.all_eq_true.1 hrows e he)
  have hroot : 0 < emptyRoot.store.levels.size := by decide
  -- Both results are about the one layout that has been mounted.
  have hput {n : Mount} (h : a = App.put {} "main" n) : m = n := by
    have hget := App.get?_put {} "main" n
    rw [← h] at hget
    exact Option.some.inj (hm.symm.trans hget)
  rcases App.mount_current hconsistent _ "main" _ hroot _ _ hrun with ⟨_, heq, -⟩ | ⟨⟨n, r, heq, hup⟩, -⟩
  · cases heq
    cases hok
  have hensures := App.mount_ensures hconsistent _ "main" _ hroot _ _ hrun
  rcases hensures with ⟨_, heq', -⟩ | ⟨t, _, n', hun, -, heq', hplaced⟩
  · cases heq'
    cases hok
  obtain rfl := hput (Prod.mk.inj heq).1
  obtain rfl := hput (Prod.mk.inj heq').1
  have hregistry : t.registry = {} := hun.registry
  refine ⟨m, s, r, hup, ?_, hplaced.registry.trans hregistry, fun e he => (hrows e he).1, fun e he => (hrows e he).2,
    eq_of_beq hkeys⟩
  rw [hplaced.layout_eq, hregistry]
  exact hannotate

theorem elemental_empty : Registry.Elemental {} := fun _ _ h => nomatch h

namespace Mount

/-- The element in the row and the button beside it have different keys. -/
theorem keys_distinct_listing : ∃ (m : Mount) (s : State) (r : Interpreter), m.UpToDate s r ∧ m.layout = listing "b" ∧
    Output.keys (snapshot m.host.roots) = ["#a/t", "b"] ∧ (Output.keys (snapshot m.host.roots)).Nodup := by
  obtain ⟨m, s, r, hup, hlayout, hregistry, hrows, hunseparated, hkeys⟩ :=
    exists_listing "b" ["#a/t", "b"] rfl (by decide +kernel)
  have hids : Annotate.DistinctIds s.registry m.layout := by
    rw [hregistry, hlayout]
    exact distinctIds_listing (by decide) (by decide)
  have hinside : (m.scene s r).StaysInside (m.requestStates s) (s.store.layers m.scope) m.layout := by
    rw [hlayout]
    exact staysInside_listing "b"
  have hunmarked : ∀ p id, Visited s.registry none m.layout p → m.layout.idAt? p = some (.string id) →
      '/' ∈ id.toList → id.toList.head? ≠ some '#' := by
    rw [hregistry, hlayout]
    intro p id hp hid
    rcases visited_listing hp with rfl | rfl | rfl <;> cases hid <;> decide
  have hwell : m.layout.wellFormed = true := by
    rw [hlayout]
    decide
  exact ⟨m, s, r, hup, hlayout, hkeys, (keys_distinct hup hwell (hregistry ▸ elemental_empty) hinside hids hrows
    hunseparated hunmarked).1⟩

/-- An id may read like the key of an element in a row: then the element in the row is found in place of the button. -/
theorem keys_clash : ∃ (m : Mount) (s : State) (r : Interpreter), m.UpToDate s r ∧
    m.layout = annotate {} {} (listing "#a/t") ∧ m.layout.wellFormed = true ∧ s.registry.Elemental ∧
    (m.scene s r).StaysInside (m.requestStates s) (s.store.layers m.scope) m.layout ∧
    Annotate.DistinctIds s.registry m.layout ∧ (∀ e ∈ m.components, e.2.rowKeys.Nodup) ∧
    Output.keys (snapshot m.host.roots) = ["#a/t", "#a/t"] ∧ ¬(Output.keys (snapshot m.host.roots)).Nodup := by
  obtain ⟨m, s, r, hup, hlayout, hregistry, hrows, -, hkeys⟩ :=
    exists_listing "#a/t" ["#a/t", "#a/t"] rfl (by decide +kernel)
  refine ⟨m, s, r, hup, hlayout, ?_, hregistry ▸ elemental_empty, ?_, ?_, hrows, hkeys, ?_⟩
  · rw [hlayout]
    decide
  · rw [hlayout]
    exact staysInside_listing _
  · rw [hregistry, hlayout]
    exact distinctIds_listing (by decide) (by decide)
  · rw [hkeys]
    decide

end Mount
end LiveLayout
