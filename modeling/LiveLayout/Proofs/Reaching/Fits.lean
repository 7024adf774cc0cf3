import LiveLayout.Proofs.Reaching.Addresses
import LiveLayout.Proofs.Reaching.Onward
/-!
The addresses of the elements that are drawn for a value. Where no two bricks in it have the same id, and no two rows of
a list the same key, no two elements have the same address: it leads to the place of the brick, row by row.
-/
namespace LiveLayout

open Json (Place)
open Mounted

/-- The keys of the rows that a component renders. -/
def Component.rowKeys : Component → List String
  | .forEach props =>
    match props.value? "items" with
    | some (.array items) => ForEach.keys [] items 0
    | _ => []
  | _ => []

theorem Component.rowKeys_bare (c : Component) : c.bare.rowKeys = c.rowKeys := by
  cases c with
  | forEach props => simp [bare, rowKeys]
  | _ => rfl

/-- All types come to elements. -/
def Registry.Elemental (r : Registry) : Prop :=
  ∀ name t, r.resolve? name = some t → ∃ tag, t.constructor = .element tag

namespace Scene

variable {sc : Scene} {states : FetchState → Prop} {layers inner layers' : Layers} {v w : Json} {p : Place}
  {origin : Option Place} {way : Place} {fields : List (String × Json)} {typeName : String}

/-- Rendering comes to a brick with the id, at the place. -/
def Identifies (sc : Scene) (states : FetchState → Prop) (layers : Layers) (v : Json) (p : Place) (id : String) : Prop :=
  ∃ layers' fields, sc.Comes states layers v p layers' (.object fields) ∧ (Brick.mk fields).typeName? ≠ none ∧
    (Brick.mk fields).id? = some id

/-- Rendering comes from the value to no bricks. -/
def Brickless (sc : Scene) (states : FetchState → Prop) (layers : Layers) (v : Json) : Prop :=
  ∀ p layers' fields, sc.Comes states layers v p layers' (.object fields) → (Brick.mk fields).typeName? = none

/-- The bricks that rendering comes to are those of the value, and no two of them have the same id. -/
structure Standing (sc : Scene) (states : FetchState → Prop) (layers : Layers) (v : Json) : Prop where
  named : ∀ p layers' fields, sc.Comes states layers v p layers' (.object fields) →
    (Brick.mk fields).typeName? ≠ none → (fields.map (·.1)).Nodup
  distinct : ∀ p q id, sc.Identifies states layers v p id → sc.Identifies states layers v q id → p = q
  plain : ∀ p layers' u inner w, sc.Comes states layers v p layers' u → sc.Leads states layers' u none inner w →
    sc.Brickless states inner w

theorem Leads.exists_typed (h : sc.Leads states layers v none inner w) :
    ∃ fields, v = .object fields ∧ (Brick.mk fields).typeName? ≠ none := by
  have typed {fields : List (String × Json)} {typeName : String} (h : (Brick.mk fields).typeName? = some typeName) :
      ∃ fields', Json.object fields = .object fields' ∧ (Brick.mk fields').typeName? ≠ none :=
    ⟨fields, rfl, by simp [h]⟩
  generalize horigin : none = origin at h
  cases h with
  | item => cases horigin
  | children => cases horigin
  | evaluated htyped => exact typed htyped
  | handed htyped => exact typed htyped
  | slotted htyped => exact typed htyped

theorem Leads.way_ne_nil (h : sc.Leads states layers v (some way) inner w) : way ≠ [] := by
  generalize horigin : some way = origin at h
  cases h with
  | item => cases horigin; exact List.cons_ne_nil _ _
  | children => cases horigin; exact List.cons_ne_nil _ _
  | evaluated => cases horigin
  | handed _ _ _ _ stems =>
    subst horigin
    obtain ⟨key, rfl, -⟩ := stems.get?_of_way
    exact List.cons_ne_nil _ _
  | @slotted _ _ _ origin =>
    cases origin with
    | none => cases horigin
    | some => cases horigin; simp

theorem Brickless.standing (h : sc.Brickless states layers v) : sc.Standing states layers v where
  named p layers' fields hcomes htyped := absurd (h p layers' fields hcomes) htyped
  distinct := fun p _ _ ⟨layers', fields, hcomes, htyped, _⟩ => absurd (h p layers' fields hcomes) htyped
  plain := by
    intro p layers' u inner w hcomes hleads
    obtain ⟨fields, rfl, htyped⟩ := hleads.exists_typed
    exact absurd (h p layers' fields hcomes) htyped

theorem Standing.onward (h : sc.Standing states layers v) (hleads : sc.Leads states layers v origin inner w) :
    sc.Standing states inner w := by
  cases origin with
  | none => exact (h.plain [] layers v inner w .here hleads).standing
  | some way =>
    refine ⟨fun p layers' fields hcomes => h.named _ layers' fields (.onward hleads hcomes), ?_,
      fun p layers' u inner w hcomes => h.plain _ layers' u inner w (.onward hleads hcomes)⟩
    rintro p q id ⟨layers₁, f, hf, hf'⟩ ⟨layers₂, g, hg, hg'⟩
    have heq : way ++ p = way ++ q :=
      h.distinct _ _ id ⟨layers₁, f, .onward hleads hf, hf'⟩ ⟨layers₂, g, .onward hleads hg, hg'⟩
    exact List.append_cancel_left heq

/-! ### Addresses of the elements that are drawn for a value -/

/-- The trees have their elements at different addresses, from bricks at places of a kind, in rows with keys of a
kind. -/
structure Fits (sc : Scene) (states : FetchState → Prop) (layers : Layers) (v : Json) (places : Place → Prop)
    (rowKeys : String → Prop) (ms : List Mounted) : Prop where
  nodup : (addressesAll ms).Nodup
  stems : ∀ a ∈ addressesAll ms, ∃ p, places p ∧ sc.Identifies states layers v p a.id
  rows : ∀ a ∈ addressesAll ms, ∀ row ∈ a.rows, rowKeys row

variable {places places' : Place → Prop} {rowKeys : String → Prop} {ms ns : List Mounted} {σ : Store}
  {depth host : Nat}

namespace Fits

theorem of_addresses_nil (h : addressesAll ms = []) : sc.Fits states layers v places rowKeys ms := by
  constructor
  · rw [h]
    exact List.nodup_nil
  all_goals
    intro a ha
    rw [h] at ha
    cases ha

theorem of_addresses (h : sc.Fits states layers v places rowKeys ms) (heq : addressesAll ns = addressesAll ms) :
    sc.Fits states layers v places rowKeys ns :=
  ⟨heq ▸ h.nodup, fun a ha => h.stems a (heq ▸ ha), fun a ha => h.rows a (heq ▸ ha)⟩

theorem mono (h : sc.Fits states layers v places rowKeys ms) (hplaces : ∀ p, places p → places' p) :
    sc.Fits states layers v places' rowKeys ms :=
  ⟨h.nodup, fun a ha => (h.stems a ha).imp fun p hp => ⟨hplaces p hp.1, hp.2⟩, h.rows⟩

/-- What is drawn side by side for disjoint places. -/
theorem append (hv : sc.Standing states layers v) (h : sc.Fits states layers v places rowKeys ms)
    (h' : sc.Fits states layers v places' rowKeys ns) (hdisjoint : ∀ p, places p → ¬places' p) :
    sc.Fits states layers v (fun p => places p ∨ places' p) rowKeys (ms ++ ns) := by
  refine ⟨?_, fun a ha => ?_, fun a ha => ?_⟩ <;> simp only [addressesAll_append] at *
  · refine List.nodup_append.2 ⟨h.nodup, h'.nodup, ?_⟩
    rintro a ha _ hb rfl
    obtain ⟨p, hp, hid⟩ := h.stems a ha
    obtain ⟨q, hq, hid'⟩ := h'.stems a hb
    obtain rfl := hv.distinct p q a.id hid hid'
    exact hdisjoint p hp hq
  · rcases List.mem_append.1 ha with ha | ha
    · exact (h.stems a ha).imp fun p hp => ⟨.inl hp.1, hp.2⟩
    · exact (h'.stems a ha).imp fun p hp => ⟨.inr hp.1, hp.2⟩
  · exact (List.mem_append.1 ha).elim (h.rows a) (h'.rows a)

/-- What is drawn for a value that rendering goes on to. -/
theorem onward (hv : sc.Standing states layers v) (hleads : sc.Leads states layers v origin inner w)
    (h : sc.Fits states inner w (fun _ => True) rowKeys ms) :
    sc.Fits states layers v (fun p => ∃ way q, origin = some way ∧ p = way ++ q) rowKeys ms := by
  cases origin with
  | none =>
    refine of_addresses_nil (List.eq_nil_iff_forall_not_mem.2 fun a ha => ?_)
    obtain ⟨p, -, layers', fields, hcomes, htyped, -⟩ := h.stems a ha
    exact htyped (hv.plain [] layers v inner w .here hleads p layers' fields hcomes)
  | some way =>
    refine ⟨h.nodup, fun a ha => ?_, h.rows⟩
    obtain ⟨p, -, layers', fields, hcomes, hrest⟩ := h.stems a ha
    exact ⟨way ++ p, ⟨way, p, rfl, rfl⟩, layers', fields, .onward hleads hcomes, hrest⟩

theorem onward_ne_nil (hv : sc.Standing states layers v) (hleads : sc.Leads states layers v origin inner w)
    (h : sc.Fits states inner w (fun _ => True) rowKeys ms) : sc.Fits states layers v (· ≠ []) rowKeys ms := by
  refine (h.onward hv hleads).mono ?_
  rintro p ⟨way, q, rfl, rfl⟩ hnil
  exact hleads.way_ne_nil (List.append_eq_nil_iff.1 hnil).1

/-- A brick's element has an address of its own. -/
theorem element (hv : sc.Standing states layers (.object fields)) (htyped : (Brick.mk fields).typeName? ≠ none)
    (h : sc.Fits states layers (.object fields) (· ≠ []) rowKeys ms) (tag : String) (props : Props) :
    sc.Fits states layers (.object fields) (fun _ => True) rowKeys [.element tag (Brick.mk fields).id? props ms] := by
  cases hid : (Brick.mk fields).id? with
  | none => exact (h.of_addresses (addressesAll_singleton _)).mono fun _ _ => trivial
  | some id =>
    have haddresses : addressesAll [.element tag (some id) props ms] = ⟨[], id⟩ :: addressesAll ms :=
      addressesAll_singleton _
    have hhere : sc.Identifies states layers (.object fields) [] id := ⟨layers, fields, .here, htyped, hid⟩
    refine ⟨?_, fun a ha => ?_, fun a ha => ?_⟩ <;> simp only [haddresses] at *
    · refine List.nodup_cons.2 ⟨fun hmem => ?_, h.nodup⟩
      obtain ⟨p, hne, hid'⟩ := h.stems _ hmem
      exact hne (hv.distinct p [] id hid' hhere)
    · rcases List.mem_cons.1 ha with rfl | ha
      · exact ⟨[], trivial, hhere⟩
      · exact (h.stems a ha).imp fun p hp => ⟨trivial, hp.2⟩
    · rcases List.mem_cons.1 ha with rfl | ha
      · exact fun _ hrow => nomatch hrow
      · exact h.rows a ha

/-- A row and what is beside it, whose rows have other keys. -/
theorem fragment {key : String} {seen : List String} {children : List Mounted}
    (h : sc.Fits states layers v places rowKeys children) (h' : sc.Fits states layers v places rowKeys ms)
    (hkey : rowKeys key) (hseen : ∀ a ∈ addressesAll ms, ∃ row ∈ seen, a.rows.head? = some row) (hfresh : key ∉ seen) :
    sc.Fits states layers v places rowKeys (.fragment (some key) children :: ms) := by
  have haddresses : addressesAll (.fragment (some key) children :: ms) =
      (addressesAll children).map (Address.inside key) ++ addressesAll ms := rfl
  have hinjective : Function.Injective (Address.inside key) := by
    rintro ⟨rows, id⟩ ⟨rows', id'⟩ heq
    cases heq
    rfl
  refine ⟨?_, fun a ha => ?_, fun a ha => ?_⟩ <;> simp only [haddresses] at *
  · refine List.nodup_append.2 ⟨h.nodup.map hinjective, h'.nodup, ?_⟩
    rintro _ ha _ hb rfl
    obtain ⟨a, -, rfl⟩ := List.mem_map.1 ha
    obtain ⟨row, hrow, hhead⟩ := hseen _ hb
    exact hfresh (Option.some.inj hhead ▸ hrow)
  · rcases List.mem_append.1 ha with hin | ha
    · obtain ⟨b, hb, rfl⟩ := List.mem_map.1 hin
      exact h.stems b hb
    · exact h'.stems a ha
  · rcases List.mem_append.1 ha with hin | ha
    · obtain ⟨b, hb, rfl⟩ := List.mem_map.1 hin
      exact List.forall_mem_cons.2 ⟨hkey, h.rows b hb⟩
    · exact h'.rows a ha

end Fits

/-- The trees fit every value that they are drawn for. -/
def AllFit (sc : Scene) (states : FetchState → Prop) (rowKeys : String → Prop) (σ : Store) (ms : List Mounted) : Prop :=
  ∀ layers v depth, tree (sc.upTo depth) layers v = some (sketchAll σ ms) → sc.Standing states layers v →
    sc.Fits states layers v (fun _ => True) rowKeys ms

/-- The component shows what it renders in some state of its request, in rows with different keys of a kind. -/
structure Orderly (sc : Scene) (states : FetchState → Prop) (rowKeys : String → Prop) (σ : Store)
    (e : (Instance × Component) × List Sketch) : Prop where
  shows : ∃ depth state, (e.1.2.Fetches → states state) ∧
    sc.again (sc.upTo depth) (e.1.2.layers σ) state e.1.2.bare = some e.2
  nodup : e.1.2.rowKeys.Nodup
  rows : ∀ row ∈ e.1.2.rowKeys, rowKeys row

/-- What a way leads to has other places than the brick itself. -/
theorem Led.fits (h : sc.Led states layers v (sketchAll σ ms)) (hv : sc.Standing states layers v)
    (hms : sc.AllFit states rowKeys σ ms) : sc.Fits states layers v (· ≠ []) rowKeys ms := by
  generalize hks : sketchAll σ ms = ks at h
  cases h with
  | nothing =>
    cases ms with
    | nil => exact .of_addresses_nil rfl
    | cons => cases hks
  | alone u =>
    cases ms with
    | nil => cases hks
    | cons m rest =>
      obtain ⟨hm, hrest⟩ := List.cons.inj hks
      cases rest with
      | cons => cases hrest
      | nil =>
        cases m with
        | primitive => exact .of_addresses_nil rfl
        | _ => cases hm
  | onward leads drawn => exact (hms _ _ _ (hks ▸ drawn) (hv.onward leads)).onward_ne_nil hv leads

/-- The rows of a list, each in a fork of its own. -/
theorem rows_fit {template : Json} (fork : Json → Layers) (hv : sc.Standing states layers v)
    (rows : List (Json × String)) (hnodup : (rows.map (·.2)).Nodup) (hrows : ∀ e ∈ rows, rowKeys e.2)
    (hleads : ∀ e ∈ rows, ∃ origin, sc.Leads states layers v origin (fork e.1) template)
    (hms : ∀ key children, .fragment key children ∈ ms → sc.AllFit states rowKeys σ children)
    (h : rows.mapM (fun e => (tree (sc.upTo depth) (fork e.1) template).map (.fragment (some e.2))) =
      some (sketchAll σ ms)) :
    sc.Fits states layers v (· ≠ []) rowKeys ms ∧
      ∀ a ∈ addressesAll ms, ∃ row ∈ rows.map (·.2), a.rows.head? = some row := by
  induction rows generalizing ms with
  | nil =>
    cases ms with
    | nil => exact ⟨.of_addresses_nil rfl, nofun⟩
    | cons => cases Option.some.inj h
  | cons e rest ih =>
    rw [List.mapM_cons] at h
    obtain ⟨k, hk, h⟩ := Option.bind_eq_some_iff.1 h
    obtain ⟨ks, hks, heq⟩ := Option.bind_eq_some_iff.1 h
    obtain ⟨nodes, hnodes, rfl⟩ := Option.map_eq_some_iff.1 hk
    cases ms with
    | nil => cases Option.some.inj heq
    | cons m ms =>
      obtain ⟨hm, rfl⟩ := List.cons.inj (Option.some.inj heq)
      cases m with
      | fragment key children =>
        obtain ⟨rfl, rfl⟩ := Sketch.fragment.inj hm
        obtain ⟨hfresh, hnodup⟩ := List.nodup_cons.1 hnodup
        obtain ⟨hrow, hrows⟩ := List.forall_mem_cons.1 hrows
        obtain ⟨⟨origin, hlead⟩, hleads⟩ := List.forall_mem_cons.1 hleads
        obtain ⟨hrest, hseen⟩ := ih hnodup hrows hleads (fun key ns hmem => hms key ns (List.mem_cons_of_mem _ hmem)) hks
        have hchildren : sc.Fits states layers v (· ≠ []) rowKeys children :=
          (hms _ _ (List.mem_cons_self ..) _ _ _ hnodes (hv.onward hlead)).onward_ne_nil hv hlead
        refine ⟨hchildren.fragment hrest hrow hseen hfresh, fun a ha => ?_⟩
        rcases List.mem_append.1 ha with ha | ha
        · obtain ⟨a, -, rfl⟩ := List.mem_map.1 ha
          exact ⟨e.2, List.mem_cons_self .., rfl⟩
        · exact (hseen a ha).imp fun row hrow => ⟨List.mem_cons_of_mem _ hrow.1, hrow.2⟩
      | _ => cases hm

end Scene
end LiveLayout
