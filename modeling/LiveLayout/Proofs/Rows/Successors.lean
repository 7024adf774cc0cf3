import LiveLayout.Proofs.Mounting.Counts
import LiveLayout.Proofs.Rows.Anchors
/-!
How a tree comes out of another one when it is updated: every component in it is new, or it is the component that had
its number before. Rows of a list are matched by their keys, and whatever a layout's outline leads to stays.
-/
namespace LiveLayout

open Engine

namespace Reconcile

/-- A new node with a key of its own that takes nothing over fits nothing that is mounted. -/
theorem not_fits_of_mem_assign {slots : Slots} {index : Nat} {new : List Node} {n : Node} {key : String}
    (h : (none, n) ∈ (assign slots index new).1) (hkey : n.key? = some key) (hnodup : (new.map Node.key?).Nodup) :
    ∀ m, some m ∈ slots → ¬Fits m n := by
  induction new generalizing slots index with
  | nil => simp [assign] at h
  | cons n' rest ih =>
    intro m hm hfits
    rw [List.map_cons, List.nodup_cons] at hnodup
    simp only [assign, List.mem_cons] at h
    rcases h with h | h
    · obtain ⟨hnone, rfl⟩ := Prod.mk.inj h
      cases hp : position? slots index n with
      | none =>
        simp only [position?, hkey] at hp
        have hall := List.findIdx?_eq_none_iff.1 hp (some m) hm
        simp [hfits.1, hkey, hfits.2] at hall
      | some i =>
        obtain ⟨m', hm', -⟩ := exists_of_position? hp
        simp [hp, hm'] at hnone
    · refine ih h hnodup.2 m ?_ hfits
      cases hp : position? slots index n' with
      | none => exact hm
      | some i =>
        obtain ⟨m', hm', hfits'⟩ := exists_of_position? hp
        obtain ⟨j, hj, hjm⟩ := List.getElem_of_mem hm
        refine List.mem_iff_getElem?.2 ⟨j, ?_⟩
        have hne : i ≠ j := by
          -- What the first node takes over has its key, which no other node has.
          rintro rfl
          rw [List.getElem?_eq_getElem hj, hjm] at hm'
          obtain rfl := Option.some.inj (Option.some.inj hm')
          have hmem : n ∈ rest := by
            rw [← map_snd_assign (slots.set i none) (index + 1) rest]
            simp only [hp] at h
            exact List.mem_map_of_mem h
          exact hnodup.1 (hfits'.1.symm.trans hfits.1 ▸ List.mem_map_of_mem hmem)
        dsimp only
        rw [List.getElem?_set_ne hne, List.getElem?_eq_getElem hj, hjm]

end Reconcile

open Mounted

/-- The components of a tree that has come out of another one have numbers after the given one, or are those that had
their numbers before. -/
def Passes (last : Nat) (R : Part → Part → Prop) (old new : List Part) : Prop :=
  ∀ e ∈ new, last < e.id ∨ ∃ d ∈ old, d.id = e.id ∧ R d e

namespace Passes

variable {last : Nat} {R : Part → Part → Prop} {old old' new new' : List Part}

theorem nil : Passes last R old [] := nofun

theorem of_young (h : ∀ e ∈ new, last < e.id) : Passes last R old new := fun e he => .inl (h e he)

theorem mono (h : Passes last R old new) (hold : ∀ e ∈ old, e ∈ old') : Passes last R old' new := fun e he =>
  (h e he).imp_right fun ⟨d, hd, hr⟩ => ⟨d, hold d hd, hr⟩

theorem append (h : Passes last R old new) (h' : Passes last R old new') : Passes last R old (new ++ new') :=
  fun e he => (List.mem_append.1 he).elim (h e) (h' e)

theorem cons {d e : Part} (h : Passes last R old new) (hid : d.id = e.id) (hr : R d e) :
    Passes last R (d :: old) (e :: new) :=
  List.forall_mem_cons.2 ⟨.inr ⟨d, List.mem_cons_self .., hid, hr⟩, h.mono fun _ => List.mem_cons_of_mem d⟩

end Passes

/-- The rows of a list that has been rendered again. A row whose key was there before has come out of the row with
that key, and the outline leads to the same components in both; all in any other row is new. -/
def RowsPass (last : Nat) (os : List Outline) (rows rows' : List Mounted) : Prop :=
  ∀ key kids', .fragment (some key) kids' ∈ rows' →
    (∃ kids, .fragment (some key) kids ∈ rows ∧
      (Outline.anchorsAll os kids').map Prod.fst = (Outline.anchorsAll os kids).map Prod.fst ∧
      ∀ e ∈ partsAll kids', last < e.id ∨ e.id ∈ (partsAll kids).map Part.id) ∨
    (∀ kids, .fragment (some key) kids ∉ rows) ∧ ∀ e ∈ partsAll kids', last < e.id

/-- A component has been rendered again, and maybe been given other properties before. -/
structure Part.Becomes (sc : Scene) (last : Nat) (d e : Part) : Prop where
  kind : e.component.special? = d.component.special?
  rows : ∀ {p p' items items' binding binding' template}, d.component = .forEach p → e.component = .forEach p' →
    ForEach.Lists p items binding template → ForEach.Lists p' items' binding' template →
    (ForEach.keys [] items' 0).Nodup → RowsPass last (sc.outlines template) d.children e.children

/-- What has been made of a node, in the place of a mounted one or as something new. -/
structure Takes (sc : Scene) (last : Nat) (σ : Store) (old : Option Mounted) (n : Node) (new : Mounted) : Prop where
  parts : Passes last (Part.Becomes sc last) (old.elim [] Mounted.parts) new.parts
  outlined : ∀ o, sc.Outlined o (n.sketch σ) → ∀ τ, sc.Outlined o (new.sketch τ)
  anchors : ∀ m, old = some m → ∀ o, sc.Outlined o (m.sketch σ) → sc.Outlined o (n.sketch σ) →
    (o.anchors new).map Prod.fst = (o.anchors m).map Prod.fst

section

variable {sc : Scene} {last : Nat} {σ : Store} {old new : List Mounted} {nodes : List Node}

/-- All that becomes of mounted nodes and new ones. -/
abbrev TakesAll (sc : Scene) (last : Nat) (σ : Store) (old : List Mounted) (nodes : List Node) (new : List Mounted) :
    Prop :=
  List.Forall₂ (fun e => Takes sc last σ e.1 e.2) (Reconcile.assign (old.map some) 0 nodes).1 new

theorem mem_of_mem_assign {m : Mounted} {n : Node} (h : (some m, n) ∈ (Reconcile.assign (old.map some) 0 nodes).1) :
    m ∈ old := by
  have hperm := Reconcile.perm_assign (old.map some) 0 nodes
  rw [List.filterMap_map, Function.id_comp, List.filterMap_some] at hperm
  exact hperm.mem_iff.2 (List.mem_append_left _ (List.mem_filterMap.2 ⟨_, h, rfl⟩))

theorem exists_of_mem_right {α β : Type} {R : α → β → Prop} {as : List α} {bs : List β} (h : List.Forall₂ R as bs)
    {b : β} (hb : b ∈ bs) : ∃ a ∈ as, R a b := by
  induction h with
  | nil => cases hb
  | cons hr _ ih =>
    rcases List.mem_cons.1 hb with rfl | hb
    · exact ⟨_, List.mem_cons_self .., hr⟩
    · obtain ⟨a, ha, hr⟩ := ih hb
      exact ⟨a, List.mem_cons_of_mem _ ha, hr⟩

theorem TakesAll.passes (h : TakesAll sc last σ old nodes new) :
    Passes last (Part.Becomes sc last) (partsAll old) (partsAll new) := by
  intro e he
  obtain ⟨m', hm', he⟩ := mem_partsAll.1 he
  obtain ⟨⟨m, n⟩, hmem, ht⟩ := exists_of_mem_right h hm'
  refine (ht.parts e he).imp_right fun ⟨d, hd, hr⟩ => ⟨d, ?_, hr⟩
  cases m with
  | none => cases hd
  | some m => exact mem_partsAll.2 ⟨m, mem_of_mem_assign hmem, hd⟩

/-- Where mounted nodes and new ones have the same outlines, these lead to the same components as before. -/
theorem TakesAll.anchors (h : TakesAll sc last σ old nodes new) {os : List Outline}
    (hold : sc.OutlinedAll os (sketchAll σ old)) (hnodes : sc.OutlinedAll os (nodes.map (Node.sketch σ))) :
    (Outline.anchorsAll os new).map Prod.fst = (Outline.anchorsAll os old).map Prod.fst := by
  have hassign := Reconcile.assign_of_fits (hold.fits hnodes) 0
  rw [List.replicate_zero, List.nil_append] at hassign
  rw [TakesAll, hassign] at h
  clear hassign
  rw [sketchAll_eq_map] at hold
  induction os generalizing old nodes new with
  | nil => cases new <;> cases old <;> rfl
  | cons o os ih =>
    cases old with
    | nil => cases hold
    | cons m old =>
      cases nodes with
      | nil => cases hnodes
      | cons n nodes =>
        cases h with
        | @cons _ m' _ _ ht hrest =>
          rw [List.map_cons] at hold hnodes
          cases hold with
          | cons hm hold =>
            cases hnodes with
            | cons hn hnodes =>
              rw [Outline.anchorsAll, Outline.anchorsAll, List.map_append, List.map_append,
                ht.anchors m rfl o hm hn, ih hrest hold hnodes]

theorem key?_sketch (n : Node) : (n.sketch σ).key? = n.key? := by cases n <;> rfl

theorem nodup_keys {os : List Outline} {keys : List String} (hkeys : keys.Nodup)
    (hnodes : sc.OutlinedAll (keys.map (.row os)) (nodes.map (Node.sketch σ))) : (nodes.map Node.key?).Nodup := by
  have heq : nodes.map Node.key? = keys.map some := by
    clear hkeys
    induction keys generalizing nodes with
    | nil =>
      cases nodes with
      | nil => rfl
      | cons n nodes => cases hnodes
    | cons key keys ih =>
      cases nodes with
      | nil => cases hnodes
      | cons n nodes =>
        cases hnodes with
        | cons hn hrest => rw [List.map_cons, List.map_cons, ih hrest, ← key?_sketch (σ := σ), hn.key_eq]; rfl
  rw [heq]
  exact hkeys.map (Option.some_injective _)

/-- What has the outline of a row is a fragment with the row's key. -/
theorem exists_of_row {os : List Outline} {key : String} {m : Mounted} (h : sc.Outlined (.row os key) (m.sketch σ)) :
    ∃ kids, m = .fragment (some key) kids := by
  have hkey := h.key_eq
  have hkind := h.kind_eq
  cases m <;> cases hkind
  obtain rfl := hkey
  exact ⟨_, rfl⟩

theorem TakesAll.rowsPass (h : TakesAll sc last σ old nodes new) {os : List Outline} {keys keys' : List String}
    (hold : sc.OutlinedAll (keys.map (.row os)) (sketchAll σ old))
    (hnodes : sc.OutlinedAll (keys'.map (.row os)) (nodes.map (Node.sketch σ))) (hkeys : keys'.Nodup) :
    RowsPass last os old new := by
  intro key kids' hrow
  obtain ⟨⟨m, n⟩, hmem, ht⟩ := exists_of_mem_right h hrow
  have hn : n ∈ nodes := by
    rw [← Reconcile.map_snd_assign (old.map some) 0 nodes]
    exact List.mem_map_of_mem hmem
  -- The node is the row with the key.
  obtain ⟨o, ho, hout⟩ := exists_of_mem_right hnodes (List.mem_map_of_mem hn)
  obtain ⟨key', -, rfl⟩ := List.mem_map.1 ho
  obtain ⟨_, heq⟩ := exists_of_row (ht.outlined _ hout σ)
  obtain ⟨hkey, rfl⟩ := Mounted.fragment.inj heq
  obtain rfl := Option.some.inj hkey
  have hnkey : n.key? = some key := (key?_sketch n).symm.trans hout.key_eq
  cases m with
  | none =>
    refine .inr ⟨fun kids hkids => ?_, fun e he => (ht.parts e he).resolve_right fun ⟨d, hd, _⟩ => nomatch hd⟩
    refine Reconcile.not_fits_of_mem_assign hmem hnkey (nodup_keys hkeys hnodes) _ (List.mem_map_of_mem hkids) ⟨hnkey.symm, ?_⟩
    have hkind := hout.kind_eq
    cases n <;> first | rfl | cases hkind
  | some m =>
    have hm := mem_of_mem_assign hmem
    have hfits := Reconcile.fits_of_mem_assign hmem
    obtain ⟨o, ho, hm'⟩ := exists_of_mem_right hold (by rw [sketchAll_eq_map]; exact List.mem_map_of_mem hm)
    obtain ⟨key'', -, rfl⟩ := List.mem_map.1 ho
    obtain ⟨kids, rfl⟩ := exists_of_row hm'
    obtain rfl : key'' = key := Option.some.inj (hfits.1.trans hnkey)
    refine .inl ⟨kids, hm, ht.anchors _ rfl _ hm' hout, fun e he => (ht.parts e he).imp_right ?_⟩
    rintro ⟨d, hd, hid, -⟩
    exact List.mem_map.2 ⟨d, hd, hid⟩

end
end LiveLayout
