import LiveLayout.Proofs.Mounting.Turns
import LiveLayout.Proofs.Rows.Updates
/-!
Replacing a component in a tree by what it has rendered now. All around it stays, and whatever the outline of a layout
leads to is the same as before.
-/
namespace LiveLayout

open Engine Mounted

variable {sc : Scene} {last : Nat} {m m' old next : Mounted} {ms ms' : List Mounted}

/-- A tree has come out of another one, and has all outlines that it had. -/
structure Comes (sc : Scene) (last : Nat) (m m' : Mounted) : Prop where
  parts : Passes last (Part.Becomes sc last) m.parts m'.parts
  outlined : ∀ o σ, sc.Outlined o (m.sketch σ) → sc.Outlined o (m'.sketch σ)
  anchors : ∀ o σ, sc.Outlined o (m.sketch σ) → (o.anchors m').map Prod.fst = (o.anchors m).map Prod.fst
  formed : Formed sc [m']

abbrev ComesAll (sc : Scene) (last : Nat) : List Mounted → List Mounted → Prop := List.Forall₂ (Comes sc last)

namespace Mounted

theorem formed_cons : Formed sc (m :: ms) ↔ Formed sc [m] ∧ Formed sc ms := by
  unfold Formed
  rw [partsAll_singleton, partsAll, List.forall_mem_append]

theorem Formed.component {id : Nat} {key : Option String} {c : Component} {renders : Nat} {children : List Mounted}
    (hc : ∀ os, sc.yields c = some os → ∀ σ, sc.OutlinedAll os (sketchAll σ children)) (h : Formed sc children) :
    Formed sc [.component id key c renders children] := by
  unfold Formed
  rw [partsAll_singleton, parts, List.forall_mem_cons]
  exact ⟨hc, h⟩

end Mounted

/-- A row stays where its list does. -/
theorem RowsPass.refl (last : Nat) (os : List Outline) (rows : List Mounted) : RowsPass last os rows rows :=
  fun _ kids h => .inl ⟨kids, h, rfl, fun _ he => .inr (List.mem_map_of_mem he)⟩

theorem Part.Becomes.refl (d : Part) : d.Becomes sc last d := by
  refine ⟨rfl, ?_⟩
  rintro p p' items items' binding binding' template - - - - -
  exact .refl last _ _

theorem Passes.refl {R : Part → Part → Prop} (hR : ∀ d, R d d) (parts : List Part) : Passes last R parts parts :=
  fun e he => .inr ⟨e, he, rfl, hR e⟩

namespace Comes

theorem refl (h : Formed sc [m]) : Comes sc last m m := ⟨.refl .refl _, fun _ _ ho => ho, fun _ _ _ => rfl, h⟩

/-- What has been made of a node like the mounted one has come out of that. -/
theorem of_takes {σ : Store} {n : Node} (h : Takes sc last σ (some m) n m') (hn : n.sketch σ = m.sketch σ)
    (hformed : Formed sc [m']) : Comes sc last m m' := by
  refine ⟨h.parts, fun o τ ho => h.outlined o ?_ τ, fun o τ ho => ?_, hformed⟩
  · rw [hn]
    exact Scene.Outlined.move m ho
  · have ho' : sc.Outlined o (m.sketch σ) := Scene.Outlined.move m ho
    exact h.anchors m rfl o ho' (hn ▸ ho')

end Comes

namespace ComesAll

theorem refl (h : Formed sc ms) : ComesAll sc last ms ms := by
  induction ms with
  | nil => exact .nil
  | cons m ms ih =>
    obtain ⟨hm, hms⟩ := formed_cons.1 h
    exact .cons (.refl hm) (ih hms)

theorem formed (h : ComesAll sc last ms ms') : Formed sc ms' := by
  induction h with
  | nil => exact nofun
  | cons hm _ ih => exact formed_cons.2 ⟨hm.formed, ih⟩

theorem passes (h : ComesAll sc last ms ms') : Passes last (Part.Becomes sc last) (partsAll ms) (partsAll ms') := by
  induction h with
  | nil => exact .nil
  | cons hm _ ih =>
    exact .append (hm.parts.mono fun _ => List.mem_append_left _) (ih.mono fun _ => List.mem_append_right _)

theorem outlined (h : ComesAll sc last ms ms') {os : List Outline} {σ : Store}
    (hos : sc.OutlinedAll os (sketchAll σ ms)) : sc.OutlinedAll os (sketchAll σ ms') := by
  induction h generalizing os with
  | nil => exact hos
  | cons hm _ ih =>
    cases hos with
    | cons ho hos => exact .cons (hm.outlined _ _ ho) (ih hos)

theorem anchors (h : ComesAll sc last ms ms') {os : List Outline} {σ : Store}
    (hos : sc.OutlinedAll os (sketchAll σ ms)) :
    (Outline.anchorsAll os ms').map Prod.fst = (Outline.anchorsAll os ms).map Prod.fst := by
  induction h generalizing os with
  | nil => rfl
  | cons hm _ ih =>
    cases hos with
    | cons ho hos =>
      rw [Outline.anchorsAll, Outline.anchorsAll, List.map_append, List.map_append, hm.anchors _ _ ho, ih hos]

theorem rowsPass (h : ComesAll sc last ms ms') {os : List Outline} {keys : List String} {σ : Store}
    (hrows : sc.OutlinedAll (keys.map (.row os)) (sketchAll σ ms)) : RowsPass last os ms ms' := by
  intro key kids' hrow
  obtain ⟨m, hm, hcomes⟩ := exists_of_mem_right h hrow
  rw [sketchAll_eq_map] at hrows
  obtain ⟨o, ho, hout⟩ := exists_of_mem_right hrows (List.mem_map_of_mem hm)
  obtain ⟨key', -, rfl⟩ := List.mem_map.1 ho
  obtain ⟨kids, rfl⟩ := exists_of_row hout
  obtain ⟨_, heq⟩ := exists_of_row (hcomes.outlined _ _ hout)
  obtain ⟨hkey, rfl⟩ := Mounted.fragment.inj heq
  obtain rfl := Option.some.inj hkey
  refine .inl ⟨kids, hm, hcomes.anchors _ _ hout, fun e he => (hcomes.parts e he).imp_right ?_⟩
  rintro ⟨d, hd, hid, -⟩
  exact List.mem_map.2 ⟨d, hd, hid⟩

end ComesAll

namespace Comes

theorem element (h : ComesAll sc last ms ms') (tag : String) (key : Option String) (props : Props) :
    Comes sc last (.element tag key props ms) (.element tag key props ms') := by
  refine ⟨h.passes, fun o σ ho => ho.congr rfl rfl rfl fun os hos => h.outlined hos, fun o σ ho => ?_, ?_⟩
  · cases o with
    | leaf => rfl
    | node kind key os => exact h.anchors ho.inner
    | proxy | special => cases ho.kind_eq
  · intro e he
    rw [partsAll_singleton] at he
    exact h.formed e he

theorem fragment (h : ComesAll sc last ms ms') (key : Option String) :
    Comes sc last (.fragment key ms) (.fragment key ms') := by
  refine ⟨h.passes, fun o σ ho => ho.congr rfl rfl rfl fun os hos => h.outlined hos, fun o σ ho => ?_, ?_⟩
  · cases o with
    | leaf => rfl
    | node kind key os => exact h.anchors ho.inner
    | proxy | special => cases ho.kind_eq
  · intro e he
    rw [partsAll_singleton] at he
    exact h.formed e he

/-- A component that stays as it is, with what is in it. -/
theorem component {id renders : Nat} {key : Option String} {c : Component} (h : ComesAll sc last ms ms')
    (hformed : Formed sc [.component id key c renders ms]) :
    Comes sc last (.component id key c renders ms) (.component id key c renders ms') := by
  have hold : ∀ os, sc.yields c = some os → ∀ σ, sc.OutlinedAll os (sketchAll σ ms) :=
    hformed ⟨id, c, ms⟩ (List.mem_cons_self ..)
  refine ⟨h.passes.cons rfl ⟨rfl, ?_⟩, fun o σ ho => ho, fun o σ ho => ?_, ?_⟩
  · rintro p p' items items' binding binding' template rfl hp hlists - -
    have hrows := hold (sc.rows p) rfl {}
    rw [Scene.rows_eq hlists] at hrows
    exact h.rowsPass hrows
  · rw [Mounted.sketch, Scene.outlined_component, Scene.componentOutline?_bare] at ho
    cases o with
    | leaf | node => cases (Scene.key?_of_componentOutline? ho).2
    | special => rfl
    | proxy key' target dynamic inside =>
      obtain ⟨p, rfl⟩ : ∃ p, c = .proxy p := by cases c <;> first | exact ⟨_, rfl⟩ | cases ho
      obtain ⟨-, -, -, hp⟩ := Outline.proxy.inj (Option.some.inj ho)
      have hinside := hold [inside] (hp ▸ rfl) {}
      have hanchors := h.anchors hinside
      cases h with
      | nil => rfl
      | cons hm hrest =>
        simp only [Outline.anchorsAll, List.append_nil] at hanchors
        simp only [Outline.anchors, List.map_cons, hanchors]
  · exact .component (fun os hos σ => h.outlined (hold os hos σ)) h.formed

end Comes

namespace Mounted

variable {host id : Nat}

mutual

/-- Where a component gives way to what has come out of it, the tree comes out of what it was. -/
theorem replace_comes (hnext : Comes sc last old next) : (m : Mounted) → Formed sc [m] →
    ((m.components host).map (·.1)).Nodup → m.find? id = some old → Comes sc last m (replace id next m)
  | .primitive _, _, _, h => nomatch h
  | .element tag key props children, hf, hn, h =>
    .element (replaceAll_comes hnext children (fun e he => hf e (by rwa [partsAll_singleton])) hn h) tag key props
  | .component i key c renders children, hf, hn, h => by
    rw [find?] at h
    split at h
    · obtain rfl := Option.some.inj h
      rw [replace, if_pos ‹_›]
      exact hnext
    · have hchildren : Formed sc children := fun e he => hf e <| by
        rw [partsAll_singleton]
        exact List.mem_cons_of_mem _ he
      rw [replace, if_neg ‹_›]
      exact .component (replaceAll_comes hnext children hchildren (List.nodup_cons.1 hn).2 h) hf
  | .fragment key children, hf, hn, h =>
    .fragment (replaceAll_comes hnext children (fun e he => hf e (by rwa [partsAll_singleton])) hn h) key

theorem replaceAll_comes (hnext : Comes sc last old next) : (ms : List Mounted) → Formed sc ms →
    ((componentsAll host ms).map (·.1)).Nodup → findAll? id ms = some old →
    ComesAll sc last ms (replaceAll id next ms)
  | [], _, _, h => nomatch h
  | m :: ms, hf, hn, h => by
    rw [componentsAll, List.map_append, List.nodup_append] at hn
    obtain ⟨hm, hms, hne⟩ := hn
    obtain ⟨hfm, hfms⟩ := formed_cons.1 hf
    rw [findAll?] at h
    rw [replaceAll]
    cases hfind : m.find? id with
    | some found =>
      have hfound : found = old := by simpa [hfind] using h
      rw [hfound] at hfind
      have hgone : findAll? id ms = none := by
        by_contra hsome
        obtain ⟨other, hother⟩ := Option.ne_none_iff_exists'.1 hsome
        exact hne _ (mem_of_find? m hfind) _ (mem_of_findAll? ms hother) rfl
      rw [replaceAll_of_findAll?_eq_none ms hgone]
      exact .cons (replace_comes hnext m hfm hm hfind) (ComesAll.refl hfms)
    | none =>
      rw [hfind, Option.none_or] at h
      rw [replace_of_find?_eq_none m hfind]
      exact .cons (.refl hfm) (replaceAll_comes hnext ms hfms hms h)

end

mutual

theorem parts_find? : (m : Mounted) → m.find? id = some old → old.parts ⊆ m.parts
  | .primitive _, h => nomatch h
  | .element _ _ _ children, h => partsAll_findAll? children h
  | .component i _ _ _ children, h => by
    rw [find?] at h
    split at h
    · cases h
      exact List.Subset.refl _
    · exact List.subset_cons_of_subset _ (partsAll_findAll? children h)
  | .fragment _ children, h => partsAll_findAll? children h

theorem partsAll_findAll? : (ms : List Mounted) → findAll? id ms = some old → old.parts ⊆ partsAll ms
  | [], h => nomatch h
  | m :: rest, h => by
    rw [findAll?] at h
    rcases Option.or_eq_some_iff.1 h with h | ⟨-, h⟩
    · exact List.subset_append_of_subset_left _ (parts_find? m h)
    · exact List.subset_append_of_subset_right _ (partsAll_findAll? rest h)

end

mutual

/-- A component in a tree with a replaced one is in what replaces that, or has been there with other parts in it. -/
theorem mem_parts_replace {e : Part} : (m : Mounted) → e ∈ (replace id next m).parts →
    e ∈ next.parts ∨ ∃ d ∈ m.parts, d.id = e.id ∧ d.component = e.component
  | .primitive _, he => nomatch he
  | .element _ _ _ children, he => mem_partsAll_replaceAll children he
  | .component i _ c _ children, he => by
    rw [replace] at he
    split at he
    · exact .inl he
    · rcases List.mem_cons.1 he with rfl | he
      · exact .inr ⟨⟨i, c, children⟩, List.mem_cons_self .., rfl, rfl⟩
      · exact (mem_partsAll_replaceAll children he).imp_right fun ⟨d, hd, h⟩ => ⟨d, List.mem_cons_of_mem _ hd, h⟩
  | .fragment _ children, he => mem_partsAll_replaceAll children he

theorem mem_partsAll_replaceAll {e : Part} : (ms : List Mounted) → e ∈ partsAll (replaceAll id next ms) →
    e ∈ next.parts ∨ ∃ d ∈ partsAll ms, d.id = e.id ∧ d.component = e.component
  | [], he => nomatch he
  | m :: ms, he => by
    rw [replaceAll, partsAll, List.mem_append] at he
    rw [partsAll]
    rcases he with he | he
    · exact (mem_parts_replace m he).imp_right fun ⟨d, hd, h⟩ => ⟨d, List.mem_append_left _ hd, h⟩
    · exact (mem_partsAll_replaceAll ms he).imp_right fun ⟨d, hd, h⟩ => ⟨d, List.mem_append_right _ hd, h⟩

end

end Mounted
end LiveLayout
