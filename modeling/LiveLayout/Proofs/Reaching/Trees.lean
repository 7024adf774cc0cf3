import LiveLayout.Proofs.Reaching.Fits
/-!
Trees whose components show what they render fit the values that they are drawn for. The induction is on the size of a
tree, as a proxy draws its brick again inside itself.
-/
namespace LiveLayout

open Mounted

namespace Scene

variable {sc : Scene} {states : FetchState → Prop} {rowKeys : String → Prop} {σ : Store} {layers : Layers} {v : Json}
  {fields : List (String × Json)} {typeName : String} {kind : Special} {target : Target} {nodes : List Sketch}
  {k : Sketch} {m : Mounted} {ms children : List Mounted} {depth host : Nat}

theorem target?_eq_special (h : sc.target? typeName = some (.special kind)) : Special.ofName? typeName = some kind := by
  unfold target? at h
  split at h
  · rename_i hkind
    cases h
    exact hkind
  · split at h
    · cases h
    · split at h <;> cases h

theorem exists_tag_of_target? (hregistry : sc.registry.Elemental) {c : Constructor}
    (h : sc.target? typeName = some (.constructor c)) : ∃ tag, c = .element tag := by
  unfold target? at h
  split at h
  · cases h
  · split at h
    · rename_i t ht
      cases h
      exact hregistry _ t ht
    · split at h <;> cases h

/-- What the component of a special brick shows fits the brick. -/
theorem special_fits {i : Instance} {c : Component} (hv : sc.Standing states layers (.object fields))
    (htyped : (Brick.mk fields).typeName? = some typeName) (hspecial : Special.ofName? typeName = some kind)
    (hc : c.bare = kind.component sc.transport (sc.settled layers ⟨fields⟩ typeName (.special kind)))
    (hinner : (sc.settled layers ⟨fields⟩ typeName (.special kind)).rendering?.isSome = true → c.layers σ = layers)
    (horderly : sc.Orderly states rowKeys σ ((i, c), sketchAll σ children))
    (hchildren : sc.AllFit states rowKeys σ children)
    (hrows : ∀ key ns, .fragment key ns ∈ children → sc.AllFit states rowKeys σ ns) :
    sc.Fits states layers (.object fields) (· ≠ []) rowKeys children := by
  obtain ⟨⟨depth, state, hstate, hshows⟩, hnodup, hkeys⟩ := horderly
  have hfields := hv.named [] layers fields .here (by simp [htyped])
  dsimp only at hstate hshows hnodup hkeys
  rw [← Component.rowKeys_bare, hc] at hnodup hkeys
  rw [hc] at hshows
  generalize hprops : sc.settled layers ⟨fields⟩ typeName (.special kind) = props at hc hinner hshows hnodup hkeys
  by_cases hloop : kind = .forEach
  · subst hloop
    have hshows : forEach (sc.upTo depth) (c.layers σ) props = some (sketchAll σ children) := hshows
    by_cases hlists : ∃ items binding template, ForEach.Lists props items binding template
    · obtain ⟨items, binding, template, hlists⟩ := hlists
      rw [forEach_eq hlists, hinner hlists.rendering] at hshows
      have hown : (Special.component sc.transport props .forEach).rowKeys = ForEach.keys [] items 0 := by
        simp only [Special.component, Component.rowKeys, hlists.items]
      rw [hown] at hnodup hkeys
      have hsnd : (items.zip (ForEach.keys [] items 0)).map (·.2) = ForEach.keys [] items 0 :=
        List.map_snd_zip (Nat.le_of_eq (length_keys ..))
      refine (rows_fit (fun item => [(binding, item)] :: layers) hv _ (hsnd.symm ▸ hnodup)
        (fun e he => hkeys _ (List.of_mem_zip he).2) (fun e he => ?_) hrows hshows).1
      have hands : Hands states layers props .forEach "template" ([(binding, e.1)] :: layers) :=
        .template hlists.items hlists.binding (List.of_mem_zip he).1
      exact hands.exists_leads hfields htyped hspecial hprops hlists.template
    · have hnone : ∀ items binding template, ¬ForEach.Lists props items binding template :=
        fun items binding template h => hlists ⟨items, binding, template, h⟩
      rw [forEach_eq_nil hnone] at hshows
      have hled : sc.Led states layers (.object fields) (sketchAll σ children) :=
        Option.some.inj hshows ▸ .nothing
      exact hled.fits hv hchildren
  · have hfetch : kind = .fetch → states state := by
      rintro rfl
      refine hstate ?_
      cases c with
      | fetch f => exact ⟨f, rfl⟩
      | _ => cases hc
    exact (again_led hfields htyped hspecial hprops hloop hfetch hinner hshows).fits hv hchildren

/-- The tree of a brick's node fits the brick, if smaller trees fit what they are drawn for. -/
theorem built_fits (hregistry : sc.registry.Elemental) (hv : sc.Standing states layers (.object fields))
    (htyped : (Brick.mk fields).typeName? = some typeName) (htarget : sc.target? typeName = some target)
    (hled : sc.Led states layers (.object fields) nodes)
    (hbuild : sc.build (sc.upTo depth) target layers (sc.settled layers ⟨fields⟩ typeName target) nodes = some k)
    (hm : m.sketch σ = k.withKey? (Brick.mk fields).id?)
    (horderly : ∀ e ∈ m.rendered σ host, sc.Orderly states rowKeys σ e)
    (ih : ∀ ms, sizeOf ms < sizeOf m → (∀ e ∈ renderedAll σ host ms, sc.Orderly states rowKeys σ e) →
      sc.AllFit states rowKeys σ ms) :
    sc.Fits states layers (.object fields) (fun _ => True) rowKeys [m] := by
  have htyped' : (Brick.mk fields).typeName? ≠ none := by simp [htyped]
  have element {tag : String} {props : Props} (hk : k = .element tag none props nodes) :
      sc.Fits states layers (.object fields) (fun _ => True) rowKeys [m] := by
    rw [hk, withKey?_element] at hm
    cases m with
    | element tag' key props' children =>
      obtain ⟨rfl, rfl, rfl, rfl⟩ := Sketch.element.inj hm
      have hchildren := ih children (by rw [element.sizeOf_spec]; omega) horderly
      exact (hled.fits hv hchildren).element hv htyped' tag' props'
    | _ => cases hm
  match target with
  | .constructor c =>
    obtain ⟨tag, rfl⟩ := exists_tag_of_target? hregistry htarget
    exact element (Option.some.inj hbuild).symm
  | .tag tag => exact element (Option.some.inj hbuild).symm
  | .special kind =>
    obtain ⟨inner, rfl, hinner⟩ := exists_component_of_build hbuild
    rw [withKey?_component] at hm
    cases m with
    | component id key c renders children =>
      obtain ⟨rfl, rfl, hc⟩ := Sketch.component.inj hm
      have hinside : ∀ e ∈ renderedAll σ host children, sc.Orderly states rowKeys σ e := fun e he =>
        horderly e (List.mem_cons_of_mem _ he)
      have hchildren := ih children (by rw [component.sizeOf_spec]; omega) hinside
      refine ((special_fits hv htyped (target?_eq_special htarget) hc hinner (horderly _ (List.mem_cons_self ..))
        hchildren fun key' ns hmem => ?_).of_addresses (addressesAll_singleton _)).mono fun _ _ => trivial
      have hsize := List.sizeOf_lt_of_mem hmem
      rw [fragment.sizeOf_spec] at hsize
      refine ih ns (by rw [component.sizeOf_spec]; omega) fun e he => hinside e ?_
      obtain ⟨before, after, rfl⟩ := List.append_of_mem hmem
      rw [renderedAll_append]
      exact List.mem_append_right _ (List.mem_append_left _ he)
    | _ => cases hm

/-- The tree of a brick fits it. With marked expressions, the node is what a proxy shows. -/
theorem brick_fits (hregistry : sc.registry.Elemental) (hv : sc.Standing states layers (.object fields))
    (htyped : (Brick.mk fields).typeName? = some typeName) (htarget : sc.target? typeName = some target)
    (hbrick : sc.brick (sc.upTo depth) layers ⟨fields⟩ typeName target = some (m.sketch σ))
    (horderly : ∀ e ∈ m.rendered σ host, sc.Orderly states rowKeys σ e)
    (ih : ∀ ms, sizeOf ms < sizeOf m → (∀ e ∈ renderedAll σ host ms, sc.Orderly states rowKeys σ e) →
      sc.AllFit states rowKeys σ ms) :
    sc.Fits states layers (.object fields) (fun _ => True) rowKeys [m] := by
  by_cases hmarks : (Brick.mk fields).expressions = []
  · have hsettled : sc.settled layers ⟨fields⟩ typeName target = sc.outfit layers ⟨fields⟩ typeName target [] :=
      settled_of_unmarked hmarks
    unfold brick at hbrick
    rw [if_pos (by rw [hmarks]; rfl)] at hbrick
    obtain ⟨nodes, hnodes, hbrick⟩ := Option.bind_eq_some_iff.1 hbrick
    obtain ⟨k, hbuild, hm⟩ := Option.bind_eq_some_iff.1 hbrick
    rw [← hsettled] at hbuild
    exact built_fits hregistry hv htyped htarget (children_led htyped htarget hnodes) hbuild
      (Option.some.inj hm).symm horderly ih
  · unfold brick at hbrick
    rw [if_neg (by simpa using hmarks)] at hbrick
    cases m with
    | component id key c renders children =>
      obtain ⟨-, hlayers, hc⟩ := Sketch.component.inj (Option.some.inj hbrick)
      obtain ⟨depth', state, -, hshows⟩ := (horderly _ (List.mem_cons_self ..)).shows
      dsimp only at hshows
      rw [← hlayers, ← hc] at hshows
      obtain ⟨_, hnode, hkids⟩ := Option.map_eq_some_iff.1 hshows
      obtain ⟨nodes, hnodes, hnode⟩ := Option.bind_eq_some_iff.1 hnode
      obtain ⟨k, hbuild, hk⟩ := Option.bind_eq_some_iff.1 hnode
      obtain rfl := Option.some.inj hk
      cases children with
      | nil => cases hkids
      | cons inside rest =>
        obtain ⟨hinside, hrest⟩ := List.cons.inj hkids
        cases rest with
        | cons => cases hrest
        | nil =>
          have hnamed := hv.named [] layers fields .here (by simp [htyped])
          have hled : sc.Led states layers (.object fields) nodes := proxyKids_led htyped htarget hnamed hnodes
          rw [← settled_eq_proxyProps] at hbuild
          refine (built_fits (m := inside) hregistry hv htyped htarget hled hbuild hinside.symm
            (fun e he => horderly e ?_) fun ms hsize hms => ih ms ?_ hms).of_addresses ?_
          · exact List.mem_cons_of_mem _ (List.mem_append_left _ he)
          · simp only [component.sizeOf_spec, List.cons.sizeOf_spec]
            omega
          · exact addressesAll_singleton _
    | _ => cases hbrick

theorem node_fits (hregistry : sc.registry.Elemental) (hv : sc.Standing states layers v)
    (hnode : sc.upTo depth layers v = some (some (m.sketch σ)))
    (horderly : ∀ e ∈ m.rendered σ host, sc.Orderly states rowKeys σ e)
    (ih : ∀ ms, sizeOf ms < sizeOf m → (∀ e ∈ renderedAll σ host ms, sc.Orderly states rowKeys σ e) →
      sc.AllFit states rowKeys σ ms) :
    sc.Fits states layers v (fun _ => True) rowKeys [m] := by
  cases depth with
  | zero => cases hnode
  | succ depth =>
    have primitive (u : Json) (h : m.sketch σ = .primitive u) : sc.Fits states layers v (fun _ => True) rowKeys [m] := by
      cases m with
      | primitive => exact .of_addresses_nil rfl
      | _ => cases h
    cases v with
    | null => cases hnode
    | array items =>
      obtain ⟨ks, hks, heq⟩ := Option.map_eq_some_iff.1 hnode
      cases m with
      | fragment key children =>
        obtain ⟨rfl, rfl⟩ := Sketch.fragment.inj (Option.some.inj heq)
        have hchildren := ih children (by rw [fragment.sizeOf_spec]; omega) horderly
        exact (hchildren _ _ depth hks hv).of_addresses (addressesAll_singleton _)
      | _ => cases heq
    | object fields =>
      have hnode : sc.node (sc.upTo depth) layers (.object fields) = some (some (m.sketch σ)) := hnode
      unfold node at hnode
      dsimp only at hnode
      split at hnode
      · cases hnode
      · rename_i typeName htyped
        split at hnode
        · cases hnode
        · rename_i target htarget
          split at hnode
          · obtain ⟨_, hbrick, heq⟩ := Option.map_eq_some_iff.1 hnode
            obtain rfl := Option.some.inj heq
            exact brick_fits hregistry hv htyped htarget hbrick horderly ih
          · cases hnode
    | _ => exact primitive _ (Option.some.inj (Option.some.inj hnode)).symm

/-- The items of an array from a position on, drawn side by side. -/
theorem items_fit {items : List Json} (hv : sc.Standing states layers (.array items)) (rest : List Json) (i : Nat)
    (hrest : items.drop i = rest)
    (hms : ∀ m ∈ ms, ∀ w, sc.Standing states layers w → sc.upTo depth layers w = some (some (m.sketch σ)) →
      sc.Fits states layers w (fun _ => True) rowKeys [m])
    (h : rest.filterMapM (fun item => sc.upTo depth layers item) = some (sketchAll σ ms)) :
    sc.Fits states layers (.array items) (fun p => ∃ j q, i ≤ j ∧ p = .item j :: q) rowKeys ms := by
  induction rest generalizing i ms with
  | nil =>
    cases ms with
    | nil => exact .of_addresses_nil rfl
    | cons => cases Option.some.inj h
  | cons item rest ih =>
    obtain ⟨hitem, hrest⟩ : items[i]? = some item ∧ items.drop (i + 1) = rest := by
      rw [← List.head?_drop, ← List.tail_drop, hrest]
      exact ⟨rfl, rfl⟩
    have later {p : Json.Place} (h : ∃ j q, i + 1 ≤ j ∧ p = .item j :: q) : ∃ j q, i ≤ j ∧ p = .item j :: q :=
      h.imp fun j ⟨q, hj, hp⟩ => ⟨q, by omega, hp⟩
    rw [List.filterMapM_cons] at h
    obtain ⟨k, hk, h⟩ := Option.bind_eq_some_iff.1 h
    cases k with
    | none => exact (ih (i + 1) hrest hms h).mono fun _ => later
    | some k =>
      obtain ⟨ks, hks, heq⟩ := Option.bind_eq_some_iff.1 h
      cases ms with
      | nil => cases Option.some.inj heq
      | cons m ms =>
        obtain ⟨rfl, rfl⟩ := List.cons.inj (Option.some.inj heq)
        have hleads : sc.Leads states layers (.array items) (some [.item i]) layers item := .item hitem
        have hm := (hms m (List.mem_cons_self ..) item (hv.onward hleads) hk).onward hv hleads
        have htail := ih (i + 1) hrest (fun m hm => hms m (List.mem_cons_of_mem _ hm)) hks
        refine (hm.append hv htail ?_).mono ?_
        · rintro p ⟨way, q, hway, rfl⟩ ⟨j, q', hj, hp⟩
          cases hway
          cases hp
          omega
        · rintro p (⟨way, q, hway, rfl⟩ | hp)
          · cases hway
            exact ⟨i, q, Nat.le_refl _, rfl⟩
          · exact later hp

/-- Trees whose components are in order fit what they are drawn for. -/
theorem trees_fit (hregistry : sc.registry.Elemental) (ms : List Mounted)
    (horderly : ∀ e ∈ renderedAll σ host ms, sc.Orderly states rowKeys σ e) : sc.AllFit states rowKeys σ ms := by
  intro layers v depth htree hv
  have single (m : Mounted) (hm : m ∈ ms) (w : Json) (hw : sc.Standing states layers w)
      (hnode : sc.upTo depth layers w = some (some (m.sketch σ))) :
      sc.Fits states layers w (fun _ => True) rowKeys [m] := by
    have hrendered : ∀ e ∈ m.rendered σ host, sc.Orderly states rowKeys σ e := fun e he => horderly e <| by
      obtain ⟨before, after, rfl⟩ := List.append_of_mem hm
      rw [renderedAll_append]
      exact List.mem_append_right _ (List.mem_append_left _ he)
    exact node_fits hregistry hw hnode hrendered fun ns hsize hns => trees_fit hregistry ns hns
  have alone (h : (sc.upTo depth layers v).map Option.toList = some (sketchAll σ ms)) :
      sc.Fits states layers v (fun _ => True) rowKeys ms := by
    obtain ⟨k, hk, heq⟩ := Option.map_eq_some_iff.1 h
    match ms, k with
    | [], _ => exact .of_addresses_nil rfl
    | [m], some k =>
      obtain ⟨rfl, -⟩ := List.cons.inj heq
      exact single m (List.mem_singleton_self m) v hv hk
    | _ :: _, none => cases heq
    | _ :: _ :: _, some k => cases heq
  cases v with
  | array items => exact (items_fit hv items 0 rfl single htree).mono fun _ _ => trivial
  | _ => exact alone htree
termination_by sizeOf ms
decreasing_by
  have hm := List.sizeOf_lt_of_mem hm
  omega

end Scene
end LiveLayout
