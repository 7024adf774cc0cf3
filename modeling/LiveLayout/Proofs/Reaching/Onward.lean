import LiveLayout.Proofs.Reaching.Ways
import LiveLayout.Proofs.Forking.Bricks
import LiveLayout.Proofs.Rows.Outlines
/-!
Rendering goes on nowhere else: what is drawn for the children of a brick, and by its component, is drawn for values
that it leads to.
-/
namespace LiveLayout.Scene

variable {sc : Scene} {states : FetchState → Prop} {layers inner : Layers} {fields : List (String × Json)}
  {v layout : Json} {ks nodes : List Sketch} {k : Sketch} {depth : Nat} {typeName name : String} {target : Target}
  {kind : Special} {state : FetchState} {tr : Bool} {props : Props}

/-- What is drawn on the way from a value: nothing, a value alone, or what is drawn for a value that rendering goes on
to. -/
inductive Led (sc : Scene) (states : FetchState → Prop) (layers : Layers) (v : Json) : List Sketch → Prop where
  | nothing : Led sc states layers v []
  | alone (u : Json) : Led sc states layers v [.primitive u]
  | onward {origin : Option Json.Place} {inner : Layers} {w : Json} {depth : Nat} {ks : List Sketch}
      (leads : sc.Leads states layers v origin inner w) (drawn : tree (sc.upTo depth) inner w = some ks) :
      Led sc states layers v ks

theorem tree_of_content (h : content (sc.upTo depth) layers v = some ks) :
    tree (sc.upTo (depth + 1)) layers v = some ks := by
  have hdeeper : ∀ ks, tree (sc.upTo depth) layers v = some ks → tree (sc.upTo (depth + 1)) layers v = some ks :=
    tree_le (upTo_le (.refl sc) (Nat.le_succ depth)) layers v
  cases v with
  | array | object => exact hdeeper ks h
  | _ => exact h

/-! ### Children -/

section

variable (htyped : (Brick.mk fields).typeName? = some typeName) (hknown : sc.target? typeName = some target)
include htyped hknown

theorem children_led (h : sc.children (sc.upTo depth) layers (Brick.mk fields).children? = some ks) :
    sc.Led states layers (.object fields) ks := by
  generalize hgiven : (Brick.mk fields).children? = given at h
  have plain {w : Json} (hw : given = some w) (hs : w.str? = none) (h : tree (sc.upTo depth) layers w = some ks) :
      sc.Led states layers (.object fields) ks :=
    .onward (.children htyped hknown (hgiven.trans hw) hs) h
  match given with
  | none | some .null =>
    obtain rfl := Option.some.inj h
    exact .nothing
  | some (.string raw) =>
    cases hvalue : sc.inline? layers raw with
    | none =>
      simp only [children, hvalue] at h
      obtain rfl := Option.some.inj h
      exact .nothing
    | some w =>
      simp only [children, hvalue] at h
      exact .onward (.evaluated htyped hknown (.text hgiven rfl hvalue)) (tree_of_content h)
  | some (.bool _) | some (.number _) | some (.array _) | some (.object _) => exact plain rfl rfl h

theorem proxyKids_led (hfields : (fields.map (·.1)).Nodup)
    (h : sc.proxyKids (sc.upTo depth) layers (sc.proxy layers ⟨fields⟩ typeName target) = some ks) :
    sc.Led states layers (.object fields) ks := by
  have hdynamic : (sc.proxy layers ⟨fields⟩ typeName target).dynamic =
      (Renderer.marked sc.config ⟨fields⟩ (Brick.mk fields).expressions).map dynamic := parsed_fst _
  unfold proxyKids at h
  split at h
  · rename_i d hd
    have hmem := List.mem_of_find?_eq_some hd
    have hname : d.name = "children" := by simpa using List.find?_some hd
    rw [hdynamic] at hmem
    obtain ⟨⟨name, text⟩, he, rfl⟩ := List.mem_map.1 hmem
    obtain ⟨⟨key, raw⟩, hentry, htext⟩ := List.mem_filterMap.1 he
    obtain ⟨hentry, -⟩ := List.mem_filter.1 hentry
    obtain ⟨_, hbinding, heq⟩ := Option.map_eq_some_iff.1 htext
    cases heq
    obtain ⟨s, hs, hbinding⟩ := Option.bind_eq_some_iff.1 hbinding
    cases raw <;> cases hs
    cases hvalue : sc.evaluateText? layers text with
    | none =>
      rw [current?_dynamic, hvalue] at h
      obtain rfl := Option.some.inj h
      exact .nothing
    | some w =>
      rw [current?_dynamic, hvalue] at h
      have hstems : sc.Stems layers fields "children" none w :=
        .text (Fields.get?_of_mem hfields hentry) hname ((inline?_of_binding hbinding).trans hvalue)
      exact .onward (.evaluated htyped hknown hstems) (tree_of_content h)
  · split at h
    · rename_i layout hlayout
      cases hs : layout.str? with
      | none => exact .onward (.children htyped hknown hlayout hs) h
      | some s =>
        cases layout <;> cases hs
        cases depth with
        | zero => cases h
        | succ depth =>
          obtain rfl := Option.some.inj h
          exact .alone _
    · obtain rfl := Option.some.inj h
      exact .nothing

end

/-! ### Special bricks -/

/-- The component of a special brick stands in the layers of the brick, if it renders anything at all. -/
theorem exists_component_of_build {render : Artist}
    (h : sc.build render (.special kind) layers props nodes = some k) :
    ∃ inner, k = .component none inner (kind.component sc.transport props) ∧
      (props.rendering?.isSome = true → inner = layers) := by
  have hlayers (hrendering : props.rendering?.isSome = true) : (rendering? layers props).getD [] = layers := by
    obtain ⟨r, hr⟩ := Option.isSome_iff_exists.1 hrendering
    unfold rendering?
    rw [hr]
    rfl
  cases kind <;> obtain rfl := Option.some.inj h
  case fetch => exact ⟨layers, rfl, fun _ => rfl⟩
  all_goals exact ⟨_, rfl, hlayers⟩

/-- The layout that the outcome of a request is handed to is under an attribute for such outcomes. -/
theorem exists_hands_of_fork {bindings : List (String × Json)} (hstate : states state)
    (h : Fetch.fork? props state = some (layout, bindings)) :
    ∃ name, props.value? name = some layout ∧ Hands states layers props .fetch name (bindings :: layers) := by
  cases state with
  | pending => cases h
  | succeeded response data =>
    obtain ⟨body, hvalue, heq⟩ := Option.map_eq_some_iff.1 h
    cases heq
    exact ⟨"success", hvalue, .succeeded hstate h⟩
  | failed error =>
    obtain ⟨body, hvalue, heq⟩ := Option.map_eq_some_iff.1 h
    cases heq
    exact ⟨"error", hvalue, .failed hstate h⟩

section

variable (hfields : (fields.map (·.1)).Nodup) (htyped : (Brick.mk fields).typeName? = some typeName)
  (hspecial : Special.ofName? typeName = some kind)
  (hprops : sc.settled layers ⟨fields⟩ typeName (.special kind) = props)
include hfields htyped hspecial hprops

/-- Rendering goes on from a special brick to what it hands on. -/
theorem Hands.exists_leads (h : Hands states layers props kind name inner) (hvalue : props.value? name = some layout) :
    ∃ origin, sc.Leads states layers (.object fields) origin inner layout := by
  subst hprops
  obtain ⟨origin, hstems⟩ := exists_stems hfields hvalue
  exact ⟨origin, .handed htyped hspecial h hvalue hstems⟩

theorem under_led (hinner : props.rendering?.isSome = true → inner = layers)
    (hands : Hands states layers props kind name layers) (h : under (sc.upTo depth) inner props name = some ks) :
    sc.Led states layers (.object fields) ks := by
  unfold under at h
  split at h
  · rename_i r layout hr hvalue
    rw [hinner (by rw [hr]; rfl)] at h
    obtain ⟨origin, hleads⟩ := hands.exists_leads hfields htyped hspecial hprops hvalue
    exact .onward hleads h
  · obtain rfl := Option.some.inj h
    exact .nothing

/-- The layout of a slot is that under the attribute that it names, or one in its `slots`. -/
theorem slot_led (hkind : kind = .slot) (hinner : props.rendering?.isSome = true → inner = layers)
    (h : slot (sc.upTo depth) inner props = some ks) : sc.Led states layers (.object fields) ks := by
  subst hkind
  unfold slot at h
  split at h
  · rename_i r layout hr hlayout
    rw [hinner (by rw [hr]; rfl)] at h
    unfold Slot.layout? at hlayout
    split at hlayout
    · rename_i name hkey
      have hands : Hands states layers props .slot name layers := .named hkey
      obtain ⟨origin, hleads⟩ := hands.exists_leads hfields htyped hspecial hprops hlayout
      exact .onward hleads h
    · rename_i hkey
      obtain ⟨name, hname, hlayout⟩ := Option.bind_eq_some_iff.1 hlayout
      obtain ⟨slots, hslots, hlayout⟩ := Option.bind_eq_some_iff.1 hlayout
      obtain ⟨hentry, -⟩ := Option.filter_eq_some_iff.1 hlayout
      subst hprops
      obtain ⟨origin, hstems⟩ := exists_stems hfields hslots
      exact .onward (.slotted htyped hspecial hkey hname hstems hentry) h
  · obtain rfl := Option.some.inj h
    exact .nothing

/-- What is rendered for a request is what waits for it, or what its outcome is handed to. -/
theorem fetch_led (hkind : kind = .fetch) (hstate : states state)
    (hinner : props.rendering?.isSome = true → inner = layers)
    (h : fetch (sc.upTo depth) inner props state = some ks) : sc.Led states layers (.object fields) ks := by
  subst hkind
  unfold fetch at h
  split at h
  · obtain rfl := Option.some.inj h
    exact .nothing
  · rename_i r hr
    split at h
    · exact under_led hfields htyped hspecial hprops hinner (.waiting hstate) h
    · split at h
      · rename_i body bindings hfork
        obtain ⟨name, hvalue, hands⟩ := exists_hands_of_fork hstate hfork
        obtain ⟨origin, hleads⟩ := hands.exists_leads hfields htyped hspecial hprops hvalue
        rw [hinner (by rw [hr]; rfl)] at h
        exact .onward hleads h
      · obtain rfl := Option.some.inj h
        exact .nothing

/-- What the component of a special brick renders, unless that is a list of rows. -/
theorem again_led (hloop : kind ≠ .forEach) (hstate : kind = .fetch → states state)
    (hinner : props.rendering?.isSome = true → inner = layers)
    (h : sc.again (sc.upTo depth) inner state (kind.component tr props) = some ks) :
    sc.Led states layers (.object fields) ks := by
  cases kind with
  | conditional => exact under_led hfields htyped hspecial hprops hinner .branch h
  | forEach => exact absurd rfl hloop
  | slot => exact slot_led hfields htyped hspecial hprops rfl hinner h
  | fetch => exact fetch_led hfields htyped hspecial hprops rfl (hstate rfl) hinner h

end
end LiveLayout.Scene
