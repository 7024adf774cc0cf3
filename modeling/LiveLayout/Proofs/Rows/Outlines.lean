import LiveLayout.Proofs.Refreshing.UpToDate
/-!
What all drawings of a layout have in common. The outline of a layout is known from the layout and the brick types
alone: the nodes that it always comes to, down to the components among them, and what is always in a proxy.
-/
namespace LiveLayout

/-- A node that is no component. -/
inductive Outline.Kind where
  | primitive
  | element (tag : String)
  | fragment
  deriving DecidableEq

inductive Outline where
  /-- What is in this node is not known: values may tell, or a recipe. -/
  | leaf (kind : Outline.Kind) (key : Option String)
  | node (kind : Outline.Kind) (key : Option String) (children : List Outline)
  | proxy (key : Option String) (target : Target) (dynamic : List (String × String)) (inside : Outline)
  | special (key : Option String) (kind : Special)

namespace Outline

/-- The element that stands for a brick with the children, if they are known. -/
def element (tag : String) (key : Option String) : Option (List Outline) → Outline
  | some children => .node (.element tag) key children
  | none => .leaf (.element tag) key

/-- What is built for a target. -/
def built (target : Target) (key : Option String) (children : Option (List Outline)) : Outline :=
  match target with
  | .special kind => .special key kind
  | .constructor (.element tag) => element tag key children
  | .constructor (.recipe _ (.group own)) => .leaf .fragment (some (key.getD own))
  | .constructor (.recipe _ (.text _)) => .leaf .primitive none
  | .constructor (.recipe _ (.container tag _)) => .leaf (.element tag) key
  | .constructor (.recipe _ .card) => .leaf (.element "card") key
  | .tag name => element name key children

/-- A row of a list of elements. -/
def row (outlines : List Outline) (key : String) : Outline := .node .fragment (some key) outlines

/-- A list of layouts in another becomes a fragment. -/
def item (v : Json) (outlines : List Outline) : List Outline :=
  match v with
  | .array _ => [.node .fragment none outlines]
  | _ => outlines

end Outline

/-- Which special brick the component is. -/
def Component.special? : Component → Option Special
  | .conditional _ => some .conditional
  | .forEach _ => some .forEach
  | .slot _ => some .slot
  | .fetch _ => some .fetch
  | .proxy _ | .probe _ _ | .plain _ => none

/-- A list of elements has these, binds each of them under the name, and renders the template for it. -/
structure ForEach.Lists (p : Props) (items : List Json) (binding : String) (template : Json) : Prop where
  rendering : p.rendering?.isSome = true
  items : p.value? "items" = some (.array items)
  binding : p.text? "as" = some binding
  template : p.value? "template" = some template

namespace Scene

variable (sc : Scene)

/-- What a brick comes to, given what its entries come to. -/
def brickOutlines (b : Brick) (entries : List (String × List Outline)) : List Outline :=
  match b.typeName?.bind sc.target? with
  | none => []
  | some target =>
    let inner := (Fields.get? entries "children").getD []
    if b.expressions.isEmpty then
      [.built target b.id? (if (b.children?.bind Json.str?).isSome then none else some inner)]
    else
      let dynamic := Renderer.marked sc.config b b.expressions
      let children := if dynamic.any (·.1 = "children") then none else some inner
      [.proxy b.id? target dynamic (.built target b.id? children)]

mutual

/-- What a layout always comes to. -/
def outlines : Json → List Outline
  | .null => []
  | .array items => itemOutlines items
  | .object fields => sc.brickOutlines ⟨fields⟩ (entryOutlines fields)
  | .bool _ | .number _ | .string _ => [.leaf .primitive none]

def itemOutlines : List Json → List Outline
  | [] => []
  | v :: rest => Outline.item v (outlines v) ++ itemOutlines rest

def entryOutlines : List (String × Json) → List (String × List Outline)
  | [] => []
  | (name, v) :: rest => (name, outlines v) :: entryOutlines rest

end

/-- What is always in a proxy. -/
def inside (p : Proxy) : Outline :=
  .built p.target p.key
    (if p.dynamic.any (·.name = "children") then none else some ((p.children.map sc.outlines).getD []))

/-- The outline of a component from a layout. -/
def componentOutline? (key : Option String) : Component → Option Outline
  | .proxy p => some (.proxy key p.target (p.dynamic.map fun d => (d.name, d.text)) (sc.inside p))
  | c => c.special?.map (.special key)

/-- The rows of a list of elements: for every element what the template comes to, under the element's key. -/
def rows (p : Props) : List Outline :=
  match p.rendering?, p.value? "items", p.text? "as", p.value? "template" with
  | some _, some (.array items), some _, some template =>
    (ForEach.keys [] items 0).map (.row (sc.outlines template))
  | _, _, _, _ => []

/-- What a component always renders, if that is known. -/
def yields : Component → Option (List Outline)
  | .proxy p => some [sc.inside p]
  | .forEach p => some (sc.rows p)
  | _ => none

end Scene

namespace Sketch

def key? : Sketch → Option String
  | .primitive _ => none
  | .element _ key _ _ => key
  | .component key _ _ => key
  | .fragment key _ => key

/-- What kind of node it is, unless it is a component. -/
def kind? : Sketch → Option Outline.Kind
  | .primitive _ => some .primitive
  | .element tag _ _ _ => some (.element tag)
  | .component .. => none
  | .fragment .. => some .fragment

def children : Sketch → List Sketch
  | .element _ _ _ children | .fragment _ children => children
  | .primitive _ | .component .. => []

end Sketch

namespace Scene

variable {sc : Scene}

/-- The node has the outline. -/
inductive Outlined (sc : Scene) : Outline → Sketch → Prop
  | leaf {kind : Outline.Kind} {k : Sketch} (is_kind : k.kind? = some kind) : Outlined sc (.leaf kind k.key?) k
  | node {kind : Outline.Kind} {k : Sketch} {children : List Outline} (is_kind : k.kind? = some kind)
    (inner : List.Forall₂ (Outlined sc) children k.children) : Outlined sc (.node kind k.key? children) k
  | component {key : Option String} {layers : Layers} {c : Component} {o : Outline}
    (is_outline : sc.componentOutline? key c = some o) : Outlined sc o (.component key layers c)

abbrev OutlinedAll (sc : Scene) : List Outline → List Sketch → Prop := List.Forall₂ sc.Outlined

theorem get?_entryOutlines (fields : List (String × Json)) (name : String) :
    Fields.get? (sc.entryOutlines fields) name = (Fields.get? fields name).map sc.outlines := by
  induction fields with
  | nil => rfl
  | cons e rest ih =>
    obtain ⟨other, v⟩ := e
    rw [entryOutlines, Fields.get?, Fields.get?, ih]
    split <;> rfl

/-- Only the brick types and the settings tell what layouts come to. -/
theorem brickOutlines_congr {sc' : Scene} (hregistry : sc'.registry = sc.registry) (hconfig : sc'.config = sc.config) :
    sc'.brickOutlines = sc.brickOutlines := by
  funext b entries
  have htarget : sc'.target? = sc.target? := by
    funext typeName
    simp only [target?, hregistry, hconfig]
  simp only [brickOutlines, htarget, hconfig]

mutual

theorem outlines_congr {sc' : Scene} (hregistry : sc'.registry = sc.registry) (hconfig : sc'.config = sc.config) :
    (v : Json) → sc'.outlines v = sc.outlines v
  | .null | .bool _ | .number _ | .string _ => rfl
  | .array items => by rw [outlines, outlines, itemOutlines_congr hregistry hconfig items]
  | .object fields => by
    rw [outlines, outlines, entryOutlines_congr hregistry hconfig fields, brickOutlines_congr hregistry hconfig]

theorem itemOutlines_congr {sc' : Scene} (hregistry : sc'.registry = sc.registry) (hconfig : sc'.config = sc.config) :
    (items : List Json) → sc'.itemOutlines items = sc.itemOutlines items
  | [] => rfl
  | v :: rest => by
    rw [itemOutlines, itemOutlines, outlines_congr hregistry hconfig v, itemOutlines_congr hregistry hconfig rest]

theorem entryOutlines_congr {sc' : Scene} (hregistry : sc'.registry = sc.registry) (hconfig : sc'.config = sc.config) :
    (fields : List (String × Json)) → sc'.entryOutlines fields = sc.entryOutlines fields
  | [] => rfl
  | (name, v) :: rest => by
    rw [entryOutlines, entryOutlines, outlines_congr hregistry hconfig v, entryOutlines_congr hregistry hconfig rest]

end

/-! ### Drawings have outlines -/

variable {render : Artist} {layers : Layers}

/-- What the artist draws has the outline of the layout. -/
def Follows (sc : Scene) (render : Artist) : Prop :=
  ∀ layers v k, render layers v = some k → sc.OutlinedAll (Outline.item v (sc.outlines v)) k.toList

theorem items_outlined (hr : sc.Follows render) (items : List Json) {ks : List Sketch}
    (h : items.filterMapM (fun item => render layers item) = some ks) : sc.OutlinedAll (sc.itemOutlines items) ks := by
  induction items generalizing ks with
  | nil =>
    obtain rfl := Option.some.inj h
    exact .nil
  | cons v rest ih =>
    rw [List.filterMapM_cons] at h
    obtain ⟨k, hk, h⟩ := Option.bind_eq_some_iff.1 h
    have hv := hr layers v k hk
    rw [itemOutlines]
    cases k with
    | none =>
      rw [List.forall₂_nil_right_iff.1 hv]
      exact ih h
    | some k =>
      obtain ⟨ls, hls, heq⟩ := Option.bind_eq_some_iff.1 h
      obtain rfl := Option.some.inj heq
      exact List.rel_append hv (ih hls)

theorem tree_outlined (hr : sc.Follows render) {v : Json} {ks : List Sketch}
    (h : tree render layers v = some ks) : sc.OutlinedAll (sc.outlines v) ks := by
  cases v with
  | array items => exact items_outlined hr items h
  | _ =>
    obtain ⟨k, hk, rfl⟩ := Option.map_eq_some_iff.1 h
    exact hr layers _ k hk

theorem element_outlined {children : Option (List Outline)} {nodes : List Sketch}
    (hc : ∀ os, children = some os → sc.OutlinedAll os nodes) (tag : String) (key : Option String) (props : Props) :
    sc.Outlined (.element tag key children) (.element tag key props nodes) := by
  cases children with
  | none => exact @Outlined.leaf sc _ (.element tag key props nodes) rfl
  | some os => exact @Outlined.node sc _ (.element tag key props nodes) os rfl (hc os rfl)

theorem withKey?_element (tag : String) (key : Option String) (props : Props) (nodes : List Sketch) :
    (Sketch.element tag none props nodes).withKey? key = .element tag key props nodes := by
  cases key <;> rfl

theorem withKey?_component (layers : Layers) (c : Component) (key : Option String) :
    (Sketch.component none layers c).withKey? key = .component key layers c := by
  cases key <;> rfl

/-- What a recipe makes has its kind and its key, and nothing more is known of it. -/
theorem follow_outlined {recipe : Recipe} {props : Props} {nodes : List Sketch} {k : Sketch} {registration : Nat}
    (h : follow render recipe layers props nodes = some k) (key : Option String) (children : Option (List Outline)) :
    sc.Outlined (.built (.constructor (.recipe registration recipe)) key children) (k.withKey? key) := by
  cases recipe with
  | group own =>
    obtain rfl := Option.some.inj h
    cases key with
    | none => exact @Outlined.leaf sc _ (.fragment (some own) nodes) rfl
    | some key => exact @Outlined.leaf sc _ (.fragment (some key) nodes) rfl
  | text s =>
    obtain rfl := Option.some.inj h
    cases key <;> exact @Outlined.leaf sc _ (.primitive (.string s)) rfl
  | container tag attributes =>
    obtain ⟨parts, -, heq⟩ := Option.bind_eq_some_iff.1 h
    obtain rfl := Option.some.inj heq
    rw [withKey?_element]
    exact @Outlined.leaf sc _ (.element tag key _ _) rfl
  | card =>
    obtain ⟨header, -, h⟩ := Option.bind_eq_some_iff.1 h
    obtain ⟨footer, -, heq⟩ := Option.bind_eq_some_iff.1 h
    obtain rfl := Option.some.inj heq
    rw [withKey?_element]
    exact @Outlined.leaf sc _ (.element "card" key _ _) rfl

theorem build_outlined {target : Target} {props : Props} {nodes : List Sketch} {k : Sketch}
    {children : Option (List Outline)} (hc : ∀ os, children = some os → sc.OutlinedAll os nodes)
    (h : sc.build render target layers props nodes = some k) (key : Option String) :
    sc.Outlined (.built target key children) (k.withKey? key) := by
  match target with
  | .special kind =>
    cases kind <;> obtain rfl := Option.some.inj h
    all_goals
      first | rw [special, withKey?_component] | rw [withKey?_component]
      exact .component rfl
  | .constructor (.element tag) | .tag tag =>
    obtain rfl := Option.some.inj h
    rw [withKey?_element]
    exact element_outlined hc tag key props
  | .constructor (.recipe registration recipe) => exact follow_outlined h key children

theorem children_outlined (hr : sc.Follows render) {given : Option Json} {nodes : List Sketch}
    (h : sc.children render layers given = some nodes) (hs : (given.bind Json.str?).isSome = false) :
    sc.OutlinedAll ((given.map sc.outlines).getD []) nodes := by
  match given with
  | none | some .null =>
    obtain rfl := Option.some.inj h
    exact .nil
  | some (.string s) => cases hs
  | some (.bool _) | some (.number _) | some (.array _) | some (.object _) => exact tree_outlined hr h

theorem inside_proxy (layers : Layers) (b : Brick) (typeName : String) (target : Target) :
    sc.inside (sc.proxy layers b typeName target) = .built target b.id?
      (if (Renderer.marked sc.config b b.expressions).any (·.1 = "children") then none
        else some ((b.children?.map sc.outlines).getD [])) := by
  have hany : (parsed (Renderer.marked sc.config b b.expressions)).1.any (·.name = "children") =
      (Renderer.marked sc.config b b.expressions).any (·.1 = "children") := by
    rw [← parsed_map (Renderer.marked sc.config b b.expressions), List.any_map, parsed_map]
    rfl
  rw [← hany]
  rfl

theorem brick_outlined (hr : sc.Follows render) {b : Brick} {typeName : String} {target : Target} {k : Sketch}
    (htype : b.typeName? = some typeName) (htarget : sc.target? typeName = some target)
    (h : sc.brick render layers b typeName target = some k) :
    sc.OutlinedAll (sc.brickOutlines b (sc.entryOutlines b.fields)) [k] := by
  have hchildren : Fields.get? (sc.entryOutlines b.fields) "children" = b.children?.map sc.outlines :=
    get?_entryOutlines b.fields "children"
  rw [brickOutlines, htype, Option.bind_some, htarget, hchildren]
  rw [brick] at h
  dsimp only
  split at h
  · rename_i hexpr
    obtain ⟨nodes, hnodes, h⟩ := Option.bind_eq_some_iff.1 h
    obtain ⟨k, hbuilt, heq⟩ := Option.bind_eq_some_iff.1 h
    obtain rfl := Option.some.inj heq
    rw [if_pos hexpr]
    refine .cons (build_outlined (fun os hos => ?_) hbuilt _) .nil
    split at hos
    · cases hos
    · obtain rfl := Option.some.inj hos
      exact children_outlined hr hnodes (Bool.eq_false_iff.2 ‹_›)
  · rename_i hexpr
    obtain rfl := Option.some.inj h
    rw [if_neg hexpr, ← inside_proxy layers b typeName]
    refine .cons (.component (congrArg some ?_)) .nil
    rw [show (sc.proxy layers b typeName target).dynamic.map (fun d => (d.name, d.text)) = _ from parsed_map _]
    rfl

theorem node_outlined (hr : sc.Follows render) {v : Json} {k : Option Sketch}
    (h : sc.node render layers v = some k) : sc.OutlinedAll (Outline.item v (sc.outlines v)) k.toList := by
  match v with
  | .null =>
    obtain rfl := Option.some.inj h
    exact .nil
  | .bool b | .number b | .string b =>
    obtain rfl := Option.some.inj h
    exact .cons (@Outlined.leaf sc _ (.primitive _) rfl) .nil
  | .array items =>
    obtain ⟨ks, hks, rfl⟩ := Option.map_eq_some_iff.1 h
    exact .cons (@Outlined.node sc _ (.fragment none ks) _ rfl (tree_outlined hr hks)) .nil
  | .object fields =>
    change sc.OutlinedAll (sc.brickOutlines ⟨fields⟩ (sc.entryOutlines fields)) k.toList
    rw [node] at h
    cases htype : (Brick.mk fields).typeName? with
    | none =>
      rw [htype] at h
      obtain rfl := Option.some.inj h
      simp [brickOutlines, htype]
    | some typeName =>
      simp only [htype] at h
      cases htarget : sc.target? typeName with
      | none =>
        rw [htarget] at h
        obtain rfl := Option.some.inj h
        simp [brickOutlines, htype, htarget]
      | some target =>
        simp only [htarget] at h
        split at h
        · obtain ⟨k, hk, rfl⟩ := Option.map_eq_some_iff.1 h
          exact brick_outlined hr htype htarget hk
        · cases h

/-- Whatever the layers are in which a layout is drawn, the drawing has the outline of the layout. -/
theorem upTo_outlined (depth : Nat) : sc.Follows (sc.upTo depth) := by
  induction depth with
  | zero => exact fun _ _ _ h => nomatch h
  | succ depth ih => exact fun _ _ _ h => node_outlined ih h

/-! ### Components -/

theorem content_outlined (hr : sc.Follows render) {p : Proxy} {nodes : List Sketch}
    (h : sc.proxyKids render layers p = some nodes) (hc : p.dynamic.any (·.name = "children") = false) :
    sc.OutlinedAll ((p.children.map sc.outlines).getD []) nodes := by
  have hnone : p.dynamic.find? (·.name = "children") = none := by
    rw [List.find?_eq_none]
    simpa using hc
  rw [proxyKids, hnone] at h
  cases hchildren : p.children with
  | none =>
    rw [hchildren] at h
    obtain rfl := Option.some.inj h
    exact .nil
  | some layout =>
    rw [hchildren] at h
    exact tree_outlined hr h

theorem proxyNode_outlined (hr : sc.Follows render) {p : Proxy} {k : Sketch}
    (h : sc.proxyNode render layers p = some k) : sc.Outlined (sc.inside p) k := by
  obtain ⟨nodes, hnodes, h⟩ := Option.bind_eq_some_iff.1 h
  obtain ⟨k, hbuilt, heq⟩ := Option.bind_eq_some_iff.1 h
  obtain rfl := Option.some.inj heq
  refine build_outlined (fun os hos => ?_) hbuilt p.key
  split at hos
  · cases hos
  · obtain rfl := Option.some.inj hos
    exact content_outlined hr hnodes (Bool.eq_false_iff.2 ‹_›)

theorem length_keys (seen : List String) (items : List Json) (index : Nat) :
    (ForEach.keys seen items index).length = items.length := by
  induction items generalizing seen index with
  | nil => rfl
  | cons item rest ih => rw [ForEach.keys, List.length_cons, List.length_cons, ih]

theorem mapM_outlined (hr : sc.Follows render) (template : Json) (fork : Json → Layers) (rows : List (Json × String))
    {ks : List Sketch}
    (h : rows.mapM (fun e => (tree render (fork e.1) template).map (.fragment (some e.2))) = some ks) :
    sc.OutlinedAll (rows.map fun e => .row (sc.outlines template) e.2) ks := by
  induction rows generalizing ks with
  | nil =>
    obtain rfl := Option.some.inj h
    exact .nil
  | cons e rest ih =>
    rw [List.mapM_cons] at h
    obtain ⟨k, hk, h⟩ := Option.bind_eq_some_iff.1 h
    obtain ⟨nodes, hnodes, rfl⟩ := Option.map_eq_some_iff.1 hk
    obtain ⟨ls, hls, heq⟩ := Option.bind_eq_some_iff.1 h
    obtain rfl := Option.some.inj heq
    exact .cons (@Outlined.node sc _ (.fragment (some e.2) nodes) _ rfl (tree_outlined hr hnodes)) (ih hls)

section

variable {p : Props} {items : List Json} {binding : String} {template : Json}

theorem rows_eq (h : ForEach.Lists p items binding template) :
    sc.rows p = (ForEach.keys [] items 0).map (.row (sc.outlines template)) := by
  obtain ⟨r, hr⟩ := Option.isSome_iff_exists.1 h.rendering
  simp only [rows, hr, h.items, h.binding, h.template]

/-- What is not given in full has no rows. -/
theorem rows_eq_nil (h : ∀ items binding template, ¬ForEach.Lists p items binding template) : sc.rows p = [] := by
  unfold rows
  split
  · exact absurd ⟨by simp [*], ‹_›, ‹_›, ‹_›⟩ (h _ _ _)
  · rfl

theorem forEach_eq_nil (h : ∀ items binding template, ¬ForEach.Lists p items binding template) :
    forEach render layers p = some [] := by
  unfold forEach
  split
  · exact absurd ⟨by simp [*], ‹_›, ‹_›, ‹_›⟩ (h _ _ _)
  · rfl

theorem forEach_eq (h : ForEach.Lists p items binding template) :
    forEach render layers p = (items.zip (ForEach.keys [] items 0)).mapM fun e =>
      (tree render ([(binding, e.1)] :: layers) template).map (.fragment (some e.2)) := by
  obtain ⟨r, hr⟩ := Option.isSome_iff_exists.1 h.rendering
  simp only [forEach, hr, h.items, h.binding, h.template]

end

theorem forEach_outlined (hr : sc.Follows render) {p : Props} {ks : List Sketch}
    (h : forEach render layers p = some ks) : sc.OutlinedAll (sc.rows p) ks := by
  by_cases hlists : ∃ items binding template, ForEach.Lists p items binding template
  · obtain ⟨items, binding, template, hlists⟩ := hlists
    rw [forEach_eq hlists] at h
    have hrows := mapM_outlined hr template (fun item => [(binding, item)] :: layers) _ h
    have hkeys : (items.zip (ForEach.keys [] items 0)).map Prod.snd = ForEach.keys [] items 0 :=
      List.map_snd_zip (Nat.le_of_eq (length_keys ..))
    rw [rows_eq hlists, ← hkeys, List.map_map]
    exact hrows
  · have hnone : ∀ items binding template, ¬ForEach.Lists p items binding template :=
      fun items binding template h => hlists ⟨items, binding, template, h⟩
    rw [forEach_eq_nil hnone] at h
    rw [rows_eq_nil hnone, ← Option.some.inj h]
    exact .nil

/-- What a component renders has the outline that is known of it. -/
theorem again_outlined (hr : sc.Follows render) {state : FetchState} {c : Component} {ks : List Sketch}
    (h : sc.again render layers state c = some ks) : ∀ os, sc.yields c = some os → sc.OutlinedAll os ks := by
  intro os hos
  cases c with
  | proxy p =>
    obtain rfl := Option.some.inj hos
    obtain ⟨k, hk, rfl⟩ := Option.map_eq_some_iff.1 h
    exact .cons (proxyNode_outlined hr hk) .nil
  | forEach p =>
    obtain rfl := Option.some.inj hos
    exact forEach_outlined hr h
  | _ => cases hos

end Scene
end LiveLayout
