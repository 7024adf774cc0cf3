import LiveLayout.Proofs.Drawing.Scene
import LiveLayout.Proofs.Fields
import Mathlib.Data.List.Basic
/-!
Drawings do not change with more depth, with more allowed, or with other values of variables that nothing
drawn reads.
-/
namespace LiveLayout

/-- The second is the first, wherever that is defined. -/
def Defines {α : Type} (x y : Option α) : Prop := ∀ a, x = some a → y = some a

namespace Defines

variable {α β : Type} {x y : Option α}

theorem refl (x : Option α) : Defines x x := fun _ h => h

theorem none : Defines .none x := fun _ h => nomatch h

theorem of_eq (h : x = y) : Defines x y := h ▸ refl x

theorem bind (hx : Defines x y) {f g : α → Option β} (hf : ∀ a, Defines (f a) (g a)) :
    Defines (x.bind f) (y.bind g) := by
  intro b hb
  obtain ⟨a, ha, hfa⟩ := Option.bind_eq_some_iff.1 hb
  exact Option.bind_eq_some_iff.2 ⟨a, hx a ha, hf a b hfa⟩

theorem map (hx : Defines x y) (f : α → β) : Defines (x.map f) (y.map f) := by
  intro b hb
  obtain ⟨a, ha, hfa⟩ := Option.map_eq_some_iff.1 hb
  exact Option.map_eq_some_iff.2 ⟨a, hx a ha, hfa⟩

theorem mapM {f g : α → Option β} (xs : List α) (h : ∀ a ∈ xs, Defines (f a) (g a)) :
    Defines (xs.mapM f) (xs.mapM g) := by
  induction xs with
  | nil => exact refl _
  | cons a rest ih =>
    rw [List.mapM_cons, List.mapM_cons]
    exact (h a (by simp)).bind fun b => (ih fun c hc => h c (by simp [hc])).bind fun _ => refl _

theorem filterMapM {f g : α → Option (Option β)} (xs : List α) (h : ∀ a, Defines (f a) (g a)) :
    Defines (xs.filterMapM f) (xs.filterMapM g) := by
  induction xs with
  | nil => exact refl _
  | cons a rest ih =>
    rw [List.filterMapM_cons, List.filterMapM_cons]
    refine (h a).bind fun b => ?_
    cases b with
    | none => exact ih
    | some b => exact ih.bind fun _ => refl _

theorem foldlM {f g : β → α → Option β} (xs : List α) (h : ∀ b a, Defines (f b a) (g b a)) (b : β) :
    Defines (xs.foldlM f b) (xs.foldlM g b) := by
  induction xs generalizing b with
  | nil => exact refl _
  | cons a rest ih =>
    rw [List.foldlM_cons, List.foldlM_cons]
    exact (h b a).bind fun c => ih c

end Defines

/-- All expressions among its properties are marked, and nothing else is. -/
def Brick.Marked (b : Brick) : Prop := b.expressions = Annotate.expressionNames b.fields

namespace Scene

/-- The second scene draws all that the first does, in the same way. Either both have the same values, or
the first allows only what reads no values by itself. -/
structure Le (sc sc' : Scene) : Prop where
  registry : sc'.registry = sc.registry
  config : sc'.config = sc.config
  source : sc'.source = sc.source
  transport : sc'.transport = sc.transport
  allowed : ∀ fields, sc.allowed fields = true → sc'.allowed fields = true
  fetches : sc.fetches = true → sc'.fetches = true
  steady : (sc'.root = sc.root ∧ sc'.answer = sc.answer) ∨
    (sc.fetches = false ∧ ∀ fields, sc.allowed fields = true → (Brick.mk fields).Marked)

variable {sc sc' : Scene} {r r' : Artist} {layers : Layers}

theorem Le.refl (sc : Scene) : sc.Le sc :=
  ⟨rfl, rfl, rfl, rfl, fun _ h => h, fun h => h, .inl ⟨rfl, rfl⟩⟩

/-- The scene that allows the given bricks alone, and no component that fetches. -/
def confine (sc : Scene) (bricks : List (String × Json) → Bool) : Scene :=
  { sc with allowed := bricks, fetches := false }

theorem confine_le (bricks : List (String × Json) → Bool) (h : ∀ fields, sc.allowed fields = true) :
    (sc.confine bricks).Le sc :=
  ⟨rfl, rfl, rfl, rfl, fun fields _ => h fields, nofun, .inl ⟨rfl, rfl⟩⟩

/-- Where only marked bricks are allowed, it does not matter which values the variables have. -/
theorem confine_le_confine {bricks : List (String × Json) → Bool}
    (hmarked : ∀ fields, bricks fields = true → (Brick.mk fields).Marked)
    (hregistry : sc'.registry = sc.registry) (hconfig : sc'.config = sc.config)
    (hsource : sc'.source = sc.source) (htransport : sc'.transport = sc.transport) :
    (sc.confine bricks).Le (sc'.confine bricks) :=
  ⟨hregistry, hconfig, hsource, htransport, fun _ h => h, nofun, .inr ⟨rfl, hmarked⟩⟩

/-- The second artist draws all that the first does. -/
def ArtistLe (r r' : Artist) : Prop := ∀ layers v, Defines (r layers v) (r' layers v)

theorem tree_le (h : ArtistLe r r') (layers : Layers) (v : Json) :
    Defines (tree r layers v) (tree r' layers v) := by
  cases v with
  | array items => exact .filterMapM items fun item => h layers item
  | _ => exact (h layers _).map _

theorem content_le (h : ArtistLe r r') (layers : Layers) (v : Json) :
    Defines (content r layers v) (content r' layers v) := by
  cases v with
  | array items => exact tree_le h layers (.array items)
  | object fields => exact tree_le h layers (.object fields)
  | _ => exact .refl _

theorem layoutAt_le (h : ArtistLe r r') (rendering : Option Layers) (p : Option Property) :
    Defines (layoutAt r rendering p) (layoutAt r' rendering p) := by
  unfold layoutAt
  split
  · exact (tree_le h _ _).map _
  · exact .refl _

theorem section_le (h : ArtistLe r r') (rendering : Option Layers) (props : Props) (name : String) :
    Defines (section? r rendering props name) (section? r' rendering props name) :=
  (layoutAt_le h rendering _).bind fun a => by cases a <;> exact .refl _

theorem follow_le (h : ArtistLe r r') (recipe : Recipe) (layers : Layers) (props : Props)
    (children : List Sketch) :
    Defines (follow r recipe layers props children) (follow r' recipe layers props children) := by
  cases recipe with
  | group | text => exact .refl _
  | container tag attributes =>
    refine (Defines.foldlM attributes (fun b name => ?_) _).bind fun _ => .refl _
    exact (layoutAt_le h _ _).bind fun a => by cases a <;> exact .refl _
  | card => exact (section_le h _ _ _).bind fun _ => (section_le h _ _ _).bind fun _ => .refl _

theorem build_le (hsc : sc.Le sc') (h : ArtistLe r r') (target : Target) (layers : Layers)
    (props : Props) (children : List Sketch) :
    Defines (sc.build r target layers props children) (sc'.build r' target layers props children) := by
  match target with
  | .special .conditional | .special .forEach | .special .slot => exact .refl _
  | .special .fetch => exact .of_eq (by simp only [build, hsc.transport])
  | .constructor (.element tag) | .tag name => exact .refl _
  | .constructor (.recipe _ recipe) => exact follow_le h recipe layers props children

/-! ### Bricks -/

theorem target_eq (h : sc.Le sc') (typeName : String) : sc'.target? typeName = sc.target? typeName := by
  simp only [target?, h.registry, h.config]

theorem handler_eq (h : sc.Le sc') : sc'.handler? = sc.handler? := by
  funext id
  simp only [handler?, h.source]

theorem inline_of_not_binding {s : String} (h : isBinding s = false) :
    sc.inline? layers s = some (.string s) := by
  rw [isBinding, Option.isSome_eq_false_iff, Option.isNone_iff_eq_none] at h
  simp only [inline?, h]

/-- An entry that is no expression reads no variable. -/
theorem property_congr (h : sc.Le sc') {name : String} {raw : Json}
    (hraw : isHandlerName name = true ∨ ∀ s, raw = .string s → isBinding s = false) :
    sc'.property? layers name raw = sc.property? layers name raw := by
  cases raw with
  | string s =>
    simp only [property?, handler_eq h]
    split
    · rfl
    · have hs := hraw.resolve_left ‹_› s rfl
      rw [inline_of_not_binding hs, inline_of_not_binding hs]
  | _ => rfl

theorem isDynamicCandidate_of_props {b : Brick} {e : String × Json} (he : e ∈ b.props)
    (hid : e.1 ≠ "id") (hform : e.1 ≠ "form") (hname : isHandlerName e.1 = false) :
    isDynamicCandidate e.1 = true := by
  have hmeta : isMetaField e.1 = false := by simpa [Brick.props] using (List.mem_filter.1 he).2
  simp [isDynamicCandidate, hmeta, hid, hform, hname]

/-- In a marked brick, whatever becomes a property by itself is no expression. -/
theorem Marked.not_binding {b : Brick} (hb : b.Marked) {typeName : String} {e : String × Json}
    (he : e ∈ b.props) (hskip : sc.skips typeName b.expressions e.1 = false) :
    isHandlerName e.1 = true ∨ ∀ s, e.2 = .string s → isBinding s = false := by
  simp only [skips, Bool.or_eq_false_iff, beq_eq_false_iff_ne] at hskip
  obtain ⟨⟨⟨⟨hid, hform⟩, hdyn⟩, -⟩, -⟩ := hskip
  cases hname : isHandlerName e.1 with
  | true => exact .inl rfl
  | false =>
    refine .inr fun s hs => ?_
    have hc := isDynamicCandidate_of_props he hid hform hname
    by_contra hbind
    have hmem : e.1 ∈ Annotate.expressionNames b.fields := by
      refine List.mem_map.2 ⟨e, List.mem_filter.2 ⟨(List.mem_filter.1 he).1, ?_⟩, rfl⟩
      simp [hc, hs, Json.str?, Bool.not_eq_false _ ▸ hbind]
    rw [← hb] at hmem
    simp [hmem] at hdyn

theorem skips_eq (h : sc.Le sc') : sc'.skips = sc.skips := by
  funext typeName dynamic name
  simp only [skips, h.registry]

theorem evaluate_congr (hroot : sc'.root = sc.root) (layers : Layers) :
    sc'.evaluate? layers = sc.evaluate? layers := by
  funext e
  simp only [evaluate?, hroot]

theorem inline_congr (hroot : sc'.root = sc.root) (layers : Layers) (raw : String) :
    sc'.inline? layers raw = sc.inline? layers raw := by
  simp only [inline?, evaluateText?, evaluate_congr hroot]

theorem property_congr_root (h : sc.Le sc') (hroot : sc'.root = sc.root) (name : String) (raw : Json) :
    sc'.property? layers name raw = sc.property? layers name raw := by
  cases raw with
  | string s => simp only [property?, handler_eq h, inline_congr hroot]
  | _ => rfl

theorem ownProps_congr (h : sc.Le sc') {b : Brick} (hb : sc'.root = sc.root ∨ b.Marked)
    (layers : Layers) (typeName : String) :
    sc'.ownProps layers b typeName b.expressions = sc.ownProps layers b typeName b.expressions := by
  unfold ownProps
  rw [skips_eq h, h.config]
  refine List.foldl_ext _ _ _ fun props e he => ?_
  obtain ⟨he, hskip⟩ := List.mem_filter.1 he
  rcases hb with hroot | hb
  · rw [property_congr_root h hroot]
  · rw [property_congr h (Marked.not_binding hb he (by simpa using hskip))]

theorem fixedProps_congr (h : sc.Le sc') {b : Brick} (hb : sc'.root = sc.root ∨ b.Marked)
    (layers : Layers) (typeName : String) :
    sc'.fixedProps layers b typeName b.expressions = sc.fixedProps layers b typeName b.expressions := by
  unfold fixedProps
  rw [ownProps_congr h hb]
  simp only [wire, wireContainer, handler_eq h, h.registry]

theorem outfit_congr (h : sc.Le sc') {b : Brick} (hb : sc'.root = sc.root ∨ b.Marked)
    (layers : Layers) (typeName : String) (target : Target) :
    sc'.outfit layers b typeName target b.expressions = sc.outfit layers b typeName target b.expressions := by
  simp only [outfit, fixedProps_congr h hb, renders, h.registry]
  rfl

/-- Where nothing is marked, the children of a marked brick are no expression. -/
theorem Marked.children_not_binding {b : Brick} (hb : b.Marked) (hnone : b.expressions = [])
    {s : String} (hs : b.children? = some (.string s)) : isBinding s = false := by
  by_contra hbind
  have hmem : "children" ∈ Annotate.expressionNames b.fields := by
    refine List.mem_map.2 ⟨("children", .string s), List.mem_filter.2 ⟨Fields.mem_of_get? hs, ?_⟩, rfl⟩
    simp [isDynamicCandidate, Json.str?, Bool.not_eq_false _ ▸ hbind]
  rw [← hb, hnone] at hmem
  simp at hmem

theorem children_le (hr : ArtistLe r r') {b : Brick}
    (hb : sc'.root = sc.root ∨ b.Marked) (hnone : b.expressions = []) (layers : Layers) :
    Defines (sc.children r layers b.children?) (sc'.children r' layers b.children?) := by
  cases hc : b.children? with
  | none => exact .refl _
  | some v =>
    cases v with
    | string s =>
      have hinline : sc'.inline? layers s = sc.inline? layers s := by
        rcases hb with hroot | hb
        · exact inline_congr hroot layers s
        · have hs := Marked.children_not_binding hb hnone hc
          rw [inline_of_not_binding hs, inline_of_not_binding hs]
      simp only [children, hinline]
      split
      · exact content_le hr layers _
      · exact .refl _
    | null => exact .refl _
    | array items => exact tree_le hr layers (.array items)
    | object fields => exact tree_le hr layers (.object fields)
    | bool x => exact tree_le hr layers (.bool x)
    | number x => exact tree_le hr layers (.number x)

theorem brick_le (h : sc.Le sc') (hr : ArtistLe r r') {b : Brick}
    (hb : sc'.root = sc.root ∨ b.Marked) (layers : Layers) (typeName : String) (target : Target) :
    Defines (sc.brick r layers b typeName target) (sc'.brick r' layers b typeName target) := by
  have hout := outfit_congr h hb layers typeName target
  unfold brick
  split
  · have hnone := List.isEmpty_iff.1 ‹_›
    rw [hnone] at hout
    rw [hout]
    exact (children_le hr hb hnone layers).bind fun _ =>
      (build_le h hr _ _ _ _).bind fun _ => .refl _
  · exact .of_eq (by simp only [proxy, hout, h.config])

theorem node_le (h : sc.Le sc') (hr : ArtistLe r r') (layers : Layers) (v : Json) :
    Defines (sc.node r layers v) (sc'.node r' layers v) := by
  cases v with
  | array items => exact (tree_le hr layers _).map _
  | object fields =>
    simp only [node, target_eq h]
    split
    · exact .refl _
    · split
      · exact .refl _
      · split
        · have ha := ‹sc.allowed fields = true›
          rw [if_pos (h.allowed fields ha)]
          exact (brick_le h hr (h.steady.imp And.left (·.2 fields ha)) layers _ _).map _
        · exact .none
  | _ => exact .refl _

/-- Deeper drawings are as those before, over scenes that allow as much. -/
theorem upTo_le (h : sc.Le sc') {depth depth' : Nat} (hd : depth ≤ depth') :
    ArtistLe (sc.upTo depth) (sc'.upTo depth') := by
  induction depth generalizing depth' with
  | zero => exact fun _ _ => .none
  | succ depth ih =>
    obtain ⟨depth', rfl⟩ : ∃ n, depth' = n + 1 := ⟨depth' - 1, by omega⟩
    exact fun layers v => node_le h (ih (by omega)) layers v

/-! ### Components -/

theorem under_le (hr : ArtistLe r r') (layers : Layers) (p : Props) (name : String) :
    Defines (under r layers p name) (under r' layers p name) := by
  unfold under
  split
  · exact tree_le hr layers _
  · exact .refl _

theorem forEach_le (hr : ArtistLe r r') (layers : Layers) (p : Props) :
    Defines (forEach r layers p) (forEach r' layers p) := by
  unfold forEach
  split
  · exact .mapM _ fun e _ => (tree_le hr _ _).map _
  · exact .refl _

theorem slot_le (hr : ArtistLe r r') (layers : Layers) (p : Props) :
    Defines (slot r layers p) (slot r' layers p) := by
  unfold slot
  split
  · exact tree_le hr layers _
  · exact .refl _

theorem proxyNode_le (h : sc.Le sc') (hr : ArtistLe r r') {layers : Layers} {p : Proxy}
    (hp : ∀ d ∈ p.dynamic, sc'.current? layers d = sc.current? layers d) :
    Defines (sc.proxyNode r layers p) (sc'.proxyNode r' layers p) := by
  have hprops : sc'.proxyProps layers p = sc.proxyProps layers p := by
    refine List.foldl_ext _ _ _ fun props d hd => ?_
    rw [hp d (List.mem_filter.1 hd).1]
  have hkids : Defines (sc.proxyKids r layers p) (sc'.proxyKids r' layers p) := by
    unfold proxyKids
    split
    · rw [hp _ (List.mem_of_find?_eq_some ‹_›)]
      split
      · exact content_le hr layers _
      · exact .refl _
    · split
      · exact tree_le hr layers _
      · exact .refl _
  unfold proxyNode
  rw [hprops]
  exact hkids.bind fun _ => (build_le h hr _ _ _ _).bind fun _ => .refl _

theorem request_congr (hroot : sc'.root = sc.root) (layers : Layers) (p : Props) :
    sc'.request? layers p = sc.request? layers p := by
  have hfield : sc'.bodyField layers = sc.bodyField layers := by
    funext fields entry
    simp only [bodyField, bodyValue, evaluateText?, evaluate_congr hroot]
  simp only [request?, body?, hfield]

theorem fetch_le (hr : ArtistLe r r') (layers : Layers) (p : Props) (state : FetchState) :
    Defines (fetch r layers p state) (fetch r' layers p state) := by
  unfold fetch
  split
  · exact .refl _
  · split
    · exact under_le hr layers _ _
    · split
      · exact tree_le hr _ _
      · exact .refl _

/-- A component is drawn again as it was, if its expressions have the values they had. -/
theorem component_le (h : sc.Le sc') (hr : ArtistLe r r') {layers : Layers} {c : Component}
    (hc : ∀ p, c = .proxy p → ∀ d ∈ p.dynamic, sc'.current? layers d = sc.current? layers d) :
    Defines (sc.component r layers c) (sc'.component r' layers c) := by
  cases c with
  | proxy p => exact (proxyNode_le h hr (hc p rfl)).map _
  | conditional props => exact under_le hr layers _ _
  | forEach props => exact forEach_le hr layers _
  | slot props => exact slot_le hr layers _
  | fetch f =>
    simp only [component]
    cases hf : sc.fetches with
    | false => exact .none
    | true =>
      rw [if_pos rfl, if_pos (h.fetches hf)]
      obtain ⟨hroot, hanswer⟩ := h.steady.resolve_right (by simp [hf])
      have hstate : sc'.firstState layers f = sc.firstState layers f := by
        simp only [firstState, request_congr hroot, hanswer]
      rw [hstate]
      exact fetch_le hr layers _ _
  | probe | plain => exact .refl _

theorem sent_congr (hroot : sc'.root = sc.root) (layers : Layers) (c : Component) :
    sc'.sent? layers c = sc.sent? layers c := by
  cases c with
  | fetch f => simp only [sent?, request_congr hroot]
  | _ => rfl

/-- Over the same values, pictures are the same at every depth that suffices. -/
theorem picture_le (h : sc.Le sc') (hroot : sc'.root = sc.root) {depth depth' : Nat}
    (hd : depth ≤ depth') (k : Sketch) : Defines (sc.picture depth k) (sc'.picture depth' k) := by
  induction depth generalizing depth' k with
  | zero => exact .none
  | succ depth ih =>
    obtain ⟨depth', rfl⟩ : ∃ n, depth' = n + 1 := ⟨depth' - 1, by omega⟩
    have all (ks : List Sketch) : Defines (ks.mapM (sc.picture depth)) (ks.mapM (sc'.picture depth')) :=
      .mapM ks fun k _ => ih (by omega) k
    cases k with
    | primitive v => exact .refl _
    | element tag key props children => exact (all children).map _
    | fragment key children => exact (all children).map _
    | component key layers c =>
      refine (component_le h (upTo_le h (by omega)) fun p _ d _ => ?_).bind fun nodes =>
        (all nodes).bind fun _ => .of_eq ?_
      · simp only [current?, evaluate_congr hroot]
      · rw [sent_congr hroot]

theorem pictures_le (h : sc.Le sc') (hroot : sc'.root = sc.root) {depth depth' : Nat}
    (hd : depth ≤ depth') (layers : Layers) (layout : Json) :
    Defines (sc.pictures depth layers layout) (sc'.pictures depth' layers layout) :=
  (tree_le (upTo_le h hd) layers layout).bind fun ks => .mapM ks fun k _ => picture_le h hroot hd k

/-- At whatever depths two pictures of one sketch are drawn, they are the same. -/
theorem picture_unique {depth depth' : Nat} {k : Sketch} {p q : Picture}
    (hp : sc.picture depth k = some p) (hq : sc.picture depth' k = some q) : p = q := by
  have hp' := picture_le (.refl sc) rfl (Nat.le_max_left depth depth') k p hp
  have hq' := picture_le (.refl sc) rfl (Nat.le_max_right depth depth') k q hq
  exact Option.some.inj (hp'.symm.trans hq')

end Scene
end LiveLayout
