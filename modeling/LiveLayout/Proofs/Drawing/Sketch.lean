import LiveLayout.Proofs.Drawing.Scene
import LiveLayout.Proofs.Fields
/-!
Sketches of nodes and of mounted trees, and where their components stand.
-/
namespace LiveLayout

/-- A property without what only the engine needs to know of it. -/
def Property.bare : Property → Property
  | .value v => .value v
  | .handler _ => Scene.someHandler
  | .rendering _ => .rendering .echoed

theorem Property.toJson_bare (p : Property) : p.bare.toJson = p.toJson := by cases p <;> rfl

theorem Property.value?_bare (p : Property) : p.bare.value? = p.value? := by cases p <;> rfl

namespace Props

def bare (p : Props) : Props := p.map fun e => (e.1, e.2.bare)

theorem get?_bare (p : Props) (name : String) :
    Fields.get? p.bare name = (Fields.get? p name).map Property.bare := Fields.get?_map ..

@[simp] theorem bare_insert (p : Props) (name : String) (v : Property) :
    (p.insert name v).bare = p.bare.insert name v.bare := (Fields.insertSorted_map ..).symm

theorem bare_erase (p : Props) (name : String) :
    bare (Fields.erase p name) = Fields.erase p.bare name := (Fields.erase_map ..).symm

@[simp] theorem value?_bare (p : Props) (name : String) : p.bare.value? name = p.value? name := by
  unfold value?
  rw [get?_bare]
  cases Fields.get? p name with
  | none => rfl
  | some v => simp [Property.value?_bare]

@[simp] theorem text?_bare (p : Props) (name : String) : p.bare.text? name = p.text? name := by
  simp [text?]

theorem rendering?_bare (p : Props) : p.bare.rendering? = p.rendering?.map fun _ => .echoed := by
  unfold rendering?
  rw [get?_bare]
  cases Fields.get? p renderingName with
  | none => rfl
  | some v => cases v <;> rfl

/-- All renderings among the properties are by the interpreter, in the scope. -/
def At (i : Nat) (scope : Scope) (p : Props) : Prop :=
  ∀ e ∈ p, ∀ r, e.2 = .rendering r → r = .interpreted i scope

variable {i : Nat} {scope : Nat} {p : Props}

theorem At.insert (h : p.At i scope) (name : String) {v : Property}
    (hv : ∀ r, v = .rendering r → r = .interpreted i scope) : (p.insert name v).At i scope := by
  intro e he
  rcases Fields.mem_insertSorted he with rfl | he
  · exact hv
  · exact h e he

theorem At.erase (h : p.At i scope) (name : String) : At i scope (Fields.erase p name) :=
  fun e he => h e ((Fields.erase_sublist p name).subset he)

theorem At.nil : At i scope [] := fun _ he => nomatch he

theorem At.rendering_eq (h : p.At i scope) {r : Rendering} (hr : p.rendering? = some r) :
    r = .interpreted i scope := by
  obtain ⟨v, hv, hr⟩ := Option.bind_eq_some_iff.1 hr
  refine h _ (Fields.mem_of_get? hv) r ?_
  cases v <;> simp_all [Property.rendering?]

end Props

/-- Its expressions are parsed, and it follows the variables that they read. -/
def Proxy.Parsed (p : Proxy) : Prop :=
  Scene.parsed (p.dynamic.map fun d => (d.name, d.text)) = (p.dynamic, p.depends)

namespace Scene

/-- One marked property more. -/
def parse (done : List Dynamic × List String) (e : String × String) : List Dynamic × List String :=
  match Expr.parse e.2 with
  | .ok expr => (done.1 ++ [⟨e.1, e.2, some expr⟩], expr.collect done.2)
  | .error _ => (done.1 ++ [⟨e.1, e.2, none⟩], done.2)

theorem parsed_eq (entries : List (String × String)) : parsed entries = entries.foldl parse ([], []) := rfl

theorem map_foldl_parse (entries : List (String × String)) (done : List Dynamic × List String) :
    (entries.foldl parse done).1.map (fun d => (d.name, d.text)) =
      done.1.map (fun d => (d.name, d.text)) ++ entries := by
  induction entries generalizing done with
  | nil => simp
  | cons e rest ih =>
    rw [List.foldl_cons, ih, parse]
    cases Expr.parse e.2 <;> simp

theorem parsed_map (entries : List (String × String)) :
    (parsed entries).1.map (fun d => (d.name, d.text)) = entries := by
  rw [parsed_eq, map_foldl_parse, List.map_nil, List.nil_append]

end Scene

namespace Component

/-- A component without numbers. -/
def bare : Component → Component
  | .proxy p => .proxy { p with fixed := p.fixed.bare, scope := 0, interpreter := 0, subscriber := none }
  | .conditional props => .conditional props.bare
  | .forEach props => .forEach props.bare
  | .slot props => .slot props.bare
  | .fetch f => .fetch { f with props := f.props.bare, scope := 0 }
  | .probe _ _ | .plain _ => .plain []

def renderingLayers (σ : Store) (p : Props) : Layers :=
  match p.rendering? with
  | some (.interpreted _ scope) => σ.layers scope
  | _ => []

/-- The layers that a component renders in. -/
def layers (σ : Store) : Component → Layers
  | .proxy p => σ.layers p.scope
  | .fetch f => σ.layers f.scope
  | .conditional props | .forEach props | .slot props => renderingLayers σ props
  | .probe _ _ | .plain _ => []

/-- The component renders by the interpreter, in the scope, and fetches if there is a transport. -/
def At (i : Nat) (transport : Bool) (scope : Scope) : Component → Prop
  | .proxy p => p.interpreter = i ∧ p.scope = scope ∧ p.fixed.At i scope ∧ p.Parsed
  | .conditional props | .forEach props | .slot props => props.At i scope
  | .fetch f => f.scope = scope ∧ f.transport = transport ∧ f.props.At i scope
  | .probe _ _ | .plain _ => False

theorem renderingLayers_congr {σ τ : Store} {i scope : Nat} {p : Props} (h : p.At i scope)
    (hl : τ.layers scope = σ.layers scope) : renderingLayers τ p = renderingLayers σ p := by
  unfold renderingLayers
  cases hr : p.rendering? with
  | none => rfl
  | some r =>
    obtain rfl := h.rendering_eq hr
    exact hl

theorem At.layers_congr {σ τ : Store} {i scope : Nat} {tr : Bool} {c : Component} (h : c.At i tr scope)
    (hl : τ.layers scope = σ.layers scope) : c.layers τ = c.layers σ := by
  cases c with
  | proxy p =>
    obtain ⟨-, rfl, -⟩ := h
    exact hl
  | fetch f =>
    obtain ⟨rfl, -⟩ := h
    exact hl
  | conditional props | forEach props | slot props => exact renderingLayers_congr h hl
  | probe | plain => rfl

end Component

namespace Node

mutual

/-- The components of a node; those that they will render do not count. -/
def components : Node → List Component
  | .primitive _ => []
  | .element _ _ _ children => componentsAll children
  | .component _ c => [c]
  | .fragment _ children => componentsAll children

def componentsAll : List Node → List Component
  | [] => []
  | n :: rest => components n ++ componentsAll rest

end

mutual

def sketch (σ : Store) : Node → Sketch
  | .primitive v => .primitive v
  | .element tag key props children => .element tag key props.bare (sketchAll σ children)
  | .component key c => .component key (c.layers σ) c.bare
  | .fragment key children => .fragment key (sketchAll σ children)

def sketchAll (σ : Store) : List Node → List Sketch
  | [] => []
  | n :: rest => sketch σ n :: sketchAll σ rest

end

theorem sketchAll_eq (σ : Store) (ns : List Node) : sketchAll σ ns = ns.map (sketch σ) := by
  induction ns with
  | nil => rfl
  | cons n rest ih => rw [sketchAll, ih, List.map_cons]

theorem mem_componentsAll {c : Component} {ns : List Node} :
    c ∈ componentsAll ns ↔ ∃ n ∈ ns, c ∈ n.components := by
  induction ns with
  | nil => simp [componentsAll]
  | cons n rest ih => simp [componentsAll, ih]

/-- All components of the node satisfy the predicate. -/
def Placed (P : Component → Prop) (n : Node) : Prop := ∀ c ∈ n.components, P c

variable {P Q : Component → Prop} {n : Node}

theorem Placed.mono (h : n.Placed P) (hPQ : ∀ c, P c → Q c) : n.Placed Q :=
  fun c hc => hPQ c (h c hc)

theorem placed_primitive (v : Json) : (primitive v).Placed P := fun _ h => nomatch h

theorem placed_element {tag : String} {key : Option String} {props : Props} {children : List Node} :
    (element tag key props children).Placed P ↔ ∀ n ∈ children, n.Placed P := by
  simp only [Placed, components, mem_componentsAll]
  exact ⟨fun h n hn c hc => h c ⟨n, hn, hc⟩, fun h c ⟨n, hn, hc⟩ => h n hn c hc⟩

theorem placed_fragment {key : Option String} {children : List Node} :
    (fragment key children).Placed P ↔ ∀ n ∈ children, n.Placed P := by
  simp only [Placed, components, mem_componentsAll]
  exact ⟨fun h n hn c hc => h c ⟨n, hn, hc⟩, fun h c ⟨n, hn, hc⟩ => h n hn c hc⟩

theorem placed_component {key : Option String} {c : Component} :
    (component key c).Placed P ↔ P c := by
  simp [Placed, components]

theorem Placed.withKey? (h : n.Placed P) (key : Option String) : (n.withKey? key).Placed P := by
  cases key with
  | none => exact h
  | some key => cases n <;> exact h

theorem sketch_withKey? (σ : Store) (key : Option String) (n : Node) :
    (n.withKey? key).sketch σ = (n.sketch σ).withKey? key := by
  cases key with
  | none => rfl
  | some key => cases n <;> rfl

mutual

/-- A sketch does not change while the layers of the scopes in it stay. -/
theorem sketch_congr {σ τ : Store} : (n : Node) → (∀ c ∈ n.components, c.layers τ = c.layers σ) →
    n.sketch τ = n.sketch σ
  | .primitive _, _ => rfl
  | .element _ _ _ children, h => by rw [sketch, sketch, sketchAll_congr children h]
  | .component _ c, h => by rw [sketch, sketch, h c (List.mem_singleton.2 rfl)]
  | .fragment _ children, h => by rw [sketch, sketch, sketchAll_congr children h]

theorem sketchAll_congr {σ τ : Store} : (ns : List Node) →
    (∀ c ∈ componentsAll ns, c.layers τ = c.layers σ) → sketchAll τ ns = sketchAll σ ns
  | [], _ => rfl
  | n :: rest, h => by
    rw [sketchAll, sketchAll, sketch_congr n fun c hc => h c (List.mem_append_left _ hc),
      sketchAll_congr rest fun c hc => h c (List.mem_append_right _ hc)]

end

theorem Placed.sketch_congr {σ τ : Store} (h : n.Placed P) (hl : ∀ c, P c → c.layers τ = c.layers σ) :
    n.sketch τ = n.sketch σ := Node.sketch_congr n fun c hc => hl c (h c hc)

end Node
end LiveLayout
