import LiveLayout.Proofs.Drawing.Reads
import LiveLayout.Proofs.Forking.Bricks
import LiveLayout.Proofs.Refreshing.UpToDate
/-!
What a node shows of its own, without what is in it, and what a proxy should show of its brick: the properties with the
values that its expressions have in its scope.
-/
namespace LiveLayout

/-- The node alone, without what is in it or where it stands. -/
def Sketch.front : Sketch → Sketch
  | .primitive v => .primitive v
  | .element tag key props _ => .element tag key props []
  | .component key _ c => .component key [] c
  | .fragment key _ => .fragment key []

theorem Sketch.front_withKey? (key : Option String) (k : Sketch) : (k.withKey? key).front = k.front.withKey? key := by
  cases key with
  | none => rfl
  | some key => cases k <;> rfl

def Mounted.front (m : Mounted) : Sketch := (m.sketch {}).front

theorem Mounted.front_sketch (σ : Store) (m : Mounted) : (m.sketch σ).front = m.front := by cases m <;> rfl

/-! ### Fronts of bricks -/

/-- What a recipe makes of the properties. Parts that it renders are not among them. -/
def Recipe.front (props : Props) : Recipe → Sketch
  | .group key => .fragment (some key) []
  | .text s => .primitive (.string s)
  | .container tag attributes =>
    .element tag none (attributes.foldl Fields.erase (Fields.erase props Props.renderingName)) []
  | .card => .element "card" none
    (Fields.erase (Fields.erase (Fields.erase props Props.renderingName) "header") "footer") []

/-- The front of a brick with the properties. -/
def Target.front (transport : Bool) (props : Props) : Target → Sketch
  | .special kind => .component none [] (kind.component transport props)
  | .constructor (.element name) => .element name none props []
  | .constructor (.recipe _ recipe) => recipe.front props
  | .tag name => .element name none props []

namespace Scene

variable {sc : Scene} {render : Artist} {layers : Layers} {props : Props} {nodes : List Sketch} {k : Sketch}

/-- Whatever a container renders of its attributes, it erases them all. -/
theorem fst_containerParts {rendering : Option Layers} {attributes : List String} {done result : Props × List Sketch}
    (h : attributes.foldlM (fun (done : Props × List Sketch) name => do
      match ← layoutAt render rendering (Fields.get? done.1 name) with
      | some nodes => return (Fields.erase done.1 name, done.2 ++ nodes)
      | none => return (Fields.erase done.1 name, done.2)) done = some result) :
    result.1 = attributes.foldl Fields.erase done.1 := by
  induction attributes generalizing done with
  | nil =>
    cases h
    rfl
  | cons name rest ih =>
    rw [List.foldlM_cons] at h
    obtain ⟨next, hnext, h⟩ := Option.bind_eq_some_iff.1 h
    obtain ⟨part, -, hnext⟩ := Option.bind_eq_some_iff.1 hnext
    have herased : next.1 = Fields.erase done.1 name := by
      cases part <;> cases hnext <;> rfl
    rw [ih h, herased, List.foldl_cons]

theorem front_of_follow {recipe : Recipe} (h : follow render recipe layers props nodes = some k) :
    k.front = recipe.front props := by
  cases recipe with
  | group key =>
    cases h
    rfl
  | text s =>
    cases h
    rfl
  | container tag attributes =>
    obtain ⟨result, hparts, h⟩ := Option.bind_eq_some_iff.1 h
    obtain ⟨rest, parts⟩ := result
    obtain rfl : rest = _ := fst_containerParts hparts
    cases h
    rfl
  | card =>
    obtain ⟨header, -, h⟩ := Option.bind_eq_some_iff.1 h
    obtain ⟨footer, -, h⟩ := Option.bind_eq_some_iff.1 h
    cases h
    rfl

theorem front_of_build {target : Target} (h : sc.build render target layers props nodes = some k) :
    k.front = target.front sc.transport props := by
  match target with
  | .special kind =>
    cases kind <;> cases h <;> rfl
  | .constructor (.element tag) | .tag name =>
    cases h
    rfl
  | .constructor (.recipe _ recipe) => exact front_of_follow h

end Scene

/-! ### Fronts of proxies -/

namespace Proxy

/-- The value of a marked property in the store, if it has one. -/
def current? (σ : Store) (p : Proxy) (d : Dynamic) : Option Json :=
  d.expr.bind fun e => (σ.evaluate p.scope e).toOption

/-- The properties with the value of one marked property, or without the property where its expression fails. -/
def setCurrent (σ : Store) (p : Proxy) (props : Props) (d : Dynamic) : Props :=
  match p.current? σ d with
  | some v => props.insert d.name (.value v)
  | none => Fields.erase props d.name

/-- The properties with the values that the expressions have in the store. -/
def evaluated (σ : Store) (p : Proxy) : Props :=
  (p.dynamic.filter (·.name ≠ "children")).foldl (p.setCurrent σ) p.fixed

/-- The front that the brick has in the store. -/
def front (transport : Bool) (σ : Store) (p : Proxy) : Sketch :=
  (p.target.front transport (p.evaluated σ).bare).withKey? p.key

variable {sc : Scene} {σ τ : Store} {p : Proxy}

theorem current?_eq (hroot : sc.root = σ.valueAt? (σ.root p.scope)) (d : Dynamic) :
    sc.current? (σ.layers p.scope) d = p.current? σ d := by
  have hlookup : (σ.layers p.scope).lookup? sc.root = σ.lookup? p.scope := by
    funext x
    rw [hroot, Store.lookup?_eq_layers]
  unfold Scene.current? current? Scene.evaluate? Store.evaluate
  rw [hlookup]

/-- A scene over the store has the same properties for the proxy. -/
theorem proxyProps_eq (hroot : sc.root = σ.valueAt? (σ.root p.scope)) {q : Proxy}
    (hq : Component.bare (.proxy p) = .proxy q) :
    sc.proxyProps (σ.layers p.scope) q = (p.evaluated σ).bare := by
  obtain rfl := Component.proxy.inj hq
  unfold Scene.proxyProps evaluated
  simp only [current?_eq hroot]
  generalize p.fixed = fixed
  induction p.dynamic.filter (·.name ≠ "children") generalizing fixed with
  | nil => rfl
  | cons d rest ih =>
    rw [List.foldl_cons, List.foldl_cons, ← ih, setCurrent]
    cases p.current? σ d with
    | none => rw [Props.bare_erase]
    | some v => rw [Props.bare_insert]; rfl

/-- A proxy that depends on nothing else has the same front where all that it depends on has the same value. -/
theorem front_congr (hparsed : p.Parsed) (transport : Bool)
    (h : ∀ x ∈ p.depends, τ.lookup? p.scope x = σ.lookup? p.scope x) : p.front transport τ = p.front transport σ := by
  have hcurrent : ∀ d ∈ p.dynamic, p.current? τ d = p.current? σ d := by
    intro d hd
    unfold current?
    cases hexpr : d.expr with
    | none => rfl
    | some e =>
      obtain ⟨seen, hseen⟩ := Proxy.Parsed.readsWithin hparsed d hd e hexpr
      rw [Option.bind_some, Option.bind_some, Store.evaluate, Store.evaluate,
        Expr.evaluate_congr seen e fun x hx => h x (hseen hx)]
  unfold front evaluated
  rw [List.foldl_ext (p.setCurrent τ) (p.setCurrent σ) p.fixed fun props d hd => ?_]
  rw [setCurrent, setCurrent, hcurrent d (List.mem_filter.1 hd).1]

/-- What a proxy has rendered has the front that its brick has. -/
theorem map_front (hroot : sc.root = σ.valueAt? (σ.root p.scope)) {render : Artist} {state : FetchState}
    {children : List Mounted}
    (h : sc.again render (σ.layers p.scope) state (Component.bare (.proxy p)) = some (Mounted.sketchAll σ children)) :
    children.map Mounted.front = [p.front sc.transport σ] := by
  obtain ⟨k, hk, heq⟩ := Option.map_eq_some_iff.1 h
  obtain ⟨nodes, -, hk⟩ := Option.bind_eq_some_iff.1 hk
  obtain ⟨built, hbuilt, hk⟩ := Option.bind_eq_some_iff.1 hk
  obtain rfl := Option.some.inj hk
  have hfront := congrArg (List.map Sketch.front) heq.symm
  rw [Mounted.sketchAll_eq_map, List.map_map, List.map_singleton, Sketch.front_withKey?, Scene.front_of_build hbuilt,
    proxyProps_eq hroot rfl] at hfront
  rw [← List.map_congr_left fun m _ => Mounted.front_sketch σ m]
  exact hfront

end Proxy
end LiveLayout
