import LiveLayout.Proofs.Annotating.Places
import LiveLayout.Proofs.Forking.Entries
/-!
Where rendering goes on from a value of a layout: to the items of an array, to the children of a brick, and to the
layouts that a special brick hands to its rendering, as its properties are in the scope.
-/
namespace LiveLayout.Scene

open Json (Place Descent)

/-- What a property of a brick comes from: an entry that is no text, at its place, or a text, which may be an
expression. -/
inductive Stems (sc : Scene) (layers : Layers) (fields : List (String × Json)) (name : String) :
    Option Place → Json → Prop where
  | entry {key : String} {v : Json} (entry : Fields.get? fields key = some v) (plain : v.str? = none)
      (kept : isMetaField key = false ∧ key ≠ "id" ∧ key ≠ "form") (renamed : Renderer.rename sc.config key = name) :
      Stems sc layers fields name (some [.entry key]) v
  | text {key raw : String} {v : Json} (entry : Fields.get? fields key = some (.string raw))
      (renamed : Renderer.rename sc.config key = name) (value : sc.inline? layers raw = some v) :
      Stems sc layers fields name none v

/-- The attributes under which special bricks find what they render, and the layers that this is rendered in, while
requests are in some of the states. -/
inductive Hands (states : FetchState → Prop) (layers : Layers) (p : Props) : Special → String → Layers → Prop where
  | branch : Hands states layers p .conditional (Conditional.branch p) layers
  | template {items : List Json} {item : Json} {binding : String} (list : p.value? "items" = some (.array items))
      (as : p.text? "as" = some binding) (member : item ∈ items) :
      Hands states layers p .forEach "template" ([(binding, item)] :: layers)
  | waiting (pending : states .pending) :
      Hands states layers p .fetch (if (p.value? "loading").isSome then "loading" else "load") layers
  | succeeded {response data layout : Json} {bindings : List (String × Json)}
      (state : states (.succeeded response data))
      (fork : Fetch.fork? p (.succeeded response data) = some (layout, bindings)) :
      Hands states layers p .fetch "success" (bindings :: layers)
  | failed {error layout : Json} {bindings : List (String × Json)} (state : states (.failed error))
      (fork : Fetch.fork? p (.failed error) = some (layout, bindings)) :
      Hands states layers p .fetch "error" (bindings :: layers)
  | named {name : String} (key : p.text? "slotKey" = some name) : Hands states layers p .slot name layers

/-- Rendering goes on from a value to another, in layers of its own. The way is that from one to the other in the
layout; there is none to the value of an expression. -/
inductive Leads (sc : Scene) (states : FetchState → Prop) (layers : Layers) :
    Json → Option Place → Layers → Json → Prop where
  | item {items : List Json} {i : Nat} {w : Json} (item : items[i]? = some w) :
      Leads sc states layers (.array items) (some [.item i]) layers w
  | children {fields : List (String × Json)} {typeName : String} {target : Target} {w : Json}
      (typed : (Brick.mk fields).typeName? = some typeName) (known : sc.target? typeName = some target)
      (entry : Fields.get? fields "children" = some w) (plain : w.str? = none) :
      Leads sc states layers (.object fields) (some [.entry "children"]) layers w
  | evaluated {fields : List (String × Json)} {typeName : String} {target : Target} {w : Json}
      (typed : (Brick.mk fields).typeName? = some typeName) (known : sc.target? typeName = some target)
      (stems : sc.Stems layers fields "children" none w) : Leads sc states layers (.object fields) none layers w
  | handed {fields : List (String × Json)} {typeName name : String} {kind : Special} {origin : Option Place}
      {inner : Layers} {w : Json} (typed : (Brick.mk fields).typeName? = some typeName)
      (special : Special.ofName? typeName = some kind)
      (hands : Hands states layers (sc.settled layers ⟨fields⟩ typeName (.special kind)) kind name inner)
      (value : (sc.settled layers ⟨fields⟩ typeName (.special kind)).value? name = some w)
      (stems : sc.Stems layers fields name origin w) : Leads sc states layers (.object fields) origin inner w
  | slotted {fields : List (String × Json)} {typeName name : String} {origin : Option Place} {slots w : Json}
      (typed : (Brick.mk fields).typeName? = some typeName) (special : Special.ofName? typeName = some .slot)
      (unnamed : (sc.settled layers ⟨fields⟩ typeName (.special .slot)).text? "slotKey" = none)
      (slot : (sc.settled layers ⟨fields⟩ typeName (.special .slot)).text? "slot" = some name)
      (stems : sc.Stems layers fields "slots" origin slots) (entry : slots.get? name = some w) :
      Leads sc states layers (.object fields) (origin.map (· ++ [.entry name])) layers w

/-- Rendering comes from a value to what stands at a place in it. -/
inductive Comes (sc : Scene) (states : FetchState → Prop) : Layers → Json → Place → Layers → Json → Prop where
  | here {layers : Layers} {v : Json} : Comes sc states layers v [] layers v
  | onward {layers inner layers' : Layers} {v w u : Json} {way p : Place}
      (leads : sc.Leads states layers v (some way) inner w) (inside : Comes sc states inner w p layers' u) :
      Comes sc states layers v (way ++ p) layers' u

variable {sc : Scene} {states : FetchState → Prop} {layers inner layers' : Layers} {fields : List (String × Json)}
  {v w : Json} {way p : Place} {name typeName : String} {target : Target}

theorem Stems.get?_of_way (h : sc.Stems layers fields name (some way) v) :
    ∃ key, way = [.entry key] ∧ Fields.get? fields key = some v := by
  cases h with
  | entry entry => exact ⟨_, rfl, entry⟩

theorem Leads.at? (h : sc.Leads states layers v (some way) inner w) : v.at? way = some w := by
  generalize horigin : some way = origin at h
  cases h with
  | item item =>
    cases horigin
    rw [Json.at?_of_step? (v := .array _) (s := .item _) item, Json.at?_nil]
  | children _ _ entry =>
    cases horigin
    rw [Json.at?_of_step? (v := .object _) (s := .entry _) entry, Json.at?_nil]
  | evaluated => cases horigin
  | handed _ _ _ _ stems =>
    subst horigin
    obtain ⟨key, rfl, entry⟩ := stems.get?_of_way
    rw [Json.at?_of_step? (v := .object _) (s := .entry _) entry, Json.at?_nil]
  | @slotted fields typeName name origin slots w _ _ _ _ stems entry =>
    cases origin with
    | none => cases horigin
    | some place =>
      cases horigin
      obtain ⟨key, rfl, hslots⟩ := stems.get?_of_way
      cases slots with
      | object inside =>
        change Json.at? _ [.entry key, .entry name] = some w
        rw [Json.at?_of_step? (v := .object _) (s := .entry _) hslots,
          Json.at?_of_step? (v := .object _) (s := .entry _) entry, Json.at?_nil]
      | _ => cases entry

theorem Comes.at? (h : sc.Comes states layers v p layers' w) : v.at? p = some w := by
  induction h with
  | here => rfl
  | onward leads _ ih => rw [Json.at?_append, leads.at?, Option.bind_some, ih]

/-! ### Properties -/

/-- Every value among the properties is that of an entry. -/
def Stemming (sc : Scene) (layers : Layers) (fields : List (String × Json)) (p : Props) : Prop :=
  ∀ name v, (name, .value v) ∈ p → ∃ origin, sc.Stems layers fields name origin v

namespace Stemming

variable {p : Props} {property : Property}

theorem insert (h : sc.Stemming layers fields p)
    (hvalue : ∀ v, property = .value v → ∃ origin, sc.Stems layers fields name origin v) :
    sc.Stemming layers fields (p.insert name property) := by
  intro name' v hmem
  rcases Fields.mem_insertSorted hmem with heq | hmem
  · cases heq
    exact hvalue v rfl
  · exact h name' v hmem

theorem erase (h : sc.Stemming layers fields p) (name : String) : sc.Stemming layers fields (Fields.erase p name) :=
  fun name' v hmem => h name' v ((Fields.erase_sublist p name).subset hmem)

theorem foldl {α : Type} {f : Props → α → Props} {xs : List α}
    (hstep : ∀ p, ∀ x ∈ xs, sc.Stemming layers fields p → sc.Stemming layers fields (f p x))
    (h : sc.Stemming layers fields p) : sc.Stemming layers fields (xs.foldl f p) := by
  induction xs generalizing p with
  | nil => exact h
  | cons x rest ih =>
    exact ih (fun p y hy => hstep p y (List.mem_cons_of_mem _ hy)) (hstep p x (List.mem_cons_self ..) h)

theorem handler (h : sc.Stemming layers fields p) (name : String) :
    sc.Stemming layers fields (p.insert name someHandler) := h.insert nofun

theorem setOwn (hfields : (fields.map (·.1)).Nodup) (typeName : String) (marks : List String) {e : String × Json}
    (he : e ∈ (Brick.mk fields).props) (h : sc.Stemming layers fields p) :
    sc.Stemming layers fields (sc.setOwn layers typeName marks p e) := by
  obtain ⟨key, raw⟩ := e
  obtain ⟨hmem, hmeta⟩ := List.mem_filter.1 he
  have hget := Fields.get?_of_mem hfields hmem
  unfold Scene.setOwn
  split
  · exact h
  · rename_i hskip
    split
    · rename_i property hproperty
      refine h.insert fun v hv => ?_
      subst hv
      simp only [skips_eq_hooks, Bool.not_eq_true, Bool.or_eq_false_iff, beq_eq_false_iff_ne] at hskip
      cases raw with
      | string raw =>
        dsimp only [property?] at hproperty
        split at hproperty
        · obtain ⟨_, -, hhandler⟩ := Option.map_eq_some_iff.1 hproperty
          cases hhandler
        · obtain ⟨_, hvalue, heq⟩ := Option.map_eq_some_iff.1 hproperty
          cases heq
          exact ⟨none, .text hget rfl hvalue⟩
      | _ =>
        cases hproperty
        exact ⟨_, .entry hget rfl ⟨by simpa using hmeta, hskip.1.1.1, hskip.1.1.2⟩ rfl⟩
    · exact h

theorem setMarked (hfields : (fields.map (·.1)).Nodup) (marks : List String) {e : String × Json} (he : e ∈ fields)
    (h : sc.Stemming layers fields p) : sc.Stemming layers fields (sc.setMarked layers marks p e) := by
  obtain ⟨key, raw⟩ := e
  unfold Scene.setMarked
  split
  · cases htext : raw.str?.bind bindingText? with
    | none => exact h
    | some text =>
      obtain ⟨s, hs, hbinding⟩ := Option.bind_eq_some_iff.1 htext
      cases raw <;> cases hs
      dsimp only
      cases hvalue : sc.evaluateText? layers text with
      | none => exact h.erase _
      | some v =>
        refine h.insert fun w hw => ?_
        cases hw
        exact ⟨none, .text (Fields.get?_of_mem hfields he) rfl ((inline?_of_binding hbinding).trans hvalue)⟩
  · exact h

theorem wire (typeName : String) (h : sc.Stemming layers fields p) :
    sc.Stemming layers fields (sc.wire ⟨fields⟩ typeName p) := by
  have field (hooks : List (String × HookArgument)) (h : sc.Stemming layers fields p) :
      sc.Stemming layers fields (wireField ⟨fields⟩ hooks p) := by
    unfold wireField
    split
    · exact h
    · exact foldl (fun p hook _ h => h.handler hook.1) h
  have container (hooks : List String) {p : Props} (h : sc.Stemming layers fields p) :
      sc.Stemming layers fields (sc.wireContainer ⟨fields⟩ hooks p) := by
    refine foldl (fun p hook _ h => ?_) h
    split
    · rename_i property hproperty
      obtain ⟨id, -, hproperty⟩ := Option.bind_eq_some_iff.1 hproperty
      obtain ⟨_, -, rfl⟩ := Option.map_eq_some_iff.1 hproperty
      exact h.handler hook
    · exact h
  unfold Scene.wire
  cases sc.registry.field? typeName with
  | none =>
    cases sc.registry.container? typeName with
    | none => exact h
    | some hooks => exact container hooks h
  | some fieldHooks =>
    cases sc.registry.container? typeName with
    | none => exact field fieldHooks h
    | some hooks => exact container hooks (field fieldHooks h)

end Stemming

theorem stemming_settled (hfields : (fields.map (·.1)).Nodup) (layers : Layers) (typeName : String) (target : Target) :
    sc.Stemming layers fields (sc.settled layers ⟨fields⟩ typeName target) := by
  have hfixed : sc.Stemming layers fields (sc.fixedProps layers ⟨fields⟩ typeName (Brick.mk fields).expressions) := by
    unfold fixedProps
    rw [ownProps_eq]
    refine (Stemming.foldl (fun p e he h => h.setOwn hfields typeName _ he) ?_).wire typeName
    exact fun _ _ hmem => nomatch hmem
  refine Stemming.foldl (fun p e he h => h.setMarked hfields _ he) ?_
  unfold outfit
  split
  · exact hfixed.insert nofun
  · exact hfixed

/-- A value that a brick's component finds under a name comes from an entry of the brick. -/
theorem exists_stems (hfields : (fields.map (·.1)).Nodup)
    (h : (sc.settled layers ⟨fields⟩ typeName target).value? name = some v) :
    ∃ origin, sc.Stems layers fields name origin v := by
  obtain ⟨property, hget, hvalue⟩ := Option.bind_eq_some_iff.1 (Option.filter_eq_some_iff.1 h).1
  cases property with
  | value w =>
    cases hvalue
    exact stemming_settled hfields layers typeName target name _ (Fields.mem_of_get? hget)
  | _ => cases hvalue

end LiveLayout.Scene
