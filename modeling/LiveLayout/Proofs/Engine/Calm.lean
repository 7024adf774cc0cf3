import LiveLayout.Proofs.Engine.Steps
import LiveLayout.Render.Component
/-!
Steps that leave hosts and requests as they are: whatever renders a layout, and most hooks of components.
-/
namespace LiveLayout

open Engine

/-- Hosts, requests and their answers are as they were. -/
structure Undisturbed (s s' : State) : Prop where
  hosts : s'.hosts = s.hosts
  fetches : s'.fetches = s.fetches
  network : s'.network = s.network

theorem Undisturbed.refl (s : State) : Undisturbed s s := ⟨rfl, rfl, rfl⟩

/-- A relation between the states before and after that steps keep which disturb nothing. -/
class Lenient (R : State → State → Prop) : Prop where
  of_undisturbed : ∀ {s s'}, Undisturbed s s' → R s s'
  trans : ∀ {s s' s''}, R s s' → R s' s'' → R s s''

instance : Lenient Undisturbed where
  of_undisturbed h := h
  trans h h' := ⟨h'.hosts.trans h.hosts, h'.fetches.trans h.fetches, h'.network.trans h.network⟩

/-- The handler that a source is asked for. -/
def Event.lookup? : Event → Option String
  | .lookup id => some id
  | _ => none

/-- Nothing is disturbed, interpreters are as they were, and no source of handlers has been asked. -/
structure Aside (s s' : State) : Prop extends Undisturbed s s' where
  interpreters : s'.interpreters = s.interpreters
  events : ∃ since, s'.events = since ++ s.events ∧ since.filterMap Event.lookup? = []

theorem Aside.of_events {s s' : State} (h : Undisturbed s s') (hinterpreters : s'.interpreters = s.interpreters)
    (hevents : s'.events = s.events) : Aside s s' := ⟨h, hinterpreters, [], hevents, rfl⟩

theorem Aside.refl (s : State) : Aside s s := .of_events (.refl s) rfl rfl

/-- A relation between the states before and after that steps keep which do nothing but on the side. -/
class Mild (R : State → State → Prop) : Prop where
  of_aside : ∀ {s s'}, Aside s s' → R s s'
  trans : ∀ {s s' s''}, R s s' → R s' s'' → R s s''

instance {R : State → State → Prop} [Lenient R] : Mild R :=
  ⟨fun h => Lenient.of_undisturbed h.toUndisturbed, Lenient.trans⟩

namespace Engine

variable {α β : Type} {R R' : State → State → Prop}

/-- From every state, the step is as the relation says, if it gives a result at all. -/
def Always (R : State → State → Prop) (x : Engine α) : Prop := ∀ s, Ensures x s fun _ s' => R s s'

namespace Always

theorem mono {x : Engine α} (hx : Always R x) (h : ∀ s s', R s s' → R' s s') : Always R' x :=
  fun s => (hx s).mono fun _ s' => h s s'

theorem modify {f : State → State} (h : ∀ s, R s (f s)) : Always R (modify f) :=
  fun s => .of_run rfl (h s)

theorem modifyGet {f : State → α × State} (h : ∀ s, R s (f s).2) : Always R (modifyGet f) :=
  fun s => .of_run rfl (h s)

theorem endless : Always R (endless : Engine α) := fun _ => .endless

variable [Mild R]

theorem pure (a : α) : Always R (pure a) := fun s => .pure (Mild.of_aside (.refl s))

theorem get : Always R get := fun s => .of_run rfl (Mild.of_aside (.refl s))

theorem bind {x : Engine α} {f : α → Engine β} (hx : Always R x) (hf : ∀ a, Always R (f a)) :
    Always R (x >>= f) :=
  fun s => Ensures.bind (hx s) fun a s' h => (hf a s').mono fun _ _ h' => Mild.trans h h'

theorem forM {f : α → Engine PUnit} (hf : ∀ a, Always R (f a)) (xs : List α) : Always R (xs.forM f) := by
  induction xs with
  | nil => exact pure ()
  | cons a rest ih => exact (hf a).bind fun _ => ih

theorem mapM {f : α → Engine β} (hf : ∀ a, Always R (f a)) (xs : List α) : Always R (xs.mapM f) := by
  induction xs with
  | nil => rw [List.mapM_nil]; exact pure []
  | cons a rest ih =>
    rw [List.mapM_cons]
    exact (hf a).bind fun _ => ih.bind fun _ => pure _

theorem filterMapM {f : α → Engine (Option β)} (hf : ∀ a, Always R (f a)) (xs : List α) :
    Always R (xs.filterMapM f) := by
  induction xs with
  | nil => exact pure []
  | cons a rest ih =>
    rw [List.filterMapM_cons]
    refine (hf a).bind fun b => ?_
    cases b with
    | none => exact ih
    | some b => exact ih.bind fun _ => pure _

theorem foldlM {f : β → α → Engine β} (hf : ∀ b a, Always R (f b a)) (b : β) (xs : List α) :
    Always R (xs.foldlM f b) := by
  induction xs generalizing b with
  | nil => exact pure b
  | cons a rest ih =>
    rw [List.foldlM_cons]
    exact (hf b a).bind ih

theorem log (n : Notice) : Always R (log n) :=
  .modify fun _ => Mild.of_aside (.of_events ⟨rfl, rfl, rfl⟩ rfl rfl)

theorem emit {e : Event} (h : e.lookup? = none) : Always R (emit e) :=
  .modify fun _ => Mild.of_aside ⟨⟨rfl, rfl, rfl⟩, rfl, [e], rfl, List.filterMap_cons_none h⟩

theorem modifyStore (f : Store → Store) : Always R (modifyStore f) :=
  .modify fun _ => Mild.of_aside (.of_events ⟨rfl, rfl, rfl⟩ rfl rfl)

theorem trace (n : Notice) : Always R (trace n) := by
  refine get.bind fun s => ?_
  split
  · exact log n
  · exact pure ()

end Always

/-- From every state, the step leaves hosts and requests as they are. -/
abbrev Calm (x : Engine α) : Prop := Always Undisturbed x

theorem Calm.always [Lenient R] {x : Engine α} (h : Calm x) : Always R x :=
  h.mono fun _ _ => Lenient.of_undisturbed

end Engine

open Engine

/-! ### Rendering -/

namespace Renderer

variable {render : Renderer} {R : State → State → Prop} [Mild R]

theorem interpreter?_always (i : Nat) : Always R (interpreter? i) := by
  intro s a s' h
  obtain ⟨r, -, heq⟩ := Option.map_eq_some_iff.1 h
  cases heq
  exact Mild.of_aside (.refl s)

theorem handler?_calm (i : Nat) (id : String) : Calm (handler? i id) := by
  refine (interpreter?_always i).bind fun r => ?_
  split
  · exact .pure _
  · dsimp only
    split
    · exact .bind (.pure _) fun _ => .bind (.modify fun _ => ⟨rfl, rfl, rfl⟩) fun _ => .pure _
    · refine .bind (.modify fun _ => ⟨rfl, rfl, rfl⟩) fun _ => ?_
      exact .bind (.pure _) fun _ => .bind (.modify fun _ => ⟨rfl, rfl, rfl⟩) fun _ => .pure _

theorem evaluate?_always (raw : String) (scope : Scope) : Always R (evaluate? raw scope) := by
  unfold evaluate?
  split
  · exact .pure _
  · refine .bind .get fun s => ?_
    split
    · exact .pure _
    · exact .bind (.log _) fun _ => .pure _

theorem resolve?_always (i : Nat) (typeName : String) : Always R (resolve? i typeName) := by
  unfold resolve?
  split
  · exact .pure _
  · refine .bind .get fun s => ?_
    split
    · exact .pure _
    · split
      · exact .pure _
      · exact (interpreter?_always i).bind fun _ => .bind (.log _) fun _ => .pure _

theorem property?_calm (i : Nat) (b : Brick) (scope : Scope) (name : String) (raw : Json) :
    Calm (property? i b scope name raw) := by
  unfold property?
  split
  · split
    · refine (handler?_calm i _).bind fun found => ?_
      split
      · exact .pure _
      · exact .bind (.log _) fun _ => .pure _
    · exact (evaluate?_always _ _).bind fun _ => .pure _
  · exact .pure _

theorem userHandler?_calm (i : Nat) (b : Brick) (hook : String) : Calm (userHandler? i b hook) := by
  unfold userHandler?
  split
  · exact handler?_calm i _
  · exact .pure _

theorem wireField_calm (i : Nat) (b : Brick) (hooks : List (String × HookArgument)) (scope : Scope)
    (props : Props) : Calm (wireField i b hooks scope props) := by
  unfold wireField
  split
  · exact .bind (.log _) fun _ => .pure _
  · refine .foldlM (fun props hook => ?_) props hooks
    exact (userHandler?_calm i b _).bind fun _ => .bind (.trace _) fun _ => .pure _

theorem wireContainer_calm (i : Nat) (b : Brick) (hooks : List String) (scope : Scope)
    (props : Props) : Calm (wireContainer i b hooks scope props) := by
  refine .foldlM (fun props hook => (userHandler?_calm i b hook).bind fun user => ?_) props hooks
  split
  · exact .pure _
  · exact .pure _

theorem fixedProps_calm (i : Nat) (b : Brick) (typeName : String) (dynamic : List String)
    (scope : Scope) : Calm (fixedProps i b typeName dynamic scope) := by
  refine .bind .get fun s => (interpreter?_always i).bind fun r => .bind ?_ fun props => ?_
  · refine .foldlM (fun props (e : String × Json) => (property?_calm i b scope e.1 e.2).bind fun found => ?_) _ _
    split
    · exact .pure _
    · exact .pure _
  · dsimp only
    cases s.registry.container? typeName with
    | none =>
      split
      · exact (wireField_calm i b _ scope props).bind fun _ => .pure _
      · exact .bind (.pure _) fun _ => .pure _
    | some hooks =>
      split
      · exact (wireField_calm i b _ scope props).bind fun _ => wireContainer_calm i b hooks scope _
      · exact .bind (.pure _) fun _ => wireContainer_calm i b hooks scope _

theorem parseMarked_always (entries : List (String × String)) : Always R (parseMarked entries) := by
  refine .foldlM (fun parsed entry => ?_) _ entries
  dsimp only
  split
  · exact .pure _
  · exact .bind (.log _) fun _ => .pure _

section

variable (hrender : ∀ i v scope, Calm (render i v scope))

include hrender

theorem tree_calm (i : Nat) (layout : Json) (scope : Scope) : Calm (tree render i layout scope) := by
  unfold tree
  split
  · exact .filterMapM (fun item => hrender i item scope) _
  · exact (hrender i _ scope).bind fun _ => .pure _

theorem kids_calm (r : Rendering) (layout : Json) (fork : Option (String × List (String × Json))) :
    Calm (kids render r layout fork) := by
  unfold kids
  split
  · exact tree_calm hrender _ _ _
  · exact .bind (.modifyGet fun _ => ⟨rfl, rfl, rfl⟩) fun _ => tree_calm hrender _ _ _
  · exact .bind (.emit rfl) fun _ => .pure _

theorem content_calm (i : Nat) (v : Json) (scope : Scope) : Calm (content render i v scope) := by
  unfold content
  split
  · exact .pure _
  · exact tree_calm hrender _ _ _
  · exact tree_calm hrender _ _ _
  · exact .pure _

theorem children_calm (i : Nat) (given : Option Json) (scope : Scope) :
    Calm (children render i given scope) := by
  unfold children
  split
  · exact .pure _
  · exact .pure _
  · refine (evaluate?_always _ _).bind fun v => ?_
    split
    · exact content_calm hrender _ _ _
    · exact .pure _
  · exact tree_calm hrender _ _ _

theorem layoutAt_calm (rendering : Option Rendering) (p : Option Property) :
    Calm (layoutAt render rendering p) := by
  unfold layoutAt
  split
  · exact (kids_calm hrender _ _ _).bind fun _ => .pure _
  · exact .pure _

theorem section?_calm (rendering : Option Rendering) (props : Props) (name : String) :
    Calm (section? render rendering props name) := by
  refine (layoutAt_calm hrender _ _).bind fun nodes => ?_
  split
  · exact .pure _
  · exact .pure _

theorem follow_calm (recipe : Recipe) (props : Props) (children : List Node) :
    Calm (follow render recipe props children) := by
  unfold follow
  split
  · exact .pure _
  · exact .pure _
  · refine .bind (.foldlM (fun state name => ?_) _ _) fun _ => .pure _
    refine (layoutAt_calm hrender _ _).bind fun nodes => ?_
    split
    · exact .pure _
    · exact .pure _
  · exact (section?_calm hrender _ _ _).bind fun _ => (section?_calm hrender _ _ _).bind fun _ => .pure _

theorem build_calm (target : Target) (props : Props) (children : List Node) (scope : Scope)
    (transport : Bool) : Calm (build render target props children scope transport) := by
  unfold build
  split
  case h_6 => exact follow_calm hrender _ _ _
  all_goals exact .pure _

theorem brick_calm (i : Nat) (b : Brick) (typeName : String) (target : Target) (scope : Scope) :
    Calm (brick render i b typeName target scope) := by
  refine .bind (.trace _) fun _ => (fixedProps_calm i b typeName _ scope).bind fun props =>
    .bind .get fun s => ?_
  dsimp only
  split
  · exact (children_calm hrender i _ scope).bind fun nodes => (interpreter?_always i).bind fun r =>
      (build_calm hrender target _ nodes scope _).bind fun _ => .pure _
  · exact (interpreter?_always i).bind fun _ => (parseMarked_always _).bind fun _ => .pure _

theorem node_calm (i : Nat) (v : Json) (scope : Scope) : Calm (node render i v scope) := by
  unfold node
  split
  · exact .pure _
  · exact (tree_calm hrender _ _ _).bind fun _ => .pure _
  · split
    · exact .bind (.log _) fun _ => .pure _
    · refine (resolve?_always _ _).bind fun target => ?_
      split
      · exact .pure _
      · exact (brick_calm hrender _ _ _ _ _).bind fun _ => .pure _
  · exact .pure _

end

theorem upTo_calm (depth : Nat) : ∀ i v scope, Calm (upTo depth i v scope) := by
  induction depth with
  | zero => exact fun _ _ _ => .endless
  | succ depth ih => exact node_calm ih

end Renderer

/-! ### Hooks -/

variable {R : State → State → Prop} [Mild R]

namespace Proxy

theorem changeSubscriptions_always (p : Proxy) (f : Store → Scope → String → Subscriber → Store) :
    Always R (p.changeSubscriptions f) := by
  unfold changeSubscriptions
  split
  · exact .forM (fun _ => .modifyStore _) _
  · exact .pure _

theorem mount_always (p : Proxy) (self : Instance) : Always R (p.mount self) :=
  (changeSubscriptions_always _ _).bind fun _ => .bind (.trace _) fun _ => .pure _

theorem unmount_always (p : Proxy) : Always R p.unmount := by
  unfold Proxy.unmount
  split
  · exact (changeSubscriptions_always _ _).bind fun _ => .trace _
  · exact .pure _

theorem receive?_always (p q : Proxy) : Always R (p.receive? q) := by
  unfold Proxy.receive?
  split
  · exact .pure _
  · split
    · exact (changeSubscriptions_always _ _).bind fun _ => (changeSubscriptions_always _ _).bind fun _ => .pure _
    · exact .pure _

theorem evaluate?_always (p : Proxy) (d : Dynamic) : Always R (p.evaluate? d) := by
  unfold evaluate?
  split
  · exact .pure _
  · refine .bind .get fun s => ?_
    split
    · exact .pure _
    · exact .bind (.log _) fun _ => .pure _

variable {render : Renderer} (hrender : ∀ i v scope, Calm (render i v scope))

include hrender

theorem kids_calm (p : Proxy) : Calm (p.kids render) := by
  unfold kids
  split
  · refine (evaluate?_always p _).bind fun v => ?_
    split
    · exact Renderer.content_calm hrender _ _ _
    · exact .pure _
  · split
    · exact Renderer.tree_calm hrender _ _ _
    · exact .pure _

theorem node_calm (p : Proxy) : Calm (p.node render) := by
  refine .bind (.foldlM (fun props d => ?_) _ _) fun props => (kids_calm hrender p).bind fun children =>
    (Renderer.interpreter?_always _).bind fun _ => (Renderer.build_calm hrender _ _ _ _ _).bind fun _ => .pure _
  refine (evaluate?_always p d).bind fun v => ?_
  split
  · exact .pure _
  · exact .pure _

end Proxy

section

variable {render : Renderer} (hrender : ∀ i v scope, Calm (render i v scope))

include hrender

theorem Props.render_calm (p : Props) (name : String) : Calm (p.render render name) := by
  unfold Props.render
  split
  · exact Renderer.kids_calm hrender _ _ _
  · exact .pure _

theorem ForEach.render_calm (p : Props) : Calm (ForEach.render render p) := by
  unfold ForEach.render
  split
  · exact .mapM (fun _ => (Renderer.kids_calm hrender _ _ _).bind fun _ => .pure _) _
  · exact .pure _

theorem Slot.render_calm (p : Props) : Calm (Slot.render render p) := by
  unfold Slot.render
  split
  · exact Renderer.kids_calm hrender _ _ _
  · exact .pure _

end

namespace Fetch

theorem fetchRecord?_always (i : Instance) : Always R (fetchRecord? i) := .bind .get fun _ => .pure _

theorem bodyValue_always (scope : Scope) (raw : Json) : Always R (bodyValue scope raw) := by
  unfold bodyValue
  split
  · exact .pure _
  · refine .bind .get fun s => ?_
    split
    · exact .pure _
    · exact .bind (.log _) fun _ => .pure _

theorem body?_always (f : Fetch) : Always R f.body? := by
  unfold body?
  split
  · exact .pure _
  · refine .bind (.foldlM (fun fields entry => ?_) _ _) fun _ => .pure _
    split
    · exact (bodyValue_always _ _).bind fun _ => .pure _
    · exact .bind (.log _) fun _ => .pure _

theorem request?_always (f : Fetch) : Always R f.request? := by
  unfold request?
  split
  · exact .pure _
  · dsimp only
    split
    · exact (body?_always f).bind fun _ => .pure _
    · exact .bind (.pure _) fun _ => .pure _

theorem render_calm {render : Renderer} (hrender : ∀ i v scope, Calm (render i v scope)) (f : Fetch)
    (self : Instance) : Calm (f.render render self) := by
  refine (fetchRecord?_always _).bind fun record => ?_
  dsimp only
  split
  · exact .pure _
  · split
    · exact Props.render_calm hrender _ _
    · split
      · exact Renderer.kids_calm hrender _ _ _
      · exact .pure _

end Fetch

namespace Component

theorem receive?_always (c next : Component) : Always R (c.receive? next) := by
  unfold receive?
  split
  · exact (Proxy.receive?_always _ _).bind fun _ => .pure _
  case h_6 =>
    split
    · exact .bind (.emit rfl) fun _ => .pure _
    · split
      · exact .bind (.emit rfl) fun _ => .pure _
      · exact .bind (.emit rfl) fun _ => .pure _
  all_goals exact .pure _

theorem receive?_calm (c next : Component) : Calm (c.receive? next) := receive?_always c next

end Component
end LiveLayout
