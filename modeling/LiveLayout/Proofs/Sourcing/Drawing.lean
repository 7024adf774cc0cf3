import LiveLayout.Proofs.Fields
import LiveLayout.Proofs.Sourcing.Asking
/-!
Handlers from the source. Whatever an interpreter renders calls the functions that its source has now, down to those
that the handlers of forms call.
-/
namespace LiveLayout

open Engine

/-- The functions of the user that a handler calls, with the ids of their handlers. -/
def Handler.functions : Handler → List (String × List Action)
  | .user id actions => [(id, actions)]
  | .field _ _ _ none => []
  | .field _ _ _ (some h) => h.functions
  | .container _ _ h => h.functions

variable (i : Nat) (source : Option HandlerSource)

/-- All functions are those that the source has for their ids. -/
def Handler.From (h : Handler) : Prop := ∀ f ∈ h.functions, source.bind (·.find? f.1) = some f.2

/-- The rendering is by the interpreter. -/
def Rendering.By : Rendering → Prop
  | .interpreted j _ => j = i
  | .echoed => True

def Property.From : Property → Prop
  | .value _ => True
  | .handler h => h.From source
  | .rendering r => r.By i

def Props.From (p : Props) : Prop := ∀ e ∈ p, e.2.From i source

/-- What a component of a layout keeps is from the source, and so is what it renders with. -/
def Component.From : Component → Prop
  | .proxy p => p.interpreter = i ∧ p.fixed.From i source
  | .conditional props | .forEach props | .slot props => props.From i source
  | .fetch f => f.props.From i source
  | .probe .. | .plain .. => False

inductive Node.From : Node → Prop
  | primitive (v : Json) : From (.primitive v)
  | element {tag : String} {key : Option String} {props : Props} {children : List Node}
      (own : props.From i source) (inner : ∀ n ∈ children, From n) : From (.element tag key props children)
  | component {key : Option String} {c : Component} (own : c.From i source) : From (.component key c)
  | fragment {key : Option String} {children : List Node} (inner : ∀ n ∈ children, From n) :
      From (.fragment key children)

variable {i source}

namespace Props

variable {p : Props} {name : String}

theorem From.nil : Props.From i source [] := fun _ he => nomatch he

theorem From.insert (h : p.From i source) {v : Property} (hv : v.From i source) : (p.insert name v).From i source := by
  intro e he
  rcases Fields.mem_insertSorted he with rfl | he
  · exact hv
  · exact h e he

theorem From.erase (h : p.From i source) (name : String) : Props.From i source (Fields.erase p name) :=
  fun e he => h e ((Fields.erase_sublist p name).mem he)

theorem From.rendering? (h : p.From i source) {r : Rendering} (hr : p.rendering? = some r) : r.By i := by
  obtain ⟨v, hv, hr⟩ := Option.bind_eq_some_iff.1 hr
  have hfrom := h _ (Fields.mem_of_get? hv)
  cases v with
  | rendering r' =>
    cases hr
    exact hfrom
  | _ => cases hr

end Props

theorem Node.From.withKey? {n : Node} (h : n.From i source) (key : Option String) : (n.withKey? key).From i source := by
  cases key with
  | none => exact h
  | some k =>
    cases h with
    | primitive v => exact .primitive v
    | element own inner => exact .element own inner
    | component own => exact .component own
    | fragment inner => exact .fragment inner

/-! ### Steps that use one source -/

namespace Engine

variable {α β : Type} {Q : α → Prop} {R : β → Prop}

/-- As long as the interpreter has the source, the step asks no other, and what it gives satisfies the condition. -/
def Cites (i : Nat) (source : Option HandlerSource) (x : Engine α) (Q : α → Prop) : Prop :=
  ∀ s, s.Serves i source → Ensures x s fun a s' => Asks (· = i) s s' ∧ Q a

namespace Cites

theorem mono {Q' : α → Prop} {x : Engine α} (h : Cites i source x Q) (hQ : ∀ a, Q a → Q' a) : Cites i source x Q' :=
  fun s hs => (h s hs).mono fun a _ ha => ⟨ha.1, hQ a ha.2⟩

theorem endless : Cites i source (endless : Engine α) Q := fun _ _ => .endless

theorem pure {a : α} (h : Q a) : Cites i source (pure a) Q := fun s _ => .pure ⟨.refl s, h⟩

theorem bind {x : Engine α} {f : α → Engine β} (h : Cites i source x Q) (hf : ∀ a, Q a → Cites i source (f a) R) :
    Cites i source (x >>= f) R := by
  intro s hs
  refine Ensures.bind (h s hs) fun a s₁ ha => ?_
  exact (hf a ha.2 s₁ (hs.keep ha.1.interpreters)).mono fun b s' hb => ⟨ha.1.trans hb.1, hb.2⟩

/-- A step of which only the result matters. -/
theorem after {x : Engine α} {f : α → Engine β} (h : Always (Asks (· = i)) x) (hf : ∀ a, Cites i source (f a) R) :
    Cites i source (x >>= f) R := by
  have hx : Cites i source x fun _ => True := fun s _ => (h s).mono fun _ _ ha => ⟨ha, trivial⟩
  exact hx.bind fun a _ => hf a

theorem foldlM {f : β → α → Engine β} (hf : ∀ b a, R b → Cites i source (f b a) R) {b : β} (hb : R b) (xs : List α) :
    Cites i source (xs.foldlM f b) R := by
  induction xs generalizing b with
  | nil => exact pure hb
  | cons a rest ih =>
    rw [List.foldlM_cons]
    exact (hf b a hb).bind fun c hc => ih hc

theorem mapM {f : α → Engine β} (xs : List α) (hf : ∀ a ∈ xs, Cites i source (f a) R) :
    Cites i source (xs.mapM f) fun bs => ∀ b ∈ bs, R b := by
  induction xs with
  | nil =>
    rw [List.mapM_nil]
    exact pure fun _ hb => nomatch hb
  | cons a rest ih =>
    rw [List.forall_mem_cons] at hf
    rw [List.mapM_cons]
    exact hf.1.bind fun b hb => (ih hf.2).bind fun bs hbs => pure (List.forall_mem_cons.2 ⟨hb, hbs⟩)

theorem filterMapM {f : α → Engine (Option β)} (hf : ∀ a, Cites i source (f a) fun found => ∀ b ∈ found, R b)
    (xs : List α) : Cites i source (xs.filterMapM f) fun bs => ∀ b ∈ bs, R b := by
  induction xs with
  | nil => exact pure fun _ hb => nomatch hb
  | cons a rest ih =>
    rw [List.filterMapM_cons]
    refine (hf a).bind fun found hfound => ?_
    cases found with
    | none => exact ih
    | some b => exact ih.bind fun bs hbs => pure (List.forall_mem_cons.2 ⟨hfound b rfl, hbs⟩)

end Cites
end Engine

/-! ### Rendering -/

namespace Renderer

theorem handler?_cites (id : String) :
    Cites i source (handler? i id) fun found => ∀ h ∈ found, h.From source := by
  intro s hs
  refine (handler?_asks id hs).mono ?_
  rintro _ s' ⟨rfl, hasks⟩
  refine ⟨hasks, fun h hh f hf => ?_⟩
  obtain ⟨actions, hfind, rfl⟩ := Option.map_eq_some_iff.1 hh
  obtain rfl := List.mem_singleton.1 hf
  exact hfind

theorem property?_cites (b : Brick) (scope : Scope) (name : String) (raw : Json) :
    Cites i source (property? i b scope name raw) fun found => ∀ p ∈ found, p.From i source := by
  unfold property?
  split
  · split
    · refine (handler?_cites _).bind fun found hfound => ?_
      split
      · refine .pure fun p hp => ?_
        cases hp
        exact hfound _ rfl
      · exact .after (.log _) fun _ => .pure fun _ hp => nomatch hp
    · refine .after (evaluate?_always _ _) fun v => .pure fun p hp => ?_
      obtain ⟨w, -, rfl⟩ := Option.map_eq_some_iff.1 hp
      trivial
  · refine .pure fun p hp => ?_
    cases hp
    trivial

theorem userHandler?_cites (b : Brick) (hook : String) :
    Cites i source (userHandler? i b hook) fun found => ∀ h ∈ found, h.From source := by
  unfold userHandler?
  split
  · exact handler?_cites _
  · refine .pure ?_
    intro h hh
    cases hh

theorem wireField_cites (b : Brick) (hooks : List (String × HookArgument)) (scope : Scope) {props : Props}
    (h : props.From i source) : Cites i source (wireField i b hooks scope props) (Props.From i source) := by
  unfold wireField
  split
  · exact .after (.log _) fun _ => .pure h
  · refine .foldlM (fun props hook hprops => ?_) h hooks
    refine (userHandler?_cites b _).bind fun user huser => .after (.trace _) fun _ => .pure (hprops.insert ?_)
    cases user with
    | none => exact fun _ hf => nomatch hf
    | some user => exact huser user rfl

theorem wireContainer_cites (b : Brick) (hooks : List String) (scope : Scope) {props : Props}
    (h : props.From i source) : Cites i source (wireContainer i b hooks scope props) (Props.From i source) := by
  refine .foldlM (fun props hook hprops => (userHandler?_cites b hook).bind fun user huser => ?_) h hooks
  cases user with
  | none => exact .pure hprops
  | some user =>
    refine .pure (hprops.insert ?_)
    cases b.name? with
    | none => exact huser user rfl
    | some name => exact huser user rfl

theorem fixedProps_cites (b : Brick) (typeName : String) (dynamic : List String) (scope : Scope) :
    Cites i source (fixedProps i b typeName dynamic scope) (Props.From i source) := by
  refine .after .get fun s => .after (interpreter?_always i) fun r => ?_
  refine .bind (Q := Props.From i source) ?_ fun props hprops => ?_
  · refine .foldlM (fun props (e : String × Json) hprops => ?_) .nil _
    refine (property?_cites b scope e.1 e.2).bind fun found hfound => ?_
    split
    · exact .pure (hprops.insert (hfound _ rfl))
    · exact .pure hprops
  · dsimp only
    cases s.registry.container? typeName with
    | none =>
      split
      · exact (wireField_cites b _ scope hprops).bind fun _ h => .pure h
      · exact .bind (.pure hprops) fun _ h => .pure h
    | some hooks =>
      split
      · exact (wireField_cites b _ scope hprops).bind fun _ h => wireContainer_cites b hooks scope h
      · exact .bind (.pure hprops) fun _ h => wireContainer_cites b hooks scope h

section

variable {render : Renderer}
  (hrender : ∀ v scope, Cites i source (render i v scope) fun found => ∀ n ∈ found, n.From i source)

include hrender

theorem tree_cites (layout : Json) (scope : Scope) :
    Cites i source (tree render i layout scope) fun ns => ∀ n ∈ ns, n.From i source := by
  unfold tree
  split
  · exact .filterMapM (fun item => hrender item scope) _
  · refine (hrender _ scope).bind fun found hfound => .pure fun n hn => ?_
    exact hfound n (Option.mem_toList.1 hn)

theorem kids_cites {r : Rendering} (hr : r.By i) (layout : Json) (fork : Option (String × List (String × Json))) :
    Cites i source (kids render r layout fork) fun ns => ∀ n ∈ ns, n.From i source := by
  cases r with
  | interpreted j scope =>
    obtain rfl : j = i := hr
    cases fork with
    | none => exact tree_cites hrender _ _
    | some bindings =>
      exact .after (.modifyGet fun s => .of_same rfl rfl) fun _ => tree_cites hrender _ _
  | echoed =>
    refine .after (.emit rfl) fun _ => .pure fun n hn => ?_
    obtain rfl := List.mem_singleton.1 hn
    exact .primitive _

theorem content_cites (v : Json) (scope : Scope) :
    Cites i source (content render i v scope) fun ns => ∀ n ∈ ns, n.From i source := by
  unfold content
  split
  · exact .pure fun _ hn => nomatch hn
  · exact tree_cites hrender _ _
  · exact tree_cites hrender _ _
  · refine .pure fun n hn => ?_
    obtain rfl := List.mem_singleton.1 hn
    exact .primitive _

theorem children_cites (given : Option Json) (scope : Scope) :
    Cites i source (children render i given scope) fun ns => ∀ n ∈ ns, n.From i source := by
  unfold children
  split
  · exact .pure fun _ hn => nomatch hn
  · exact .pure fun _ hn => nomatch hn
  · refine .after (evaluate?_always _ _) fun v => ?_
    split
    · exact content_cites hrender _ _
    · exact .pure fun _ hn => nomatch hn
  · exact tree_cites hrender _ _

variable {rendering : Option Rendering} (hr : ∀ r ∈ rendering, r.By i)

include hr

theorem layoutAt_cites (p : Option Property) : Cites i source (layoutAt render rendering p) fun found =>
    ∀ ns ∈ found, ∀ n ∈ ns, n.From i source := by
  unfold layoutAt
  split
  · refine (kids_cites hrender (hr _ rfl) _ _).bind fun ns hns => .pure fun ns' hns' => ?_
    cases hns'
    exact hns
  · exact .pure fun _ h => nomatch h

theorem section?_cites (props : Props) (name : String) :
    Cites i source (section? render rendering props name) fun ns => ∀ n ∈ ns, n.From i source := by
  refine (layoutAt_cites hrender hr _).bind fun found hfound => ?_
  split
  · refine .pure fun n hn => ?_
    obtain rfl := List.mem_singleton.1 hn
    exact .element .nil (hfound _ rfl)
  · exact .pure fun _ hn => nomatch hn

omit hr

variable {props : Props} {children : List Node} (hprops : props.From i source) (hchildren : ∀ n ∈ children, n.From i source)

include hprops hchildren

theorem follow_cites (recipe : Recipe) : Cites i source (follow render recipe props children) (Node.From i source) := by
  have hr : ∀ r ∈ props.rendering?, r.By i := fun r h => hprops.rendering? h
  unfold follow
  split
  · exact .pure (.fragment hchildren)
  · exact .pure (.primitive _)
  · refine .bind (Q := fun e => Props.From i source e.1 ∧ ∀ n ∈ e.2, n.From i source)
      (.foldlM (fun e name he => ?_) ⟨hprops.erase _, fun _ hn => nomatch hn⟩ _) fun e he => .pure (.element he.1 ?_)
    · refine (layoutAt_cites hrender hr _).bind fun found hfound => ?_
      split
      · exact .pure ⟨he.1.erase _, fun n hn => (List.mem_append.1 hn).elim (he.2 n) (hfound _ rfl n)⟩
      · exact .pure ⟨he.1.erase _, he.2⟩
    · exact fun n hn => (List.mem_append.1 hn).elim (he.2 n) (hchildren n)
  · refine (section?_cites hrender hr _ _).bind fun header hheader => ?_
    refine (section?_cites hrender hr _ _).bind fun footer hfooter => .pure (.element ?_ fun n hn => ?_)
    · exact ((hprops.erase _).erase _).erase _
    · rcases List.mem_append.1 hn with hn | hn
      · rcases List.mem_append.1 hn with hn | hn
        · exact hheader n hn
        · obtain rfl := List.mem_singleton.1 hn
          exact .element .nil hchildren
      · exact hfooter n hn

theorem build_cites (target : Target) (scope : Scope) (transport : Bool) :
    Cites i source (build render target props children scope transport) (Node.From i source) := by
  unfold build
  split
  · exact .pure (.component hprops)
  · exact .pure (.component hprops)
  · exact .pure (.component hprops)
  · exact .pure (.component hprops)
  · exact .pure (.element hprops hchildren)
  · exact follow_cites hrender hprops hchildren _
  · exact .pure (.element hprops hchildren)

omit hprops hchildren

theorem brick_cites (b : Brick) (typeName : String) (target : Target) (scope : Scope) :
    Cites i source (brick render i b typeName target scope) (Node.From i source) := by
  refine .after (.trace _) fun _ => (fixedProps_cites b typeName _ scope).bind fun props hprops => .after .get fun s => ?_
  have hgiven : ∀ on : Bool, Props.From i source (if on then
      props.insert Props.renderingName (.rendering (.interpreted i scope)) else props) := by
    intro on
    split
    · exact hprops.insert rfl
    · exact hprops
  dsimp only
  split
  · refine (children_cites hrender _ scope).bind fun nodes hnodes => .after (interpreter?_always i) fun r => ?_
    exact (build_cites hrender (hgiven _) hnodes target scope _).bind fun n hn => .pure (hn.withKey? _)
  · exact .after (interpreter?_always i) fun _ => .after (parseMarked_always _) fun _ => .pure (.component ⟨rfl, hgiven _⟩)

theorem node_cites (v : Json) (scope : Scope) :
    Cites i source (node render i v scope) fun found => ∀ n ∈ found, n.From i source := by
  unfold node
  split
  · exact .pure fun _ hn => nomatch hn
  · refine (tree_cites hrender _ _).bind fun ns hns => .pure fun n hn => ?_
    cases hn
    exact .fragment hns
  · split
    · exact .after (.log _) fun _ => .pure fun _ hn => nomatch hn
    · refine .after (resolve?_always _ _) fun target => ?_
      split
      · exact .pure fun _ hn => nomatch hn
      · refine (brick_cites hrender _ _ _ _).bind fun n hn => .pure fun n' hn' => ?_
        cases hn'
        exact hn
  · refine .pure fun n hn => ?_
    cases hn
    exact .primitive _

end

/-- What an interpreter renders is from its source. -/
theorem upTo_cites (depth : Nat) (v : Json) (scope : Scope) :
    Cites i source (upTo depth i v scope) fun found => ∀ n ∈ found, n.From i source := by
  induction depth generalizing v scope with
  | zero => exact .endless
  | succ depth ih => exact node_cites ih v scope

end Renderer
end LiveLayout
