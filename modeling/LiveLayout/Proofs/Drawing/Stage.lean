import LiveLayout.Proofs.Drawing.Sketch
import LiveLayout.Proofs.Engine.Steps
import Mathlib.Data.Option.Basic
/-!
Rendering without side effects. What renders a layout leaves records behind and asks for handlers, and
otherwise changes nothing; its results are those of a scene.
-/
namespace LiveLayout

/-- What the source answered before is what it would answer now. -/
def Interpreter.Faithful (r : Interpreter) : Prop :=
  ∀ id found, Fields.get? r.bound id = some found →
    found = (r.source.bind (·.find? id)).map (Handler.user id)

/-- Interpreters with the same settings. -/
structure Interpreter.Like (r r' : Interpreter) : Prop where
  config : r'.config = r.config
  transport : r'.transport = r.transport
  source : r'.source = r.source
  faithful : r.Faithful → r'.Faithful

namespace Interpreter

/-- An interpreter that has asked for nothing. -/
theorem faithful_of_bound {r : Interpreter} (h : r.bound = []) : r.Faithful := by
  intro id found hfound
  rw [h] at hfound
  cases hfound

theorem Like.refl (r : Interpreter) : r.Like r := ⟨rfl, rfl, rfl, fun h => h⟩

theorem Like.trans {r r' r'' : Interpreter} (h : r.Like r') (h' : r'.Like r'') : r.Like r'' :=
  ⟨h'.config.trans h.config, h'.transport.trans h.transport, h'.source.trans h.source,
    fun hf => h'.faithful (h.faithful hf)⟩

theorem like_bind {r : Interpreter} (id : String) {found : Option Handler}
    (h : found = (r.source.bind (·.find? id)).map (Handler.user id)) :
    r.Like { r with bound := Fields.set r.bound id found } := by
  refine ⟨rfl, rfl, rfl, fun hf other known hk => ?_⟩
  by_cases ho : other = id
  · subst ho
    rw [Fields.get?_set_self] at hk
    rw [← Option.some.inj hk, h]
  · rw [Fields.get?_set_of_ne _ _ ho] at hk
    exact hf other known hk

/-- Every interpreter is still there with its settings. -/
def Keep (rs rs' : List Interpreter) : Prop :=
  ∀ (i : Nat) (r : Interpreter), rs[i]? = some r → ∃ r', rs'[i]? = some r' ∧ Like r r'

theorem Keep.refl (rs : List Interpreter) : Keep rs rs := fun _ r h => ⟨r, h, .refl r⟩

theorem Keep.trans {rs rs' rs'' : List Interpreter} (h : Keep rs rs') (h' : Keep rs' rs'') :
    Keep rs rs'' := by
  intro i r hr
  obtain ⟨r', hr', hl⟩ := h i r hr
  obtain ⟨r'', hr'', hl'⟩ := h' i r' hr'
  exact ⟨r'', hr'', hl.trans hl'⟩

theorem keep_modify {rs : List Interpreter} {i : Nat} {f : Interpreter → Interpreter}
    (h : ∀ r, rs[i]? = some r → r.Like (f r)) : Keep rs (rs.modify i f) := by
  intro j r hj
  rw [List.getElem?_modify, hj]
  by_cases hij : i = j
  · subst hij
    exact ⟨f r, by simp, h r hj⟩
  · exact ⟨r, by simp [hij], .refl r⟩

end Interpreter

/-- The second state differs from the first by records and by what interpreters have asked for. -/
structure Quiet (s s' : State) : Prop where
  rest : s' = { s with notices := s'.notices, events := s'.events, interpreters := s'.interpreters }
  interpreters : Interpreter.Keep s.interpreters s'.interpreters

namespace Quiet

variable {s s' s'' : State}

theorem refl (s : State) : Quiet s s := ⟨rfl, .refl _⟩

theorem trans (h : Quiet s s') (h' : Quiet s' s'') : Quiet s s'' := by
  refine ⟨?_, h.interpreters.trans h'.interpreters⟩
  conv_lhs => rw [h'.rest, h.rest]

theorem store (h : Quiet s s') : s'.store = s.store := by rw [h.rest]

theorem registry (h : Quiet s s') : s'.registry = s.registry := by rw [h.rest]

theorem network (h : Quiet s s') : s'.network = s.network := by rw [h.rest]

theorem fetches (h : Quiet s s') : s'.fetches = s.fetches := by rw [h.rest]

end Quiet

/-- The state offers what the scene draws on, by an interpreter, over a root of its store. -/
structure OnStage (s : State) (i : Nat) (root : Scope) (sc : Scene) : Prop where
  registry : s.registry = sc.registry
  interpreter : ∃ r, s.interpreters[i]? = some r ∧ r.config = sc.config ∧
    r.transport = sc.transport ∧ r.source = sc.source ∧ r.Faithful
  root : s.store.valueAt? root = sc.root
  answer : s.network.immediate = sc.answer
  allowed : sc.allowed = fun _ => true
  fetches : sc.fetches = true

theorem OnStage.quiet {s s' : State} {i : Nat} {root : Scope} {sc : Scene}
    (h : OnStage s i root sc) (hq : Quiet s s') : OnStage s' i root sc := by
  refine ⟨hq.registry.trans h.registry, ?_, by rw [hq.store, h.root], by rw [hq.network, h.answer],
    h.allowed, h.fetches⟩
  obtain ⟨r, hr, hc, ht, hs, hf⟩ := h.interpreter
  obtain ⟨r', hr', hl⟩ := hq.interpreters i r hr
  exact ⟨r', hr', hl.config.trans hc, hl.transport.trans ht, hl.source.trans hs, hl.faithful hf⟩

namespace Engine

variable {α β γ δ : Type} {x : Engine α} {r : Option β} {σ : Store} {i : Nat} {root : Scope}
  {sc : Scene}

/-- From every state that has the store and offers the scene, the step gives what the calculation does,
and is quiet. -/
def Paints (σ : Store) (i : Nat) (root : Scope) (sc : Scene) (x : Engine α) (r : Option β)
    (Q : α → β → Prop) : Prop :=
  ∀ s, s.store = σ → OnStage s i root sc → Yields x s r fun a b s' => Quiet s s' ∧ Q a b

/-- The step always gives a result, and is quiet. -/
def Silent (x : Engine α) : Prop := ∀ s, ∃ a s', x s = some (a, s') ∧ Quiet s s'

theorem silent_log (n : Notice) : Silent (log n) := fun _ => ⟨_, _, rfl, rfl, .refl _⟩

theorem silent_trace (n : Notice) : Silent (trace n) := by
  intro s
  obtain ⟨notices, hrun⟩ := trace_run n s
  exact ⟨(), _, hrun, rfl, .refl _⟩

namespace Paints

variable {Q : α → β → Prop} {R : γ → δ → Prop}

theorem pure {a : α} {b : β} (h : Q a b) : Paints σ i root sc (pure a) (some b) Q :=
  fun s _ _ => .pure ⟨.refl s, h⟩

theorem bind {f : α → Engine γ} {g : β → Option δ} (h : Paints σ i root sc x r Q)
    (hf : ∀ a b, Q a b → Paints σ i root sc (f a) (g b) R) :
    Paints σ i root sc (x >>= f) (r.bind g) R := by
  intro s hσ hs
  refine (h s hσ hs).bind fun a b s' ⟨hq, hQ⟩ => ?_
  refine (hf a b hQ s' (hq.store.trans hσ) (hs.quiet hq)).mono fun c d s'' ⟨hq', hR⟩ => ?_
  exact ⟨hq.trans hq', hR⟩

/-- A result of the step that the calculation gives as it is. -/
theorem map {f : α → γ} {g : β → δ} (h : Paints σ i root sc x r Q) (hf : ∀ a b, Q a b → R (f a) (g b)) :
    Paints σ i root sc (x >>= fun a => Pure.pure (f a)) (r.map g) R := by
  rw [Option.map_eq_bind]
  exact h.bind fun a b hQ => .pure (hf a b hQ)

theorem silent {f : α → Engine γ} {r : Option δ} (hx : Silent x)
    (hf : ∀ a, Paints σ i root sc (f a) r R) : Paints σ i root sc (x >>= f) r R := by
  intro s hσ hs
  obtain ⟨a, s', hx, hq⟩ := hx s
  refine .bind_run hx ((hf a s' (hq.store.trans hσ) (hs.quiet hq)).mono fun c d s'' h => ?_)
  exact ⟨hq.trans h.1, h.2⟩

theorem get {f : State → Engine γ} {r : Option δ}
    (hf : ∀ s, s.store = σ → OnStage s i root sc → Paints σ i root sc (f s) r R) :
    Paints σ i root sc (get >>= f) r R := by
  intro s hσ hs
  exact hf s hσ hs s hσ hs

/-- A step for a value that the calculation has at once. -/
theorem value {f : α → Engine γ} {b : β} {r : Option δ} (h : Paints σ i root sc x (some b) Q)
    (hf : ∀ a, Q a b → Paints σ i root sc (f a) r R) : Paints σ i root sc (x >>= f) r R := by
  intro s hσ hs
  rcases (h s hσ hs).cases with ⟨-, hb⟩ | ⟨a, b', s', hx, hb, hq, hQ⟩
  · cases hb
  · cases hb
    refine .bind_run hx ((hf a hQ s' (hq.store.trans hσ) (hs.quiet hq)).mono fun c d s'' h => ?_)
    exact ⟨hq.trans h.1, h.2⟩

theorem interpreter {f : Interpreter → Engine γ} {r : Option δ}
    (hf : ∀ it, it.config = sc.config → it.transport = sc.transport → it.source = sc.source →
      Paints σ i root sc (f it) r R) :
    Paints σ i root sc (Renderer.interpreter? i >>= f) r R := by
  intro s hσ hs
  obtain ⟨it, hit, hc, ht, hsrc, -⟩ := hs.interpreter
  exact .bind_run (by simp [Renderer.interpreter?, hit]) (hf it hc ht hsrc s hσ hs)

theorem foldl {I : γ → δ → Prop} {f : γ → α → Engine γ} {g : δ → α → δ} (xs : List α)
    (step : ∀ b c, ∀ a ∈ xs, I b c → Paints σ i root sc (f b a) (some (g c a)) I) {b : γ} {c : δ}
    (start : I b c) : Paints σ i root sc (xs.foldlM f b) (some (xs.foldl g c)) I := by
  induction xs generalizing b c with
  | nil => exact .pure start
  | cons a rest ih =>
    rw [List.foldlM_cons, List.foldl_cons]
    exact bind (r := some (g c a)) (g := fun c => some (rest.foldl g c)) (step b c a (by simp) start)
      fun b c h => ih (fun b c d hd => step b c d (by simp [hd])) h

theorem foldlM {I : γ → δ → Prop} {f : γ → α → Engine γ} {g : δ → α → Option δ} (xs : List α)
    (step : ∀ b c, ∀ a ∈ xs, I b c → Paints σ i root sc (f b a) (g c a) I) {b : γ} {c : δ}
    (start : I b c) : Paints σ i root sc (xs.foldlM f b) (xs.foldlM g c) I := by
  induction xs generalizing b c with
  | nil => exact .pure start
  | cons a rest ih =>
    rw [List.foldlM_cons, List.foldlM_cons]
    exact bind (step b c a (by simp) start) fun b c h =>
      ih (fun b c d hd => step b c d (by simp [hd])) h

/-- A loop that may collect a result for every element, in the calculation as in the engine. -/
theorem filterMapM {I : γ → δ → Prop} {f : α → Engine (Option γ)} {g : α → Option (Option δ)}
    (xs : List α) (step : ∀ a, Paints σ i root sc (f a) (g a) (Option.Rel I)) :
    Paints σ i root sc (xs.filterMapM f) (xs.filterMapM g) (List.Forall₂ I) := by
  induction xs with
  | nil => exact .pure .nil
  | cons a rest ih =>
    rw [List.filterMapM_cons, List.filterMapM_cons]
    refine bind (step a) fun b c h => ?_
    cases h with
    | none => exact ih
    | some h => exact ih.bind fun bs cs hs => .pure (.cons h hs)

end Paints
end Engine
end LiveLayout
