import LiveLayout.Engine.State
/-!
Reasoning about steps of the engine. A step ensures what holds of every result it gives; one that gives
no result ensures everything.
-/
namespace LiveLayout.Engine

variable {α β : Type} {s : State}

theorem bind_run (x : Engine α) (f : α → Engine β) (s : State) :
    (x >>= f) s = (x s).bind fun r => f r.1 r.2 := rfl

@[simp] theorem pure_run (a : α) (s : State) : (pure a : Engine α) s = some (a, s) := rfl

@[simp] theorem get_run (s : State) : (get : Engine State) s = some (s, s) := rfl

@[simp] theorem modify_run (f : State → State) (s : State) :
    (modify f : Engine PUnit) s = some (⟨⟩, f s) := rfl

@[simp] theorem modifyStore_run (f : Store → Store) (s : State) :
    modifyStore f s = some ((), { s with store := f s.store }) := rfl

@[simp] theorem log_run (n : Notice) (s : State) :
    log n s = some ((), { s with notices := n :: s.notices }) := rfl

@[simp] theorem emit_run (e : Event) (s : State) :
    emit e s = some ((), { s with events := e :: s.events }) := rfl

/-- Tracing changes nothing but what has been noted. -/
theorem trace_run (n : Notice) (s : State) : ∃ notices, trace n s = some ((), { s with notices }) := by
  unfold trace
  rw [bind_run, get_run, Option.bind_some]
  split
  · exact ⟨_, rfl⟩
  · exact ⟨s.notices, rfl⟩

/-- Whatever the step gives from the state satisfies the postcondition. -/
def Ensures (x : Engine α) (s : State) (Q : α → State → Prop) : Prop :=
  ∀ a s', x s = some (a, s') → Q a s'

namespace Ensures

variable {Q Q' : α → State → Prop} {R : β → State → Prop}

theorem mono {x : Engine α} (h : Ensures x s Q) (hQ : ∀ a s', Q a s' → Q' a s') : Ensures x s Q' :=
  fun a s' hx => hQ a s' (h a s' hx)

theorem and {x : Engine α} (h : Ensures x s Q) (h' : Ensures x s Q') :
    Ensures x s fun a s' => Q a s' ∧ Q' a s' := fun a s' hx => ⟨h a s' hx, h' a s' hx⟩

theorem pure {a : α} (h : Q a s) : Ensures (pure a) s Q := by
  intro b s' hb
  cases hb
  exact h

theorem of_run {x : Engine α} {a : α} {t : State} (hx : x s = some (a, t)) (h : Q a t) :
    Ensures x s Q := by
  intro b s' hb
  cases hx.symm.trans hb
  exact h

theorem endless : Ensures endless s Q := fun _ _ h => nomatch h

theorem bind {x : Engine α} {f : α → Engine β} (hx : Ensures x s Q)
    (hf : ∀ a s', Q a s' → Ensures (f a) s' R) : Ensures (x >>= f) s R := by
  intro b s' h
  rw [bind_run] at h
  obtain ⟨⟨a, t⟩, ha, hb⟩ := Option.bind_eq_some_iff.1 h
  exact hf a t (hx a t ha) b s' hb

/-- A step whose result and state are known goes on from there. -/
theorem bind_run {x : Engine α} {f : α → Engine β} {a : α} {t : State} (hx : x s = some (a, t))
    (hf : Ensures (f a) t R) : Ensures (x >>= f) s R :=
  bind (Q := fun b s' => b = a ∧ s' = t) (of_run hx ⟨rfl, rfl⟩) (by rintro _ _ ⟨rfl, rfl⟩; exact hf)

/-- A loop for its effects, where `I` relates what is left to do and the state. -/
theorem forM {I : List α → State → Prop} {f : α → Engine PUnit} (step : ∀ a rest t, I (a :: rest) t →
    Ensures (f a) t fun _ t' => I rest t') (xs : List α) (start : I xs s) :
    Ensures (xs.forM f) s fun _ s' => I [] s' := by
  induction xs generalizing s with
  | nil => exact pure start
  | cons a rest ih =>
    exact bind (step a rest s start) fun _ _ h => ih h

/-- A loop that collects results, where `I` relates what is left to do, the results and the state. -/
theorem mapM {I : List α → List β → State → Prop} {f : α → Engine β}
    (step : ∀ a rest done t, I (a :: rest) done t →
      Ensures (f a) t fun b t' => I rest (done ++ [b]) t')
    (xs : List α) (done : List β) (start : I xs done s) :
    Ensures (xs.mapM f) s fun bs s' => I [] (done ++ bs) s' := by
  induction xs generalizing s done with
  | nil =>
    rw [List.mapM_nil]
    exact pure (by simpa using start)
  | cons a rest ih =>
    rw [List.mapM_cons]
    refine bind (step a rest done s start) fun b t hb => bind (ih (done ++ [b]) hb) fun bs t' h => ?_
    exact pure (by simpa using h)

/-- A loop that carries a value along, where `I` relates what is left to do, the value and the state. -/
theorem foldlM {I : List α → β → State → Prop} {f : β → α → Engine β} (step : ∀ a rest b t,
    I (a :: rest) b t → Ensures (f b a) t fun c t' => I rest c t') (xs : List α) (b : β)
    (start : I xs b s) : Ensures (xs.foldlM f b) s fun c s' => I [] c s' := by
  induction xs generalizing s b with
  | nil => exact pure start
  | cons a rest ih =>
    rw [List.foldlM_cons]
    exact bind (step a rest b s start) fun c t h => ih c h

end Ensures

/-- The step gives a result just when the calculation does, and then both are related. -/
def Yields (x : Engine α) (s : State) (r : Option β) (Q : α → β → State → Prop) : Prop :=
  match x s, r with
  | some (a, s'), some b => Q a b s'
  | none, none => True
  | _, _ => False

namespace Yields

variable {γ δ : Type} {x : Engine α} {r : Option β} {Q Q' : α → β → State → Prop}

theorem of_run {a : α} {b : β} {s' : State} (hx : x s = some (a, s')) (h : Q a b s') :
    Yields x s (some b) Q := by
  simpa [Yields, hx] using h

theorem pure {a : α} {b : β} (h : Q a b s) : Yields (pure a) s (some b) Q := of_run rfl h

theorem endless : Yields endless s (none : Option β) Q := trivial

theorem cases (h : Yields x s r Q) :
    (x s = none ∧ r = none) ∨ ∃ a b s', x s = some (a, s') ∧ r = some b ∧ Q a b s' := by
  unfold Yields at h
  split at h
  · exact .inr ⟨_, _, _, ‹_›, rfl, h⟩
  · exact .inl ⟨‹_›, rfl⟩
  · exact h.elim

theorem mono (h : Yields x s r Q) (hQ : ∀ a b s', Q a b s' → Q' a b s') : Yields x s r Q' := by
  rcases h.cases with ⟨hx, rfl⟩ | ⟨a, b, s', hx, rfl, hQa⟩
  · simp [Yields, hx]
  · exact of_run hx (hQ a b s' hQa)

theorem bind {f : α → Engine γ} {g : β → Option δ} {R : γ → δ → State → Prop}
    (h : Yields x s r Q) (hf : ∀ a b s', Q a b s' → Yields (f a) s' (g b) R) :
    Yields (x >>= f) s (r.bind g) R := by
  unfold Yields
  rw [Engine.bind_run]
  rcases h.cases with ⟨hx, rfl⟩ | ⟨a, b, s', hx, rfl, hQa⟩
  · simp [hx]
  · rw [hx]
    exact hf a b s' hQa

/-- A step whose result and state are known goes on from there. -/
theorem bind_run {f : α → Engine γ} {r : Option δ} {R : γ → δ → State → Prop} {a : α} {t : State}
    (hx : x s = some (a, t)) (hf : Yields (f a) t r R) : Yields (x >>= f) s r R := by
  unfold Yields
  rw [Engine.bind_run, hx]
  exact hf

/-- What the calculation gave is known to what follows. -/
theorem with_result (h : Yields x s r Q) : Yields x s r fun a b s' => r = some b ∧ Q a b s' := by
  rcases h.cases with ⟨hx, hr⟩ | ⟨a, b, s', hx, hr, hQ⟩
  · simp [Yields, hx, hr]
  · simp [Yields, hx, hr, hQ]

/-- What always gives a result goes on from where the calculation ends. -/
theorem then_run {f : α → Engine γ} {R : γ → β → State → Prop} (h : Yields x s r Q)
    (hf : ∀ a b s', Q a b s' → ∃ c t, f a s' = some (c, t) ∧ R c b t) : Yields (x >>= f) s r R := by
  have hbind := h.bind (g := some) (R := R) fun a b s' hQ =>
    let ⟨_, _, hrun, hR⟩ := hf a b s' hQ
    of_run hrun hR
  rwa [Option.bind_fun_some] at hbind

theorem map {f : α → γ} {R : γ → β → State → Prop} (h : Yields x s r Q)
    (hf : ∀ a b s', Q a b s' → R (f a) b s') : Yields (x >>= fun a => Pure.pure (f a)) s r R :=
  h.then_run fun a b s' hQ => ⟨f a, s', rfl, hf a b s' hQ⟩

theorem ensures (h : Yields x s r Q) : Ensures x s fun a s' => ∃ b, r = some b ∧ Q a b s' := by
  intro a s' hx
  rcases h.cases with ⟨hx', -⟩ | ⟨a', b, t, hx', rfl, h⟩
  · cases hx.symm.trans hx'
  · cases hx.symm.trans hx'
    exact ⟨b, rfl, h⟩

/-- A loop that collects results, where `I` relates what is left to do, the results so far and the state. -/
theorem mapM {α : Type} {f : α → Engine β} {g : α → Option γ}
    {I : List α → List β → List γ → State → Prop} (step : ∀ a rest bs cs t, I (a :: rest) bs cs t →
      Yields (f a) t (g a) fun b c t' => I rest (bs ++ [b]) (cs ++ [c]) t')
    (xs : List α) (bs : List β) (cs : List γ) (start : I xs bs cs s) :
    Yields (xs.mapM f) s (xs.mapM g) fun bs' cs' s' => I [] (bs ++ bs') (cs ++ cs') s' := by
  induction xs generalizing s bs cs with
  | nil => exact pure (by simpa using start)
  | cons a rest ih =>
    rw [List.mapM_cons, List.mapM_cons]
    refine (step a rest bs cs s start).bind fun b c t h => ?_
    refine (ih _ _ h).bind fun bs' cs' t' h => pure ?_
    simpa using h

end Yields
end LiveLayout.Engine
