import LiveLayout.Proofs.Engine.Steps
import LiveLayout.Proofs.Forms.Paths
import LiveLayout.Proofs.Store.Writes
import LiveLayout.Render.Interpreter
/-!
The handlers of forms. Wiring gives every hook of a field a handler that writes below the form, and every
hook of a container one that reads the form. Where users and listeners write nothing, a field's handler
writes its own value and nothing else.
-/
namespace LiveLayout

open Engine

/-! ### Handlers that write nothing of their own -/

def Effect.writes : Effect → Bool
  | .write .. | .writeArgument .. => true
  | .subscribe .. | .unsubscribe .. => false

/-- Actions none of which writes. -/
def Passive (actions : List Action) : Prop := ∀ a ∈ actions, a.effect.writes = false

namespace Handler

def Passive : Handler → Prop
  | .user _ actions => LiveLayout.Passive actions
  | .field .. => False
  | .container _ _ called => called.Passive

/-- The user's function that a form's handler calls. -/
def user? : Handler → Option Handler
  | .user .. => none
  | .field _ _ _ called => called
  | .container _ _ called => some called

/-- The value that a field's handler finds in the arguments of a call. -/
def value? : Handler → List Json → Option Json
  | .field hook _ _ _, args => Form.extract? hook args
  | _, _ => none

end Handler

/-- Whether nobody who listens to variables writes. -/
def State.OnlyListens (s : State) : Prop := ∀ e ∈ s.listeners, Passive e.2

/-- All variables are as they were, and so is what listeners do. -/
structure Unwritten (s s' : State) : Prop where
  values : s.store.KeepsValues s'.store
  listeners : s'.listeners = s.listeners

namespace Unwritten

variable {s s' s'' : State}

theorem refl (s : State) : Unwritten s s := ⟨.refl _, rfl⟩

theorem trans (h : Unwritten s s') (h' : Unwritten s' s'') : Unwritten s s'' :=
  ⟨h.values.trans h'.values, h'.listeners.trans h.listeners⟩

theorem onlyListens (h : Unwritten s s') (hs : s.OnlyListens) : s'.OnlyListens := by
  unfold State.OnlyListens
  rw [h.listeners]
  exact hs

theorem lookup?_eq (h : Unwritten s s') {scope : Scope} (hscope : scope < s.store.levels.size) (name : String) :
    s'.store.lookup? scope name = s.store.lookup? scope name := by
  unfold Store.lookup?
  rw [h.values.keepsScopes.owner_eq hscope, h.values.valueAt?_eq (Store.owner_lt_size hscope name)]

end Unwritten

namespace Engine

variable {s : State} {write : Writer}

theorem forM_unwritten {α : Type} {f : α → Engine PUnit} (xs : List α) (hs : s.OnlyListens)
    (hf : ∀ a ∈ xs, ∀ t : State, t.OnlyListens → ∃ t', f a t = some (⟨⟩, t') ∧ Unwritten t t') :
    ∃ s', xs.forM f s = some (⟨⟩, s') ∧ Unwritten s s' := by
  induction xs generalizing s with
  | nil => exact ⟨s, rfl, .refl s⟩
  | cons a rest ih =>
    obtain ⟨t, ht, hst⟩ := hf a (List.mem_cons_self ..) s hs
    obtain ⟨s', hs', hts'⟩ := ih (hst.onlyListens hs) fun b hb => hf b (List.mem_cons_of_mem _ hb)
    refine ⟨s', ?_, hst.trans hts'⟩
    change (f a >>= fun _ => rest.forM f) s = _
    rw [bind_run, ht]
    exact hs'

theorem perform_passive {a : Action} (ha : a.effect.writes = false) (args : List Json) (s : State) :
    ∃ s', perform write args a s = some ((), s') ∧ Unwritten s s' := by
  unfold perform
  split
  · rw [bind_run, get_run, Option.bind_some]
    dsimp only
    cases Fields.get? s.scopes a.scope with
    | none => exact ⟨s, rfl, .refl s⟩
    | some scope =>
      cases heffect : a.effect with
      | write path value => simp [heffect, Effect.writes] at ha
      | writeArgument path index => simp [heffect, Effect.writes] at ha
      | subscribe who name => exact ⟨_, rfl, s.store.keepsValues_subscribe _ _ _, rfl⟩
      | unsubscribe who name => exact ⟨_, rfl, s.store.keepsValues_unsubscribe _ _ _, rfl⟩
  · exact ⟨s, rfl, .refl s⟩

theorem performAll_passive (write : Writer) {actions : List Action} (h : Passive actions) (args : List Json) (hs : s.OnlyListens) :
    ∃ s', actions.forM (perform write args) s = some ((), s') ∧ Unwritten s s' :=
  forM_unwritten actions hs fun a ha t _ => perform_passive (h a ha) args t

theorem trace_unwritten (n : Notice) (s : State) : ∃ s', trace n s = some ((), s') ∧ Unwritten s s' := by
  obtain ⟨notices, hrun⟩ := trace_run n s
  exact ⟨_, hrun, .refl _, rfl⟩

theorem notify_passive (write : Writer) (hs : s.OnlyListens) (name : String) (value : Json) (who : Subscriber) :
    ∃ s', notify write name value who s = some ((), s') ∧ Unwritten s s' := by
  cases who with
  | proxy target key =>
    obtain ⟨t, ht, hst⟩ := trace_unwritten (.invalidated key name) s
    unfold notify
    dsimp only
    rw [bind_run, ht, Option.bind_some]
    exact ⟨_, rfl, hst.trans ⟨.refl _, rfl⟩⟩
  | listener who =>
    have hpassive : Passive ((Fields.get? s.listeners who).getD []) := by
      cases hwho : Fields.get? s.listeners who with
      | none => exact fun _ h => absurd h List.not_mem_nil
      | some actions => exact hs _ (Fields.mem_of_get? hwho)
    let t : State := { s with events := .notify who name value :: s.events }
    have hst : Unwritten s t := ⟨.refl _, rfl⟩
    obtain ⟨s', hs', hts'⟩ := performAll_passive write (s := t) hpassive [value] hs
    exact ⟨s', hs', hst.trans hts'⟩

/-- Where no listener writes, a write is one write to the store. -/
theorem set_passive (hs : s.OnlyListens) (scope : Scope) {path root : String} {rest : List String}
    (hpath : Path.segments path = root :: rest) (v : Json) : ∃ s', set scope path v s = some ((), s') ∧
      Unwritten { s with store := s.store.write scope root rest v } s' := by
  let t : State := { s with
    store := s.store.write scope root rest v
    notices := .written path v (((s.store.level? (s.store.owner scope root)).map Level.label).getD "") :: s.notices }
  have hst : Unwritten { s with store := s.store.write scope root rest v } t := ⟨.refl _, rfl⟩
  let current := (t.store.valueAt? (s.store.owner scope root) root).getD .null
  obtain ⟨s', hs', hts'⟩ := forM_unwritten (s := t) (t.store.subscribersAt (s.store.owner scope root) root) hs
    fun who _ u hu => notify_passive (setValue 999999) hu root current who
  refine ⟨s', ?_, hst.trans hts'⟩
  unfold set cascadeLimit setValue
  rw [hpath]
  exact hs'

end Engine

/-! ### Wiring -/

namespace Renderer

variable {i : Nat} {b : Brick} {scope : Scope} {props : Props} {s : State}

section

/-! What the source answers for the hooks of the brick, and what asking it keeps of the state. -/

variable {I : State → Prop} {A : String → Option Handler → Prop}

/-- Every hook of a field with a name gets a handler that keeps the field's value below its form. -/
theorem wireField_ensures {hooks : List (String × HookArgument)} {name : String} (hname : b.name?.or b.id? = some name)
    (hasks : ∀ hook t, I t → Ensures (userHandler? i b hook) t fun called t' => A hook called ∧ I t')
    (htraces : ∀ n t, I t → Ensures (trace n) t fun _ t' => I t') (hs : I s) :
    Ensures (wireField i b hooks scope props) s fun props' s' => I s' ∧ ∀ hook ∈ hooks.map (·.1),
      ∃ argument called, (hook, argument) ∈ hooks ∧ A hook called ∧ Fields.get? props' hook =
        some (.handler (.field argument (Form.fieldPath b.form? name) scope called)) := by
  unfold wireField
  rw [hname]
  dsimp only
  refine (Ensures.foldlM (I := fun rest (done : Props) t => I t ∧ (∀ e ∈ rest, e ∈ hooks) ∧
    ∀ hook ∈ hooks.map (·.1), hook ∈ rest.map (·.1) ∨ ∃ argument called, (hook, argument) ∈ hooks ∧
      A hook called ∧ Fields.get? done hook =
        some (.handler (.field argument (Form.fieldPath b.form? name) scope called)))
    (fun e rest done t h => ?_) hooks props ⟨hs, fun _ he => he, fun _ hhook => .inl hhook⟩).mono
    fun done _ h => ⟨h.1, fun hook hhook => (h.2.2 hook hhook).resolve_left List.not_mem_nil⟩
  obtain ⟨hook, argument⟩ := e
  refine (hasks hook t h.1).bind fun called t₁ ⟨hcalled, ht₁⟩ => ?_
  refine (htraces _ t₁ ht₁).bind fun _ t₂ ht₂ => .pure ?_
  refine ⟨ht₂, fun e he => h.2.1 e (List.mem_cons_of_mem _ he), fun other hother => ?_⟩
  by_cases heq : other = hook
  · subst other
    refine .inr ⟨argument, called, h.2.1 _ (List.mem_cons_self ..), hcalled, ?_⟩
    rw [Props.insert, Fields.get?_insertSorted, if_pos rfl]
  · rcases h.2.2 other hother with hin | ⟨argument', called', hmem, hcalled', hget⟩
    · exact .inl ((List.mem_cons.1 hin).resolve_left heq)
    · refine .inr ⟨argument', called', hmem, hcalled', ?_⟩
      rw [Props.insert, Fields.get?_insertSorted, if_neg heq, hget]

/-- The handler that a container with the name, or without one, makes of the user's. -/
def containerHandler (name : Option String) (scope : Scope) (called : Handler) : Handler :=
  match name with
  | some name => .container name scope called
  | none => called

/-- The hooks of a container for which the user has functions get handlers, and all else stays. -/
theorem wireContainer_ensures {hooks : List String}
    (hasks : ∀ hook t, I t → Ensures (userHandler? i b hook) t fun called t' => A hook called ∧ I t') (hs : I s) :
    Ensures (wireContainer i b hooks scope props) s fun props' s' => I s' ∧ ∀ hook,
      ((hook ∈ hooks → A hook none) ∧ Fields.get? props' hook = Fields.get? props hook) ∨
        hook ∈ hooks ∧ ∃ called, A hook (some called) ∧
          Fields.get? props' hook = some (.handler (containerHandler b.name? scope called)) := by
  unfold wireContainer
  refine (Ensures.foldlM (I := fun rest (done : Props) t => I t ∧ (∀ hook ∈ rest, hook ∈ hooks) ∧ ∀ hook,
    ((hook ∈ hooks → hook ∈ rest ∨ A hook none) ∧ Fields.get? done hook = Fields.get? props hook) ∨
      hook ∈ hooks ∧ ∃ called, A hook (some called) ∧
        Fields.get? done hook = some (.handler (containerHandler b.name? scope called)))
    (fun other rest done t h => ?_) hooks props ⟨hs, fun _ hhook => hhook, fun _ => .inl ⟨.inl, rfl⟩⟩).mono
    fun done _ h => ⟨h.1, fun hook => ?_⟩
  · obtain ⟨ht, hrest, hdone⟩ := h
    have hmem := hrest other (List.mem_cons_self ..)
    refine (hasks other t ht).bind fun called t₁ ⟨hcalled, ht₁⟩ => ?_
    cases called with
    | none =>
      refine .pure ⟨ht₁, fun hook hhook => hrest hook (List.mem_cons_of_mem _ hhook), fun hook => ?_⟩
      refine (hdone hook).imp_left fun ⟨hasked, hget⟩ => ⟨fun hhook => ?_, hget⟩
      rcases hasked hhook with hin | hnone
      · rcases List.mem_cons.1 hin with rfl | hin
        · exact .inr hcalled
        · exact .inl hin
      · exact .inr hnone
    | some user =>
      refine .pure ⟨ht₁, fun hook hhook => hrest hook (List.mem_cons_of_mem _ hhook), fun hook => ?_⟩
      rw [Props.insert, Fields.get?_insertSorted]
      by_cases heq : hook = other
      · subst hook
        exact .inr ⟨hmem, user, hcalled, by rw [if_pos rfl]; rfl⟩
      · rw [if_neg heq]
        refine (hdone hook).imp_left fun ⟨hasked, hget⟩ => ⟨fun hhook => ?_, hget⟩
        exact (hasked hhook).imp_left fun hin => (List.mem_cons.1 hin).resolve_left heq
  · refine (h.2.2 hook).imp_left fun ⟨hasked, hget⟩ => ⟨fun hhook => ?_, hget⟩
    exact (hasked hhook).resolve_left List.not_mem_nil

end

end Renderer
end LiveLayout
