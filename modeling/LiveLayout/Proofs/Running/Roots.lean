import LiveLayout.Proofs.Running.Cascade
/-!
Writes to variables that live at roots. If listeners write no others, a cascade leaves every fork as it is.
-/
namespace LiveLayout

open Engine

/-- The variable that a path starts with lives at a root for those in the scope. -/
def Store.AtRoot (σ : Store) (scope : Scope) (path : String) : Prop :=
  scope < σ.levels.size ∧ ∀ name rest, Path.segments path = name :: rest →
    ∀ level, σ.level? (σ.owner scope name) = some level → level.parent = none

theorem Store.AtRoot.keep {σ τ : Store} {scope : Nat} {path : String} (h : σ.AtRoot scope path)
    (hk : σ.KeepsForks τ) : τ.AtRoot scope path := by
  obtain ⟨hscope, hroot⟩ := h
  constructor
  · exact hk.keepsScopes.lt_size hscope
  · intro name rest hpath level hlevel
    rw [hk.keepsScopes.owner_eq hscope] at hlevel
    obtain ⟨a, ha⟩ := exists_level? (owner_lt_size hscope name)
    obtain ⟨b, hb, hparent, -⟩ := hk _ a ha
    cases hb.symm.trans hlevel
    rw [hparent, hroot name rest hpath a ha]

/-- The path that an action writes at, if it writes. -/
def Action.path? (a : Action) : Option String :=
  match a.effect with
  | .write path _ | .writeArgument path _ => some path
  | .subscribe _ _ | .unsubscribe _ _ => none

/-- The action writes only variables that live at roots. -/
def Action.AtRoots (s : State) (a : Action) : Prop :=
  ∀ scope path, Fields.get? s.scopes a.scope = some scope → a.path? = some path → s.store.AtRoot scope path

/-- All listeners write only variables that live at roots. -/
def State.ListensAtRoots (s : State) : Prop := ∀ e ∈ s.listeners, ∀ a ∈ e.2, a.AtRoots s

/-- What writing at roots does. -/
structure WroteAtRoots (s s' : State) : Prop where
  forks : s.store.KeepsForks s'.store
  scopes : s'.scopes = s.scopes
  listeners : s'.listeners = s.listeners

namespace WroteAtRoots

variable {s s' s'' : State}

theorem refl (s : State) : WroteAtRoots s s := ⟨.refl _, rfl, rfl⟩

theorem trans (h : WroteAtRoots s s') (h' : WroteAtRoots s' s'') : WroteAtRoots s s'' :=
  ⟨h.forks.trans h'.forks, h'.scopes.trans h.scopes, h'.listeners.trans h.listeners⟩

theorem atRoots (h : WroteAtRoots s s') {a : Action} (ha : a.AtRoots s) : a.AtRoots s' := by
  intro scope path hscope hpath
  rw [h.scopes] at hscope
  exact (ha scope path hscope hpath).keep h.forks

theorem listensAtRoots (h : WroteAtRoots s s') (hs : s.ListensAtRoots) : s'.ListensAtRoots := by
  intro e he a ha
  rw [h.listeners] at he
  exact h.atRoots (hs e he a ha)

end WroteAtRoots

section

variable {s : State} {write : Writer}

/-- Writing that leaves forks as they are where nothing but roots is written. -/
def WritesAtRoots (write : Writer) : Prop := ∀ scope path value s, s.ListensAtRoots →
  s.store.AtRoot scope path → Ensures (write scope path value) s fun _ s' => WroteAtRoots s s'

theorem perform_atRoots (hwrite : WritesAtRoots write) (hs : s.ListensAtRoots) (args : List Json)
    {a : Action} (ha : a.AtRoots s) : Ensures (perform write args a) s fun _ s' => WroteAtRoots s s' := by
  unfold perform
  split
  · refine .bind_run (get_run s) ?_
    cases hscope : Fields.get? s.scopes a.scope with
    | none => exact .pure (.refl s)
    | some scope =>
      have hpath := fun path => ha scope path hscope
      unfold Action.path? at hpath
      cases heffect : a.effect with
      | write path value =>
        rw [heffect] at hpath
        exact hwrite scope path value s hs (hpath path rfl)
      | writeArgument path index =>
        rw [heffect] at hpath
        exact hwrite scope path _ s hs (hpath path rfl)
      | subscribe who name =>
        exact .of_run rfl ⟨(Store.keepsValues_subscribe s.store scope name _).keepsForks, rfl, rfl⟩
      | unsubscribe who name =>
        exact .of_run rfl ⟨(Store.keepsValues_unsubscribe s.store scope name _).keepsForks, rfl, rfl⟩
  · exact .pure (.refl s)

theorem notify_atRoots (hwrite : WritesAtRoots write) (hs : s.ListensAtRoots) (name : String) (value : Json)
    (who : Subscriber) : Ensures (notify write name value who) s fun _ s' => WroteAtRoots s s' := by
  cases who with
  | proxy target key =>
    obtain ⟨_, s₁, htrace, hq⟩ := silent_trace (.invalidated key name) s
    have hquiet : WroteAtRoots s s₁ := by
      rw [hq.rest]
      exact ⟨.refl _, rfl, rfl⟩
    exact .bind_run htrace (.of_run rfl ⟨hquiet.forks, hquiet.scopes, hquiet.listeners⟩)
  | listener who =>
    let t : State := { s with events := .notify who name value :: s.events }
    have ht : WroteAtRoots s t := ⟨.refl _, rfl, rfl⟩
    refine .bind_run (emit_run _ s) (.bind_run (get_run t) ?_)
    cases hactions : Fields.get? t.listeners who with
    | none => exact .pure ht
    | some actions =>
      -- The actions that are left write only at roots, whatever those before them have written.
      refine Ensures.forM (I := fun rest u => WroteAtRoots s u ∧ ∀ a ∈ rest, a.AtRoots u)
        (fun a rest u h => ?_) actions ⟨ht, ?_⟩ |>.mono fun _ _ h => h.1
      · obtain ⟨hu, hrest⟩ := h
        have ha := hrest a (List.mem_cons_self ..)
        refine (perform_atRoots hwrite (hu.listensAtRoots hs) [value] ha).mono fun _ u' hu' => ?_
        exact ⟨hu.trans hu', fun b hb => hu'.atRoots (hrest b (List.mem_cons_of_mem _ hb))⟩
      · exact ht.listensAtRoots hs _ (Fields.mem_of_get? hactions)

/-- A write at a root sets off no other writes than such. -/
theorem setValue_atRoots (depth : Nat) : WritesAtRoots (setValue depth) := by
  induction depth with
  | zero => exact fun _ _ _ _ _ _ => .endless
  | succ depth ih =>
    intro scope path value s hs hroot
    unfold setValue
    split
    · exact .of_run (log_run _ s) ⟨.refl _, rfl, rfl⟩
    · rename_i name rest hpath
      have hwrite : s.store.KeepsForks (s.store.write scope name rest value) :=
        Store.keepsForks_write (hroot.2 name rest hpath)
      refine .bind_run (get_run s) (.bind_run (log_run _ s) (.bind_run (modifyStore_run _ _)
        (.bind_run (get_run _) ?_)))
      refine Ensures.forM (I := fun _ u => WroteAtRoots s u) (fun who _ u hu => ?_) _ ⟨hwrite, rfl, rfl⟩
      exact (notify_atRoots ih (hu.listensAtRoots hs) name _ who).mono fun _ _ hu' => hu.trans hu'

theorem set_atRoots : WritesAtRoots set := setValue_atRoots cascadeLimit

end
end LiveLayout
