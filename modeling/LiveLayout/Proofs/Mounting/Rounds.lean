import LiveLayout.Proofs.Mounting.Tree
/-!
Rounds of a flush. A component that is rendered again is replaced in its tree, where it occurs once; all
else in the tree stays as it is. After the first round every component that waited shows what the scene
draws for it.
-/
namespace LiveLayout

open Engine

namespace Mounted

/-! ### Replacing a component -/

section

variable {σ : Store} {host id : Nat} {next old : Mounted}

mutual

theorem replace_of_find?_eq_none : (m : Mounted) → m.find? id = none → replace id next m = m
  | .primitive _, _ => rfl
  | .element _ _ _ children, h => by rw [replace, replaceAll_of_findAll?_eq_none children h]
  | .component i _ _ _ children, h => by
    rw [find?] at h
    split at h
    · cases h
    · rw [replace, if_neg ‹_›, replaceAll_of_findAll?_eq_none children h]
  | .fragment _ children, h => by rw [replace, replaceAll_of_findAll?_eq_none children h]

theorem replaceAll_of_findAll?_eq_none : (ms : List Mounted) → findAll? id ms = none →
    replaceAll id next ms = ms
  | [], _ => rfl
  | m :: rest, h => by
    rw [findAll?, Option.or_eq_none_iff] at h
    rw [replaceAll, replace_of_find?_eq_none m h.1, replaceAll_of_findAll?_eq_none rest h.2]

end

mutual

theorem mem_of_find? : (m : Mounted) → m.find? id = some old →
    (⟨host, id⟩ : Instance) ∈ (m.components host).map (·.1)
  | .primitive _, h => nomatch h
  | .element _ _ _ children, h => mem_of_findAll? children h
  | .component i _ _ _ children, h => by
    rw [find?] at h
    split at h
    · subst i
      exact List.mem_cons_self ..
    · exact List.mem_cons_of_mem _ (mem_of_findAll? children h)
  | .fragment _ children, h => mem_of_findAll? children h

theorem mem_of_findAll? : (ms : List Mounted) → findAll? id ms = some old →
    (⟨host, id⟩ : Instance) ∈ (componentsAll host ms).map (·.1)
  | [], h => nomatch h
  | m :: rest, h => by
    rw [componentsAll, List.map_append, List.mem_append]
    rw [findAll?] at h
    rcases Option.or_eq_some_iff.1 h with h | ⟨-, h⟩
    · exact .inl (mem_of_find? m h)
    · exact .inr (mem_of_findAll? rest h)

end

mutual

theorem not_mem_of_find?_eq_none : (m : Mounted) → m.find? id = none →
    (⟨host, id⟩ : Instance) ∉ (m.components host).map (·.1)
  | .primitive _, _ => List.not_mem_nil
  | .element _ _ _ children, h => not_mem_of_findAll?_eq_none children h
  | .component i _ c _ children, h => by
    rw [find?] at h
    split at h
    · cases h
    · rw [components, List.map_cons, List.mem_cons, not_or]
      refine ⟨fun heq => ?_, not_mem_of_findAll?_eq_none children h⟩
      exact absurd (congrArg Instance.id heq).symm ‹_›
  | .fragment _ children, h => not_mem_of_findAll?_eq_none children h

theorem not_mem_of_findAll?_eq_none : (ms : List Mounted) → findAll? id ms = none →
    (⟨host, id⟩ : Instance) ∉ (componentsAll host ms).map (·.1)
  | [], _ => List.not_mem_nil
  | m :: rest, h => by
    rw [findAll?, Option.or_eq_none_iff] at h
    rw [componentsAll, List.map_append, List.mem_append, not_or]
    exact ⟨not_mem_of_find?_eq_none m h.1, not_mem_of_findAll?_eq_none rest h.2⟩

end

mutual

theorem components_find? : (m : Mounted) → m.find? id = some old →
    old.components host ⊆ m.components host
  | .primitive _, h => nomatch h
  | .element _ _ _ children, h => components_findAll? children h
  | .component i _ _ _ children, h => by
    rw [find?] at h
    split at h
    · cases h
      exact List.Subset.refl _
    · exact List.subset_cons_of_subset _ (components_findAll? children h)
  | .fragment _ children, h => components_findAll? children h

theorem components_findAll? : (ms : List Mounted) → findAll? id ms = some old →
    old.components host ⊆ componentsAll host ms
  | [], h => nomatch h
  | m :: rest, h => by
    rw [findAll?] at h
    rcases Option.or_eq_some_iff.1 h with h | ⟨-, h⟩
    · exact List.subset_append_of_subset_left _ (components_find? m h)
    · exact List.subset_append_of_subset_right _ (components_findAll? rest h)

end

/-- A tree with one component replaced by another node with the same sketch: everything else in it stays as
it is. -/
structure Swapped (σ : Store) (host : Nat) (old next : Mounted) (ms ms' : List Mounted)
    (rest : List ((Instance × Component) × List Sketch)) : Prop where
  before : (renderedAll σ host ms).Perm (old.rendered σ host ++ rest)
  after : (renderedAll σ host ms').Perm (next.rendered σ host ++ rest)
  sketch : sketchAll σ ms' = sketchAll σ ms

theorem Swapped.cons {ms ms' : List Mounted} {rest : List ((Instance × Component) × List Sketch)}
    (h : Swapped σ host old next ms ms' rest) (m : Mounted) :
    Swapped σ host old next (m :: ms) (m :: ms') (m.rendered σ host ++ rest) := by
  refine ⟨(h.before.append_left _).trans ?_, (h.after.append_left _).trans ?_, ?_⟩
  · simp only [← List.append_assoc]
    exact List.perm_append_comm.append_right _
  · simp only [← List.append_assoc]
    exact List.perm_append_comm.append_right _
  · rw [sketchAll, sketchAll, h.sketch]

theorem Swapped.append {m m' : Mounted} {rest : List ((Instance × Component) × List Sketch)}
    (h : Swapped σ host old next [m] [m'] rest) (ms : List Mounted) :
    Swapped σ host old next (m :: ms) (m' :: ms) (rest ++ renderedAll σ host ms) := by
  refine ⟨?_, ?_, ?_⟩
  · rw [renderedAll, ← List.append_assoc]
    exact (renderedAll_singleton σ host m ▸ h.before).append_right _
  · rw [renderedAll, ← List.append_assoc]
    exact (renderedAll_singleton σ host m' ▸ h.after).append_right _
  · rw [sketchAll, sketchAll, (List.cons.inj h.sketch).1]

mutual

theorem replace_swapped (hs : next.sketch σ = old.sketch σ) : (m : Mounted) →
    ((m.components host).map (·.1)).Nodup → m.find? id = some old →
    ∃ rest, Swapped σ host old next [m] [replace id next m] rest
  | .primitive _, _, h => nomatch h
  | .element tag key props children, hn, h => by
    obtain ⟨rest, h₁, h₂, h₃⟩ := replaceAll_swapped hs children hn h
    refine ⟨rest, ?_, ?_, ?_⟩
    · rwa [renderedAll_singleton]
    · rwa [replace, renderedAll_singleton]
    · simp only [replace, sketchAll, sketch, h₃]
  | .component i key c renders children, hn, h => by
    rw [find?] at h
    split at h
    · obtain rfl := Option.some.inj h
      rw [replace, if_pos ‹_›]
      refine ⟨[], ?_, ?_, ?_⟩
      · rw [renderedAll_singleton, List.append_nil]
      · rw [renderedAll_singleton, List.append_nil]
      · simp only [sketchAll, hs]
    · obtain ⟨rest, h₁, h₂, h₃⟩ := replaceAll_swapped hs children (List.nodup_cons.1 hn).2 h
      rw [replace, if_neg ‹_›]
      refine ⟨((⟨host, i⟩, c), sketchAll σ children) :: rest, ?_, ?_, ?_⟩
      · rw [renderedAll_singleton, rendered]
        exact (h₁.cons _).trans List.perm_middle.symm
      · rw [renderedAll_singleton, rendered, h₃]
        exact (h₂.cons _).trans List.perm_middle.symm
      · simp only [sketchAll, sketch]
  | .fragment key children, hn, h => by
    obtain ⟨rest, h₁, h₂, h₃⟩ := replaceAll_swapped hs children hn h
    refine ⟨rest, ?_, ?_, ?_⟩
    · rwa [renderedAll_singleton]
    · rwa [replace, renderedAll_singleton]
    · simp only [replace, sketchAll, sketch, h₃]

theorem replaceAll_swapped (hs : next.sketch σ = old.sketch σ) : (ms : List Mounted) →
    ((componentsAll host ms).map (·.1)).Nodup → findAll? id ms = some old →
    ∃ rest, Swapped σ host old next ms (replaceAll id next ms) rest
  | [], _, h => nomatch h
  | m :: ms, hn, h => by
    rw [componentsAll, List.map_append, List.nodup_append] at hn
    obtain ⟨hm, hms, hne⟩ := hn
    rw [findAll?] at h
    rw [replaceAll]
    cases hfind : m.find? id with
    | some found =>
      have hfound : found = old := by simpa [hfind] using h
      rw [hfound] at hfind
      have hnone : findAll? id ms = none := by
        by_contra hsome
        obtain ⟨other, hother⟩ := Option.ne_none_iff_exists'.1 hsome
        exact hne _ (mem_of_find? m hfind) _ (mem_of_findAll? ms hother) rfl
      obtain ⟨rest, hrest⟩ := replace_swapped hs m hm hfind
      rw [replaceAll_of_findAll?_eq_none ms hnone]
      exact ⟨_, hrest.append ms⟩
    | none =>
      rw [hfind, Option.none_or] at h
      obtain ⟨rest, hrest⟩ := replaceAll_swapped hs ms hms h
      rw [replace_of_find?_eq_none m hfind]
      exact ⟨_, hrest.cons m⟩

end

mutual

/-- What is found is a component with the number. -/
theorem exists_of_find? : (m : Mounted) → m.find? id = some old →
    ∃ key c renders children, old = .component id key c renders children
  | .primitive _, h => nomatch h
  | .element _ _ _ children, h => exists_of_findAll? children h
  | .component i key c renders children, h => by
    rw [find?] at h
    split at h
    · subst i
      exact ⟨key, c, renders, children, (Option.some.inj h).symm⟩
    · exact exists_of_findAll? children h
  | .fragment _ children, h => exists_of_findAll? children h

theorem exists_of_findAll? : (ms : List Mounted) → findAll? id ms = some old →
    ∃ key c renders children, old = .component id key c renders children
  | [], h => nomatch h
  | m :: rest, h => by
    rw [findAll?] at h
    rcases Option.or_eq_some_iff.1 h with h | ⟨-, h⟩
    · exact exists_of_find? m h
    · exact exists_of_findAll? rest h

end

end
end Mounted

/-! ### Hosts -/

/-- What waits to be rendered again. -/
def State.queue (s : State) (id : Nat) : List Nat := ((s.host? id).map HostRecord.queue).getD []

namespace Host

open Mounted

variable {s s' : State} {i root : Nat} {sc : Scene} {cs ms : List (Instance × Component)} {h h' : Host}
  {excused : Instance × Component → Prop}

/-- The host's tree stands for the same sketches as before, and all components in it but the excused ones
are current. Steps with `waits` in mind have led here. -/
structure Renewed (waits : Nat → Prop) (i : Nat) (root : Scope) (sc : Scene)
    (cs ms : List (Instance × Component)) (excused : Instance × Component → Prop) (s : State) (h h' : Host)
    (s' : State) : Prop where
  id : h'.id = h.id
  keeps : KeepsFor waits s s'
  held : Held s' i sc.transport root cs (componentsAll h'.id h'.roots ++ ms)
  sketch : sketchAll s'.store h'.roots = sketchAll s.store h.roots
  fresh : sc.Fresh s'.store excused (renderedAll s'.store h'.id h'.roots)

namespace Renewed

variable {waits waits' : Nat → Prop} {s₁ : State} {h₁ : Host}

theorem refl (hh : Held s i sc.transport root cs (componentsAll h.id h.roots ++ ms))
    (hf : sc.Fresh s.store excused (renderedAll s.store h.id h.roots)) :
    Renewed waits i root sc cs ms excused s h h s := ⟨rfl, .refl s, hh, rfl, hf⟩

theorem trans {excused' : Instance × Component → Prop}
    (h₀ : Renewed waits i root sc cs ms excused' s h h₁ s₁)
    (h₂ : Renewed waits i root sc cs ms excused s₁ h₁ h' s') :
    Renewed waits i root sc cs ms excused s h h' s' :=
  ⟨h₂.id.trans h₀.id, h₀.keeps.trans h₂.keeps, h₂.held, h₂.sketch.trans h₀.sketch, h₂.fresh⟩

theorem mono (h₀ : Renewed waits i root sc cs ms excused s h h' s') (hw : ∀ id, waits' id → waits id) :
    Renewed waits' i root sc cs ms excused s h h' s' :=
  ⟨h₀.id, h₀.keeps.mono hw, h₀.held, h₀.sketch, h₀.fresh⟩

theorem of_store (h₁ : Renewed waits i root sc cs ms excused s₁ h h' s') (hk : KeepsFor waits s s₁)
    (hstore : s₁.store = s.store) : Renewed waits i root sc cs ms excused s h h' s' :=
  ⟨h₁.id, hk.trans h₁.keeps, h₁.held, h₁.sketch.trans (by rw [hstore]), h₁.fresh⟩

end Renewed

/-- Rendering one component again. -/
theorem rerender_renewed {id : Nat} {key : Option String} {c : Component} {renders : Nat}
    {children : List Mounted} (hs : Ready s h.id i root sc)
    (hh : Held s i sc.transport root cs (componentsAll h.id h.roots ++ ms))
    (hfind : findAll? id h.roots = some (.component id key c renders children))
    (hexcused : ∀ e, e.2.Fetches → excused e)
    (hf : sc.Fresh s.store (fun e => e.1 = ⟨h.id, id⟩ ∨ excused e) (renderedAll s.store h.id h.roots)) :
    Ensures (rerender h.id depthLimit (update h.id depthLimit) id key c renders children) s fun m s' =>
      Renewed (fun _ => True) i root sc cs ms excused s h
        { h with roots := replaceAll id m h.roots } s' := by
  have hnodup := hh.nodup
  -- The component and what is in it come first, and the rest of the tree is held beside them.
  obtain ⟨rest, hsplit, -, -⟩ := replaceAll_swapped (σ := s.store) rfl h.roots hnodup hfind
  have hcomponents := hsplit.map (·.1)
  rw [map_renderedAll, List.map_append, map_rendered] at hcomponents
  have hh' : Held s i sc.transport root cs
      ((⟨h.id, id⟩, c) :: (componentsAll h.id children ++ (rest.map (·.1) ++ ms))) := by
    refine hh.perm ((hcomponents.append_right ms).trans ?_)
    rw [components, List.append_assoc, List.cons_append]
  refine (rerender_ensures (update_updates depthLimit) depthLimit key renders hs hh').mono ?_
  rintro m s' ⟨hl, next, rfl⟩
  -- Over the new store the split is the same.
  have hkeep := hl.keeps.values.keepsForks
  have hlayers : ∀ e ∈ componentsAll h.id h.roots, e.2.layers s'.store = e.2.layers s.store := fun e he =>
    (hh.within e (List.mem_append_left _ he)).layers_eq hkeep
  have hc := (hh'.within _ (List.mem_cons_self ..)).layers_eq hkeep
  have hsketch : (component id key c (renders + 1) next).sketch s'.store =
      (component id key c renders children).sketch s'.store := rfl
  obtain ⟨rest', hswap⟩ := replaceAll_swapped hsketch h.roots hnodup hfind
  have hrest : (rest'.map (·.1)).Perm (rest.map (·.1)) := by
    have hbefore := hswap.before.map (·.1)
    rw [map_renderedAll, List.map_append, map_rendered] at hbefore
    exact (List.perm_append_left_iff _).1 (hbefore.symm.trans hcomponents)
  refine ⟨rfl, hl.keeps, ?_, ?_, ?_⟩
  · have hafter := hswap.after.map (·.1)
    rw [map_renderedAll, List.map_append, map_rendered] at hafter
    refine hl.held.perm ?_
    rw [componentsAll_singleton, ← List.append_assoc]
    exact (hafter.trans (hrest.append_left _)).symm.append_right ms
  · rw [hswap.sketch, sketchAll_congr h.roots hlayers]
  · intro e he
    rcases List.mem_append.1 (hswap.after.mem_iff.1 he) with he | he
    · exact (hl.fresh e (by rwa [renderedAll_singleton])).imp_left (hexcused _)
    · have hmem := hswap.before.mem_iff.2 (List.mem_append_right _ he)
      refine (hf.keep hlayers e hmem).imp_left fun hid => hid.resolve_left fun hid => ?_
      -- No other component has the same number.
      have hother : e.1 ∈ rest.map (·.1) := hrest.mem_iff.1 (List.mem_map_of_mem he)
      have hmem' := List.mem_map_of_mem (f := (·.1)) (List.mem_append_left cs
        (List.mem_append_right (componentsAll h.id children) (List.mem_append_left ms hother)))
      rw [hid] at hmem'
      exact (List.nodup_cons.1 hh'.ledger.nodup).1 hmem'

/-- Rendering components again makes them current, or else they are gone. -/
theorem rerenderAll_renewed (hexcused : ∀ e, e.2.Fetches → excused e) (ids : List Nat) :
    ∀ s h count, Ready s h.id i root sc →
      Held s i sc.transport root cs (componentsAll h.id h.roots ++ ms) →
      sc.Fresh s.store (fun e => e.1 ∈ ids.map (Instance.mk h.id) ∨ excused e)
        (renderedAll s.store h.id h.roots) →
      Ensures (h.rerenderAll count ids) s fun r s' =>
        Renewed (fun _ => True) i root sc cs ms excused s h r.1 s' := by
  induction ids with
  | nil => exact fun s h count _ hh hf => .pure (.refl hh (hf.mono fun e _ he => he.resolve_left nofun))
  | cons id rest ih =>
    intro s h count hs hh hf
    cases hfind : findAll? id h.roots with
    | none =>
      obtain ⟨_, s₁, htrace, hq⟩ := silent_trace (.notMounted id) s
      have hgone : (⟨h.id, id⟩ : Instance) ∉ (componentsAll h.id h.roots).map (·.1) :=
        not_mem_of_findAll?_eq_none h.roots hfind
      have hf₁ : sc.Fresh s₁.store (fun e => e.1 ∈ rest.map (Instance.mk h.id) ∨ excused e)
          (renderedAll s₁.store h.id h.roots) := by
        rw [hq.store]
        refine hf.mono fun e he hw => hw.imp_left fun hw => (List.mem_cons.1 hw).resolve_left fun heq => ?_
        have hmem := List.mem_map_of_mem (f := (·.1)) he
        rw [map_renderedAll] at hmem
        exact hgone (heq ▸ List.mem_map_of_mem hmem)
      rw [rerenderAll, hfind]
      refine .bind_run htrace ?_
      refine (ih s₁ h count (hs.keep hq.keeps) (hh.forked hq.forked) hf₁).mono fun r s' h₁ => ?_
      exact h₁.of_store hq.keeps hq.store
    | some old =>
      obtain ⟨key, c, renders, children, rfl⟩ := exists_of_findAll? h.roots hfind
      have hf₁ : sc.Fresh s.store (fun e => e.1 = ⟨h.id, id⟩ ∨
          (e.1 ∈ rest.map (Instance.mk h.id) ∨ excused e)) (renderedAll s.store h.id h.roots) :=
        hf.mono fun e _ he => by rwa [List.map_cons, List.mem_cons, or_assoc] at he
      have step := rerender_renewed hs hh hfind (fun e he => .inr (hexcused e he)) hf₁
      rw [rerenderAll, hfind]
      refine step.bind fun m s₁ h₁ => ?_
      have hs₁ := hs.keep h₁.keeps
      refine (ih s₁ { h with roots := replaceAll id m h.roots } (count + 1) hs₁ h₁.held h₁.fresh).mono ?_
      exact fun r s' h₂ => h₁.trans h₂

/-! ### Flushing -/

theorem queue_run (h : Host) (s : State) : h.queue s = some (s.queue h.id, s) := rfl

/-- Clearing the queue of a host leaves those of the others. -/
theorem clearQueue_run (h : Host) (s : State) :
    ∃ s', h.clearQueue s = some ((), s') ∧ KeepsFor (· ≠ h.id) s s' ∧ s'.store = s.store := by
  refine ⟨_, rfl, keeps_modifyHost s h.id fun r => ⟨rfl, Nat.le_refl _, fun hne => ?_⟩, rfl⟩
  exact absurd rfl hne

/-- However many rounds there are, all that waited at first is current in the end. -/
theorem flushRounds_renewed (hexcused : ∀ e, e.2.Fetches → excused e) (rounds : Nat) :
    ∀ s h count, Ready s h.id i root sc →
      Held s i sc.transport root cs (componentsAll h.id h.roots ++ ms) →
      sc.Fresh s.store (fun e => (rounds ≠ 0 ∧ e.1 ∈ (s.queue h.id).map (Instance.mk h.id)) ∨ excused e)
        (renderedAll s.store h.id h.roots) →
      Ensures (h.flushRounds count rounds) s fun r s' =>
        Renewed (· ≠ h.id) i root sc cs ms excused s h r.1 s' := by
  induction rounds with
  | zero =>
    intro s h count hs hh hf
    obtain ⟨s₁, hclear, hk, hstore⟩ := h.clearQueue_run s
    have hf₁ : sc.Fresh s₁.store excused (renderedAll s₁.store h.id h.roots) := by
      rw [hstore]
      exact hf.mono fun e _ he => he.resolve_left fun hw => hw.1 rfl
    have hdone : Renewed (· ≠ h.id) i root sc cs ms excused s₁ h h s₁ :=
      .refl (hh.of_store hk hstore) hf₁
    refine .bind_run (h.queue_run s) (.bind_run hclear ?_)
    split
    · refine .bind_run (t := { s₁ with notices := .endlessFlush roundLimit :: s₁.notices }) rfl (.pure ?_)
      have hq : Quiet s₁ { s₁ with notices := .endlessFlush roundLimit :: s₁.notices } := ⟨rfl, .refl _⟩
      have hlog : Renewed (· ≠ h.id) i root sc cs ms excused _ h h _ := .refl (hdone.held.forked hq.forked) hf₁
      exact (hlog.of_store (hq.keeps.mono fun _ _ => trivial) rfl).of_store hk hstore
    · exact .pure (hdone.of_store hk hstore)
  | succ rounds ih =>
    intro s h count hs hh hf
    obtain ⟨s₁, hclear, hk, hstore⟩ := h.clearQueue_run s
    have hh₁ := hh.of_store hk hstore
    refine .bind_run (h.queue_run s) (.bind_run hclear ?_)
    split
    · have hempty := List.isEmpty_iff.1 ‹_›
      refine .pure (Renewed.of_store (.refl hh₁ ?_) hk hstore)
      rw [hstore]
      refine hf.mono fun e _ he => he.resolve_left fun hw => ?_
      rw [hempty] at hw
      exact nomatch hw.2
    · have hf₁ : sc.Fresh s₁.store (fun e => e.1 ∈ ((s.queue h.id).eraseDups).map (Instance.mk h.id) ∨ excused e)
          (renderedAll s₁.store h.id h.roots) := by
        rw [hstore]
        refine hf.mono fun e _ he => he.imp_left fun hw => ?_
        obtain ⟨id, hid, heq⟩ := List.mem_map.1 hw.2
        exact List.mem_map.2 ⟨id, List.mem_eraseDups.2 hid, heq⟩
      refine .bind (rerenderAll_renewed hexcused _ s₁ h count (hs.keep hk) hh₁ hf₁) fun r s₂ h₂ => ?_
      have hs₂ : Ready s₂ r.1.id i root sc := by
        rw [h₂.id]
        exact (hs.keep hk).keep h₂.keeps
      refine (ih s₂ r.1 r.2 hs₂ h₂.held (h₂.fresh.mono fun _ _ he => .inr he)).mono fun r' s' h₃ => ?_
      rw [h₂.id] at h₃
      exact ((h₂.mono fun _ _ => trivial).trans h₃).of_store hk hstore

theorem flush_renewed (hexcused : ∀ e, e.2.Fetches → excused e) (hs : Ready s h.id i root sc)
    (hh : Held s i sc.transport root cs (componentsAll h.id h.roots ++ ms))
    (hf : sc.Fresh s.store (fun e => e.1 ∈ (s.queue h.id).map (Instance.mk h.id) ∨ excused e)
      (renderedAll s.store h.id h.roots)) :
    Ensures h.flush s fun r s' => Renewed (· ≠ h.id) i root sc cs ms excused s h r.1 s' :=
  flushRounds_renewed hexcused roundLimit s h 0 hs hh
    (hf.mono fun _ _ he => he.imp_left fun hw => ⟨by decide, hw⟩)

/-! ### Rendering into a host, and giving it up -/

theorem render_ensures {nodes : List Node} (hs : Ready s h.id i root sc)
    (hh : Held s i sc.transport root cs (componentsAll h.id h.roots ++ ms))
    (hn : ∀ n ∈ nodes, n.Placed (Within s.store i sc.transport root)) :
    Ensures (h.render nodes) s fun h' s' => h'.id = h.id ∧
      Laid h.id i root sc cs (fun e => e.2.Fetches) ms s (nodes.map (Node.sketch s.store)) h'.roots s' :=
  .bind (reconcile_ensures (update_updates depthLimit) depthLimit h.roots nodes hs hh hn) fun _ _ hl =>
    .pure ⟨rfl, hl⟩

/-- An empty host mounts nodes just when the scene has pictures of them. -/
theorem render_yields {nodes : List Node} (hempty : h.roots = []) (hs : Ready s h.id i root sc)
    (hh : Held s i sc.transport root cs ms)
    (hn : ∀ n ∈ nodes, n.Placed (Within s.store i sc.transport root)) :
    Yields (h.render nodes) s ((nodes.map (Node.sketch s.store)).mapM (sc.picture depthLimit))
      fun h' ps s' => h'.id = h.id ∧
        Laid h.id i root sc cs (fun _ => False) ms s (nodes.map (Node.sketch s.store)) h'.roots s' ∧
        s'.network.requests = s.network.requests ++ Picture.sentAll ps := by
  have hrun : h.render nodes = (do return { h with roots := ← nodes.mapM (mount h.id depthLimit) }) := by
    rw [render, hempty, reconcile_nil]
  rw [hrun]
  exact (mountAll_yields (mount_mounts depthLimit) nodes hs hh hn).map fun next ps s' ⟨hl, hreq⟩ =>
    ⟨rfl, hl, hreq⟩

/-- A host that is dropped has nothing mounted any more, and is forgotten. -/
theorem drop_ensures {tr : Bool} (hh : Held s i tr root cs (componentsAll h.id h.roots ++ ms)) :
    Ensures h.drop s fun _ s' => ∃ t, KeepsFor (· ≠ h.id) s t ∧ Held t i tr root cs ms ∧
      s' = { t with hosts := t.hosts.filter (·.id ≠ h.id) } := by
  refine .bind (Q := fun _ t => KeepsFor (· ≠ h.id) s t ∧ Held t i tr root cs ms) ?_ fun _ t ht =>
    .of_run rfl ⟨t, ht.1, ht.2, rfl⟩
  refine .bind (unmountAll_ensures h.roots s ms hh) fun _ s₁ ⟨hk, h₁⟩ => ?_
  obtain ⟨s₂, hclear, hk₂, hstore⟩ := h.clearQueue_run s₁
  exact .bind_run hclear (.pure ⟨(hk.mono fun _ _ => trivial).trans hk₂, h₁.of_store hk₂ hstore⟩)

end Host
end LiveLayout
