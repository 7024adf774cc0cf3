import LiveLayout.Proofs.Refreshing.Refresh
/-!
Flushing a host whose tree is up to date. A component that is rendered again is refreshed where it stands, so
the tree stays up to date and shows the same.
-/
namespace LiveLayout

open Engine

namespace Mounted

variable {host i id limit : Nat} {root : Scope} {sc : Scene} {s s' : State} {old next : Mounted}

mutual

/-- What is found in a tree that is up to date is up to date, and lies no deeper. -/
theorem exists_upToDate_of_find? : (m : Mounted) → {depth : Nat} → UpToDate sc s host depth m →
    m.find? id = some old → ∃ d ≤ depth, UpToDate sc s host d old
  | .primitive _, _, _, h => nomatch h
  | .element _ _ _ children, _ + 1, hup, h =>
    let ⟨d, hd, hold⟩ := exists_upToDate_of_findAll? children hup h
    ⟨d, Nat.le_succ_of_le hd, hold⟩
  | .component j key c renders children, depth + 1, hup, h => by
    rw [find?] at h
    split at h
    · cases h
      exact ⟨_, Nat.le_refl _, hup⟩
    · obtain ⟨d, hd, hold⟩ := exists_upToDate_of_findAll? children hup.2 h
      exact ⟨d, Nat.le_succ_of_le hd, hold⟩
  | .fragment _ children, _ + 1, hup, h =>
    let ⟨d, hd, hold⟩ := exists_upToDate_of_findAll? children hup h
    ⟨d, Nat.le_succ_of_le hd, hold⟩

theorem exists_upToDate_of_findAll? : (ms : List Mounted) → {depth : Nat} →
    (∀ m ∈ ms, UpToDate sc s host depth m) → findAll? id ms = some old →
    ∃ d ≤ depth, UpToDate sc s host d old
  | [], _, _, h => nomatch h
  | m :: rest, _, hup, h => by
    rw [findAll?] at h
    rcases Option.or_eq_some_iff.1 h with h | ⟨-, h⟩
    · exact exists_upToDate_of_find? m (hup m (List.mem_cons_self ..)) h
    · exact exists_upToDate_of_findAll? rest (fun k hk => hup k (List.mem_cons_of_mem _ hk)) h

end

mutual

/-- Where a component that occurs once is refreshed, the tree is. -/
theorem replace_refreshed (hnext : ∀ d ≤ limit, Sound host i root sc d s [old] →
    Refreshed host i root sc d s [old] [next] s') : (m : Mounted) → {depth : Nat} → depth ≤ limit →
    Sound host i root sc depth s [m] → ((m.components host).map (·.1)).Nodup → m.find? id = some old →
    Refreshed host i root sc depth s [m] [replace id next m] s'
  | .primitive _, _, _, _, _, h => nomatch h
  | .element tag key props children, 0, _, hs, _, _ => (hs.upToDate _ (List.mem_singleton_self _)).elim
  | .element tag key props children, depth + 1, hle, hs, hn, h => by
    have hup : ∀ m ∈ children, UpToDate sc s host depth m := hs.upToDate _ (List.mem_singleton_self _)
    have henrolled := hs.enrolled
    rw [componentsAll_singleton] at henrolled
    exact (replaceAll_refreshed hnext children (Nat.le_of_succ_le hle) ⟨hs.ready, hs.tidy, henrolled, hup⟩ hn h).element rfl
  | .component j key c renders children, 0, _, hs, _, _ => (hs.upToDate _ (List.mem_singleton_self _)).elim
  | .component j key c renders children, depth + 1, hle, hs, hn, h => by
    rw [find?] at h
    split at h
    · cases h
      rw [replace, if_pos ‹_›]
      exact hnext _ hle hs
    · obtain ⟨hks, hup⟩ := hs.upToDate _ (List.mem_singleton_self _)
      have henrolled := hs.enrolled
      rw [componentsAll_singleton, components, List.forall_mem_cons] at henrolled
      rw [replace, if_neg ‹_›]
      exact .component henrolled.1 (fun _ _ => ⟨rfl, rfl⟩) hks
        (replaceAll_refreshed hnext children (Nat.le_of_succ_le hle) ⟨hs.ready, hs.tidy, henrolled.2, hup⟩ (List.nodup_cons.1 hn).2 h)
        (.refl hs.tidy)
  | .fragment key children, 0, _, hs, _, _ => (hs.upToDate _ (List.mem_singleton_self _)).elim
  | .fragment key children, depth + 1, hle, hs, hn, h => by
    have hup : ∀ m ∈ children, UpToDate sc s host depth m := hs.upToDate _ (List.mem_singleton_self _)
    have henrolled := hs.enrolled
    rw [componentsAll_singleton] at henrolled
    exact (replaceAll_refreshed hnext children (Nat.le_of_succ_le hle) ⟨hs.ready, hs.tidy, henrolled, hup⟩ hn h).fragment

theorem replaceAll_refreshed (hnext : ∀ d ≤ limit, Sound host i root sc d s [old] →
    Refreshed host i root sc d s [old] [next] s') : (ms : List Mounted) → {depth : Nat} → depth ≤ limit →
    Sound host i root sc depth s ms → ((componentsAll host ms).map (·.1)).Nodup → findAll? id ms = some old →
    Refreshed host i root sc depth s ms (replaceAll id next ms) s'
  | [], _, _, _, _, h => nomatch h
  | m :: rest, depth, hle, hs, hn, h => by
    rw [componentsAll, List.map_append, List.nodup_append] at hn
    obtain ⟨hm, hrest, hne⟩ := hn
    obtain ⟨hsm, hsrest⟩ := hs.cons_inv
    rw [findAll?] at h
    rw [replaceAll]
    cases hfind : m.find? id with
    | some found =>
      have hfound : found = old := by simpa [hfind] using h
      rw [hfound] at hfind
      have hnone : findAll? id rest = none := by
        by_contra hsome
        obtain ⟨other, hother⟩ := Option.ne_none_iff_exists'.1 hsome
        exact hne _ (mem_of_find? m hfind) _ (mem_of_findAll? rest hother) rfl
      have hdone := replace_refreshed hnext m hle hsm hm hfind
      have hstill : ∀ e ∈ componentsAll host rest, Untouched s s' e := fun e he =>
        (hsrest.enrolled e he).1.untouched hdone.unshaken.keeps hdone.unshaken.recalls
      rw [replaceAll_of_findAll?_eq_none rest hnone]
      exact hdone.cons (.refl (hsrest.keep hdone.unshaken.keeps hdone.unshaken.recalls hdone.unshaken.tidy)) hstill
    | none =>
      rw [hfind, Option.none_or] at h
      rw [replace_of_find?_eq_none m hfind]
      exact .cons (.refl hsm) (replaceAll_refreshed hnext rest hle hsrest hrest h) fun _ _ => ⟨rfl, rfl⟩

end

theorem map_fst_marks (σ : Store) (host : Nat) (ms : List Mounted) :
    (marks σ host ms).map (·.1) = (componentsAll host ms).map (·.1) := by
  rw [marks, List.map_map]
  rfl

end Mounted

namespace Host

open Mounted

variable {i : Nat} {root : Scope} {sc : Scene} {s s' : State} {h h' : Host}

/-- The host's tree is up to date, and no two components in it have one number. -/
structure UpToDate (i : Nat) (root : Scope) (sc : Scene) (s : State) (h : Host) : Prop where
  tree : Mounted.Sound h.id i root sc depthLimit s h.roots
  nodup : ((componentsAll h.id h.roots).map (·.1)).Nodup

theorem UpToDate.keep {waits : Nat → Prop} (hs : UpToDate i root sc s h) (hk : KeepsFor waits s s')
    (hr : Recalls h.id s s') (ht : s'.store.Tidy) : UpToDate i root sc s' h :=
  ⟨hs.tree.keep hk hr ht, hs.nodup⟩

/-- The host's tree has stayed sound, and stands for the same sketches. -/
structure Flushed (i : Nat) (root : Scope) (sc : Scene) (s : State) (h h' : Host) (s' : State) : Prop where
  id : h'.id = h.id
  upToDate : UpToDate i root sc s' h'
  sketch : sketchAll s'.store h'.roots = sketchAll s.store h.roots

theorem Flushed.trans {s₁ : State} {h₁ : Host} (h₀ : Flushed i root sc s h h₁ s₁)
    (h₂ : Flushed i root sc s₁ h₁ h' s') : Flushed i root sc s h h' s' :=
  ⟨h₂.id.trans h₀.id, h₂.upToDate, h₂.sketch.trans h₀.sketch⟩

theorem Flushed.of_store {s₁ : State} (h₁ : Flushed i root sc s₁ h h' s') (hstore : s₁.store = s.store) :
    Flushed i root sc s h h' s' := ⟨h₁.id, h₁.upToDate, h₁.sketch.trans (by rw [hstore])⟩

/-- Rendering a component again refreshes it in the tree. -/
theorem rerender_refreshes {id : Nat} {key : Option String} {c : Component} {renders : Nat}
    {children : List Mounted} (hs : UpToDate i root sc s h)
    (hfind : findAll? id h.roots = some (.component id key c renders children)) :
    Ensures (rerender h.id depthLimit (update h.id depthLimit) id key c renders children) s fun m s' =>
      Refreshed h.id i root sc depthLimit s h.roots (replaceAll id m h.roots) s' := by
  obtain ⟨d, hd, hold⟩ := exists_upToDate_of_findAll? h.roots hs.tree.upToDate hfind
  have henrolled : ∀ e ∈ (component id key c renders children).components h.id,
      Enrolled s i sc.transport root e := fun e he =>
    hs.tree.enrolled e (components_findAll? h.roots hfind he)
  rw [components, List.forall_mem_cons] at henrolled
  -- However deep it lies, it is one run that refreshes it.
  have step (d : Nat) (hd : d ≤ depthLimit)
      (hold : Mounted.UpToDate sc s h.id (d + 1) (.component id key c renders children)) :=
    Mounted.rerender_refreshes (update_refreshes d depthLimit hd) hd key renders hs.tree.ready hs.tree.tidy
      henrolled.1 henrolled.2 hold
  intro m s' hrun
  refine replaceAll_refreshed (fun e he hsound => ?_) h.roots (Nat.le_refl _) hs.tree hs.nodup hfind
  have hup := hsound.upToDate _ (List.mem_singleton_self _)
  cases e with
  | zero => exact hup.elim
  | succ e =>
    obtain ⟨m', t, hrun', -, -, hl⟩ := step e (Nat.le_of_succ_le he) hup
    cases hrun.symm.trans hrun'
    exact hl

theorem rerenderAll_flushed (ids : List Nat) : ∀ s h count, UpToDate i root sc s h →
    Ensures (h.rerenderAll count ids) s fun r s' => Flushed i root sc s h r.1 s' := by
  induction ids with
  | nil => exact fun s h count hs => .pure ⟨rfl, hs, rfl⟩
  | cons id rest ih =>
    intro s h count hs
    cases hfind : findAll? id h.roots with
    | none =>
      obtain ⟨_, s₁, htrace, hq⟩ := silent_trace (.notMounted id) s
      have hu := Unshaken.of_forked hq.forked hs.tree.tidy
      rw [rerenderAll, hfind]
      exact .bind_run htrace ((ih s₁ h count (hs.keep hu.keeps hu.recalls hu.tidy)).mono fun r s' h₁ =>
        h₁.of_store hq.store)
    | some old =>
      obtain ⟨key, c, renders, children, rfl⟩ := exists_of_findAll? h.roots hfind
      rw [rerenderAll, hfind]
      refine (rerender_refreshes hs hfind).bind fun m s₁ h₁ => ?_
      have hnodup : ((componentsAll h.id (replaceAll id m h.roots)).map (·.1)).Nodup := by
        rw [← map_fst_marks s₁.store, h₁.marks, map_fst_marks]
        exact hs.nodup
      have hsound : UpToDate i root sc s₁ { h with roots := replaceAll id m h.roots } :=
        ⟨⟨hs.tree.ready.keep h₁.unshaken.keeps, h₁.unshaken.tidy, h₁.enrolled, h₁.upToDate⟩, hnodup⟩
      have hdone : Flushed i root sc s h { h with roots := replaceAll id m h.roots } s₁ :=
        ⟨rfl, hsound, h₁.sketch⟩
      exact (ih s₁ _ (count + 1) hsound).mono fun r s' h₂ => hdone.trans h₂

theorem flushRounds_flushed (rounds : Nat) : ∀ s h count, UpToDate i root sc s h →
    Ensures (h.flushRounds count rounds) s fun r s' => Flushed i root sc s h r.1 s' := by
  have clear (s : State) (h : Host) (hs : UpToDate i root sc s h) :
      ∃ s₁, h.clearQueue s = some ((), s₁) ∧ s₁.store = s.store ∧ UpToDate i root sc s₁ h := by
    obtain ⟨s₁, hrun, hk, hstore⟩ := h.clearQueue_run s
    refine ⟨s₁, hrun, hstore, hs.keep hk (h.clearQueue_recalls s _ _ hrun) ?_⟩
    rw [hstore]
    exact hs.tree.tidy
  induction rounds with
  | zero =>
    intro s h count hs
    obtain ⟨s₁, hclear, hstore, hs₁⟩ := clear s h hs
    have hdone : Flushed i root sc s h h s₁ := Flushed.of_store ⟨rfl, hs₁, rfl⟩ hstore
    refine .bind_run (h.queue_run s) (.bind_run hclear ?_)
    split
    · have hq : Quiet s₁ { s₁ with notices := .endlessFlush roundLimit :: s₁.notices } := ⟨rfl, .refl _⟩
      have hu := Unshaken.of_forked hq.forked hs₁.tree.tidy
      refine .bind_run (t := { s₁ with notices := .endlessFlush roundLimit :: s₁.notices }) rfl (.pure ?_)
      exact hdone.trans ⟨rfl, hs₁.keep hu.keeps hu.recalls hu.tidy, rfl⟩
    · exact .pure hdone
  | succ rounds ih =>
    intro s h count hs
    obtain ⟨s₁, hclear, hstore, hs₁⟩ := clear s h hs
    refine .bind_run (h.queue_run s) (.bind_run hclear ?_)
    split
    · exact .pure (Flushed.of_store ⟨rfl, hs₁, rfl⟩ hstore)
    · refine (rerenderAll_flushed _ s₁ h count hs₁).bind fun r s₂ h₂ => ?_
      exact (ih s₂ r.1 r.2 h₂.upToDate).mono fun r' s' h₃ => (h₂.trans h₃).of_store hstore

/-- A flush leaves a tree that is up to date so, and what it stands for. -/
theorem flush_flushed (hs : UpToDate i root sc s h) :
    Ensures h.flush s fun r s' => Flushed i root sc s h r.1 s' := flushRounds_flushed roundLimit s h 0 hs

end Host
end LiveLayout
