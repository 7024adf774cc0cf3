import LiveLayout.Proofs.Mounting.Counts
/-!
How often a flush renders a component: once for each component that waits and in which it lies.
-/
namespace LiveLayout

open Engine

namespace Host

open Mounted

variable {s s' : State} {last i root : Nat} {sc : Scene} {cs ms : List (Instance × Component)} {h h' : Host}

/-- How many of the components lie on the path. -/
def turns (ids path : List Nat) : Nat := ids.countP (· ∈ path)

theorem turns_cons (id : Nat) (ids path : List Nat) : turns (id :: ids) path = turns [id] path + turns ids path := by
  simp only [turns, List.countP_cons, List.countP_nil]
  omega

theorem turns_eq_zero {ids path : List Nat} (h : ∀ id ∈ ids, id ∉ path) : turns ids path = 0 := by
  unfold turns
  rw [List.countP_eq_zero]
  simpa using h

/-- On a path without repetitions, the turns are those of its components that are among the given ones. -/
theorem turns_eraseDups {path : List Nat} (hpath : path.Nodup) (ids : List Nat) :
    turns ids.eraseDups path = path.countP (· ∈ ids) := by
  unfold turns
  rw [List.countP_eq_length_filter, List.countP_eq_length_filter]
  refine List.Perm.length_eq ?_
  refine (List.perm_ext_iff_of_nodup ((Fields.nodup_eraseDups ids).filter _) (hpath.filter _)).2 fun id => ?_
  simp [and_comm]

/-- A component that is rendered again gives everything in it one more turn. -/
theorem rerender_regrown {id : Nat} {key : Option String} {c : Component} {renders : Nat}
    {children : List Mounted} (hs : Ready s h.id i root sc) (hlast : GivenOut h.id last s)
    (hh : Held s i sc.transport root cs (componentsAll h.id h.roots ++ ms))
    (hfind : findAll? id h.roots = some (.component id key c renders children)) :
    Ensures (rerender h.id depthLimit (update h.id depthLimit) id key c renders children) s fun m s' =>
      Stirs h.id last s s' ∧
        Regrown last (turns [id]) (linesAll [] h.roots) (linesAll [] (replaceAll id m h.roots)) := by
  have hwithin : ∀ e ∈ (component id key c renders children).components h.id,
      Within s.store i sc.transport root e.2 := fun e he =>
    hh.within e (List.mem_append_left _ (components_findAll? h.roots hfind he))
  rw [components, List.forall_mem_cons] at hwithin
  obtain ⟨⟨scope, hscope, hroot, hat⟩, hwithin⟩ := hwithin
  have hchildren : ∀ e ∈ componentsAll h.id children, e.2.OfLayout := by
    intro e he
    obtain ⟨scope, -, -, hat⟩ := hwithin e he
    exact ⟨i, sc.transport, scope, hat⟩
  have hrenews : Renews h.id i root sc last (update h.id depthLimit) := update_renews depthLimit
  have step := hrenews.rerender depthLimit id key renders hchildren hs hlast hscope hroot hat
  refine step.mono fun m s' hm => ?_
  obtain ⟨hstirs, next, rfl, hnext⟩ := hm
  refine ⟨hstirs, replaceAll_regrown (fun above => ?_) (fun path hpath => ?_) List.not_mem_nil h.roots hh.nodup hfind⟩
  · refine ((hnext (id :: above)).cons id above renders).congr fun l hl _ => ?_
    have hmem : l ∈ (component id key c (renders + 1) next).lines above := hl
    simp [turns, mem_path_of_component hmem]
  · exact turns_eq_zero (by simpa using hpath)

/-- Rendering components again gives everything a turn for each of them that it lies in. -/
theorem rerenderAll_regrown (ids : List Nat) : ∀ (s : State) (h : Host) (count : Nat),
    Ready s h.id i root sc → GivenOut h.id last s →
    Held s i sc.transport root cs (componentsAll h.id h.roots ++ ms) →
    Ensures (h.rerenderAll count ids) s fun r s' => r.1.id = h.id ∧
      Held s' i sc.transport root cs (componentsAll r.1.id r.1.roots ++ ms) ∧ Stirs h.id last s s' ∧
      Regrown last (turns ids) (linesAll [] h.roots) (linesAll [] r.1.roots) := by
  induction ids with
  | nil => exact fun s h count _ _ hh => .pure ⟨rfl, hh, .refl h.id last s, .of_eq_zero fun _ _ => rfl⟩
  | cons id rest ih =>
    intro s h count hs hlast hh
    have hturns : turns (id :: rest) = fun path => turns [id] path + turns rest path := funext (turns_cons id rest)
    rw [hturns]
    cases hfind : findAll? id h.roots with
    | none =>
      obtain ⟨_, s₁, htrace, hq⟩ := silent_trace (.notMounted id) s
      have hgone : (⟨h.id, id⟩ : Instance) ∉ (componentsAll h.id h.roots).map (·.1) :=
        not_mem_of_findAll?_eq_none h.roots hfind
      have hnone : Regrown last (turns [id]) (linesAll [] h.roots) (linesAll [] h.roots) :=
        .of_eq_zero fun l hl => turns_eq_zero (by simpa using not_mem_path List.not_mem_nil hgone hl)
      rw [rerenderAll, hfind]
      refine .bind_run htrace ((ih s₁ h count (hs.keep hq.keeps) (hlast.keep hq.keeps) (hh.forked hq.forked)).mono
        fun r s' h₂ => ?_)
      obtain ⟨hid, hheld, hstirs, hlines⟩ := h₂
      exact ⟨hid, hheld, (Stirs.of_forked hq.forked).trans hstirs, hnone.trans hlines⟩
    | some old =>
      obtain ⟨key, c, renders, children, rfl⟩ := exists_of_findAll? h.roots hfind
      have hexcused : sc.Fresh s.store (fun e => e.1 = ⟨h.id, id⟩ ∨ True) (renderedAll s.store h.id h.roots) :=
        fun _ _ => .inl (.inr trivial)
      have renewed := rerender_renewed hs hh hfind (fun _ _ => trivial) hexcused
      rw [rerenderAll, hfind]
      refine .bind (renewed.and (rerender_regrown hs hlast hh hfind)) fun m s₁ h₁ => ?_
      obtain ⟨hrenewed, hstirs, hlines⟩ := h₁
      have hk := hstirs.keeps
      refine (ih s₁ { h with roots := replaceAll id m h.roots } (count + 1) (hs.keep hk) (hlast.keep hk)
        hrenewed.held).mono fun r s' h₂ => ?_
      obtain ⟨hid, hheld, hstirs', hlines'⟩ := h₂
      exact ⟨hid, hheld, hstirs.trans hstirs', hlines.trans hlines'⟩

/-! ### Flushing -/

theorem queue_clearQueue {s₁ : State} (hrun : h.clearQueue s = some ((), s₁)) (id : Nat) :
    s₁.queue id = if id = h.id then [] else s.queue id := by
  obtain ⟨-, rfl⟩ := Prod.mk.inj (Option.some.inj hrun)
  unfold State.queue
  rw [host?_modifyHost s h.id (f := fun r => { r with queue := [] }) (fun _ => rfl), Option.map_map]
  cases hr : s.host? id with
  | none => split <;> rfl
  | some r =>
    have hid : r.id = id := by simpa using List.find?_some hr
    rw [Option.map_some, Option.getD_some, Function.comp_apply, hid]
    split <;> rfl

/-- Whatever is not young lies in nothing young. -/
def Settled (last : Nat) (h : Host) : Prop := ∀ l ∈ linesAll [] h.roots, l.id ≤ last → ∀ j ∈ l.path, j ≤ last

/-- After rounds of a flush: no other host has more to render, and everything has had its turns. -/
structure Turned (last : Nat) (again : List Nat → Nat) (s : State) (h h' : Host) (s' : State) : Prop where
  id : h'.id = h.id
  queue : ∀ id, id ≠ h.id → ∀ q ∈ s'.queue id, q ∈ s.queue id
  lines : Regrown last again (linesAll [] h.roots) (linesAll [] h'.roots)

theorem Settled.regrown {again : List Nat → Nat} (hh : Settled last h)
    (hlines : Regrown last again (linesAll [] h.roots) (linesAll [] h'.roots)) : Settled last h' := by
  intro l hl hle
  rcases hlines l hl with hlt | ⟨r, hr, -⟩
  · exact absurd hle (Nat.not_le.2 hlt)
  · exact hh ⟨l.id, l.above, r⟩ hr hle

/-- One round of a flush. What waits afterwards is young. -/
theorem round_regrown {s₁ : State} (hclear : h.clearQueue s = some ((), s₁)) (hk : KeepsFor (· ≠ h.id) s s₁)
    (hstore : s₁.store = s.store) (count : Nat) (hs : Ready s h.id i root sc) (hlast : GivenOut h.id last s)
    (hh : Held s i sc.transport root cs (componentsAll h.id h.roots ++ ms)) (ids : List Nat) :
    Ensures (h.rerenderAll count ids) s₁ fun r s' => Turned last (turns ids) s h r.1 s' ∧
      Ready s' r.1.id i root sc ∧ GivenOut r.1.id last s' ∧
      Held s' i sc.transport root cs (componentsAll r.1.id r.1.roots ++ ms) ∧ ∀ q ∈ s'.queue r.1.id, last < q := by
  have hlast₁ : GivenOut h.id last s₁ := hlast.keep hk
  have step := rerenderAll_regrown ids s₁ h count (hs.keep hk) hlast₁ (hh.of_store hk hstore)
  refine step.mono fun r s' hr => ?_
  obtain ⟨hid, hheld, hstirs, hlines⟩ := hr
  have hk' := hstirs.keeps
  refine ⟨⟨hid, fun id hne q hq => ?_, hlines⟩, ?_, ?_, hheld, fun q hq => ?_⟩
  · have hq := (hstirs.queue id q hq).resolve_right fun hyoung => hne hyoung.1
    rwa [queue_clearQueue hclear, if_neg hne] at hq
  · rw [hid]
    exact (hs.keep hk).keep hk'
  · rw [hid]
    exact (hlast.keep hk).keep hk'
  · rw [hid] at hq
    refine ((hstirs.queue h.id q hq).resolve_left fun hq => ?_).2
    rw [queue_clearQueue hclear, if_pos rfl] at hq
    cases hq

/-- Where only what is young waits, nothing else has a turn. -/
theorem Settled.turns_eq_zero (hh : Settled last h) {ids : List Nat} (hyoung : ∀ id ∈ ids, last < id) :
    ∀ l ∈ linesAll [] h.roots, l.id ≤ last → turns ids.eraseDups l.path = 0 := by
  intro l hl hle
  refine Host.turns_eq_zero fun id hid hmem => ?_
  exact absurd (hh l hl hle id hmem) (Nat.not_le.2 (hyoung id (List.mem_eraseDups.1 hid)))

namespace Turned

variable {f g : List Nat → Nat} {h₁ : Host} {s₁ : State}

/-- Forgetting what waits gives nothing a turn. -/
theorem cleared (hclear : h.clearQueue s = some ((), s₁))
    (hf : ∀ l ∈ linesAll [] h.roots, l.id ≤ last → f l.path = 0) : Turned last f s h h s₁ := by
  have hnone : Regrown last (fun _ => 0) (linesAll [] h.roots) (linesAll [] h.roots) := .of_eq_zero fun _ _ => rfl
  refine ⟨rfl, fun id hne q hq => ?_, hnone.congr hf⟩
  rwa [queue_clearQueue hclear, if_neg hne] at hq

theorem congr (ht : Turned last f s h h' s') (hfg : ∀ l ∈ linesAll [] h'.roots, l.id ≤ last → g l.path = f l.path) :
    Turned last g s h h' s' := ⟨ht.id, ht.queue, ht.lines.congr hfg⟩

theorem trans (ht : Turned last f s h h₁ s₁) (ht' : Turned last g s₁ h₁ h' s') :
    Turned last (fun path => f path + g path) s h h' s' := by
  refine ⟨ht'.id.trans ht.id, fun id hne q hq => ht.queue id hne q (ht'.queue id ?_ q hq), ht.lines.trans ht'.lines⟩
  rwa [ht.id]

end Turned

/-- In the rounds of a flush everything has one turn for each component that waits and in which it lies: what
waits after a round is young. -/
theorem flushRounds_turned (rounds : Nat) : ∀ (s : State) (h : Host) (count : Nat),
    Ready s h.id i root sc → GivenOut h.id last s →
    Held s i sc.transport root cs (componentsAll h.id h.roots ++ ms) → Settled last h →
    (rounds = 0 → ∀ q ∈ s.queue h.id, last < q) →
    Ensures (h.flushRounds count rounds) s fun r s' => Turned last (turns (s.queue h.id).eraseDups) s h r.1 s' := by
  induction rounds with
  | zero =>
    intro s h count _ _ _ hsettled hyoung
    obtain ⟨s₁, hclear, -, -⟩ := h.clearQueue_run s
    have hdone : Turned last (turns (s.queue h.id).eraseDups) s h h s₁ :=
      .cleared hclear (hsettled.turns_eq_zero (hyoung rfl))
    refine .bind_run (h.queue_run s) (.bind_run hclear ?_)
    split
    · exact .bind_run (log_run _ s₁) (.pure ⟨rfl, hdone.queue, hdone.lines⟩)
    · exact .pure hdone
  | succ rounds ih =>
    intro s h count hs hlast hh hsettled _
    obtain ⟨s₁, hclear, hk, hstore⟩ := h.clearQueue_run s
    refine .bind_run (h.queue_run s) (.bind_run hclear ?_)
    split
    · rename_i hempty
      rw [List.isEmpty_iff.1 hempty]
      exact .pure (.cleared hclear fun _ _ _ => rfl)
    · refine .bind (round_regrown hclear hk hstore count hs hlast hh _) fun r s₂ h₂ => ?_
      obtain ⟨hturned, hs₂, hlast₂, hh₂, hyoung₂⟩ := h₂
      have hsettled₂ := hsettled.regrown hturned.lines
      refine (ih s₂ r.1 r.2 hs₂ hlast₂ hh₂ hsettled₂ fun _ => hyoung₂).mono fun r' s' h₃ => ?_
      refine (hturned.trans h₃).congr fun l hl hle => ?_
      rw [hsettled₂.regrown h₃.lines |>.turns_eq_zero hyoung₂ l hl hle, Nat.add_zero]

/-- In a flush everything has one turn for each component that waits and in which it lies. -/
theorem flush_turned (hs : Ready s h.id i root sc) (hlast : GivenOut h.id last s)
    (hh : Held s i sc.transport root cs (componentsAll h.id h.roots ++ ms)) (hsettled : Settled last h) :
    Ensures h.flush s fun r s' => Turned last (turns (s.queue h.id).eraseDups) s h r.1 s' :=
  flushRounds_turned roundLimit s h 0 hs hlast hh hsettled nofun

end Host
end LiveLayout
