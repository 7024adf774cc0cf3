import LiveLayout.Proofs.Lifecycle.Trees
/-!
Rounds of a flush, and what holds of a host after any operations: the lives of its instances, and that
nothing that has been invalidated is lost.
-/
namespace LiveLayout.Lifecycle

variable {W C N : Type} {F : Family W C N} {m m' : Machine W}

namespace Tree

variable {id : Nat} {next old : Tree C}

mutual

theorem mem_ids_iff : (t : Tree C) → (id ∈ t.ids ↔ (t.find? id).isSome)
  | .primitive _ => by simp [ids, find?]
  | .element _ _ _ children => mem_idsAll_iff children
  | .component i key c renders children => by
    rw [ids, find?, List.mem_cons]
    split
    · simp [‹i = id›]
    · simp [Ne.symm ‹¬i = id›, mem_idsAll_iff children]
  | .fragment _ children => mem_idsAll_iff children

theorem mem_idsAll_iff : (ts : List (Tree C)) → (id ∈ idsAll ts ↔ (findAll? id ts).isSome)
  | [] => by simp [idsAll, findAll?]
  | t :: rest => by
    rw [idsAll, findAll?, List.mem_append, mem_ids_iff t, mem_idsAll_iff rest, Option.isSome_or,
      Bool.or_eq_true]

end

mutual

theorem replace_of_notMem : (t : Tree C) → id ∉ t.ids → replace id next t = t
  | .primitive _, _ => rfl
  | .element _ _ _ children, h => by rw [replace, replaceAll_of_notMem children h]
  | .component i _ _ _ children, h => by
    obtain ⟨hne, h⟩ := not_or.1 (List.mem_cons.not.1 h)
    rw [replace, if_neg (Ne.symm hne), replaceAll_of_notMem children h]
  | .fragment _ children, h => by rw [replace, replaceAll_of_notMem children h]

theorem replaceAll_of_notMem : (ts : List (Tree C)) → id ∉ idsAll ts → replaceAll id next ts = ts
  | [], _ => rfl
  | t :: rest, h => by
    rw [idsAll, List.mem_append, not_or] at h
    rw [replaceAll, replace_of_notMem t h.1, replaceAll_of_notMem rest h.2]

end

mutual

/-- What is found occurs once, beside other instances that stay when it is replaced. -/
theorem exists_beside_replace (next : Tree C) : (t : Tree C) → t.ids.Nodup → t.find? id = some old →
    ∃ rest, t.ids.Perm (old.ids ++ rest) ∧ (replace id next t).ids.Perm (next.ids ++ rest)
  | .primitive _, _, h => nomatch h
  | .element _ _ _ children, hn, h => exists_beside_replaceAll next children hn h
  | .component i _ _ _ children, hn, h => by
    rw [find?] at h
    split at h
    · obtain rfl := Option.some.inj h
      rw [replace, if_pos ‹_›]
      exact ⟨[], by rw [List.append_nil], by rw [List.append_nil]⟩
    · obtain ⟨rest, hold, hnext⟩ := exists_beside_replaceAll next children (List.nodup_cons.1 hn).2 h
      rw [replace, if_neg ‹_›]
      exact ⟨i :: rest, (hold.cons i).trans List.perm_middle.symm, (hnext.cons i).trans List.perm_middle.symm⟩
  | .fragment _ children, hn, h => exists_beside_replaceAll next children hn h

theorem exists_beside_replaceAll (next : Tree C) : (ts : List (Tree C)) → (idsAll ts).Nodup →
    findAll? id ts = some old →
    ∃ rest, (idsAll ts).Perm (old.ids ++ rest) ∧ (idsAll (replaceAll id next ts)).Perm (next.ids ++ rest)
  | [], _, h => nomatch h
  | t :: ts, hn, h => by
    rw [idsAll, List.nodup_append] at hn
    obtain ⟨ht, hts, hne⟩ := hn
    rw [findAll?] at h
    rw [idsAll, replaceAll, idsAll]
    cases hfind : t.find? id with
    | some found =>
      have hfound : found = old := by simpa [hfind] using h
      rw [hfound] at hfind
      have hmem : id ∈ t.ids := (mem_ids_iff t).2 (by rw [hfind]; rfl)
      rw [replaceAll_of_notMem ts fun hid => hne id hmem id hid rfl]
      obtain ⟨rest, hold, hnext⟩ := exists_beside_replace next t ht hfind
      refine ⟨rest ++ idsAll ts, ?_, ?_⟩
      · rw [← List.append_assoc]
        exact hold.append_right _
      · rw [← List.append_assoc]
        exact hnext.append_right _
    | none =>
      rw [hfind, Option.none_or] at h
      have hnot : id ∉ t.ids := fun hid => by simpa [hfind] using (mem_ids_iff t).1 hid
      rw [replace_of_notMem t hnot]
      obtain ⟨rest, hold, hnext⟩ := exists_beside_replaceAll next ts hts h
      refine ⟨t.ids ++ rest, (hold.append_left _).trans ?_, (hnext.append_left _).trans ?_⟩
      · simp only [← List.append_assoc]
        exact List.perm_append_comm.append_right _
      · simp only [← List.append_assoc]
        exact List.perm_append_comm.append_right _

end

mutual

theorem exists_of_find? : (t : Tree C) → t.find? id = some old →
    ∃ key c renders children, old = .component id key c renders children
  | .primitive _, h => nomatch h
  | .element _ _ _ children, h => exists_of_findAll? children h
  | .component i key c renders children, h => by
    rw [find?] at h
    split at h
    · subst i
      exact ⟨key, c, renders, children, (Option.some.inj h).symm⟩
    · exact exists_of_findAll? children h
  | .fragment _ children, h => exists_of_findAll? children h

theorem exists_of_findAll? : (ts : List (Tree C)) → findAll? id ts = some old →
    ∃ key c renders children, old = .component id key c renders children
  | [], h => nomatch h
  | t :: rest, h => by
    rw [findAll?] at h
    rcases Option.or_eq_some_iff.1 h with h | ⟨-, h⟩
    · exact exists_of_find? t h
    · exact exists_of_findAll? rest h

end

end Tree

namespace Family

variable {roots next : List (Tree C)} {count count' : Nat} {waiting : List Nat}

/-- The roots of a host with what is still to be rendered beside the queue. -/
abbrev Holds (roots : List (Tree C)) (waiting : List Nat) (m : Machine W) : Prop :=
  Sound (Tree.idsAll roots) waiting m

/-- A step of a round for an instance that is there. -/
theorem rerender_holds {id : Nat} {key : Option String} {c : C} {renders : Nat}
    {children : List (Tree C)} {t : Tree C} (h : Holds roots (id :: waiting) m)
    (hfind : Tree.findAll? id roots = some (.component id key c renders children))
    (hrun : F.rerender Host.depthLimit (F.update Host.depthLimit) id key c renders children m = some (t, m')) :
    Holds (Tree.replaceAll id t roots) waiting m' ∧
      ∃ new, m'.log = m.log ++ new ∧ .called id .render ∈ new := by
  obtain ⟨rest, hold, hnext⟩ := Tree.exists_beside_replaceAll t roots h.nodup hfind
  obtain ⟨m₁, hrender, hturns⟩ := rerender_turns (update_turns Host.depthLimit) hrun
  have hself : Sound (id :: (Tree.idsAll children ++ rest)) waiting m₁ := by
    refine (h.perm hold).stay [.render] hrender .rendered fun i hi => ?_
    exact (List.mem_cons.1 hi).symm.imp_right fun heq => ⟨heq, List.mem_singleton_self _⟩
  refine ⟨(hturns.sound rest waiting hself).perm hnext.symm, ?_⟩
  obtain ⟨new, hlog, hcalls, -⟩ := hrender.log
  obtain ⟨new', hlog'⟩ := hturns.log
  refine ⟨new ++ new', by rw [hlog', hlog, List.append_assoc], List.mem_append_left _ ?_⟩
  rw [← mem_history, history, hcalls]
  simp [callsOf]

/-- A round renders all that waits for it and is there when its turn comes; what is not there then has been
unmounted. -/
theorem rerenderAll_holds (pending : List Nat) (h : Holds roots (pending ++ waiting) m)
    (hrun : F.rerenderAll roots count pending m = some ((next, count'), m')) :
    Holds next waiting m' ∧ ∃ new, m'.log = m.log ++ new ∧ ∀ id ∈ pending, id ∈ Tree.idsAll roots →
      .called id .render ∈ new ∨ .called id .unmount ∈ new := by
  induction pending generalizing roots count m with
  | nil =>
    obtain ⟨heq, rfl⟩ := pure_eq_some.1 hrun
    obtain ⟨rfl, -⟩ := Prod.mk.inj heq
    exact ⟨h, [], (List.append_nil _).symm, nofun⟩
  | cons id rest ih =>
    unfold rerenderAll at hrun
    cases hfind : Tree.findAll? id roots with
    | none =>
      rw [hfind] at hrun
      obtain ⟨_, _, hnote, hrun⟩ := bind_eq_some.1 hrun
      cases hnote
      have hnot : id ∉ Tree.idsAll roots := fun hid => by simpa [hfind] using (Tree.mem_idsAll_iff roots).1 hid
      obtain ⟨hnext, new, hlog, hnew⟩ := ih ((h.pass hnot).with_world (F.noteMissing id m.world)) hrun
      refine ⟨hnext, new, hlog, fun i hi hlive => ?_⟩
      exact hnew i ((List.mem_cons.1 hi).resolve_left fun heq => hnot (heq ▸ hlive)) hlive
    | some old =>
      obtain ⟨key, c, renders, children, rfl⟩ := Tree.exists_of_findAll? roots hfind
      rw [hfind] at hrun
      obtain ⟨t, m₁, hrender, hrun⟩ := bind_eq_some.1 hrun
      obtain ⟨h₁, new, hlog, hself⟩ := rerender_holds h hfind hrender
      obtain ⟨hnext, new', hlog', hnew⟩ := ih h₁ hrun
      refine ⟨hnext, new ++ new', by rw [hlog', hlog, List.append_assoc], fun i hi hlive => ?_⟩
      simp only [List.mem_append]
      rcases List.mem_cons.1 hi with rfl | hi
      · exact .inl (.inl hself)
      · by_cases hstill : i ∈ Tree.idsAll (Tree.replaceAll id t roots)
        · exact (hnew i hi hstill).imp .inr .inr
        · exact .inr (.inl ((h.unmounted h₁ hlog hlive).1 hstill))

theorem takeQueue_holds {pending : List Nat} (h : Holds roots [] m)
    (hrun : (takeQueue : Run W (List Nat)) m = some (pending, m')) :
    pending = m.queue ∧ m' = { m with queue := [] } ∧ Holds roots (pending.eraseDups ++ []) m' := by
  cases hrun
  refine ⟨rfl, rfl, h.nodup, h.issued, h.showing, h.gone, fun i hi hstale => ?_⟩
  right
  rw [List.append_nil]
  exact List.mem_eraseDups.2 ((h.queued i hi hstale).resolve_right List.not_mem_nil)

theorem flushRounds_holds (rounds : Nat) (h : Holds roots [] m)
    (hrun : F.flushRounds roots count rounds m = some ((next, count'), m')) :
    Holds next [] m' ∧ ∃ new, m'.log = m.log ++ new := by
  induction rounds generalizing roots count m with
  | zero =>
    obtain ⟨pending, m₁, htake, hrun⟩ := bind_eq_some.1 hrun
    obtain ⟨rfl, rfl, h₁⟩ := takeQueue_holds h htake
    obtain ⟨_, m₂, hgive, hrun⟩ := bind_eq_some.1 hrun
    obtain ⟨heq, rfl⟩ := pure_eq_some.1 hrun
    obtain ⟨rfl, -⟩ := Prod.mk.inj heq
    unfold giveUp at hgive
    split at hgive
    · obtain ⟨-, rfl⟩ := pure_eq_some.1 hgive
      have hempty : m.queue = [] := List.isEmpty_iff.1 ‹_›
      rw [hempty] at h₁
      exact ⟨h₁, [], (List.append_nil _).symm⟩
    · cases hgive
      have hsame (i : Nat) : history i (m.log ++ [.gaveUp]) = history i m.log := by
        rw [history_append]
        exact List.append_nil _
      refine ⟨⟨h.nodup, h.issued, ?_, ?_, fun i _ hstale => ?_⟩, _, rfl⟩
      · simpa only [hsame] using h.showing
      · simpa only [hsame] using h.gone
      · rcases hstale.of_append with hnew | ⟨-, -, hgave⟩
        · simp at hnew
        · simp at hgave
  | succ rounds ih =>
    obtain ⟨pending, m₁, htake, hrun⟩ := bind_eq_some.1 hrun
    obtain ⟨rfl, rfl, h₁⟩ := takeQueue_holds h htake
    split at hrun
    · obtain ⟨heq, rfl⟩ := pure_eq_some.1 hrun
      obtain ⟨rfl, -⟩ := Prod.mk.inj heq
      have hempty : m.queue = [] := List.isEmpty_iff.1 ‹_›
      rw [hempty] at h₁
      exact ⟨h₁, [], (List.append_nil _).symm⟩
    · obtain ⟨⟨roots₁, count₁⟩, m₂, hround, hrun⟩ := bind_eq_some.1 hrun
      obtain ⟨h₂, new, hlog, -⟩ := rerenderAll_holds _ h₁ hround
      obtain ⟨hnext, new', hlog'⟩ := ih h₂ hrun
      exact ⟨hnext, new ++ new', by rw [hlog', hlog, List.append_assoc]⟩

/-- One operation on a host. -/
theorem perform_holds (op : Operation W N) (h : Holds roots [] m)
    (hrun : F.perform roots op m = some (next, m')) :
    Holds next [] m' ∧ ∃ new, m'.log = m.log ++ new := by
  cases op with
  | render nodes =>
    have hturns := reconcile_turns (update_turns Host.depthLimit) hrun
    have hnext := hturns.sound [] [] (by rwa [List.append_nil])
    rw [List.append_nil] at hnext
    exact ⟨hnext, hturns.log⟩
  | flush =>
    obtain ⟨⟨roots₁, count₁⟩, m₁, hflush, hrun⟩ := bind_eq_some.1 hrun
    obtain ⟨rfl, rfl⟩ := pure_eq_some.1 hrun
    exact flushRounds_holds Host.roundLimit h hflush
  | round =>
    obtain ⟨pending, m₁, htake, hrun⟩ := bind_eq_some.1 hrun
    obtain ⟨rfl, rfl, h₁⟩ := takeQueue_holds h htake
    obtain ⟨⟨roots₁, count₁⟩, m₂, hround, hrun⟩ := bind_eq_some.1 hrun
    obtain ⟨rfl, rfl⟩ := pure_eq_some.1 hrun
    obtain ⟨h₂, new, hlog, -⟩ := rerenderAll_holds _ h₁ hround
    exact ⟨h₂, new, hlog⟩
  | clear =>
    obtain ⟨_, m₁, hunmount, hrun⟩ := bind_eq_some.1 hrun
    obtain ⟨pending, m₂, htake, hrun⟩ := bind_eq_some.1 hrun
    obtain ⟨rfl, rfl⟩ := pure_eq_some.1 hrun
    have hturns := unmountAll_turns roots m m₁ hunmount
    have hnone : Sound [] [] m₁ := hturns.sound [] [] (by rwa [List.append_nil])
    cases htake
    exact ⟨⟨.nil, nofun, nofun, hnone.gone, nofun⟩, hturns.log⟩
  | meanwhile change ids =>
    obtain ⟨_, m₁, hchange, hrun⟩ := bind_eq_some.1 hrun
    obtain ⟨rfl, rfl⟩ := pure_eq_some.1 hrun
    cases hchange
    exact ⟨h.makes_nothing (.invalidate m (change m.world) ids), _, rfl⟩

theorem Reached.holds (h : F.Reached roots m) : Holds roots [] m := by
  induction h with
  | new world => exact .new world
  | after _ op done ih => exact (perform_holds op ih done).1

theorem Reached.performAll {ops : List (Operation W N)} (h : F.Reached roots m)
    (hrun : F.performAll roots ops m = some (next, m')) : F.Reached next m' := by
  induction ops generalizing roots m with
  | nil =>
    obtain ⟨rfl, rfl⟩ := pure_eq_some.1 hrun
    exact h
  | cons op rest ih =>
    obtain ⟨roots₁, m₁, hop, hrest⟩ := bind_eq_some.1 hrun
    exact ih (h.after op hop) hrest

/-! ### Invalidations -/

/-- A flush gives all that waits its turn. -/
theorem flush_renders (h : Holds roots [] m) (hrun : F.perform roots .flush m = some (next, m')) :
    ∃ new, m'.log = m.log ++ new ∧ ∀ id ∈ m.queue, id ∈ Tree.idsAll roots →
      .called id .render ∈ new ∨ .called id .unmount ∈ new := by
  obtain ⟨⟨roots₁, count₁⟩, m₁, hflush, hrun⟩ := bind_eq_some.1 hrun
  obtain ⟨rfl, rfl⟩ := pure_eq_some.1 hrun
  obtain ⟨pending, m₂, htake, hflush⟩ := bind_eq_some.1 hflush
  obtain ⟨rfl, rfl, h₁⟩ := takeQueue_holds h htake
  split at hflush
  · have hempty : m.queue = [] := List.isEmpty_iff.1 ‹_›
    obtain ⟨-, rfl⟩ := pure_eq_some.1 hflush
    exact ⟨[], (List.append_nil _).symm, by simp [hempty]⟩
  · obtain ⟨⟨roots₂, count₂⟩, m₃, hround, hflush⟩ := bind_eq_some.1 hflush
    obtain ⟨h₂, new, hlog, hnew⟩ := rerenderAll_holds _ h₁ hround
    obtain ⟨-, new', hlog'⟩ := flushRounds_holds _ h₂ hflush
    refine ⟨new ++ new', by rw [hlog', hlog, List.append_assoc], fun id hid hlive => ?_⟩
    simp only [List.mem_append]
    exact (hnew id (List.mem_eraseDups.2 hid) hlive).imp .inl .inl

/-- Whatever in the tree has been invalidated since its latest render began is queued, unless a flush has
given up since. The next flush renders it, if it is still there when its turn comes. -/
def Waits (F : Family W C N) (roots : List (Tree C)) (m : Machine W) : Prop :=
  ∀ id ∈ Tree.idsAll roots, Stale id m.log → id ∈ m.queue ∧
    ∀ next m', F.perform roots .flush m = some (next, m') → ∃ new, m'.log = m.log ++ new ∧
      (.called id .render ∈ new ∨ .called id .unmount ∈ new)

theorem Reached.waits (h : F.Reached roots m) : Waits F roots m := by
  intro id hid hstale
  have hqueue : id ∈ m.queue := (h.holds.queued id hid hstale).resolve_right List.not_mem_nil
  refine ⟨hqueue, fun next m' hrun => ?_⟩
  obtain ⟨new, hlog, hnew⟩ := flush_renders h.holds hrun
  exact ⟨new, hlog, hnew id hqueue hid⟩

/-! ### Lives -/

theorem rerenderAll_append (roots : List (Tree C)) (count : Nat) (before after : List Nat) :
    F.rerenderAll roots count (before ++ after) = (do
      let r ← F.rerenderAll roots count before
      F.rerenderAll r.1 r.2 after) := by
  induction before generalizing roots count with
  | nil => exact (pure_bind _ _).symm
  | cons id rest ih =>
    rw [List.cons_append, rerenderAll, rerenderAll]
    split
    · rw [bind_assoc]
      exact bind_congr fun t => ih _ _
    · rw [bind_assoc]
      exact bind_congr fun _ => ih _ _

/-- The turn of an instance that is not there any more is passed over. -/
theorem rerenderAll_unmounted {id : Nat} (h : Holds roots [] m) (hgone : .called id .unmount ∈ m.log)
    (count : Nat) (before after : List Nat) :
    F.rerenderAll roots count (before ++ id :: after) { m with queue := [] } = (do
      let r ← F.rerenderAll roots count before
      modify fun m : Machine W => { m with world := F.noteMissing id m.world }
      F.rerenderAll r.1 r.2 after) { m with queue := [] } := by
  rw [rerenderAll_append]
  refine bind_congr_at fun r m' hrun => ?_
  have hstart : Holds roots (before ++ m.queue) { m with queue := [] } := by
    refine ⟨h.nodup, h.issued, h.showing, h.gone, fun i hi hstale => .inr ?_⟩
    exact List.mem_append_right _ ((h.queued i hi hstale).resolve_right List.not_mem_nil)
  obtain ⟨hnext, new, hlog, -⟩ := rerenderAll_holds before hstart hrun
  have hnot : id ∉ Tree.idsAll r.1 := fun hid => by
    refine (hnext.showing id hid).unmount_notMem (mem_history.2 ?_)
    rw [hlog]
    exact List.mem_append_left _ hgone
  have hnone : Tree.findAll? id r.1 = none := by
    simpa using (Tree.mem_idsAll_iff r.1).not.1 hnot
  simp only [rerenderAll, hnone]

/-- What holds of a host after any operations. -/
structure Lives (F : Family W C N) (roots : List (Tree C)) (m : Machine W) : Prop where
  distinct : (Tree.idsAll roots).Nodup
  showing : ∀ id ∈ Tree.idsAll roots, Showing (history id m.log)
  gone : ∀ id ∉ Tree.idsAll roots, history id m.log = [] ∨ Gone (history id m.log)
  /-- What an operation unmounts is what leaves the tree. -/
  leaving : ∀ op next m', F.perform roots op m = some (next, m') → ∃ new, m'.log = m.log ++ new ∧
    ∀ id ∈ Tree.idsAll roots, id ∉ Tree.idsAll next ↔ .called id .unmount ∈ new
  /-- What enters the tree has never been called before. -/
  entering : ∀ op next m', F.perform roots op m = some (next, m') →
    ∀ id ∈ Tree.idsAll next, id ∉ Tree.idsAll roots → history id m.log = []
  /-- Where in a round it is the turn of an instance that has been unmounted, that is noted and nothing else
  done. -/
  passing : ∀ id, .called id .unmount ∈ m.log → ∀ count before after,
    F.rerenderAll roots count (before ++ id :: after) { m with queue := [] } = (do
      let r ← F.rerenderAll roots count before
      modify fun m : Machine W => { m with world := F.noteMissing id m.world }
      F.rerenderAll r.1 r.2 after) { m with queue := [] }

theorem Reached.lives (h : F.Reached roots m) : Lives F roots m := by
  refine ⟨h.holds.nodup, h.holds.showing, ?_, ?_, ?_, ?_⟩
  · exact fun id hid => (h.holds.gone id hid).imp_right And.right
  · intro op next m' hrun
    obtain ⟨hnext, new, hlog⟩ := perform_holds op h.holds hrun
    exact ⟨new, hlog, fun id hid => h.holds.unmounted hnext hlog hid⟩
  · intro op next m' hrun id hid hnot
    obtain ⟨hnext, new, hlog⟩ := perform_holds op h.holds hrun
    refine (h.holds.gone id hnot).resolve_right fun hgone => ?_
    refine (hnext.showing id hid).unmount_notMem ?_
    rw [hlog, history_append]
    exact List.mem_append_left _ hgone.2.unmount_mem
  · exact fun id hgone => rerenderAll_unmounted h.holds hgone

end Family
end LiveLayout.Lifecycle
