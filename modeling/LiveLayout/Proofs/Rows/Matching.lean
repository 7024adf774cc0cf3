import LiveLayout.Proofs.Rows.Calls
/-!
How new nodes are matched with the trees that are there. Every tree is taken over once or left, what is left is
unmounted, and what is taken over is updated in its place or refuses. With distinct keys, a node takes over the tree with
its key and kind, wherever that is.
-/
namespace LiveLayout.Lifecycle

variable {W C N : Type} {F : Family W C N}

/-! ### Matching -/

/-- All keys are present and distinct. -/
structure Keyed (keys : List (Option String)) : Prop where
  present : none ∉ keys
  nodup : keys.Nodup

namespace Family

variable {old : List (Tree C)} {new : List N} {pairs : List (Option (Tree C) × N)} {left : List (Tree C)}

/-- New nodes with the trees that they take over, and the trees that are left. -/
structure Matching (F : Family W C N) (old : List (Tree C)) (new : List N) (pairs : List (Option (Tree C) × N))
    (left : List (Tree C)) : Prop where
  nodes : pairs.map (·.2) = new
  trees : old.Perm (pairs.filterMap (·.1) ++ left)
  fits : ∀ t n, (some t, n) ∈ pairs → F.Fits t n
  /-- With distinct keys, a node takes over what it fits, wherever that is. -/
  takes : Keyed (old.map Tree.key?) → Keyed (new.map fun n => (F.shape n).key?) →
    ∀ t n, (some t, n) ∈ pairs ↔ t ∈ old ∧ n ∈ new ∧ F.Fits t n
  /-- With distinct keys, a node takes over nothing if it fits nothing. -/
  enters : Keyed (old.map Tree.key?) → Keyed (new.map fun n => (F.shape n).key?) →
    ∀ n, (none, n) ∈ pairs ↔ n ∈ new ∧ ∀ t ∈ old, ¬F.Fits t n

/-- Of nodes with distinct keys, one that takes nothing over fits no tree that is there. -/
theorem not_fits_of_mem_assign {slots : List (Option (Tree C))} {index : Nat} {n : N}
    (hnew : Keyed (new.map fun n => (F.shape n).key?)) (h : (none, n) ∈ (F.assign slots index new).1) :
    ∀ t, some t ∈ slots → ¬F.Fits t n := by
  induction new generalizing slots index with
  | nil => simp [assign] at h
  | cons first rest ih =>
    intro t ht hfits
    have hpresent := hnew.present
    obtain ⟨hfirst, hnodup⟩ := List.nodup_cons.1 hnew.nodup
    rw [List.map_cons, List.mem_cons, not_or] at hpresent
    simp only [assign, List.mem_cons] at h
    rcases h with h | h
    · obtain ⟨hnone, rfl⟩ := Prod.mk.inj h
      cases hp : F.position? slots index n with
      | none =>
        obtain ⟨key, hkey⟩ := Option.ne_none_iff_exists'.1 (Ne.symm hpresent.1)
        simp only [position?, hkey] at hp
        have hall := List.findIdx?_eq_none_iff.1 hp (some t) ht
        simp [hfits.1, hkey, hfits.2] at hall
      | some i =>
        obtain ⟨t', ht', -⟩ := exists_fits hp
        simp [hp, ht'] at hnone
    · -- What the first node takes over has its key, so that the tree is still there for the others.
      refine ih ⟨hpresent.2, hnodup⟩ h t ?_ hfits
      cases hp : F.position? slots index first with
      | none => exact ht
      | some i =>
        obtain ⟨t', ht', hfits'⟩ := exists_fits hp
        obtain ⟨j, hj, hjt⟩ := List.getElem_of_mem ht
        have hne : i ≠ j := by
          rintro rfl
          rw [List.getElem?_eq_getElem hj, hjt] at ht'
          obtain rfl := Option.some.inj (Option.some.inj ht')
          have hmem : n ∈ rest := by
            rw [← F.map_snd_assign (slots.set i none) (index + 1) rest]
            simp only [hp] at h
            exact List.mem_map_of_mem h
          have hkey : (F.shape first).key? = (F.shape n).key? := hfits'.1.symm.trans hfits.1
          apply hfirst
          dsimp only
          rw [hkey]
          exact List.mem_map_of_mem hmem
        refine List.mem_iff_getElem?.2 ⟨j, ?_⟩
        dsimp only
        rw [List.getElem?_set_ne hne, List.getElem?_eq_getElem hj, hjt]

theorem matching_assign (F : Family W C N) (old : List (Tree C)) (new : List N) :
    F.Matching old new (F.assign (old.map some) 0 new).1 (F.assign (old.map some) 0 new).2 := by
  have hnodes := F.map_snd_assign (old.map some) 0 new
  have htrees := perm_assign (F := F) (old.map some) 0 new
  rw [List.filterMap_map, Function.id_comp, List.filterMap_some] at htrees
  have hfits : ∀ t n, (some t, n) ∈ (F.assign (old.map some) 0 new).1 → F.Fits t n :=
    fun _ _ => fits_of_mem_assign
  have hnot : Keyed (new.map fun n => (F.shape n).key?) → ∀ n, (none, n) ∈ (F.assign (old.map some) 0 new).1 →
      ∀ t ∈ old, ¬F.Fits t n :=
    fun hnew n hn t ht => not_fits_of_mem_assign hnew hn t (List.mem_map_of_mem ht)
  generalize F.assign (old.map some) 0 new = assigned at hnodes htrees hfits hnot
  obtain ⟨pairs, left⟩ := assigned
  have hold {t : Tree C} {n : N} (h : (some t, n) ∈ pairs) : t ∈ old :=
    htrees.mem_iff.2 (List.mem_append_left _ (List.mem_filterMap.2 ⟨_, h, rfl⟩))
  have hnew {o : Option (Tree C)} {n : N} (h : (o, n) ∈ pairs) : n ∈ new := hnodes ▸ List.mem_map_of_mem h
  have hpair {n : N} (h : n ∈ new) : ∃ o, (o, n) ∈ pairs := by
    rw [← hnodes] at h
    obtain ⟨⟨o, n⟩, hmem, rfl⟩ := List.mem_map.1 h
    exact ⟨o, hmem⟩
  have htakes : Keyed (old.map Tree.key?) → Keyed (new.map fun n => (F.shape n).key?) →
      ∀ t n, t ∈ old → n ∈ new → F.Fits t n → (some t, n) ∈ pairs := by
    intro hkeys hkeys' t n ht hn h
    obtain ⟨o, ho⟩ := hpair hn
    cases o with
    | none => exact absurd h (hnot hkeys' n ho t ht)
    | some t' =>
      have hkey : t.key? = t'.key? := h.1.trans (hfits t' n ho).1.symm
      rwa [List.inj_on_of_nodup_map hkeys.nodup ht (hold ho) hkey]
  refine ⟨hnodes, htrees, hfits, fun hkeys hkeys' t n => ⟨fun h => ?_, fun h => ?_⟩,
    fun hkeys hkeys' n => ⟨fun h => ?_, fun h => ?_⟩⟩
  · exact ⟨hold h, hnew h, hfits t n h⟩
  · exact htakes hkeys hkeys' t n h.1 h.2.1 h.2.2
  · exact ⟨hnew h, hnot hkeys' n h⟩
  · obtain ⟨o, ho⟩ := hpair h.1
    cases o with
    | none => exact ho
    | some t => exact absurd (hfits t n ho) (h.2 t (hold ho))

end Family

/-! ### What becomes of a node -/

namespace Family

/-- What is in a tree has been updated to new nodes. -/
def Reconciles (F : Family W C N) (old : List (Tree C)) (new : List N) (next : List (Tree C)) : Prop :=
  ∃ depth m m', F.reconcile depth (F.update depth) old new m = some (next, m')

/-- The tree stands for the node, and all in it has just been mounted. -/
structure Enters (F : Family W C N) (past recent : List Entry) (n : N) (t : Tree C) : Prop where
  fits : F.Fits t n
  fresh : ∀ id ∈ t.ids, history id past = [] ∧ .called id .mount ∈ recent

/-- What has become of a node and of the tree that it has taken over, if any, since what is past. -/
inductive Outcome (F : Family W C N) (past recent : List Entry) : Option (Tree C) → N → Tree C → Prop
  | mounted {n : N} {t : Tree C} (enters : F.Enters past recent n t) : Outcome F past recent none n t
  | primitive {n : N} {v w : Json} (shape : F.shape n = .primitive w) :
    Outcome F past recent (some (.primitive v)) n (.primitive w)
  | element {n : N} {tag : String} {key key' : Option String} {props props' : Props} {old next : List (Tree C)}
    {nodes : List N} (shape : F.shape n = .element tag key' props' nodes) (inner : F.Reconciles old nodes next) :
    Outcome F past recent (some (.element tag key props old)) n (.element tag key' props' next)
  | fragment {n : N} {key key' : Option String} {old next : List (Tree C)} {nodes : List N}
    (shape : F.shape n = .fragment key' nodes) (inner : F.Reconciles old nodes next) :
    Outcome F past recent (some (.fragment key old)) n (.fragment key' next)
  | accepted {n : N} {id renders : Nat} {key key' : Option String} {c c' d : C} {old next : List (Tree C)}
    {nodes : List N} (shape : F.shape n = .component key' d) (received : .called id (.receive true) ∈ recent)
    (rendered : .called id .render ∈ recent) (inner : F.Reconciles old nodes next) :
    Outcome F past recent (some (.component id key c renders old)) n (.component id key c' (renders + 1) next)
  | refused {n : N} {id renders : Nat} {key key' : Option String} {c d : C} {old : List (Tree C)} {t : Tree C}
    (shape : F.shape n = .component key' d) (received : .called id (.receive false) ∈ recent)
    (unmounted : .called id .unmount ∈ recent) (enters : F.Enters past recent n t) :
    Outcome F past recent (some (.component id key c renders old)) n t

variable {past recent before : List Entry} {n : N} {t : Tree C} {o : Option (Tree C)}

theorem Enters.widen (h : F.Enters (past ++ before) recent n t) (after : List Entry) :
    F.Enters past (before ++ recent ++ after) n t := by
  refine ⟨h.fits, fun id hid => ?_⟩
  obtain ⟨hblank, hmount⟩ := h.fresh id hid
  rw [history_append, List.append_eq_nil_iff] at hblank
  exact ⟨hblank.1, List.mem_append_left _ (List.mem_append_right _ hmount)⟩

/-- What has happened to one node is known of a longer stretch too. -/
theorem Outcome.widen (h : F.Outcome (past ++ before) recent o n t) (after : List Entry) :
    F.Outcome past (before ++ recent ++ after) o n t := by
  have hmem {e : Entry} (he : e ∈ recent) : e ∈ before ++ recent ++ after :=
    List.mem_append_left _ (List.mem_append_right _ he)
  cases h with
  | mounted enters => exact .mounted (enters.widen after)
  | primitive shape => exact .primitive shape
  | element shape inner => exact .element shape inner
  | fragment shape inner => exact .fragment shape inner
  | accepted shape received rendered inner => exact .accepted shape (hmem received) (hmem rendered) inner
  | refused shape received unmounted enters =>
    exact .refused shape (hmem received) (hmem unmounted) (enters.widen after)

end Family

/-- What was there has come out as trees that stand for the new nodes, one for each and in their order. What is left has
been unmounted and what is in the trees has not, nothing twice, and nothing besides has been touched. -/
structure Family.Reconciled (F : Family W C N) (new : List N) (pairs : List (Option (Tree C) × N)) (left : List (Tree C))
    (next : List (Tree C)) (live : List Nat) (past recent : List Entry) : Prop where
  stands : List.Forall₂ F.Fits next new
  outcomes : List.Forall₂ (fun p t => F.Outcome past recent p.1 p.2 t) pairs next
  leaves : ∀ id ∈ Tree.idsAll left, .called id .unmount ∈ recent
  stays : ∀ id ∈ Tree.idsAll next, .called id .unmount ∉ recent
  once : ∀ id, (history id recent).count .mount ≤ 1 ∧ (history id recent).count .unmount ≤ 1
  others : ∀ id ∈ live, .called id .mount ∉ recent ∧ .called id .unmount ∉ recent

/-! ### One node -/

section

variable {m m' m'' : Machine W} {live waiting ids : List Nat} {recent : List Entry}

theorem Showing.mount_mem {calls : List Call} (h : Showing calls) : .mount ∈ calls :=
  List.one_le_count_iff.1 (Nat.le_of_eq h.count_mount.symm)

theorem Makes.mem_recent {calls : List (Nat × Call)} {id : Nat} {call : Call} (h : Makes calls m m')
    (hlater : ∃ more, m''.log = m'.log ++ more) (hlog : m''.log = m.log ++ recent) (hcall : (id, call) ∈ calls) :
    .called id call ∈ recent := by
  obtain ⟨new, hnew, hcalls, -⟩ := h.log
  obtain ⟨more, hmore⟩ := hlater
  have hboth : m.log ++ recent = m.log ++ (new ++ more) := by rw [← hlog, hmore, hnew, List.append_assoc]
  have hrecent : recent = new ++ more := List.append_cancel_left hboth
  rw [hrecent, List.mem_append, ← mem_history, Lifecycle.history, hcalls, mem_callsOf]
  exact .inl hcall

/-- No instance is mounted or unmounted twice. -/
theorem Sound.count_le_one (h : Sound live waiting m) (id : Nat) :
    (history id m.log).count .mount ≤ 1 ∧ (history id m.log).count .unmount ≤ 1 := by
  by_cases hid : id ∈ live
  · have hshowing := h.showing id hid
    rw [hshowing.count_mount, hshowing.count_unmount]
    omega
  · rcases h.gone id hid with hnil | ⟨-, hgone⟩
    · simp [hnil]
    · rw [hgone.count_eq .mount (.inl rfl), hgone.count_eq .unmount (.inr rfl)]
      omega

/-- What is new in the tree has never been called before, and has been mounted. -/
theorem Sound.fresh (h : Sound live waiting m) (hturns : Turns [] ids m m') (hlog : m'.log = m.log ++ recent) {id : Nat}
    (hid : id ∈ ids) : history id m.log = [] ∧ .called id .mount ∈ recent := by
  have h' := hturns.sound live waiting h
  have hshowing := h'.showing id (List.mem_append_left _ hid)
  have hnot : id ∉ live := fun hlive => (List.nodup_append.1 h'.nodup).2.2 id hid id hlive rfl
  have hblank : history id m.log = [] := by
    refine (h.gone id hnot).resolve_right fun hgone => hshowing.unmount_notMem ?_
    rw [hlog, history_append]
    exact List.mem_append_left _ hgone.2.unmount_mem
  have hmount := hshowing.mount_mem
  rw [hlog, history_append, hblank, List.nil_append] at hmount
  exact ⟨hblank, mem_history.1 hmount⟩

end

namespace Family

variable {m m' : Machine W} {live waiting : List Nat} {depth : Nat} {n : N} {t t' : Tree C}

theorem fits_mountComponent {mount : N → Run W (Tree C)} {key : Option String} {c d : C}
    (hshape : F.shape n = .component key d) (h : F.mountComponent depth mount key c m = some (t, m')) : F.Fits t n := by
  obtain ⟨id, m₁, -, h⟩ := bind_eq_some.1 h
  obtain ⟨c₁, m₂, -, h⟩ := bind_eq_some.1 h
  obtain ⟨⟨c₂, nodes⟩, m₃, -, h⟩ := bind_eq_some.1 h
  obtain ⟨children, m₄, -, h⟩ := bind_eq_some.1 h
  obtain ⟨rfl, rfl⟩ := pure_eq_some.1 h
  unfold Fits
  rw [hshape]
  exact ⟨rfl, rfl⟩

theorem fits_mountTree (h : F.mountTree depth n m = some (t, m')) : F.Fits t n := by
  cases depth with
  | zero => cases h
  | succ depth =>
    rw [mountTree] at h
    cases hshape : F.shape n with
    | primitive v =>
      simp only [hshape] at h
      obtain ⟨rfl, rfl⟩ := pure_eq_some.1 h
      simp [Fits, hshape, Tree.key?, Shape.key?, Tree.sameKind]
    | element tag key props children =>
      simp only [hshape] at h
      obtain ⟨ts, m₁, -, h⟩ := bind_eq_some.1 h
      obtain ⟨rfl, rfl⟩ := pure_eq_some.1 h
      simp [Fits, hshape, Tree.key?, Shape.key?, Tree.sameKind]
    | fragment key children =>
      simp only [hshape] at h
      obtain ⟨ts, m₁, -, h⟩ := bind_eq_some.1 h
      obtain ⟨rfl, rfl⟩ := pure_eq_some.1 h
      simp [Fits, hshape, Tree.key?, Shape.key?, Tree.sameKind]
    | component key c =>
      simp only [hshape] at h
      exact fits_mountComponent hshape h

/-- A node that takes nothing over is mounted. -/
theorem mountTree_outcome (hs : Sound live waiting m) (h : F.mountTree depth n m = some (t, m')) :
    ∃ recent, m'.log = m.log ++ recent ∧ F.Outcome m.log recent none n t := by
  have hturns := mountTree_turns depth n m t m' h
  obtain ⟨recent, hlog⟩ := hturns.log
  exact ⟨recent, hlog, .mounted ⟨fits_mountTree h, fun id hid => hs.fresh hturns hlog hid⟩⟩

/-- A node that takes over a tree updates it in its place, unless it is a component and refuses. -/
theorem update_outcome (hs : Sound (t.ids ++ live) waiting m) (hfits : F.Fits t n)
    (h : F.update depth t n m = some (t', m')) :
    ∃ recent, m'.log = m.log ++ recent ∧ F.Outcome m.log recent (some t) n t' := by
  have hturns := update_turns depth t n m t' m' h
  obtain ⟨recent, hlog⟩ := hturns.log
  refine ⟨recent, hlog, ?_⟩
  cases depth with
  | zero => cases h
  | succ depth =>
    have hkind := hfits.2
    cases t with
    | primitive v =>
      cases hshape : F.shape n <;> simp only [hshape, Tree.sameKind, Bool.false_eq_true] at hkind
      simp only [update, hshape] at h
      obtain ⟨rfl, rfl⟩ := pure_eq_some.1 h
      exact .primitive hshape
    | element tag key props old =>
      cases hshape : F.shape n <;> simp only [hshape, Tree.sameKind, Bool.false_eq_true, beq_iff_eq] at hkind
      subst hkind
      simp only [update, hshape] at h
      obtain ⟨next, m₁, hinner, h⟩ := bind_eq_some.1 h
      obtain ⟨rfl, rfl⟩ := pure_eq_some.1 h
      exact .element hshape ⟨depth, m, m₁, hinner⟩
    | fragment key old =>
      cases hshape : F.shape n <;> simp only [hshape, Tree.sameKind, Bool.false_eq_true] at hkind
      simp only [update, hshape] at h
      obtain ⟨next, m₁, hinner, h⟩ := bind_eq_some.1 h
      obtain ⟨rfl, rfl⟩ := pure_eq_some.1 h
      exact .fragment hshape ⟨depth, m, m₁, hinner⟩
    | component id key c renders old =>
      cases hshape : F.shape n <;> simp only [hshape, Tree.sameKind, Bool.false_eq_true] at hkind
      rename_i newKey d
      simp only [update, hshape] at h
      obtain ⟨answer, m₁, hreceive, h⟩ := bind_eq_some.1 h
      have hreceived := Hook.call_makes hreceive
      cases answer with
      | ok accepted =>
        obtain ⟨⟨c', nodes⟩, m₂, hrender, h⟩ := bind_eq_some.1 h
        obtain ⟨next, m₃, hinner, h⟩ := bind_eq_some.1 h
        obtain ⟨rfl, rfl⟩ := pure_eq_some.1 h
        have hrendered := Hook.call_makes hrender
        have hlater := (reconcile_turns (update_turns depth) hinner).log
        have hcalls := hreceived.trans hrendered
        exact .accepted hshape (hcalls.mem_recent hlater hlog (List.mem_cons_self ..))
          (hcalls.mem_recent hlater hlog (by simp)) ⟨depth, m₂, m₃, hinner⟩
      | error given =>
        obtain ⟨_, m₂, hunmount, h⟩ := bind_eq_some.1 h
        have hleave : Turns (Tree.component id key given.1 renders old).ids [] m m₂ := refused_turns hreceived hunmount
        have henter := mountComponent_turns (mountTree_turns depth) h
        obtain ⟨_, m₃, hcall, hrest⟩ := bind_eq_some.1 hunmount
        have hcalls := hreceived.trans (Hook.call_makes hcall)
        have hlater : ∃ more, m'.log = m₃.log ++ more := by
          obtain ⟨more, hmore⟩ := (unmountAll_turns old m₃ m₂ hrest).log
          obtain ⟨more', hmore'⟩ := henter.log
          exact ⟨more ++ more', by rw [hmore', hmore, List.append_assoc]⟩
        refine .refused hshape (hcalls.mem_recent hlater hlog (List.mem_cons_self ..))
          (hcalls.mem_recent hlater hlog (by simp)) ⟨fits_mountComponent hshape h, fun i hi => ?_⟩
        -- The refusing instance has gone before the new one is mounted.
        obtain ⟨before, hbefore⟩ := hleave.log
        obtain ⟨after, hafter⟩ := henter.log
        have hboth : m.log ++ recent = m.log ++ (before ++ after) := by
          rw [← hlog, hafter, hbefore, List.append_assoc]
        have hrecent : recent = before ++ after := List.append_cancel_left hboth
        obtain ⟨hblank, hmount⟩ := (hleave.sound live waiting hs).fresh henter hafter hi
        rw [hbefore, history_append, List.append_eq_nil_iff] at hblank
        rw [hrecent]
        exact ⟨hblank.1, List.mem_append_right _ hmount⟩

/-! ### All nodes -/

/-- The instances of the trees that are taken over. -/
abbrev taken (pairs : List (Option (Tree C) × N)) : List Nat := pairs.flatMap fun p => (p.1.map Tree.ids).getD []

/-- One after the other, something becomes of each node. -/
theorem mapM_outcomes (pairs : List (Option (Tree C) × N)) (hfits : ∀ t n, (some t, n) ∈ pairs → F.Fits t n)
    (hs : Sound (taken pairs ++ live) waiting m) {next : List (Tree C)}
    (h : (pairs.mapM fun (t, n) => match t with
      | some t => F.update depth t n
      | none => F.mountTree depth n) m = some (next, m')) :
    ∃ recent, m'.log = m.log ++ recent ∧ List.Forall₂ (fun p t => F.Outcome m.log recent p.1 p.2 t) pairs next := by
  induction pairs generalizing m next live with
  | nil =>
    rw [List.mapM_nil] at h
    obtain ⟨rfl, rfl⟩ := pure_eq_some.1 h
    exact ⟨[], (List.append_nil _).symm, .nil⟩
  | cons p pairs ih =>
    rw [List.mapM_cons] at h
    obtain ⟨t, m₁, hp, h⟩ := bind_eq_some.1 h
    obtain ⟨rest, m₂, hrest, h⟩ := bind_eq_some.1 h
    obtain ⟨rfl, rfl⟩ := pure_eq_some.1 h
    have hfits' : ∀ t n, (some t, n) ∈ pairs → F.Fits t n := fun t n hmem => hfits t n (List.mem_cons_of_mem _ hmem)
    obtain ⟨old, n⟩ := p
    rw [taken, List.flatMap_cons, List.append_assoc] at hs
    obtain ⟨recent, hlog, houtcome, hturns⟩ : ∃ recent, m₁.log = m.log ++ recent ∧
        F.Outcome m.log recent old n t ∧ Turns ((old.map Tree.ids).getD []) t.ids m m₁ := by
      cases old with
      | none =>
        obtain ⟨recent, hlog, houtcome⟩ := mountTree_outcome hs hp
        exact ⟨recent, hlog, houtcome, mountTree_turns depth n m t m₁ hp⟩
      | some old =>
        obtain ⟨recent, hlog, houtcome⟩ := update_outcome hs (hfits old n (List.mem_cons_self ..)) hp
        exact ⟨recent, hlog, houtcome, update_turns depth old n m t m₁ hp⟩
    -- What the first node has become stays as it is while the others are updated.
    have hs₁ : Sound (taken pairs ++ (t.ids ++ live)) waiting m₁ := by
      have hmoved := hturns.sound _ _ hs
      refine hmoved.perm ?_
      rw [← List.append_assoc, ← List.append_assoc]
      exact List.perm_append_comm.append_right live
    obtain ⟨recent', hlog', houtcomes⟩ := ih hfits' hs₁ hrest
    refine ⟨recent ++ recent', by rw [hlog', hlog, List.append_assoc], .cons ?_ ?_⟩
    · have hfirst : F.Outcome (m.log ++ []) recent old n t := by rwa [List.append_nil]
      exact hfirst.widen recent'
    · rw [hlog] at houtcomes
      refine houtcomes.imp fun _ _ hlater => ?_
      simpa using hlater.widen []

/-- What is left is unmounted. -/
theorem unmountAll_unmounts {left : List (Tree C)} {recent : List Entry}
    (hs : Sound (Tree.idsAll left ++ live) waiting m) (h : F.unmountAll left m = some ((), m'))
    (hlog : m'.log = m.log ++ recent) {id : Nat} (hid : id ∈ Tree.idsAll left) : .called id .unmount ∈ recent := by
  have hturns := unmountAll_turns left m m' h
  have hlive : id ∈ Tree.idsAll left ++ live := List.mem_append_left _ hid
  have hgone : id ∉ [] ++ live := fun hlive => (List.nodup_append.1 hs.nodup).2.2 id hid id hlive rfl
  exact (hs.unmounted (hturns.sound live waiting hs) hlog hlive).1 hgone

theorem Outcome.fits {past recent : List Entry} {o : Option (Tree C)} (h : F.Outcome past recent o n t)
    (ho : ∀ t, o = some t → F.Fits t n) : F.Fits t n := by
  cases h with
  | mounted enters => exact enters.fits
  | primitive shape => simp [Fits, shape, Tree.key?, Shape.key?, Tree.sameKind]
  | element shape inner => simp [Fits, shape, Tree.key?, Shape.key?, Tree.sameKind]
  | fragment shape inner => simp [Fits, shape, Tree.key?, Shape.key?, Tree.sameKind]
  | accepted shape received rendered inner =>
    have hkey := (ho _ rfl).1
    exact ⟨hkey, by simp [shape, Tree.sameKind]⟩
  | refused shape received unmounted enters => exact enters.fits

theorem stands_of_outcomes {past recent : List Entry} {pairs : List (Option (Tree C) × N)} {next : List (Tree C)}
    (hfits : ∀ t n, (some t, n) ∈ pairs → F.Fits t n)
    (h : List.Forall₂ (fun p t => F.Outcome past recent p.1 p.2 t) pairs next) :
    List.Forall₂ F.Fits next (pairs.map (·.2)) := by
  induction h with
  | nil => exact .nil
  | @cons p t pairs next houtcome _ ih =>
    refine .cons (houtcome.fits fun t ht => hfits t p.2 ?_) (ih fun t n hmem => hfits t n (List.mem_cons_of_mem _ hmem))
    rw [← ht]
    exact List.mem_cons_self ..

theorem reconcile_reconciled {old next : List (Tree C)} {new : List N}
    (hs : Sound (Tree.idsAll old ++ live) waiting m)
    (h : F.reconcile depth (F.update depth) old new m = some (next, m')) : ∃ recent, m'.log = m.log ++ recent ∧
      F.Reconciled new (F.assign (old.map some) 0 new).1 (F.assign (old.map some) 0 new).2 next live m.log recent := by
  have hturns := reconcile_turns (update_turns depth) h
  have hmatching := matching_assign F old new
  have hids := ids_perm_assign (F := F) old new
  obtain ⟨next', m₁, hnext, h⟩ := bind_eq_some.1 h
  obtain ⟨_, m₂, hleft, h⟩ := bind_eq_some.1 h
  obtain ⟨rfl, rfl⟩ := pure_eq_some.1 h
  generalize F.assign (old.map some) 0 new = assigned at hmatching hids hnext hleft ⊢
  obtain ⟨pairs, left⟩ := assigned
  dsimp only at hmatching hids hnext hleft ⊢
  have hstart : Sound (taken pairs ++ (Tree.idsAll left ++ live)) waiting m := by
    rw [← List.append_assoc]
    exact hs.perm (hids.append_right live)
  obtain ⟨recent, hlog, houtcomes⟩ := mapM_outcomes pairs hmatching.fits hstart hnext
  have hmiddle : Sound (Tree.idsAll left ++ (Tree.idsAll next' ++ live)) waiting m₁ := by
    refine ((mapM_turns (update_turns depth) pairs hnext).sound _ _ hstart).perm ?_
    rw [← List.append_assoc, ← List.append_assoc]
    exact List.perm_append_comm.append_right live
  have hend := hturns.sound live waiting hs
  obtain ⟨recent', hlog'⟩ := (unmountAll_turns left m₁ m₂ hleft).log
  have hall : m₂.log = m.log ++ (recent ++ recent') := by rw [hlog', hlog, List.append_assoc]
  have hexchanges := hs.exchanges hend hall
  have hcalled {id : Nat} {call : Call} : .called id call ∈ recent ++ recent' ↔
      (id, call) ∈ (recent ++ recent').filterMap Entry.call? := by
    rw [← mem_callsOf, ← mem_history]
    rfl
  refine ⟨recent ++ recent', hall, ?_, ?_, fun id hid => ?_, fun id hid hgone => ?_, fun id => ?_, fun id hid => ?_⟩
  · rw [← hmatching.nodes]
    exact stands_of_outcomes hmatching.fits houtcomes
  · refine houtcomes.imp fun p t houtcome => ?_
    have hfirst : F.Outcome (m.log ++ []) recent p.1 p.2 t := by rwa [List.append_nil]
    exact hfirst.widen recent'
  · exact List.mem_append_right _ (unmountAll_unmounts hmiddle hleft hlog' hid)
  · have hshowing := hend.showing id (List.mem_append_left _ hid)
    apply hshowing.unmount_notMem
    rw [hall, history_append]
    exact List.mem_append_right _ (mem_history.2 hgone)
  · have hcount := hend.count_le_one id
    rw [hall, history_append, List.count_append, List.count_append] at hcount
    omega
  · have hstays := hexchanges.stays id (List.mem_append_right _ hid) (List.mem_append_right _ hid)
    exact ⟨mt hcalled.1 hstays.1, mt hcalled.1 hstays.2⟩

end Family
/-! ### Hosts -/

open Mounted

/-- In every host, for components of any kind: each tree that is there is taken over by at most one new node, which it
then stands for at that node's place, and is unmounted otherwise; a component that refuses is unmounted, and another one
mounted in its place. With distinct keys, a node takes over a tree just if that has its key and its kind, wherever it is,
and is mounted if there is none. -/
theorem reconcile_matches :
    (∀ (W C N : Type) (F : Family W C N) (depth : Nat) (old : List (Tree C)) (new : List N),
      ∃ pairs left, F.Matching old new pairs left ∧
        ∀ live waiting m m' next, Sound (Tree.idsAll old ++ live) waiting m →
          F.reconcile depth (F.update depth) old new m = some (next, m') →
          ∃ recent, m'.log = m.log ++ recent ∧ F.Reconciled new pairs left next live m.log recent) ∧
    ∀ (host depth : Nat) (old next : List Mounted) (new : List Node) (s s' : State) (queue : List Nat) (last : Nat),
      s.At host queue last → (numbers old).Nodup → (∀ id ∈ numbers old, id ≤ last) →
      Mounted.reconcile host depth (Mounted.update host depth) old new s = some (next, s') →
      ∃ (m m' : Machine State) (pairs : List (Option (Tree Component) × Node)) (left : List (Tree Component))
        (recent : List Entry), s = m.state host ∧ s' = m'.state host ∧
        (Host.family host).reconcile depth ((Host.family host).update depth) (trees old) new m = some (trees next, m') ∧
        (Host.family host).Matching (trees old) new pairs left ∧ m'.log = m.log ++ recent ∧
        (Host.family host).Reconciled new pairs left (trees next) [] m.log recent := by
  constructor
  · intro W C N F depth old new
    refine ⟨_, _, F.matching_assign old new, fun live waiting m m' next hs hrun => ?_⟩
    exact Family.reconcile_reconciled hs hrun
  · intro host depth old next new s s' queue last hat hnodup hissued hrun
    obtain ⟨hstate, hhas⟩ := state_of_at hat (entered (numbers old))
    generalize hm : ({ world := s, queue, lastId := last, log := entered (numbers old) } : Machine State) = m at hstate hhas
    have hsound : Sound (Tree.idsAll (trees old) ++ []) [] m := by
      rw [List.append_nil, idsAll_trees]
      subst hm
      exact .entered hnodup hissued rfl
    clear hm
    subst hstate
    obtain ⟨m', hrun', rfl, -⟩ := (reconcile_follows (update_follows depth) old new).run hhas hrun
    obtain ⟨recent, hlog, hreconciled⟩ := Family.reconcile_reconciled hsound hrun'
    exact ⟨m, m', _, _, recent, rfl, rfl, hrun', (Host.family host).matching_assign (trees old) new, hlog, hreconciled⟩

/-- Of three probes, the second comes first and refuses, the first comes second, and the third is dropped for a new one. -/
theorem reconcile_matches_reordered : ∃ (roots next : List (Tree Component)) (m m' : Machine State)
    (pairs : List (Option (Tree Component) × Node)) (left : List (Tree Component)) (recent : List Entry),
    (Host.family 0).Reached roots m ∧ Tree.idsAll roots = [1, 2, 3] ∧ Tree.idsAll next = [4, 1, 5] ∧
    (Host.family 0).Matching roots [probe "B" false 0, probe "A" false 0, probe "D" false 0] pairs left ∧
    m'.log = m.log ++ recent ∧ (Host.family 0).Reconciled [probe "B" false 0, probe "A" false 0, probe "D" false 0]
      pairs left next [] m.log recent := by
  have hrun : (((Host.family 0).performAll [] [.render [probe "A" false 0, probe "B" true 0, probe "C" false 0]]
      { world := oneHost }).bind fun r => ((Host.family 0).reconcile Host.depthLimit
        ((Host.family 0).update Host.depthLimit) r.1 [probe "B" false 0, probe "A" false 0, probe "D" false 0] r.2).map
          fun q => (r, q)).any (fun r => Tree.idsAll r.1.1 = [1, 2, 3] ∧ Tree.idsAll r.2.1 = [4, 1, 5]) = true := by
    decide +kernel
  obtain ⟨⟨⟨roots, m⟩, next, m'⟩, hboth, h⟩ := (Option.any_eq_true _ _).1 hrun
  obtain ⟨hroots, hnext⟩ := of_decide_eq_true h
  obtain ⟨⟨roots', m₁⟩, hfirst, hsecond⟩ := Option.bind_eq_some_iff.1 hboth
  obtain ⟨⟨next', m₂⟩, hreconcile, heq⟩ := Option.map_eq_some_iff.1 hsecond
  cases heq
  have hreached := (Family.Reached.new oneHost).performAll hfirst
  obtain ⟨pairs, left, hmatching, hreconciled⟩ := reconcile_matches.1 State Component Node (Host.family 0)
    Host.depthLimit roots [probe "B" false 0, probe "A" false 0, probe "D" false 0]
  have hsound : Sound (Tree.idsAll roots ++ []) [] m := by
    rw [List.append_nil]
    exact hreached.holds
  obtain ⟨recent, hlog, hdone⟩ := hreconciled [] [] m m' next hsound hreconcile
  exact ⟨roots, next, m, m', pairs, left, recent, hreached, hroots, hnext, hmatching, hlog, hdone⟩

end LiveLayout.Lifecycle
