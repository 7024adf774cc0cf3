import LiveLayout.Proofs.Lifecycle.History
import LiveLayout.Proofs.Mounting.Matching
/-!
Mounting, updating and unmounting trees: the instances that are in a tree afterwards are those that stayed
and new ones, and what has left the tree is gone.
-/
namespace LiveLayout.Lifecycle

variable {W C N α β : Type} {F : Family W C N} {m m' m'' : Machine W}

theorem bind_eq_some {x : Run W α} {f : α → Run W β} {b : β} :
    (x >>= f) m = some (b, m'') ↔ ∃ a m', x m = some (a, m') ∧ f a m' = some (b, m'') := by
  constructor
  · intro h
    obtain ⟨⟨a, m'⟩, hx, hf⟩ := Option.bind_eq_some_iff.1 h
    exact ⟨a, m', hx, hf⟩
  · rintro ⟨a, m', hx, hf⟩
    exact Option.bind_eq_some_iff.2 ⟨(a, m'), hx, hf⟩

theorem bind_congr_at {x : Run W α} {f g : α → Run W β}
    (h : ∀ a m', x m = some (a, m') → f a m' = g a m') : (x >>= f) m = (x >>= g) m := by
  change (x m).bind _ = (x m).bind _
  cases hx : x m with
  | none => rfl
  | some r => exact h r.1 r.2 hx

theorem pure_eq_some {a b : α} : (pure a : Run W α) m = some (b, m') ↔ a = b ∧ m = m' := by
  constructor
  · intro h
    cases h
    exact ⟨rfl, rfl⟩
  · rintro ⟨rfl, rfl⟩
    rfl

/-- The instances `before` have become `after`, whatever else is in the tree. -/
structure Turns (before after : List Nat) (m m' : Machine W) : Prop where
  log : ∃ new, m'.log = m.log ++ new
  sound : ∀ live waiting, Sound (before ++ live) waiting m → Sound (after ++ live) waiting m'

namespace Turns

variable {a b c a' b' : List Nat}

theorem refl (a : List Nat) (m : Machine W) : Turns a a m m :=
  ⟨⟨[], (List.append_nil _).symm⟩, fun _ _ h => h⟩

theorem trans (h : Turns a b m m') (h' : Turns b c m' m'') : Turns a c m m'' := by
  obtain ⟨new, hlog⟩ := h.log
  obtain ⟨new', hlog'⟩ := h'.log
  refine ⟨⟨new ++ new', ?_⟩, fun live waiting hs => h'.sound _ _ (h.sound _ _ hs)⟩
  rw [hlog', hlog, List.append_assoc]

theorem perm (h : Turns a b m m') (ha : a'.Perm a) (hb : b.Perm b') : Turns a' b' m m' :=
  ⟨h.log, fun live waiting hs =>
    (h.sound live waiting (hs.perm (ha.append_right live))).perm (hb.append_right live)⟩

/-- Other instances stay as they are. -/
theorem append_right (h : Turns a b m m') (c : List Nat) : Turns (a ++ c) (b ++ c) m m' := by
  refine ⟨h.log, fun live waiting hs => ?_⟩
  rw [List.append_assoc] at hs ⊢
  exact h.sound _ _ hs

theorem append (h : Turns a b m m') (h' : Turns a' b' m' m'') : Turns (a ++ a') (b ++ b') m m'' :=
  (h.append_right a').trans
    ((h'.append_right b).perm List.perm_append_comm List.perm_append_comm)

theorem mapM {f : β → Run W (Tree C)} (before : β → List Nat) (xs : List β) {ts : List (Tree C)}
    (step : ∀ x ∈ xs, ∀ m t m', f x m = some (t, m') → Turns (before x) t.ids m m')
    (h : xs.mapM f m = some (ts, m')) : Turns (xs.flatMap before) (Tree.idsAll ts) m m' := by
  induction xs generalizing m ts with
  | nil =>
    rw [List.mapM_nil] at h
    obtain ⟨rfl, rfl⟩ := pure_eq_some.1 h
    exact .refl _ _
  | cons x xs ih =>
    rw [List.mapM_cons] at h
    obtain ⟨t, m₁, hx, h⟩ := bind_eq_some.1 h
    obtain ⟨rest, m₂, hrest, h⟩ := bind_eq_some.1 h
    obtain ⟨rfl, rfl⟩ := pure_eq_some.1 h
    have hfirst := step x (List.mem_cons_self ..) m t m₁ hx
    exact hfirst.append (ih (fun y hy => step y (List.mem_cons_of_mem _ hy)) hrest)

/-- All that is in the trees is new. -/
theorem mapM_new {f : β → Run W (Tree C)} (xs : List β) {ts : List (Tree C)}
    (step : ∀ x m t m', f x m = some (t, m') → Turns [] t.ids m m') (h : xs.mapM f m = some (ts, m')) :
    Turns [] (Tree.idsAll ts) m m' := by
  have hts := mapM (fun _ => []) xs (fun x _ => step x) h
  rwa [List.flatMap_eq_nil_iff.2 fun _ _ => rfl] at hts

end Turns

/-! ### Calls -/

section

variable {id : Nat} {ids : List Nat}

theorem Makes.turns_stay (calls : List Call) (h : Makes (calls.map (id, ·)) m m')
    (hshow : ∀ {before}, Showing before → Showing (before ++ calls)) :
    Turns (id :: ids) (id :: ids) m m' :=
  ⟨h.log.imp fun _ hnew => hnew.1, fun _ _ hs => hs.stay calls h hshow fun _ => .inl⟩

theorem Makes.turns_leave (calls : List Call) (h : Makes (calls.map (id, ·)) m m')
    (hgone : ∀ {before}, Showing before → Gone (before ++ calls)) : Turns (id :: ids) ids m m' :=
  ⟨h.log.imp fun _ hnew => hnew.1, fun _ _ hs => hs.leave h hgone⟩

end

theorem issue_eq_some {id : Nat} (h : (issue : Run W Nat) m = some (id, m')) :
    id = m.lastId + 1 ∧ m' = { m with lastId := m.lastId + 1 } := by
  cases h
  exact ⟨rfl, rfl⟩

/-! ### Trees -/

namespace Family

mutual

theorem unmountTree_turns : (t : Tree C) → ∀ m m', F.unmountTree t m = some ((), m') →
    Turns t.ids [] m m'
  | .primitive _, m, m', h => by
    obtain ⟨-, rfl⟩ := pure_eq_some.1 h
    exact .refl [] m
  | .element _ _ _ children, m, m', h => unmountAll_turns children m m' h
  | .component id key c _ children, m, m', h => by
    obtain ⟨_, m₁, hcall, hrest⟩ := bind_eq_some.1 h
    exact ((Hook.call_makes hcall).turns_leave [.unmount] .unmounted).trans (unmountAll_turns children m₁ m' hrest)
  | .fragment _ children, m, m', h => unmountAll_turns children m m' h

theorem unmountAll_turns : (ts : List (Tree C)) → ∀ m m', F.unmountAll ts m = some ((), m') →
    Turns (Tree.idsAll ts) [] m m'
  | [], m, m', h => by
    obtain ⟨-, rfl⟩ := pure_eq_some.1 h
    exact .refl [] m
  | t :: rest, m, m', h => by
    obtain ⟨_, m₁, hfirst, hrest⟩ := bind_eq_some.1 h
    exact (unmountTree_turns t m m₁ hfirst).append (unmountAll_turns rest m₁ m' hrest)

end

/-- A refusal ends with the refusing instance unmounted. -/
theorem refused_turns {id : Nat} {key : Option String} {c : C} {renders : Nat} {children : List (Tree C)}
    (h : Makes [(id, .receive false)] m m')
    (h' : F.unmountTree (.component id key c renders children) m' = some ((), m'')) :
    Turns (Tree.component id key c renders children).ids [] m m'' := by
  obtain ⟨_, m₁, hcall, hrest⟩ := bind_eq_some.1 h'
  exact ((h.trans (Hook.call_makes hcall)).turns_leave [.receive false, .unmount] .refused).trans
    (unmountAll_turns children m₁ m'' hrest)

theorem mountComponent_turns {depth : Nat} {mount : N → Run W (Tree C)} {key : Option String} {c : C}
    {t : Tree C} (hmount : ∀ n m t m', mount n m = some (t, m') → Turns [] t.ids m m')
    (h : F.mountComponent depth mount key c m = some (t, m')) : Turns [] t.ids m m' := by
  obtain ⟨id, m₁, hissue, h⟩ := bind_eq_some.1 h
  obtain ⟨c₁, m₂, hcall, h⟩ := bind_eq_some.1 h
  obtain ⟨⟨c₂, nodes⟩, m₃, hrender, h⟩ := bind_eq_some.1 h
  obtain ⟨children, m₄, hchildren, h⟩ := bind_eq_some.1 h
  obtain ⟨rfl, rfl⟩ := pure_eq_some.1 h
  obtain ⟨rfl, rfl⟩ := issue_eq_some hissue
  have hmakes := (Hook.call_makes hcall).trans (Hook.call_makes hrender)
  have hself : Turns [] [m.lastId + 1] m m₃ :=
    ⟨hmakes.log.imp fun _ hnew => hnew.1, fun _ _ hs => hs.enter hmakes⟩
  exact hself.append (.mapM_new nodes hmount hchildren)

theorem mountTree_turns (depth : Nat) (n : N) (m : Machine W) (t : Tree C) (m' : Machine W)
    (h : F.mountTree depth n m = some (t, m')) : Turns [] t.ids m m' := by
  induction depth generalizing n m t m' with
  | zero => cases h
  | succ depth ih =>
    rw [mountTree] at h
    cases hshape : F.shape n <;> simp only [hshape] at h
    · obtain ⟨rfl, rfl⟩ := pure_eq_some.1 h
      exact .refl [] m
    · obtain ⟨ts, m₁, hts, h⟩ := bind_eq_some.1 h
      obtain ⟨rfl, rfl⟩ := pure_eq_some.1 h
      exact .mapM_new _ ih hts
    · exact mountComponent_turns ih h
    · obtain ⟨ts, m₁, hts, h⟩ := bind_eq_some.1 h
      obtain ⟨rfl, rfl⟩ := pure_eq_some.1 h
      exact .mapM_new _ ih hts

/-! ### Updates -/

theorem exists_of_position? {slots : List (Option (Tree C))} {index i : Nat} {n : N}
    (h : F.position? slots index n = some i) : ∃ t, slots[i]? = some (some t) := by
  unfold position? at h
  split at h
  · obtain ⟨hi, ht, -⟩ := List.findIdx?_eq_some_iff_getElem.1 h
    obtain ⟨t, hslot, -⟩ := Option.any_eq_true _ _ |>.1 ht
    exact ⟨t, by rw [List.getElem?_eq_getElem hi, hslot]⟩
  · split at h
    · split at h
      · obtain rfl := Option.some.inj h
        exact ⟨_, ‹_›⟩
      · cases h
    · cases h

/-- No tree is lost, and none is taken over twice. -/
theorem perm_assign (slots : List (Option (Tree C))) (index : Nat) (new : List N) :
    (slots.filterMap id).Perm
      ((F.assign slots index new).1.filterMap (·.1) ++ (F.assign slots index new).2) := by
  induction new generalizing slots index with
  | nil => exact .refl _
  | cons n rest ih =>
    simp only [assign]
    cases h : F.position? slots index n with
    | none => simpa using ih slots (index + 1)
    | some i =>
      obtain ⟨t, ht⟩ := exists_of_position? h
      simp only [Option.bind_some, ht, Option.join_some]
      exact (Reconcile.perm_filterMap_set ht).trans ((ih (slots.set i none) (index + 1)).cons t)

end Family

namespace Tree

theorem idsAll_eq_flatMap (ts : List (Tree C)) : idsAll ts = ts.flatMap ids := by
  induction ts with
  | nil => rfl
  | cons t rest ih => rw [idsAll, ih, List.flatMap_cons]

end Tree

namespace Family

/-- The instances of the trees that are taken over and of those that are left. -/
theorem ids_perm_assign (old : List (Tree C)) (new : List N) :
    (Tree.idsAll old).Perm ((F.assign (old.map some) 0 new).1.flatMap (fun p => (p.1.map Tree.ids).getD []) ++
      Tree.idsAll (F.assign (old.map some) 0 new).2) := by
  have hperm := (perm_assign (F := F) (old.map some) 0 new).flatMap_right Tree.ids
  rw [List.flatMap_append, List.filterMap_map, Function.id_comp, List.filterMap_some] at hperm
  rw [Tree.idsAll_eq_flatMap, Tree.idsAll_eq_flatMap]
  refine hperm.trans (.of_eq (congrArg (· ++ _) ?_))
  generalize (F.assign (old.map some) 0 new).1 = pairs
  induction pairs with
  | nil => rfl
  | cons p rest ih =>
    obtain ⟨t, n⟩ := p
    cases t <;> simp [ih]

variable {depth : Nat} {update : Tree C → N → Run W (Tree C)}

/-- Nodes that take over a tree update it, and the others are mounted. -/
theorem mapM_turns (hupdate : ∀ t n m t' m', update t n m = some (t', m') → Turns t.ids t'.ids m m')
    (pairs : List (Option (Tree C) × N)) {next : List (Tree C)}
    (h : (pairs.mapM fun (t, n) => match t with
      | some t => update t n
      | none => F.mountTree depth n) m = some (next, m')) :
    Turns (pairs.flatMap fun p => (p.1.map Tree.ids).getD []) (Tree.idsAll next) m m' := by
  refine Turns.mapM _ pairs (fun p _ m t m' hp => ?_) h
  obtain ⟨old, n⟩ := p
  cases old with
  | none => exact mountTree_turns depth n m t m' hp
  | some old => exact hupdate old n m t m' hp

theorem reconcile_turns (hupdate : ∀ t n m t' m', update t n m = some (t', m') → Turns t.ids t'.ids m m')
    {old ts : List (Tree C)} {new : List N} (h : F.reconcile depth update old new m = some (ts, m')) :
    Turns (Tree.idsAll old) (Tree.idsAll ts) m m' := by
  obtain ⟨next, m₁, hnext, h⟩ := bind_eq_some.1 h
  obtain ⟨_, m₂, hleft, h⟩ := bind_eq_some.1 h
  obtain ⟨rfl, rfl⟩ := pure_eq_some.1 h
  have hall := (mapM_turns hupdate _ hnext).append (unmountAll_turns _ m₁ m₂ hleft)
  rw [List.append_nil] at hall
  exact hall.perm (ids_perm_assign old new) (.refl _)

theorem rerender_turns (hupdate : ∀ t n m t' m', update t n m = some (t', m') → Turns t.ids t'.ids m m')
    {id : Nat} {key : Option String} {c : C} {renders : Nat} {children : List (Tree C)} {t : Tree C}
    (h : F.rerender depth update id key c renders children m = some (t, m')) :
    ∃ m₁, Makes [(id, .render)] m m₁ ∧ Turns (id :: Tree.idsAll children) t.ids m₁ m' := by
  obtain ⟨⟨c₁, nodes⟩, m₁, hrender, h⟩ := bind_eq_some.1 h
  obtain ⟨ts, m₂, hts, h⟩ := bind_eq_some.1 h
  obtain ⟨rfl, rfl⟩ := pure_eq_some.1 h
  refine ⟨m₁, Hook.call_makes hrender, ?_⟩
  exact (Turns.refl [id] m₁).append (reconcile_turns hupdate hts)

theorem update_turns (depth : Nat) (t : Tree C) (n : N) (m : Machine W) (t' : Tree C) (m' : Machine W)
    (h : F.update depth t n m = some (t', m')) : Turns t.ids t'.ids m m' := by
  induction depth generalizing t n m t' m' with
  | zero => cases h
  | succ depth ih =>
    generalize hrun : F.update (depth + 1) t n = run at h
    unfold Family.update at hrun
    split at hrun <;> subst hrun
    · obtain ⟨rfl, rfl⟩ := pure_eq_some.1 h
      exact .refl [] m
    · obtain ⟨ts, m₁, hts, h⟩ := bind_eq_some.1 h
      obtain ⟨rfl, rfl⟩ := pure_eq_some.1 h
      exact reconcile_turns ih hts
    · obtain ⟨ts, m₁, hts, h⟩ := bind_eq_some.1 h
      obtain ⟨rfl, rfl⟩ := pure_eq_some.1 h
      exact reconcile_turns ih hts
    · rename_i id key c renders children newKey next _
      obtain ⟨answer, m₁, hreceive, h⟩ := bind_eq_some.1 h
      cases answer with
      | ok c =>
        obtain ⟨m₂, hrender, hturns⟩ := rerender_turns ih h
        have hself : Turns (id :: Tree.idsAll children) (id :: Tree.idsAll children) m m₂ :=
          ((Hook.call_makes hreceive).trans hrender).turns_stay [.receive true, .render] .received
        exact hself.trans hturns
      | error given =>
        obtain ⟨_, m₂, hunmount, h⟩ := bind_eq_some.1 h
        have hrefused := Hook.call_makes hreceive
        exact (refused_turns hrefused hunmount).trans (mountComponent_turns (mountTree_turns depth) h)
    · obtain ⟨_, m₁, hunmount, h⟩ := bind_eq_some.1 h
      exact (unmountTree_turns _ m m₁ hunmount).trans (mountTree_turns (depth + 1) n m₁ t' m' h)

end Family
end LiveLayout.Lifecycle
