import LiveLayout.Proofs.Lifecycle.Rounds
/-!
What is in the tree below an instance is what the instance rendered last, and what is known of the instances of
a tree together stays known through its updates, if each call of a hook keeps it.
-/
namespace LiveLayout.Lifecycle

/-- An instance of a tree, with what it is and what it rendered last, and the machine before it did. -/
structure Resident (W C N : Type) where
  id : Nat
  component : C
  nodes : List N
  before : Machine W

variable {W C N : Type}

namespace Family

variable (F : Family W C N) (becomes : C → C → Prop)

/-- The trees are those of the nodes. What is in an instance is not looked at. -/
inductive StandFor : List (Tree C) → List N → Prop
  | nil : StandFor [] []
  | primitive {v : Json} {n : N} {ts : List (Tree C)} {ns : List N} (shape : F.shape n = .primitive v)
    (rest : StandFor ts ns) : StandFor (.primitive v :: ts) (n :: ns)
  | element {tag : String} {key : Option String} {props : Props} {children ts : List (Tree C)} {n : N}
    {kids ns : List N} (shape : F.shape n = .element tag key props kids) (inner : StandFor children kids)
    (rest : StandFor ts ns) : StandFor (.element tag key props children :: ts) (n :: ns)
  | component {id renders : Nat} {key : Option String} {c next : C} {children ts : List (Tree C)} {n : N}
    {ns : List N} (shape : F.shape n = .component key next) (become : becomes c next)
    (rest : StandFor ts ns) : StandFor (.component id key c renders children :: ts) (n :: ns)
  | fragment {key : Option String} {children ts : List (Tree C)} {n : N} {kids ns : List N}
    (shape : F.shape n = .fragment key kids) (inner : StandFor children kids) (rest : StandFor ts ns) :
    StandFor (.fragment key children :: ts) (n :: ns)

/-- The instances of the trees, in each of which is what it rendered last. -/
inductive Houses : List (Tree C) → List (Resident W C N) → Prop
  | nil : Houses [] []
  | primitive {v : Json} {ts : List (Tree C)} {es : List (Resident W C N)} (rest : Houses ts es) :
    Houses (.primitive v :: ts) es
  | element {tag : String} {key : Option String} {props : Props} {children ts : List (Tree C)}
    {cs es : List (Resident W C N)} (inner : Houses children cs) (rest : Houses ts es) :
    Houses (.element tag key props children :: ts) (cs ++ es)
  | component {e : Resident W C N} {key : Option String} {renders : Nat} {children ts : List (Tree C)}
    {cs es : List (Resident W C N)} (shown : F.StandFor becomes children e.nodes) (inner : Houses children cs)
    (rest : Houses ts es) : Houses (.component e.id key e.component renders children :: ts) (e :: (cs ++ es))
  | fragment {key : Option String} {children ts : List (Tree C)} {cs es : List (Resident W C N)}
    (inner : Houses children cs) (rest : Houses ts es) : Houses (.fragment key children :: ts) (cs ++ es)

variable {F becomes}

theorem StandFor.append {ts us : List (Tree C)} {ns ks : List N} (h : F.StandFor becomes ts ns)
    (h' : F.StandFor becomes us ks) : F.StandFor becomes (ts ++ us) (ns ++ ks) := by
  induction h with
  | nil => exact h'
  | primitive shape _ ih => exact .primitive shape ih
  | element shape inner _ _ ih => exact .element shape inner ih
  | component shape become _ ih => exact .component shape become ih
  | fragment shape inner _ _ ih => exact .fragment shape inner ih

namespace Houses

variable {ts us : List (Tree C)} {es fs : List (Resident W C N)}

theorem append (h : F.Houses becomes ts es) (h' : F.Houses becomes us fs) :
    F.Houses becomes (ts ++ us) (es ++ fs) := by
  induction h with
  | nil => exact h'
  | primitive _ ih => exact .primitive ih
  | element inner _ _ ih =>
    rw [List.append_assoc]
    exact .element inner ih
  | component shown inner _ _ ih =>
    simpa only [List.cons_append, List.append_assoc] using Houses.component shown inner ih
  | fragment inner _ _ ih =>
    rw [List.append_assoc]
    exact .fragment inner ih

theorem map_id (h : F.Houses becomes ts es) : es.map Resident.id = Tree.idsAll ts := by
  induction h with
  | nil => rfl
  | primitive _ ih => exact ih
  | element _ _ ihInner ih => rw [List.map_append, ihInner, ih]; rfl
  | component _ _ _ ihInner ih => rw [List.map_cons, List.map_append, ihInner, ih]; rfl
  | fragment _ _ ihInner ih => rw [List.map_append, ihInner, ih]; rfl

theorem cases_cons {t : Tree C} (h : F.Houses becomes (t :: ts) es) :
    ∃ a b, es = a ++ b ∧ F.Houses becomes [t] a ∧ F.Houses becomes ts b := by
  cases h with
  | primitive rest => exact ⟨[], _, rfl, .primitive .nil, rest⟩
  | @element _ _ _ _ _ cs _ inner rest =>
    exact ⟨cs ++ [], _, by rw [List.append_nil], .element inner .nil, rest⟩
  | @component e _ _ _ _ cs _ shown inner rest =>
    exact ⟨e :: (cs ++ []), _, by rw [List.append_nil, List.cons_append], .component shown inner .nil, rest⟩
  | @fragment _ _ _ cs _ inner rest =>
    exact ⟨cs ++ [], _, by rw [List.append_nil], .fragment inner .nil, rest⟩

theorem cases_append (h : F.Houses becomes (ts ++ us) es) :
    ∃ a b, es = a ++ b ∧ F.Houses becomes ts a ∧ F.Houses becomes us b := by
  induction ts generalizing es with
  | nil => exact ⟨[], es, rfl, .nil, h⟩
  | cons t ts ih =>
    obtain ⟨a, b, rfl, ht, hrest⟩ := cases_cons h
    obtain ⟨c, d, rfl, hts, hus⟩ := ih hrest
    exact ⟨a ++ c, d, (List.append_assoc ..).symm, ht.append hts, hus⟩

/-- In another order, the trees have the same instances. -/
theorem perm (h : F.Houses becomes ts es) (hp : ts.Perm us) : ∃ fs, es.Perm fs ∧ F.Houses becomes us fs := by
  induction hp generalizing es with
  | nil => exact ⟨es, .refl _, h⟩
  | cons t _ ih =>
    obtain ⟨a, b, rfl, ht, hrest⟩ := cases_cons h
    obtain ⟨fs, hperm, hfs⟩ := ih hrest
    exact ⟨a ++ fs, hperm.append_left a, ht.append hfs⟩
  | swap t u rest =>
    obtain ⟨a, b, rfl, hu, hrest⟩ := cases_cons h
    obtain ⟨c, d, rfl, ht, hrest⟩ := cases_cons hrest
    refine ⟨c ++ (a ++ d), ?_, ht.append (hu.append hrest)⟩
    simp only [← List.append_assoc]
    exact List.perm_append_comm.append_right d
  | trans _ _ ih ih' =>
    obtain ⟨fs, hperm, hfs⟩ := ih h
    obtain ⟨gs, hperm', hgs⟩ := ih' hfs
    exact ⟨gs, hperm.trans hperm', hgs⟩

end Houses
end Family

/-- A relation between the instances of a tree before and after that each call of a hook keeps. -/
structure Kept (F : Family W C N) (becomes : C → C → Prop)
    (R : List (Resident W C N) → List (Resident W C N) → Machine W → Machine W → Prop) : Prop where
  refl : ∀ a m, R a a m m
  trans : ∀ {a b c m m' m''}, R a b m m' → R b c m' m'' → R a c m m''
  append_right : ∀ {a b m m'}, R a b m m' → ∀ c, R (a ++ c) (b ++ c) m m'
  perm : ∀ {a b a' b' m m'}, R a b m m' → a'.Perm a → b.Perm b' → R a' b' m m'
  mount : ∀ {key c c₁ c₂ nodes depth m m₁ m₂},
    (F.mount key (m.lastId + 1) c).call (m.lastId + 1) (fun _ => .mount) { m with lastId := m.lastId + 1 } =
      some (c₁, m₁) →
    (F.render depth none key (m.lastId + 1) c₁).call (m.lastId + 1) (fun _ => .render) m₁ =
      some ((c₂, nodes), m₂) →
    becomes c₂ c ∧ R [] [⟨m.lastId + 1, c₂, nodes, m₁⟩] m m₂
  accept : ∀ {e next key c c' nodes depth renders m m₁ m₂},
    (F.receive e.id e.component next).call e.id (fun r => .receive r.toBool) m = some (.ok c, m₁) →
    (F.render depth (some renders) key e.id c).call e.id (fun _ => .render) m₁ = some ((c', nodes), m₂) →
    becomes c' next ∧ R [e] [⟨e.id, c', nodes, m₁⟩] m m₂
  refuse : ∀ {e next given m m₁},
    (F.receive e.id e.component next).call e.id (fun r => .receive r.toBool) m = some (.error given, m₁) →
    given = (e.component, next) ∧ R [e] [e] m m₁
  unmount : ∀ {e key m m₁},
    (F.unmount key e.id e.component).call e.id (fun _ => .unmount) m = some ((), m₁) → R [e] [] m m₁

namespace Kept

variable {F : Family W C N} {becomes : C → C → Prop} {m m' : Machine W}
  {R : List (Resident W C N) → List (Resident W C N) → Machine W → Machine W → Prop}

theorem append (hR : Kept F becomes R) {a b a' b' : List (Resident W C N)} {m'' : Machine W}
    (h : R a b m m') (h' : R a' b' m' m'') : R (a ++ a') (b ++ b') m m'' :=
  hR.trans (hR.append_right h a')
    (hR.perm (hR.append_right h' b) List.perm_append_comm List.perm_append_comm)

theorem unmountAll (hR : Kept F becomes R) {ts : List (Tree C)} {es : List (Resident W C N)}
    (h : F.Houses becomes ts es) (hrun : F.unmountAll ts m = some ((), m')) : R es [] m m' := by
  induction h generalizing m m' with
  | nil =>
    obtain ⟨-, rfl⟩ := pure_eq_some.1 hrun
    exact hR.refl [] m
  | primitive _ ih =>
    obtain ⟨_, m₁, hfirst, hrun⟩ := bind_eq_some.1 hrun
    obtain ⟨-, rfl⟩ := pure_eq_some.1 hfirst
    exact ih hrun
  | element _ _ ihInner ih =>
    obtain ⟨_, m₁, hfirst, hrun⟩ := bind_eq_some.1 hrun
    exact hR.append (ihInner hfirst) (ih hrun)
  | component _ _ _ ihInner ih =>
    obtain ⟨_, m₁, hfirst, hrun⟩ := bind_eq_some.1 hrun
    obtain ⟨_, m₂, hcall, hinner⟩ := bind_eq_some.1 hfirst
    exact hR.append (hR.unmount hcall) (hR.append (ihInner hinner) (ih hrun))
  | fragment _ _ ihInner ih =>
    obtain ⟨_, m₁, hfirst, hrun⟩ := bind_eq_some.1 hrun
    exact hR.append (ihInner hfirst) (ih hrun)

theorem unmountTree (hR : Kept F becomes R) {t : Tree C} {es : List (Resident W C N)}
    (h : F.Houses becomes [t] es) (hrun : F.unmountTree t m = some ((), m')) : R es [] m m' :=
  hR.unmountAll h (bind_eq_some.2 ⟨(), m', hrun, rfl⟩)

/-! ### Mounting -/

theorem mapM_new (hR : Kept F becomes R) {f : N → Run W (Tree C)}
    (step : ∀ n m t m', f n m = some (t, m') →
      ∃ es, F.Houses becomes [t] es ∧ F.StandFor becomes [t] [n] ∧ R [] es m m')
    (ns : List N) {ts : List (Tree C)} (h : ns.mapM f m = some (ts, m')) :
    ∃ es, F.Houses becomes ts es ∧ F.StandFor becomes ts ns ∧ R [] es m m' := by
  induction ns generalizing m ts with
  | nil =>
    rw [List.mapM_nil] at h
    obtain ⟨rfl, rfl⟩ := pure_eq_some.1 h
    exact ⟨[], .nil, .nil, hR.refl [] m⟩
  | cons n ns ih =>
    rw [List.mapM_cons] at h
    obtain ⟨t, m₁, hn, h⟩ := bind_eq_some.1 h
    obtain ⟨rest, m₂, hrest, h⟩ := bind_eq_some.1 h
    obtain ⟨rfl, rfl⟩ := pure_eq_some.1 h
    obtain ⟨es, hes, hstand, hturn⟩ := step n m t m₁ hn
    obtain ⟨fs, hfs, hstand', hturn'⟩ := ih hrest
    exact ⟨es ++ fs, hes.append hfs, hstand.append hstand', hR.append hturn hturn'⟩

theorem mountComponent (hR : Kept F becomes R) {depth : Nat} {mount : N → Run W (Tree C)}
    {key : Option String} {c : C} {t : Tree C} {n : N} (hshape : F.shape n = .component key c)
    (hmount : ∀ n m t m', mount n m = some (t, m') →
      ∃ es, F.Houses becomes [t] es ∧ F.StandFor becomes [t] [n] ∧ R [] es m m')
    (h : F.mountComponent depth mount key c m = some (t, m')) :
    ∃ es, F.Houses becomes [t] es ∧ F.StandFor becomes [t] [n] ∧ R [] es m m' := by
  obtain ⟨id, m₁, hissue, h⟩ := bind_eq_some.1 h
  obtain ⟨c₁, m₂, hcall, h⟩ := bind_eq_some.1 h
  obtain ⟨⟨c₂, nodes⟩, m₃, hrender, h⟩ := bind_eq_some.1 h
  obtain ⟨children, m₄, hchildren, h⟩ := bind_eq_some.1 h
  obtain ⟨rfl, rfl⟩ := pure_eq_some.1 h
  obtain ⟨rfl, rfl⟩ := issue_eq_some hissue
  obtain ⟨hbecomes, hself⟩ := hR.mount hcall hrender
  obtain ⟨es, hes, hstand, hinner⟩ := hR.mapM_new hmount nodes hchildren
  let e : Resident W C N := ⟨m.lastId + 1, c₂, nodes, m₂⟩
  have hhouses : F.Houses becomes [.component e.id key e.component 1 children] (e :: (es ++ [])) :=
    .component hstand hes .nil
  rw [List.append_nil] at hhouses
  exact ⟨e :: es, hhouses, .component hshape hbecomes .nil, hR.append hself hinner⟩

theorem mountTree (hR : Kept F becomes R) (depth : Nat) (n : N) (m : Machine W) (t : Tree C) (m' : Machine W)
    (h : F.mountTree depth n m = some (t, m')) :
    ∃ es, F.Houses becomes [t] es ∧ F.StandFor becomes [t] [n] ∧ R [] es m m' := by
  induction depth generalizing n m t m' with
  | zero => cases h
  | succ depth ih =>
    rw [Family.mountTree] at h
    cases hshape : F.shape n <;> simp only [hshape] at h
    · obtain ⟨rfl, rfl⟩ := pure_eq_some.1 h
      exact ⟨[], .primitive .nil, .primitive hshape .nil, hR.refl [] m⟩
    · obtain ⟨ts, m₁, hts, h⟩ := bind_eq_some.1 h
      obtain ⟨rfl, rfl⟩ := pure_eq_some.1 h
      obtain ⟨es, hes, hstand, hinner⟩ := hR.mapM_new ih _ hts
      exact ⟨es ++ [], .element hes .nil, .element hshape hstand .nil, by rwa [List.append_nil]⟩
    · exact hR.mountComponent hshape ih h
    · obtain ⟨ts, m₁, hts, h⟩ := bind_eq_some.1 h
      obtain ⟨rfl, rfl⟩ := pure_eq_some.1 h
      obtain ⟨es, hes, hstand, hinner⟩ := hR.mapM_new ih _ hts
      exact ⟨es ++ [], .fragment hes .nil, .fragment hshape hstand .nil, by rwa [List.append_nil]⟩

end Kept

/-! ### Updates -/

namespace Family

variable {F : Family W C N}

/-- A new node takes over trees with its own key and of its own kind. -/
def Fits (F : Family W C N) (t : Tree C) (n : N) : Prop :=
  t.key? = (F.shape n).key? ∧ t.sameKind (F.shape n) = true

theorem exists_fits {slots : List (Option (Tree C))} {index i : Nat} {n : N}
    (h : F.position? slots index n = some i) : ∃ t, slots[i]? = some (some t) ∧ F.Fits t n := by
  unfold position? at h
  split at h
  · rename_i key hkey
    obtain ⟨hi, ht, -⟩ := List.findIdx?_eq_some_iff_getElem.1 h
    obtain ⟨t, hslot, hfits⟩ := Option.any_eq_true _ _ |>.1 ht
    simp only [Bool.and_eq_true, beq_iff_eq] at hfits
    exact ⟨t, by rw [List.getElem?_eq_getElem hi, hslot], hfits.1.trans hkey.symm, hfits.2⟩
  · rename_i hkey
    split at h
    · split at h
      · rename_i hfits
        simp only [Bool.and_eq_true, Option.isNone_iff_eq_none] at hfits
        obtain rfl := Option.some.inj h
        exact ⟨_, ‹_›, hfits.1.trans hkey.symm, hfits.2⟩
      · cases h
    · cases h

theorem fits_of_mem_assign {slots : List (Option (Tree C))} {index : Nat} {new : List N} {t : Tree C} {n : N}
    (h : (some t, n) ∈ (F.assign slots index new).1) : F.Fits t n := by
  induction new generalizing slots index with
  | nil => simp [assign] at h
  | cons n' rest ih =>
    simp only [assign, List.mem_cons] at h
    rcases h with h | h
    · obtain ⟨ht, rfl⟩ := Prod.mk.inj h
      cases hp : F.position? slots index n with
      | none => simp [hp] at ht
      | some i =>
        obtain ⟨t', ht', hfits⟩ := exists_fits hp
        simp only [hp, Option.bind_some, ht', Option.join_some, Option.some.injEq] at ht
        rwa [ht]
    · exact ih h

theorem map_snd_assign (slots : List (Option (Tree C))) (index : Nat) (new : List N) :
    (F.assign slots index new).1.map (·.2) = new := by
  induction new generalizing slots index with
  | nil => rfl
  | cons n rest ih => simp only [assign, List.map_cons, ih]

end Family

namespace Kept

variable {F : Family W C N} {becomes : C → C → Prop} {m m' : Machine W}
  {R : List (Resident W C N) → List (Resident W C N) → Machine W → Machine W → Prop}
  {update : Tree C → N → Run W (Tree C)}

/-- What one tree's update to a new node that takes it over does. -/
def Updates (F : Family W C N) (becomes : C → C → Prop)
    (R : List (Resident W C N) → List (Resident W C N) → Machine W → Machine W → Prop)
    (update : Tree C → N → Run W (Tree C)) : Prop :=
  ∀ t n m t' m' es, F.Fits t n → F.Houses becomes [t] es → update t n m = some (t', m') →
    ∃ fs, F.Houses becomes [t'] fs ∧ F.StandFor becomes [t'] [n] ∧ R es fs m m'

theorem mapM_taken (hR : Kept F becomes R) (hupdate : Updates F becomes R update) (depth : Nat)
    (pairs : List (Option (Tree C) × N)) (hfits : ∀ t n, (some t, n) ∈ pairs → F.Fits t n)
    {es : List (Resident W C N)} (hes : F.Houses becomes (pairs.filterMap (·.1)) es) {ts : List (Tree C)}
    (h : (pairs.mapM fun (t, n) => match t with
      | some t => update t n
      | none => F.mountTree depth n) m = some (ts, m')) :
    ∃ fs, F.Houses becomes ts fs ∧ F.StandFor becomes ts (pairs.map (·.2)) ∧ R es fs m m' := by
  induction pairs generalizing m ts es with
  | nil =>
    rw [List.mapM_nil] at h
    obtain ⟨rfl, rfl⟩ := pure_eq_some.1 h
    cases hes
    exact ⟨[], .nil, .nil, hR.refl [] m⟩
  | cons p pairs ih =>
    rw [List.mapM_cons] at h
    obtain ⟨t, m₁, hp, h⟩ := bind_eq_some.1 h
    obtain ⟨rest, m₂, hrest, h⟩ := bind_eq_some.1 h
    obtain ⟨rfl, rfl⟩ := pure_eq_some.1 h
    have hfits' : ∀ t n, (some t, n) ∈ pairs → F.Fits t n := fun t n hmem => hfits t n (List.mem_cons_of_mem _ hmem)
    obtain ⟨old, n⟩ := p
    cases old with
    | none =>
      obtain ⟨fs, hfs, hstand, hturn⟩ := hR.mountTree depth n m t m₁ hp
      obtain ⟨gs, hgs, hstand', hturn'⟩ := ih hfits' hes hrest
      exact ⟨fs ++ gs, hfs.append hgs, hstand.append hstand', hR.append hturn hturn'⟩
    | some old =>
      obtain ⟨a, b, rfl, ha, hb⟩ := hes.cases_cons
      obtain ⟨fs, hfs, hstand, hturn⟩ := hupdate old n m t m₁ a (hfits old n (List.mem_cons_self ..)) ha hp
      obtain ⟨gs, hgs, hstand', hturn'⟩ := ih hfits' hb hrest
      exact ⟨fs ++ gs, hfs.append hgs, hstand.append hstand', hR.append hturn hturn'⟩

theorem reconcile (hR : Kept F becomes R) (hupdate : Updates F becomes R update) {depth : Nat}
    {old ts : List (Tree C)} {new : List N} {es : List (Resident W C N)} (hes : F.Houses becomes old es)
    (h : F.reconcile depth update old new m = some (ts, m')) :
    ∃ fs, F.Houses becomes ts fs ∧ F.StandFor becomes ts new ∧ R es fs m m' := by
  have hperm := Family.perm_assign (F := F) (old.map some) 0 new
  rw [List.filterMap_map, Function.id_comp, List.filterMap_some] at hperm
  have hfits : ∀ t n, (some t, n) ∈ (F.assign (old.map some) 0 new).1 → F.Fits t n :=
    fun _ _ => Family.fits_of_mem_assign
  have hnew := F.map_snd_assign (old.map some) 0 new
  obtain ⟨next, m₁, hnext, h⟩ := bind_eq_some.1 h
  obtain ⟨_, m₂, hleft, h⟩ := bind_eq_some.1 h
  obtain ⟨rfl, rfl⟩ := pure_eq_some.1 h
  obtain ⟨ds, hds, hhouses⟩ := hes.perm hperm
  obtain ⟨a, b, rfl, ha, hb⟩ := hhouses.cases_append
  obtain ⟨fs, hfs, hstand, hturn⟩ := hR.mapM_taken hupdate depth _ hfits ha hnext
  rw [hnew] at hstand
  have hall := hR.append hturn (hR.unmountAll hb hleft)
  rw [List.append_nil] at hall
  exact ⟨fs, hfs, hstand, hR.perm hall hds (.refl _)⟩

/-- An instance is rendered again, and then what is in it has become what it rendered. -/
theorem rerender (hR : Kept F becomes R) (hupdate : Updates F becomes R update) {depth id renders : Nat}
    {key : Option String} {c : C} {children : List (Tree C)} {t : Tree C} {cs : List (Resident W C N)}
    (hcs : F.Houses becomes children cs)
    (h : F.rerender depth update id key c renders children m = some (t, m')) :
    ∃ c' nodes m₁ next fs,
      (F.render depth (some renders) key id c).call id (fun _ => .render) m = some ((c', nodes), m₁) ∧
      t = .component id key c' (renders + 1) next ∧ F.Houses becomes next fs ∧
      F.StandFor becomes next nodes ∧ R cs fs m₁ m' := by
  obtain ⟨⟨c', nodes⟩, m₁, hrender, h⟩ := bind_eq_some.1 h
  obtain ⟨next, m₂, hnext, h⟩ := bind_eq_some.1 h
  obtain ⟨rfl, rfl⟩ := pure_eq_some.1 h
  obtain ⟨fs, hfs, hstand, hturn⟩ := hR.reconcile hupdate hcs hnext
  exact ⟨c', nodes, m₁, next, fs, hrender, rfl, hfs, hstand, hturn⟩

theorem updates (hR : Kept F becomes R) (depth : Nat) : Updates F becomes R (F.update depth) := by
  induction depth with
  | zero => exact fun _ _ _ _ _ _ _ _ h => nomatch h
  | succ depth ih =>
    intro t n m t' m' es hfits hes h
    generalize hrun : F.update (depth + 1) t n = run at h
    unfold Family.update at hrun
    split at hrun <;> subst hrun
    · rename_i hshape
      obtain ⟨rfl, rfl⟩ := pure_eq_some.1 h
      cases hes with
      | primitive rest =>
        cases rest
        exact ⟨[], .primitive .nil, .primitive hshape .nil, hR.refl [] m⟩
    · rename_i tag key' props' old key props new hshape
      obtain ⟨ts, m₁, hts, h⟩ := bind_eq_some.1 h
      obtain ⟨rfl, rfl⟩ := pure_eq_some.1 h
      cases hes with
      | element inner rest =>
        cases rest
        obtain ⟨fs, hfs, hstand, hturn⟩ := hR.reconcile ih inner hts
        have htag := hfits.2
        rw [hshape] at htag
        rw [← beq_iff_eq.1 htag] at hshape
        exact ⟨fs ++ [], .element hfs .nil, .element hshape hstand .nil, by simpa only [List.append_nil]⟩
    · rename_i hshape
      obtain ⟨ts, m₁, hts, h⟩ := bind_eq_some.1 h
      obtain ⟨rfl, rfl⟩ := pure_eq_some.1 h
      cases hes with
      | fragment inner rest =>
        cases rest
        obtain ⟨fs, hfs, hstand, hturn⟩ := hR.reconcile ih inner hts
        exact ⟨fs ++ [], .fragment hfs .nil, .fragment hshape hstand .nil, by simpa only [List.append_nil]⟩
    · rename_i id key c renders children newKey next hshape
      obtain rfl : key = newKey := by
        have hkey := hfits.1
        rwa [hshape] at hkey
      obtain ⟨answer, m₁, hreceive, h⟩ := bind_eq_some.1 h
      cases hes with
      | @component e _ _ _ _ cs _ shown inner rest =>
        cases rest
        rw [List.append_nil]
        cases answer with
        | ok c =>
          obtain ⟨c', nodes, m₂, children', fs, hrender, rfl, hfs, hstand, hinner⟩ := hR.rerender ih inner h
          obtain ⟨hbecomes, hself⟩ := hR.accept hreceive hrender
          let e' : Resident W C N := ⟨e.id, c', nodes, m₁⟩
          have hhouses : F.Houses becomes [.component e'.id key e'.component (renders + 1) children']
            (e' :: (fs ++ [])) := .component hstand hfs .nil
          rw [List.append_nil] at hhouses
          exact ⟨e' :: fs, hhouses, .component hshape hbecomes .nil, hR.append hself hinner⟩
        | error given =>
          obtain ⟨rfl, hrefuse⟩ := hR.refuse hreceive
          obtain ⟨_, m₂, hunmount, h⟩ := bind_eq_some.1 h
          have hold : F.Houses becomes [.component e.id key e.component renders children] (e :: (cs ++ [])) :=
            .component shown inner .nil
          rw [List.append_nil] at hold
          obtain ⟨fs, hfs, hstand, hmount⟩ := hR.mountComponent hshape (hR.mountTree depth) h
          refine ⟨fs, hfs, hstand, hR.trans (hR.append hrefuse (hR.refl cs m₁)) ?_⟩
          exact hR.trans (hR.unmountTree hold hunmount) hmount
    · obtain ⟨_, m₁, hunmount, h⟩ := bind_eq_some.1 h
      obtain ⟨fs, hfs, hstand, hmount⟩ := hR.mountTree (depth + 1) n m₁ t' m' h
      exact ⟨fs, hfs, hstand, hR.trans (hR.unmountTree hes hunmount) hmount⟩

end Kept

/-! ### Replacing an instance -/

namespace Tree

variable {id : Nat} {old t : Tree C} {ts : List (Tree C)}

/-- What is found is in the first tree, and the others stay when it is replaced, or else the first one stays. -/
theorem cases_findAll? (hn : (idsAll (t :: ts)).Nodup) (h : findAll? id (t :: ts) = some old) :
    (t.find? id = some old ∧ t.ids.Nodup ∧ ∀ next, replaceAll id next ts = ts) ∨
      (findAll? id ts = some old ∧ (idsAll ts).Nodup ∧ ∀ next, replace id next t = t) := by
  obtain ⟨ht, hts, hdisjoint⟩ := List.nodup_append.1 hn
  rcases Option.or_eq_some_iff.1 h with h | ⟨hnone, h⟩
  · have hid : id ∈ t.ids := (mem_ids_iff t).2 (by rw [h]; rfl)
    exact .inl ⟨h, ht, fun _ => replaceAll_of_notMem ts fun hmem => hdisjoint id hid id hmem rfl⟩
  · have hid : id ∉ t.ids := fun hmem => by simpa [hnone] using (mem_ids_iff t).1 hmem
    exact .inr ⟨h, hts, fun _ => replace_of_notMem t hid⟩

end Tree

namespace Family

variable {F : Family W C N} {becomes : C → C → Prop} {id : Nat} {key : Option String} {c : C}
  {renders : Nat} {children ts : List (Tree C)} {es : List (Resident W C N)}

/-- Trees stand for the same nodes when an instance in them is rendered again. -/
theorem StandFor.replaceAll {ns : List N} (h : F.StandFor becomes ts ns) (hn : (Tree.idsAll ts).Nodup)
    (hfind : Tree.findAll? id ts = some (.component id key c renders children)) (renders' : Nat)
    (next : List (Tree C)) :
    F.StandFor becomes (Tree.replaceAll id (.component id key c renders' next) ts) ns := by
  induction h with
  | nil => cases hfind
  | primitive shape _ ih => exact .primitive shape (ih hn hfind)
  | element shape inner rest ihInner ih =>
    rcases Tree.cases_findAll? hn hfind with ⟨hfind, hn, hstays⟩ | ⟨hfind, hn, hstays⟩
    · rw [Tree.replaceAll, hstays, Tree.replace]
      exact .element shape (ihInner hn hfind) rest
    · rw [Tree.replaceAll, hstays]
      exact .element shape inner (ih hn hfind)
  | component shape become rest ih =>
    rcases Tree.cases_findAll? hn hfind with ⟨hfind, -, hstays⟩ | ⟨hfind, hn, hstays⟩
    · rw [Tree.replaceAll, hstays, Tree.replace]
      rw [Tree.find?] at hfind
      split
      · rw [if_pos ‹_›] at hfind
        cases hfind
        exact .component shape become rest
      · exact .component shape become rest
    · rw [Tree.replaceAll, hstays]
      exact .component shape become (ih hn hfind)
  | fragment shape inner rest ihInner ih =>
    rcases Tree.cases_findAll? hn hfind with ⟨hfind, hn, hstays⟩ | ⟨hfind, hn, hstays⟩
    · rw [Tree.replaceAll, hstays, Tree.replace]
      exact .fragment shape (ihInner hn hfind) rest
    · rw [Tree.replaceAll, hstays]
      exact .fragment shape inner (ih hn hfind)

/-- Among the residents there is the instance with all that is in it, beside others that stay when it is rendered
again. -/
def Lodges (F : Family W C N) (becomes : C → C → Prop) (ts : List (Tree C)) (es : List (Resident W C N)) (id : Nat)
    (key : Option String) (c : C) (children : List (Tree C)) : Prop :=
  ∃ e cs rest, e.id = id ∧ e.component = c ∧ F.StandFor becomes children e.nodes ∧ F.Houses becomes children cs ∧
    es.Perm (e :: (cs ++ rest)) ∧ ∀ (e' : Resident W C N) renders next fs, e'.id = id → e'.component = c →
      F.StandFor becomes next e'.nodes → F.Houses becomes next fs →
      ∃ es', F.Houses becomes (Tree.replaceAll id (.component id key c renders next) ts) es' ∧
        es'.Perm (e' :: (fs ++ rest))

/-- An instance in some of the trees is in all of them, beside more others. -/
theorem Lodges.within {us : List (Tree C)} {ds others : List (Resident W C N)}
    (h : Lodges F becomes ts es id key c children) (hds : ds.Perm (es ++ others))
    (hwithin : ∀ renders next fs, F.Houses becomes (Tree.replaceAll id (.component id key c renders next) ts) fs →
      ∃ gs, F.Houses becomes (Tree.replaceAll id (.component id key c renders next) us) gs ∧
        gs.Perm (fs ++ others)) :
    Lodges F becomes us ds id key c children := by
  obtain ⟨e, cs, rest, hid, hc, hshown, hcs, hes, hagain⟩ := h
  have more {x : Resident W C N} {a b : List (Resident W C N)} (hp : a.Perm (x :: (b ++ rest))) :
      (a ++ others).Perm (x :: (b ++ (rest ++ others))) := by
    have hmore := hp.append_right others
    rwa [List.cons_append, List.append_assoc] at hmore
  refine ⟨e, cs, rest ++ others, hid, hc, hshown, hcs, hds.trans (more hes), fun e' renders next fs hid' hc' hn hfs => ?_⟩
  obtain ⟨es', hes', hp⟩ := hagain e' renders next fs hid' hc' hn hfs
  obtain ⟨gs, hgs, hp'⟩ := hwithin renders next es' hes'
  exact ⟨gs, hgs, hp'.trans (more hp)⟩

theorem Houses.lodges (h : F.Houses becomes ts es) (hn : (Tree.idsAll ts).Nodup)
    (hfind : Tree.findAll? id ts = some (.component id key c renders children)) :
    Lodges F becomes ts es id key c children := by
  induction h with
  | nil => cases hfind
  | primitive _ ih =>
    refine (ih hn hfind).within (.of_eq (List.append_nil _).symm) fun renders next fs hfs => ?_
    exact ⟨fs, .primitive hfs, .of_eq (List.append_nil _).symm⟩
  | @element _ _ _ children' ts cs es inner rest ihInner ih =>
    rcases Tree.cases_findAll? hn hfind with ⟨hfind, hn, hstays⟩ | ⟨hfind, hn, hstays⟩
    · refine (ihInner hn hfind).within (.refl _) fun renders next fs hfs => ⟨fs ++ es, ?_, .refl _⟩
      rw [Tree.replaceAll, hstays, Tree.replace]
      exact .element hfs rest
    · refine (ih hn hfind).within List.perm_append_comm fun renders next fs hfs => ⟨cs ++ fs, ?_, List.perm_append_comm⟩
      rw [Tree.replaceAll, hstays]
      exact .element inner hfs
  | @component e key' renders' children' ts cs es shown inner rest ihInner ih =>
    have hhere {fs : List (Resident W C N)} : (e :: (fs ++ es)).Perm (fs ++ e :: es) := List.perm_middle.symm
    rcases Tree.cases_findAll? hn hfind with ⟨hfind, hn, hstays⟩ | ⟨hfind, hn, hstays⟩
    · rw [Tree.find?] at hfind
      split at hfind
      · cases hfind
        refine ⟨e, cs, es, rfl, rfl, shown, inner, .refl _, fun e' renders next fs hid hc hnext hfs => ?_⟩
        refine ⟨e' :: (fs ++ es), ?_, .refl _⟩
        rw [Tree.replaceAll, hstays, Tree.replace, if_pos rfl, ← hc, ← hid]
        exact .component hnext hfs rest
      · have hdifferent := ‹¬e.id = id›
        have hshown := shown.replaceAll (List.nodup_cons.1 hn).2 hfind
        refine (ihInner (List.nodup_cons.1 hn).2 hfind).within hhere fun renders next fs hfs => ?_
        refine ⟨e :: (fs ++ es), ?_, hhere⟩
        rw [Tree.replaceAll, hstays, Tree.replace, if_neg hdifferent]
        exact .component (hshown renders next) hfs rest
    · have hthere {fs : List (Resident W C N)} : (e :: (cs ++ fs)).Perm (fs ++ e :: cs) :=
        (List.perm_append_comm.cons e).trans List.perm_middle.symm
      refine (ih hn hfind).within hthere fun renders next fs hfs => ⟨e :: (cs ++ fs), ?_, hthere⟩
      rw [Tree.replaceAll, hstays]
      exact .component shown inner hfs
  | @fragment _ children' ts cs es inner rest ihInner ih =>
    rcases Tree.cases_findAll? hn hfind with ⟨hfind, hn, hstays⟩ | ⟨hfind, hn, hstays⟩
    · refine (ihInner hn hfind).within (.refl _) fun renders next fs hfs => ⟨fs ++ es, ?_, .refl _⟩
      rw [Tree.replaceAll, hstays, Tree.replace]
      exact .fragment hfs rest
    · refine (ih hn hfind).within List.perm_append_comm fun renders next fs hfs => ⟨cs ++ fs, ?_, List.perm_append_comm⟩
      rw [Tree.replaceAll, hstays]
      exact .fragment inner hfs

end Family
end LiveLayout.Lifecycle
