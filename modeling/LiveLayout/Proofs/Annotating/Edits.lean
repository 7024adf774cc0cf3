import LiveLayout.Proofs.Annotating.Places
/-!
Edits of a layout. One that has its target elsewhere leaves what stands at a place there, although it may reach into it.
-/
namespace LiveLayout.Json

variable {v w : Json} {s t : Descent} {p q : Place} {name : String} {fields : List (String × Json)}

/-! ### Putting a value in place of another -/

/-- The value with another one after the step. -/
def put : Json → Descent → Json → Json
  | .array items, .item i, w => .array (items.set i w)
  | .object fields, .entry name, w => .object (Fields.set fields name w)
  | v, _, _ => v

theorem step?_put_self (h : (v.step? s).isSome) (w : Json) : (v.put s w).step? s = some w := by
  unfold step? at h
  split at h
  · exact List.getElem?_set_self (by simpa using h)
  · exact Fields.get?_set_self ..
  · cases h

theorem step?_put_of_ne (h : t ≠ s) (v w : Json) : (v.put s w).step? t = v.step? t := by
  unfold put
  split
  · cases t with
    | item j =>
      refine List.getElem?_set_ne ?_
      rintro rfl
      exact h rfl
    | entry name => rfl
  · cases t with
    | item j => rfl
    | entry other =>
      refine Fields.get?_set_of_ne _ _ ?_
      rintro rfl
      exact h rfl
  · rfl

/-! ### Edits -/

/-- What is done to the value at a place. An entry is erased in order, or by putting the last one into its place. -/
inductive Change where
  | set (name : String) (v : Json)
  | erase (name : String)
  | swapErase (name : String)
  | replace (v : Json)

def Change.apply : Change → Json → Json
  | .set name v, .object fields => .object (Fields.set fields name v)
  | .erase name, .object fields => .object (Fields.erase fields name)
  | .swapErase name, .object fields => .object (Fields.swapErase fields name)
  | .replace v, _ => v
  | _, w => w

/-- The entry that is changed, or the whole value. -/
def Change.target : Change → Place
  | .set name _ => [.entry name]
  | .erase name => [.entry name]
  | .swapErase name => [.entry name]
  | .replace _ => []

structure Edit where
  place : Place
  change : Change

/-- The place where something is set, removed or replaced. -/
def Edit.target (e : Edit) : Place := e.place ++ e.change.target

/-- The value with a change made at a place, where there is something. -/
def changeAt (change : Change) : Json → Place → Json
  | v, [] => change.apply v
  | v, s :: p =>
    match v.step? s with
    | some w => v.put s (w.changeAt change p)
    | none => v

def Edit.apply (e : Edit) (v : Json) : Json := v.changeAt e.change e.place

/-! ### Places elsewhere -/

/-- The same value, or another one of the same kind that has entries or items. -/
inductive Alike : Json → Json → Prop where
  | refl (v : Json) : Alike v v
  | object (fields fields' : List (String × Json)) : Alike (.object fields) (.object fields')
  | array (items items' : List Json) : Alike (.array items) (.array items')

theorem alike_put (v : Json) (s : Descent) (w : Json) : Alike v (v.put s w) := by
  unfold put
  split
  · exact .array ..
  · exact .object ..
  · exact .refl _

section

variable {α : Type} {r : α → α → Prop} {a b : α} {u : Option α}

theorem exists_of_rel_some (h : Option.Rel r u (some b)) : ∃ a, u = some a ∧ r a b := by
  cases h with
  | some hr => exact ⟨_, rfl, hr⟩

theorem exists_of_some_rel (h : Option.Rel r (some a) u) : ∃ b, u = some b ∧ r a b := by
  cases h with
  | some hr => exact ⟨_, rfl, hr⟩

end

theorem Alike.some_refl (v : Option Json) : Option.Rel Alike v v := by
  cases v with
  | none => exact .none
  | some v => exact .some (.refl v)

theorem at?_put_of_ne (h : t ≠ s) (v w : Json) (p : Place) : (v.put s w).at? (t :: p) = v.at? (t :: p) := by
  rw [at?_cons, at?_cons, step?_put_of_ne h]

theorem Change.step?_apply (change : Change) (hv : v.wellFormed = true) (h : ¬change.target <+: [t]) :
    (change.apply v).step? t = v.step? t := by
  have hne {name : String} (hname : ¬[Descent.entry name] <+: [t]) : t ≠ .entry name := by
    rintro rfl
    exact hname (List.prefix_refl _)
  cases v with
  | object fields =>
    have hfields := (wellFormed_object_iff.1 hv).1
    cases t with
    | item i =>
      cases change with
      | replace w => exact absurd List.nil_prefix h
      | _ => rfl
    | entry other =>
      cases change with
      | set name w => exact Fields.get?_set_of_ne _ _ fun heq => hne h (congrArg _ heq)
      | erase name => exact Fields.get?_erase_of_ne _ fun heq => hne h (congrArg _ heq)
      | swapErase name => exact Fields.get?_swapErase_of_ne hfields fun heq => hne h (congrArg _ heq)
      | replace w => exact absurd List.nil_prefix h
  | _ =>
    cases change with
    | replace w => exact absurd List.nil_prefix h
    | _ => rfl

theorem Change.alike_apply (change : Change) (h : change.target ≠ []) (v : Json) : Alike v (change.apply v) := by
  unfold Change.apply
  split
  · exact .object ..
  · exact .object ..
  · exact .object ..
  · exact absurd rfl h
  · exact .refl _

theorem Change.at?_apply (change : Change) (hv : v.wellFormed = true) (h : ¬change.target <+: p) :
    Option.Rel Alike (v.at? p) ((change.apply v).at? p) := by
  cases p with
  | nil =>
    refine .some (change.alike_apply ?_ v)
    intro hnil
    exact h (hnil ▸ List.nil_prefix)
  | cons t p =>
    have hstep : (change.apply v).step? t = v.step? t :=
      change.step?_apply hv fun hstep => h (hstep.trans (List.prefix_append [t] p))
    rw [at?_cons, at?_cons, hstep]
    exact Alike.some_refl _

/-- An edit that does not have its target on the way to a place leaves there what it was, or one of the same kind. -/
theorem at?_changeAt (change : Change) (place : Place) (hv : v.wellFormed = true)
    (h : ¬place ++ change.target <+: p) : Option.Rel Alike (v.at? p) ((v.changeAt change place).at? p) := by
  induction place generalizing v p with
  | nil => exact change.at?_apply hv h
  | cons s place ih =>
    unfold changeAt
    cases hstep : v.step? s with
    | none => exact Alike.some_refl _
    | some w =>
      dsimp only
      cases p with
      | nil => exact .some (alike_put ..)
      | cons t p =>
        by_cases hst : t = s
        · subst hst
          have hself := step?_put_self (v := v) (s := t) (by rw [hstep]; rfl) (w.changeAt change place)
          rw [at?_of_step? hstep, at?_of_step? hself]
          refine ih (wellFormed_of_step? hv hstep) fun hinner => h ?_
          exact List.cons_prefix_cons.2 ⟨rfl, hinner⟩
        · rw [at?_put_of_ne hst]
          exact Alike.some_refl _

/-- Where one value is an object, so is one that is alike. -/
theorem exists_object_of_alike_right {u : Option Json} (h : Option.Rel Alike u (some (.object fields))) :
    ∃ fields', u = some (.object fields') := by
  obtain ⟨v, rfl, halike⟩ := exists_of_rel_some h
  cases halike with
  | refl => exact ⟨fields, rfl⟩
  | object fields' => exact ⟨fields', rfl⟩

theorem exists_object_of_alike_left {u : Option Json} (h : Option.Rel Alike (some (.object fields)) u) :
    ∃ fields', u = some (.object fields') := by
  obtain ⟨v, rfl, halike⟩ := exists_of_some_rel h
  cases halike with
  | refl => exact ⟨fields, rfl⟩
  | object _ fields' => exact ⟨fields', rfl⟩

theorem eq_of_alike_string {u : Option Json} {text : String} (h : Option.Rel Alike (some (.string text)) u) :
    u = some (.string text) := by
  obtain ⟨v, rfl, halike⟩ := exists_of_some_rel h
  cases halike
  rfl

/-! ### Edits with well-formed values -/

def Change.wellFormed : Change → Bool
  | .set _ v => v.wellFormed
  | .replace v => v.wellFormed
  | _ => true

theorem wellFormed_set (hfields : (object fields).wellFormed = true) (hw : w.wellFormed = true) (name : String) :
    (object (Fields.set fields name w)).wellFormed = true := by
  obtain ⟨hnames, hvalues⟩ := wellFormed_object_iff.1 hfields
  refine wellFormed_object_iff.2 ⟨Fields.nodup_set hnames name w, fun e he => ?_⟩
  rcases Fields.mem_set he with rfl | he
  · exact hw
  · exact hvalues e he

theorem wellFormed_erase (hfields : (object fields).wellFormed = true) (name : String) :
    (object (Fields.erase fields name)).wellFormed = true := by
  obtain ⟨hnames, hvalues⟩ := wellFormed_object_iff.1 hfields
  refine wellFormed_object_iff.2 ⟨Fields.nodup_erase hnames name, fun e he => ?_⟩
  exact hvalues e ((Fields.erase_sublist fields name).subset he)

theorem wellFormed_swapErase (hfields : (object fields).wellFormed = true) (name : String) :
    (object (Fields.swapErase fields name)).wellFormed = true := by
  have hperm : (Fields.swapErase fields name).Perm (Fields.erase fields name) :=
    Fields.swapErase_perm_erase (wellFormed_object_iff.1 hfields).1
  obtain ⟨hnames, hvalues⟩ := wellFormed_object_iff.1 (wellFormed_erase hfields name)
  refine wellFormed_object_iff.2 ⟨((hperm.map _).nodup_iff).2 hnames, fun e he => ?_⟩
  exact hvalues e (hperm.mem_iff.1 he)

theorem wellFormed_put (hv : v.wellFormed = true) (s : Descent) (hw : w.wellFormed = true) :
    (v.put s w).wellFormed = true := by
  unfold put
  split
  · refine wellFormed_array_iff.2 fun u hu => ?_
    rcases List.mem_or_eq_of_mem_set hu with hu | rfl
    · exact wellFormed_array_iff.1 hv u hu
    · exact hw
  · exact wellFormed_set hv hw _
  · exact hv

theorem Change.wellFormed_apply {change : Change} (hchange : change.wellFormed = true) (hv : v.wellFormed = true) :
    (change.apply v).wellFormed = true := by
  unfold Change.apply
  split
  · exact wellFormed_set hv hchange _
  · exact wellFormed_erase hv _
  · exact wellFormed_swapErase hv _
  · exact hchange
  · exact hv

theorem wellFormed_changeAt {change : Change} (hchange : change.wellFormed = true) (hv : v.wellFormed = true)
    (place : Place) : (v.changeAt change place).wellFormed = true := by
  induction place generalizing v with
  | nil => exact Change.wellFormed_apply hchange hv
  | cons s place ih =>
    unfold changeAt
    cases hstep : v.step? s with
    | none => exact hv
    | some w => exact wellFormed_put hv s (ih (wellFormed_of_step? hv hstep))

end LiveLayout.Json
