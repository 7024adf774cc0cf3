import LiveLayout.Proofs.Annotating.Texts
import LiveLayout.Proofs.Drawing.Order
import LiveLayout.Proofs.Text
/-!
What the annotation makes of one brick: it gets an id, its expressions are marked, a form field gets its
form, and the attributes that hold layouts are visited. All else stays.
-/
namespace LiveLayout.Annotate

variable {registry : Registry} {options : Options} {typeName name : String} {form : Option String}
  {fields : List (String × Json)} {ids : Ids}

theorem bind_run {α β : Type} (x : Pass α) (f : α → Pass β) (ids : Ids) :
    (x >>= f) ids = f (x ids).1 (x ids).2 := rfl

theorem pure_run {α : Type} (a : α) (ids : Ids) : (pure a : Pass α) ids = (a, ids) := rfl

/-! ### Ids -/

theorem candidate_ne_empty (keyPrefix : String) (n : Nat) : candidate keyPrefix n ≠ "" := by
  unfold candidate
  intro h
  have hdash := (String.append_eq_empty_iff.1 (String.append_eq_empty_iff.1 h).1).2
  exact absurd hdash (by decide)

theorem usableId?_ne_empty {v : Option Json} {id : String} (h : usableId? v = some id) : id ≠ "" := by
  unfold usableId? at h
  split at h
  · split at h
    · cases h
    · cases h
      assumption
  · cases h
    exact Number.text_ne_empty _
  · cases h

theorem identify_of_usable (keyPrefix : String) {id : String} (h : usableId? (Fields.get? fields "id") = some id)
    (ids : Ids) : identify keyPrefix fields ids = (Fields.set fields "id" (.string id), ids) := by
  unfold identify
  rw [h]
  rfl

theorem identify_of_unusable (keyPrefix : String) (h : usableId? (Fields.get? fields "id") = none) (ids : Ids) :
    identify keyPrefix fields ids =
      (Fields.set fields "id" (.string (freshId keyPrefix ids).1), (freshId keyPrefix ids).2) := by
  unfold identify
  rw [h]
  rfl

/-- A brick gets an id that is not empty, and nothing else. -/
theorem identify_eq_set (keyPrefix : String) (fields : List (String × Json)) (ids : Ids) :
    ∃ id, id ≠ "" ∧ (identify keyPrefix fields ids).1 = Fields.set fields "id" (.string id) := by
  cases h : usableId? (Fields.get? fields "id") with
  | some id => exact ⟨id, usableId?_ne_empty h, by rw [identify_of_usable keyPrefix h]⟩
  | none => exact ⟨_, candidate_ne_empty keyPrefix _, by rw [identify_of_unusable keyPrefix h]; rfl⟩

/-! ### Marks -/

theorem filterMap_str?_map_string (names : List String) :
    (names.map Json.string).filterMap Json.str? = names := by
  rw [List.filterMap_map]
  exact List.filterMap_some

theorem expressionNames_markExpressions (h : (fields.map (·.1)).Nodup) :
    expressionNames (markExpressions fields) = expressionNames fields := by
  unfold markExpressions
  split
  · rename_i hnone
    rw [expressionNames_swapErase h hnone, hnone]
  · exact expressionNames_set rfl fields _

theorem get?_markExpressions_of_ne (h : (fields.map (·.1)).Nodup) (hname : name ≠ "_expressions") :
    Fields.get? (markExpressions fields) name = Fields.get? fields name := by
  unfold markExpressions
  split
  · exact Fields.get?_swapErase_of_ne h hname
  · exact Fields.get?_set_of_ne fields _ hname

/-- The entry that marks expressions, if there are any. -/
def marks? : List String → Option Json
  | [] => none
  | names => some (.array (names.map .string))

theorem get?_markExpressions_self (h : (fields.map (·.1)).Nodup) :
    Fields.get? (markExpressions fields) "_expressions" = marks? (expressionNames fields) := by
  unfold markExpressions
  cases expressionNames fields with
  | nil => exact Fields.get?_swapErase_self h _
  | cons first rest => exact Fields.get?_set_self ..

theorem marked_of_marks (h : Fields.get? fields "_expressions" = marks? (expressionNames fields)) :
    (Brick.mk fields).Marked := by
  unfold Brick.Marked Brick.expressions Brick.get?
  dsimp only
  rw [h]
  cases expressionNames fields with
  | nil => rfl
  | cons first rest => exact filterMap_str?_map_string _

/-! ### Forms -/

/-- The form that a brick takes over, if it takes one. -/
def stamp? (registry : Registry) (typeName : String) (fields : List (String × Json)) (form : Option String) :
    Option String :=
  if takesForm registry typeName fields then form else none

def stamped (fields : List (String × Json)) : Option String → List (String × Json)
  | some name => Fields.set fields "form" (.string name)
  | none => fields

/-- The entries that the annotation keeps for itself. -/
def own (stamp : Option String) : List String :=
  if stamp.isSome then ["id", "_expressions", "form"] else ["id", "_expressions"]

/-- A form field takes a form over if it has no text under `form`, or an empty one. -/
theorem takesForm_iff : takesForm registry typeName fields = true ↔ (registry.field? typeName).isSome = true ∧
    ∀ text, Fields.get? fields "form" = some (.string text) → text = "" := by
  unfold takesForm Brick.form? Brick.get?
  rw [Bool.and_eq_true]
  refine and_congr_right fun _ => ?_
  cases Fields.get? fields "form" with
  | none => simp
  | some v =>
    cases v with
    | string text => simp [Json.str?]
    | _ => simp [Json.str?]

theorem stamp?_eq_some_iff : stamp? registry typeName fields form = some name ↔
    takesForm registry typeName fields = true ∧ form = some name := by
  unfold stamp?
  split
  · rename_i h
    simp [h]
  · rename_i h
    simp [h]

theorem isSome_stamp?_iff : (stamp? registry typeName fields form).isSome = true ↔
    takesForm registry typeName fields = true ∧ form.isSome = true := by
  simp [Option.isSome_iff_exists, stamp?_eq_some_iff]

theorem mem_own_iff {stamp : Option String} :
    name ∈ own stamp ↔ name = "id" ∨ name = "_expressions" ∨ name = "form" ∧ stamp.isSome = true := by
  cases stamp <;> simp [own]

theorem not_mem_own {stamp : Option String} (h : name ∉ own stamp) :
    name ≠ "id" ∧ name ≠ "_expressions" ∧ (stamp.isSome → name ≠ "form") := by
  rw [mem_own_iff, not_or, not_or] at h
  exact ⟨h.1, h.2.1, fun hsome hname => h.2.2 ⟨hname, hsome⟩⟩

theorem mem_own {stamp : Option String} (h : name ∈ own stamp) :
    name = "id" ∨ name = "_expressions" ∨ name = "form" :=
  (mem_own_iff.1 h).imp_right fun h => h.imp_right And.left

theorem get?_stamped_of_ne (h : name ≠ "form") (stamp : Option String) :
    Fields.get? (stamped fields stamp) name = Fields.get? fields name := by
  cases stamp with
  | none => rfl
  | some form => exact Fields.get?_set_of_ne fields _ h

theorem expressionNames_stamped (stamp : Option String) :
    expressionNames (stamped fields stamp) = expressionNames fields := by
  cases stamp with
  | none => rfl
  | some form => exact expressionNames_set rfl fields _

/-! ### Visits -/

theorem get?_entries (registry : Registry) (options : Options) (fields : List (String × Json)) (name : String) :
    Fields.get? (entries registry options fields) name =
      (Fields.get? fields name).map (value registry options) := by
  induction fields with
  | nil => rfl
  | cons e rest ih =>
    obtain ⟨k, v⟩ := e
    unfold entries Fields.get?
    split
    · rfl
    · exact ih

/-- A visit turns a text into that text, and what is no text into no text. -/
theorem str?_value (registry : Registry) (options : Options) (v : Json) (form : Option String) (ids : Ids) :
    (value registry options v form ids).1.str? = v.str? := by
  cases v with
  | object fields =>
    unfold value
    cases (Brick.mk fields).typeName? with
    | none =>
      dsimp only
      rw [bind_run, pure_run]
      dsimp only [Json.str?]
    | some typeName =>
      dsimp only
      rw [bind_run, pure_run]
      dsimp only [Json.str?]
  | _ => rfl

theorem isNull_value (registry : Registry) (options : Options) (v : Json) (form : Option String) (ids : Ids) :
    (value registry options v form ids).1.isNull = v.isNull := by
  cases v with
  | object fields =>
    unfold value
    cases (Brick.mk fields).typeName? with
    | none =>
      dsimp only
      rw [bind_run, pure_run]
      dsimp only [Json.isNull]
    | some typeName =>
      dsimp only
      rw [bind_run, pure_run]
      dsimp only [Json.isNull]
  | _ => rfl

section

variable {visits : List (String × Visit)} {names : List String}

/-- An entry that has a visit and is named is what that visit yields, and all others stay. -/
theorem get?_visitNamed (visits : List (String × Visit)) (form : Option String) (names : List String)
    (fields : List (String × Json)) (ids : Ids) (name : String) :
    (∃ visit ids', name ∈ names ∧ Fields.get? visits name = some visit ∧
      Fields.get? (visitNamed visits form names fields ids).1 name = some (visit form ids').1) ∨
    ((name ∈ names → Fields.get? visits name = none) ∧
      Fields.get? (visitNamed visits form names fields ids).1 name = Fields.get? fields name) := by
  induction names generalizing fields ids with
  | nil => exact .inr ⟨fun h => (nomatch h), rfl⟩
  | cons first rest ih =>
    unfold visitNamed
    cases hvisit : Fields.get? visits first with
    | none =>
      rcases ih fields ids with ⟨visit, ids', hmem, hv, hget⟩ | ⟨hnone, hget⟩
      · exact .inl ⟨visit, ids', List.mem_cons_of_mem _ hmem, hv, hget⟩
      · refine .inr ⟨fun hmem => ?_, hget⟩
        rcases List.mem_cons.1 hmem with rfl | hmem
        · exact hvisit
        · exact hnone hmem
    | some visit =>
      have hstep := ih (Fields.set fields first (visit form ids).1) (visit form ids).2
      rcases hstep with ⟨visit', ids', hmem, hv, hget⟩ | ⟨hnone, hget⟩
      · exact .inl ⟨visit', ids', List.mem_cons_of_mem _ hmem, hv, hget⟩
      · by_cases hname : name = first
        · subst hname
          rw [Fields.get?_set_self] at hget
          exact .inl ⟨visit, ids, List.mem_cons_self .., hvisit, hget⟩
        · rw [Fields.get?_set_of_ne _ _ hname] at hget
          refine .inr ⟨fun hmem => ?_, hget⟩
          exact hnone ((List.mem_cons.1 hmem).resolve_left hname)

/-- Visits that leave every text as it is leave the expressions as they are. -/
theorem expressionNames_visitNamed (form : Option String) (names : List String)
    (fields : List (String × Json)) (ids : Ids)
    (h : ∀ name ∈ names, ∀ visit, Fields.get? visits name = some visit →
      ∃ v, Fields.get? fields name = some v ∧ ∀ ids, (visit form ids).1.str? = v.str?) :
    expressionNames (visitNamed visits form names fields ids).1 = expressionNames fields := by
  induction names generalizing fields ids with
  | nil => rfl
  | cons first rest ih =>
    unfold visitNamed
    cases hvisit : Fields.get? visits first with
    | none => exact ih fields ids fun name hmem => h name (List.mem_cons_of_mem _ hmem)
    | some visit =>
      obtain ⟨v, hv, hstr⟩ := h first (List.mem_cons_self ..) visit hvisit
      have hset := expressionNames_set_of_str? hv (hstr ids)
      refine (ih _ (visit form ids).2 fun name hmem visit' hvisit' => ?_).trans hset
      by_cases hname : name = first
      · subst hname
        cases hvisit.symm.trans hvisit'
        refine ⟨_, Fields.get?_set_self .., fun ids' => ?_⟩
        rw [hstr, hstr]
      · rw [Fields.get?_set_of_ne _ _ hname]
        exact h name (List.mem_cons_of_mem _ hmem) visit' hvisit'

end

/-! ### Bricks -/

/-- The annotation of one brick: what stands for it afterwards. -/
structure Annotated (registry : Registry) (options : Options) (typeName : String) (form : Option String)
    (fields fields' : List (String × Json)) : Prop where
  identified : ∃ id, id ≠ "" ∧ Fields.get? fields' "id" = some (.string id)
  marks : Fields.get? fields' "_expressions" = marks? (expressionNames fields')
  stamped : ∀ name, stamp? registry typeName fields form = some name →
    Fields.get? fields' "form" = some (.string name)
  texts : ∀ name ∉ own (stamp? registry typeName fields form), textAt? fields' name = textAt? fields name
  visited : ∀ name ∈ nestedAttributes registry typeName fields,
    name ∉ own (stamp? registry typeName fields form) → ∀ v, Fields.get? fields name = some v →
      ∃ ids, Fields.get? fields' name =
        some (value registry options v (innerForm registry typeName fields form) ids).1
  kept : ∀ name ∉ nestedAttributes registry typeName fields,
    name ∉ own (stamp? registry typeName fields form) → Fields.get? fields' name = Fields.get? fields name

/-- The brick with its id, marks and form, before what is in it is visited. -/
theorem brick_eq (registry : Registry) (options : Options) (typeName : String) (fields : List (String × Json))
    (visits : List (String × Visit)) (form : Option String) (ids : Ids) :
    brick registry options typeName fields visits form ids =
      let prepared := markExpressions (identify options.keyPrefix fields ids).1
      let stamp := stamp? registry typeName prepared form
      visitNamed visits (innerForm registry typeName prepared form)
        ((nestedAttributes registry typeName (stamped prepared stamp)).filter (· ∉ own stamp))
        (stamped prepared stamp) (identify options.keyPrefix fields ids).2 := by
  unfold brick
  rw [bind_run]
  dsimp only [stamp?, own]
  generalize markExpressions (identify options.keyPrefix fields ids).1 = prepared
  generalize (if takesForm registry typeName prepared then form else none) = stamp
  cases stamp <;> rfl

/-- A brick with its id, marks and form, before what is in it is visited. -/
structure Prepared (registry : Registry) (typeName : String) (form : Option String)
    (fields prepared : List (String × Json)) : Prop where
  identified : ∃ id, id ≠ "" ∧ Fields.get? prepared "id" = some (.string id)
  marks : Fields.get? prepared "_expressions" = marks? (expressionNames prepared)
  stamped : ∀ name, stamp? registry typeName fields form = some name →
    Fields.get? prepared "form" = some (.string name)
  kept : ∀ name ∉ own (stamp? registry typeName fields form),
    Fields.get? prepared name = Fields.get? fields name

/-- The id and the marks change nothing else. -/
theorem get?_marked (hfields : (fields.map (·.1)).Nodup) {v : Json} (hid : name ≠ "id")
    (hexpressions : name ≠ "_expressions") :
    Fields.get? (markExpressions (Fields.set fields "id" v)) name = Fields.get? fields name := by
  rw [get?_markExpressions_of_ne (Fields.nodup_set hfields _ _) hexpressions, Fields.get?_set_of_ne _ _ hid]

theorem prepared_stamped (hfields : (fields.map (·.1)).Nodup) {id : String} (hid : id ≠ "") :
    Prepared registry typeName form fields
      (stamped (markExpressions (Fields.set fields "id" (.string id))) (stamp? registry typeName fields form)) := by
  have hnodup := Fields.nodup_set hfields "id" (.string id)
  refine ⟨⟨id, hid, ?_⟩, ?_, ?_, ?_⟩
  · rw [get?_stamped_of_ne (by decide), get?_markExpressions_of_ne hnodup (by decide), Fields.get?_set_self]
  · rw [get?_stamped_of_ne (by decide), get?_markExpressions_self hnodup, expressionNames_stamped,
      expressionNames_markExpressions hnodup]
  · intro name hname
    rw [hname]
    exact Fields.get?_set_self ..
  · intro name hname
    obtain ⟨h₁, h₂, h₃⟩ := not_mem_own hname
    rw [← get?_marked hfields h₁ h₂]
    cases hstamp : stamp? registry typeName fields form with
    | none => rfl
    | some form => exact get?_stamped_of_ne (h₃ (by rw [hstamp]; rfl)) _

/-- A brick is prepared first, with the id that it gets, and then its nested attributes are visited. -/
theorem brick_prepared (registry : Registry) (options : Options) (typeName : String)
    (hfields : (fields.map (·.1)).Nodup) (visits : List (String × Visit)) (form : Option String) (ids : Ids) :
    ∃ prepared, Prepared registry typeName form fields prepared ∧
      Fields.get? prepared "id" = Fields.get? (identify options.keyPrefix fields ids).1 "id" ∧
      brick registry options typeName fields visits form ids =
        visitNamed visits (innerForm registry typeName fields form)
          ((nestedAttributes registry typeName fields).filter (· ∉ own (stamp? registry typeName fields form)))
          prepared (identify options.keyPrefix fields ids).2 := by
  obtain ⟨id, hid, hset⟩ := identify_eq_set options.keyPrefix fields ids
  have htext {name : String} (h₁ : name ≠ "id") (h₂ : name ≠ "_expressions") :
      textAt? (markExpressions (Fields.set fields "id" (.string id))) name = textAt? fields name := by
    unfold textAt?
    rw [get?_marked hfields h₁ h₂]
  have hstamp : stamp? registry typeName (markExpressions (Fields.set fields "id" (.string id))) form =
      stamp? registry typeName fields form := by
    unfold stamp?
    rw [takesForm_congr (htext (by decide) (by decide))]
  have hslot : textAt? (stamped (markExpressions (Fields.set fields "id" (.string id)))
      (stamp? registry typeName fields form)) "slotKey" = textAt? fields "slotKey" := by
    rw [← htext (by decide) (by decide)]
    unfold textAt?
    rw [get?_stamped_of_ne (by decide)]
  refine ⟨_, prepared_stamped hfields hid, ?_, ?_⟩
  · rw [hset, get?_stamped_of_ne (by decide), get?_markExpressions_of_ne (Fields.nodup_set hfields _ _) (by decide)]
  · rw [brick_eq, hset]
    dsimp only
    rw [hstamp, innerForm_congr (htext (by decide) (by decide)), nestedAttributes_congr hslot]

theorem brick_annotated (hfields : (fields.map (·.1)).Nodup) (form : Option String) (ids : Ids) :
    Annotated registry options typeName form fields
      (brick registry options typeName fields (entries registry options fields) form ids).1 := by
  obtain ⟨prepared, hprepared, -, heq⟩ :=
    brick_prepared registry options typeName hfields (entries registry options fields) form ids
  rw [heq]
  generalize (identify options.keyPrefix fields ids).2 = ids'
  generalize hstamp : own (stamp? registry typeName fields form) = bookkeeping at *
  generalize hnames : (nestedAttributes registry typeName fields).filter (· ∉ bookkeeping) = names
  have hmem {name : String} : name ∈ names ↔
      name ∈ nestedAttributes registry typeName fields ∧ name ∉ bookkeeping := by
    rw [← hnames, List.mem_filter, decide_eq_true_iff]
  have hvisit := get?_visitNamed (entries registry options fields) (innerForm registry typeName fields form)
    names prepared ids'
  have hkept := hprepared.kept
  rw [hstamp] at hkept
  -- What is not visited stays as it was prepared.
  have hrest {name : String} (hname : name ∉ names) := (hvisit name).resolve_left fun ⟨_, _, h, _⟩ => hname h
  have hown {name : String} (hname : name ∈ bookkeeping) := (hrest fun h => (hmem.1 h).2 hname).2
  have hid : "id" ∈ bookkeeping := hstamp ▸ mem_own_iff.2 (.inl rfl)
  have hexpressions : "_expressions" ∈ bookkeeping := hstamp ▸ mem_own_iff.2 (.inr (.inl rfl))
  refine ⟨?_, ?_, ?_, ?_, ?_, ?_⟩
  · obtain ⟨id, hne, hget⟩ := hprepared.identified
    exact ⟨id, hne, (hown hid).trans hget⟩
  · have hnames : expressionNames (visitNamed (entries registry options fields)
        (innerForm registry typeName fields form) names prepared ids').1 = expressionNames prepared := by
      apply expressionNames_visitNamed
      intro name hname visit hv
      rw [get?_entries] at hv
      obtain ⟨v, hget, rfl⟩ := Option.map_eq_some_iff.1 hv
      exact ⟨v, (hkept name (hmem.1 hname).2).trans hget, fun ids => str?_value registry options v _ ids⟩
    rw [hown hexpressions, hprepared.marks, hnames]
  · intro name hname
    have hform : "form" ∈ bookkeeping := by
      rw [← hstamp, hname]
      exact mem_own_iff.2 (.inr (.inr ⟨rfl, rfl⟩))
    exact (hown hform).trans (hprepared.stamped name hname)
  · intro name hname
    rw [hstamp] at hname
    unfold textAt?
    rcases hvisit name with ⟨visit, ids'', -, hv, hget⟩ | ⟨-, hget⟩
    · rw [get?_entries] at hv
      obtain ⟨v, hv', rfl⟩ := Option.map_eq_some_iff.1 hv
      rw [hget, hv', Option.map_some, Option.map_some, str?_value]
    · rw [hget, hkept name hname]
  · intro name hnested hname v hv
    rw [hstamp] at hname
    have hvalue : Fields.get? (entries registry options fields) name = some (value registry options v) := by
      rw [get?_entries, hv, Option.map_some]
    rcases hvisit name with ⟨visit, ids'', -, hv', hget⟩ | ⟨hnone, -⟩
    · cases hvalue.symm.trans hv'
      exact ⟨ids'', hget⟩
    · exact absurd (hvalue.symm.trans (hnone (hmem.2 ⟨hnested, hname⟩))) nofun
  · intro name hnested hname
    rw [hstamp] at hname
    rw [(hrest fun h => hnested (hmem.1 h).1).2, hkept name hname]

/-! ### What the annotation leaves as it is -/

section

variable {fields' : List (String × Json)}

theorem Annotated.typeName?_eq (h : Annotated registry options typeName form fields fields') :
    (Brick.mk fields').typeName? = (Brick.mk fields).typeName? := by
  refine typeName?_congr (h.texts _ fun hmem => ?_) (h.texts _ fun hmem => ?_)
  · simpa using mem_own hmem
  · simpa using mem_own hmem

theorem Annotated.name?_eq (h : Annotated registry options typeName form fields fields') :
    (Brick.mk fields').name? = (Brick.mk fields).name? :=
  name?_congr (h.texts _ fun hmem => by simpa using mem_own hmem)

/-- The entries that the annotation keeps for itself are texts. -/
theorem Annotated.own_eq {v : Json} (h : Annotated registry options typeName form fields fields')
    (hname : name ∈ own (stamp? registry typeName fields form)) (hget : Fields.get? fields' name = some v) :
    (∃ s, v = .string s) ∨ ∃ names : List String, v = .array (names.map .string) := by
  rcases mem_own_iff.1 hname with rfl | rfl | ⟨rfl, hsome⟩
  · obtain ⟨id, -, hid⟩ := h.identified
    cases hid.symm.trans hget
    exact .inl ⟨id, rfl⟩
  · have hmarks := h.marks
    rw [hget] at hmarks
    cases hnames : expressionNames fields' with
    | nil =>
      rw [hnames] at hmarks
      cases hmarks
    | cons first rest =>
      rw [hnames] at hmarks
      cases hmarks
      exact .inr ⟨first :: rest, rfl⟩
  · obtain ⟨stamp, hstamp⟩ := Option.isSome_iff_exists.1 hsome
    cases (h.stamped stamp hstamp).symm.trans hget
    exact .inl ⟨stamp, rfl⟩

end

end LiveLayout.Annotate
