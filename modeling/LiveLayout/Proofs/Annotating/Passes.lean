import LiveLayout.Proofs.Annotating.Edits
import LiveLayout.Proofs.Annotating.Ids
import LiveLayout.Proofs.Annotating.Settled
/-!
Layouts that are annotated again and again while they are edited. After each pass the marks of a brick are those of its
entries then, and an id that a brick has stays until it is edited.
-/
namespace LiveLayout.Annotate

open Json (Place Descent)

variable {registry : Registry} {options : Options} {form : Option String} {fields : List (String × Json)}
  {items : List Json} {v w : Json} {s : Descent} {p : Place} {id typeName : String}

/-! ### A pass over a well-formed layout yields one -/

/-- Whatever form is around the value and whatever ids are taken, its objects name each entry once afterwards. -/
def StaysWellFormed (registry : Registry) (options : Options) (v : Json) : Prop :=
  ∀ form ids, (value registry options v form ids).1.wellFormed = true

theorem wellFormed_texts (texts : List String) : (Json.array (texts.map .string)).wellFormed = true := by
  refine Json.wellFormed_array_iff.2 fun w hw => ?_
  obtain ⟨text, -, rfl⟩ := List.mem_map.1 hw
  rfl

theorem wellFormed_markExpressions (h : (Json.object fields).wellFormed = true) :
    (Json.object (markExpressions fields)).wellFormed = true := by
  unfold markExpressions
  split
  · exact Json.wellFormed_swapErase h _
  · exact Json.wellFormed_set h (wellFormed_texts _) _

theorem wellFormed_stamped (h : (Json.object fields).wellFormed = true) (stamp : Option String) :
    (Json.object (stamped fields stamp)).wellFormed = true := by
  cases stamp with
  | none => exact h
  | some name => exact Json.wellFormed_set h rfl _

theorem wellFormed_visitNamed (h : ∀ e ∈ fields, StaysWellFormed registry options e.2) (form : Option String)
    (names : List String) {current : List (String × Json)} (hcurrent : (Json.object current).wellFormed = true)
    (ids : Ids) :
    (Json.object (visitNamed (entries registry options fields) form names current ids).1).wellFormed = true := by
  induction names generalizing current ids with
  | nil => exact hcurrent
  | cons first rest ih =>
    unfold visitNamed
    rw [get?_entries]
    cases hfirst : Fields.get? fields first with
    | none => exact ih hcurrent ids
    | some u => exact ih (Json.wellFormed_set hcurrent (h _ (Fields.mem_of_get? hfirst) form ids) first) _

theorem staysWellFormed_brick (htyped : (Brick.mk fields).typeName? = some typeName)
    (hfields : (Json.object fields).wellFormed = true) (h : ∀ e ∈ fields, StaysWellFormed registry options e.2) :
    StaysWellFormed registry options (.object fields) := by
  intro form ids
  obtain ⟨id, -, hset⟩ := identify_eq_set options.keyPrefix fields ids
  rw [value_brick htyped, brick_eq, hset]
  refine wellFormed_visitNamed h _ _ (wellFormed_stamped (wellFormed_markExpressions ?_) _) _
  exact Json.wellFormed_set hfields rfl "id"

theorem names_group (registry : Registry) (options : Options) (fields : List (String × Json)) (form : Option String)
    (ids : Ids) : (group (entries registry options fields) form ids).1.map (·.1) = fields.map (·.1) := by
  induction fields generalizing ids with
  | nil => rfl
  | cons e rest ih =>
    unfold entries group
    rw [bind_run, bind_run, pure_run, List.map_cons, List.map_cons, ih]

theorem staysWellFormed_group (huntyped : (Brick.mk fields).typeName? = none) (hfields : (fields.map (·.1)).Nodup)
    (h : ∀ e ∈ fields, StaysWellFormed registry options e.2) : StaysWellFormed registry options (.object fields) := by
  intro form ids
  rw [value_group huntyped]
  refine Json.wellFormed_object_iff.2 ⟨by rw [names_group]; exact hfields, fun e he => ?_⟩
  obtain ⟨i, hi⟩ := List.mem_iff_getElem?.1 he
  obtain ⟨ids', hget⟩ := getElem?_group registry options fields form ids i
  obtain ⟨old, hold, rfl⟩ := Option.map_eq_some_iff.1 (hget.symm.trans hi)
  exact h old (List.mem_of_getElem? hold) form ids'

theorem staysWellFormed_array (h : ∀ v ∈ items, StaysWellFormed registry options v) :
    StaysWellFormed registry options (.array items) := by
  intro form ids
  rw [value_array]
  refine Json.wellFormed_array_iff.2 fun w hw => ?_
  obtain ⟨i, hi⟩ := List.mem_iff_getElem?.1 hw
  obtain ⟨ids', hget⟩ := getElem?_values registry options items form ids i
  obtain ⟨old, hold, rfl⟩ := Option.map_eq_some_iff.1 (hget.symm.trans hi)
  exact h old (List.mem_of_getElem? hold) form ids'

theorem staysWellFormed (h : v.wellFormed = true) : StaysWellFormed registry options v := by
  -- An entry that is not visited stays, so the induction has to know that it is well-formed too.
  have hinherits : Json.Inherits fun v => v.wellFormed = true ∧ StaysWellFormed registry options v := by
    constructor
    · intro items hitems
      exact ⟨Json.wellFormed_array_iff.2 fun w hw => (hitems w hw).1, staysWellFormed_array fun w hw => (hitems w hw).2⟩
    · intro fields hnames hentries
      have hfields : (Json.object fields).wellFormed = true :=
        Json.wellFormed_object_iff.2 ⟨hnames, fun e he => (hentries e he).1⟩
      refine ⟨hfields, ?_⟩
      cases htyped : (Brick.mk fields).typeName? with
      | none => exact staysWellFormed_group htyped hnames fun e he => (hentries e he).2
      | some typeName => exact staysWellFormed_brick htyped hfields fun e he => (hentries e he).2
    · intro v hitems hfields
      cases v with
      | array items => cases hitems
      | object fields => cases hfields
      | _ => exact ⟨rfl, fun _ _ => rfl⟩
  exact (hinherits.of_wellFormed v h).2

/-! ### One step into a layout -/

/-- The entries that a pass may write itself. -/
def ownSteps : List Descent := [.entry "id", .entry "_expressions", .entry "form"]

/-- What a pass makes of a value: nothing new, or what it makes of it at some moment. -/
def Passed (registry : Registry) (options : Options) (w w' : Json) : Prop :=
  w' = w ∨ ∃ form ids, w' = (value registry options w form ids).1

/-- What a pass writes itself is no object and holds none. -/
inductive Written : Json → Prop where
  | text (text : String) : Written (.string text)
  | texts (texts : List String) : Written (.array (texts.map .string))

/-- After a step, a pass goes through what was there before, or has written there itself. -/
theorem rel_step?_value (registry : Registry) (options : Options) (hv : v.wellFormed = true) (form : Option String)
    (ids : Ids) (s : Descent) :
    Option.Rel (Passed registry options) (v.step? s) ((value registry options v form ids).1.step? s) ∨
      s ∈ ownSteps ∧ ∀ w', (value registry options v form ids).1.step? s = some w' → Written w' := by
  rcases step?_value_cases registry options hv form ids s with ⟨inner, w, henters⟩ | hstep | hown
  · obtain ⟨ids', hafter⟩ := henters.value_step hv options ids
    rw [henters.step?, hafter]
    exact .inl (.some (.inr ⟨inner, ids', rfl⟩))
  · rw [hstep]
    cases v.step? s with
    | none => exact .inl .none
    | some w => exact .inl (.some (.inl rfl))
  · cases hown with
    | @entry fields typeName name typed own =>
      refine .inr ⟨?_, fun w' hw' => ?_⟩
      · rcases mem_own own with rfl | rfl | rfl <;> simp [ownSteps]
      · rw [value_brick typed] at hw'
        have hannotated : Annotated registry options typeName form fields _ :=
          brick_annotated (Json.wellFormed_object hv).1 form ids
        rcases hannotated.own_eq own hw' with ⟨text, rfl⟩ | ⟨texts, rfl⟩
        · exact .text text
        · exact .texts texts

/-- No object stands in what a pass writes itself. -/
theorem Written.at?_ne_object (h : Written w) (p : Place) : w.at? p ≠ some (.object fields) := by
  intro hat
  cases h with
  | text text =>
    cases p with
    | nil => cases hat
    | cons s p => cases hat
  | texts texts =>
    cases p with
    | nil => cases hat
    | cons s p =>
      obtain ⟨u, hu, hat⟩ := Option.bind_eq_some_iff.1 hat
      cases s with
      | entry name => cases hu
      | item i =>
        obtain ⟨text, -, rfl⟩ := List.mem_map.1 (List.mem_of_getElem? hu)
        cases p with
        | nil => cases hat
        | cons s p => cases hat

/-! ### The object at a place -/

theorem value_object (registry : Registry) (options : Options) (fields : List (String × Json)) (form : Option String)
    (ids : Ids) :
    ∃ fields', (value registry options (.object fields) form ids).1 = .object fields' := by
  cases htyped : (Brick.mk fields).typeName? with
  | none => exact ⟨_, value_group htyped form ids⟩
  | some typeName => exact ⟨_, value_brick htyped form ids⟩

theorem exists_object_of_value {fields' : List (String × Json)}
    (h : (value registry options v form ids).1 = .object fields') : ∃ fields, v = .object fields := by
  cases v with
  | object fields => exact ⟨fields, rfl⟩
  | array items =>
    rw [value_array] at h
    cases h
  | _ => cases h

/-- A pass leaves an id that is not empty as it is, whether it visits the object as a brick or goes through its
entries. -/
theorem get?_id_value {fields' : List (String × Json)} (hfields : (fields.map (·.1)).Nodup) (hne : id ≠ "")
    (hid : Fields.get? fields "id" = some (.string id))
    (h : (value registry options (.object fields) form ids).1 = .object fields') :
    Fields.get? fields' "id" = some (.string id) := by
  cases htyped : (Brick.mk fields).typeName? with
  | some typeName =>
    rw [value_brick htyped] at h
    rw [← Json.object.inj h, get?_brick_id hfields, identify_of_id options.keyPrefix hne hid]
    exact hid
  | none =>
    rw [value_group htyped] at h
    obtain ⟨ids', hget⟩ := get?_group registry options fields form ids "id"
    rw [← Json.object.inj h, hget, hid]
    rfl

/-- An object that stands somewhere after a pass stood there before, and has the id that it had. -/
theorem object_at_value (hv : v.wellFormed = true) {fields' : List (String × Json)}
    (h : (value registry options v form ids).1.at? p = some (.object fields')) :
    ∃ fields, v.at? p = some (.object fields) ∧ ∀ id, id ≠ "" → Fields.get? fields "id" = some (.string id) →
      Fields.get? fields' "id" = some (.string id) := by
  induction p generalizing v form ids with
  | nil =>
    have hvalue := Option.some.inj h
    obtain ⟨fields, rfl⟩ := exists_object_of_value hvalue
    have hfields := (Json.wellFormed_object_iff.1 hv).1
    exact ⟨fields, rfl, fun id hne hid => get?_id_value hfields hne hid hvalue⟩
  | cons s p ih =>
    obtain ⟨w', hw', hat⟩ := Option.bind_eq_some_iff.1 h
    rcases rel_step?_value registry options hv form ids s with hrel | ⟨-, hwritten⟩
    · rw [hw'] at hrel
      obtain ⟨w, hstep, hpassed⟩ := Json.exists_of_rel_some hrel
      rw [Json.at?_of_step? hstep]
      rcases hpassed with rfl | ⟨form', ids', rfl⟩
      · exact ⟨fields', hat, fun id _ hid => hid⟩
      · exact ih (Json.wellFormed_of_step? hv hstep) hat
    · exact absurd hat ((hwritten w' hw').at?_ne_object p)

/-- An object is still there after a pass, unless the way to it leads through an entry that the pass may write. -/
theorem exists_object_at_value (hv : v.wellFormed = true) (hp : ∀ s ∈ p, s ∉ ownSteps)
    (h : v.at? p = some (.object fields)) (form : Option String) (ids : Ids) :
    ∃ fields', (value registry options v form ids).1.at? p = some (.object fields') := by
  induction p generalizing v form ids with
  | nil =>
    cases h
    obtain ⟨fields', hvalue⟩ := value_object registry options fields form ids
    exact ⟨fields', congrArg some hvalue⟩
  | cons s p ih =>
    rw [List.forall_mem_cons] at hp
    obtain ⟨w, hw, hat⟩ := Option.bind_eq_some_iff.1 h
    rcases rel_step?_value registry options hv form ids s with hrel | ⟨hown, -⟩
    · rw [hw] at hrel
      obtain ⟨w', hstep, hpassed⟩ := Json.exists_of_some_rel hrel
      rw [Json.at?_of_step? hstep]
      rcases hpassed with rfl | ⟨form', ids', rfl⟩
      · exact ⟨fields, hat⟩
      · exact ih (Json.wellFormed_of_step? hv hw) hp.2 hat form' ids'
    · exact absurd hown hp.1

/-! ### Passes and edits -/

/-- An edit of the layout, or a pass over it. -/
inductive Act where
  | edit (e : Json.Edit)
  | pass

/-- What is set or put in place names each of its entries once. -/
def Act.wellFormed : Act → Bool
  | .edit e => e.change.wellFormed
  | .pass => true

/-- What is set, removed or replaced is neither the value at the place nor something around it. -/
def Act.Spares (p : Place) : Act → Prop
  | .edit e => ¬e.target <+: p
  | .pass => True

def Act.apply (registry : Registry) (options : Options) (v : Json) : Act → Json
  | .edit e => e.apply v
  | .pass => annotate registry options v

def perform (registry : Registry) (options : Options) (acts : List Act) (v : Json) : Json :=
  acts.foldl (Act.apply registry options) v

theorem wellFormed_apply {act : Act} (hact : act.wellFormed = true) (hv : v.wellFormed = true) :
    (act.apply registry options v).wellFormed = true := by
  cases act with
  | edit e => exact Json.wellFormed_changeAt hact hv e.place
  | pass => exact staysWellFormed hv _ _

/-- What each act keeps of well-formed layouts, a run of them keeps. -/
theorem perform_keeps {P : Json → Prop} {acts : List Act} (hacts : ∀ act ∈ acts, act.wellFormed = true)
    (hkeeps : ∀ act ∈ acts, ∀ v : Json, v.wellFormed = true → P v → P (act.apply registry options v))
    (hv : v.wellFormed = true) (h : P v) : P (perform registry options acts v) := by
  induction acts generalizing v with
  | nil => exact h
  | cons act rest ih =>
    rw [List.forall_mem_cons] at hacts hkeeps
    exact ih hacts.2 hkeeps.2 (wellFormed_apply hacts.1 hv) (hkeeps.1 v hv h)

theorem wellFormed_perform {acts : List Act} (hacts : ∀ act ∈ acts, act.wellFormed = true)
    (hv : v.wellFormed = true) : (perform registry options acts v).wellFormed = true :=
  perform_keeps (P := fun v => v.wellFormed = true) hacts (fun act hact _ hv _ => wellFormed_apply (hacts act hact) hv)
    hv hv

/-- Any object at the place has the id. -/
def HasId (p : Place) (id : String) (v : Json) : Prop :=
  ∀ fields, v.at? p = some (.object fields) → Fields.get? fields "id" = some (.string id)

theorem hasId_apply {act : Act} (hspares : act.Spares (p ++ [.entry "id"])) (hv : v.wellFormed = true) (hne : id ≠ "")
    (h : HasId p id v) : HasId p id (act.apply registry options v) := by
  intro fields' hat
  cases act with
  | pass =>
    obtain ⟨fields, hbefore, hkept⟩ := object_at_value hv hat
    exact hkept id hne (h fields hbefore)
  | edit e =>
    have hplace : ¬e.target <+: p := fun htarget => hspares (htarget.trans (List.prefix_append ..))
    have hobject := Json.at?_changeAt e.change e.place hv hplace
    have hid := Json.at?_changeAt e.change e.place hv hspares
    change (v.changeAt e.change e.place).at? p = _ at hat
    rw [hat] at hobject
    obtain ⟨fields, hbefore⟩ := Json.exists_object_of_alike_right hobject
    rw [Json.at?_entry_of_object hbefore, h fields hbefore, Json.at?_entry_of_object hat] at hid
    exact Json.eq_of_alike_string hid

theorem hasId_perform {acts : List Act} (hspares : ∀ act ∈ acts, act.Spares (p ++ [.entry "id"]))
    (hacts : ∀ act ∈ acts, act.wellFormed = true) (hv : v.wellFormed = true) (hne : id ≠ "") (h : HasId p id v) :
    HasId p id (perform registry options acts v) :=
  perform_keeps hacts (fun act hact _ hv h => hasId_apply (hspares act hact) hv hne h) hv h

theorem exists_object_apply {act : Act} (hspares : act.Spares (p ++ [.entry "id"])) (hp : ∀ s ∈ p, s ∉ ownSteps)
    (hv : v.wellFormed = true) (h : ∃ fields, v.at? p = some (.object fields)) :
    ∃ fields, (act.apply registry options v).at? p = some (.object fields) := by
  obtain ⟨fields, hat⟩ := h
  cases act with
  | pass => exact exists_object_at_value hv hp hat _ _
  | edit e =>
    have hplace : ¬e.target <+: p := fun htarget => hspares (htarget.trans (List.prefix_append ..))
    have hobject := Json.at?_changeAt e.change e.place hv hplace
    rw [hat] at hobject
    exact Json.exists_object_of_alike_left hobject

theorem exists_object_perform {acts : List Act} (hspares : ∀ act ∈ acts, act.Spares (p ++ [.entry "id"]))
    (hacts : ∀ act ∈ acts, act.wellFormed = true) (hp : ∀ s ∈ p, s ∉ ownSteps) (hv : v.wellFormed = true)
    (h : ∃ fields, v.at? p = some (.object fields)) :
    ∃ fields, (perform registry options acts v).at? p = some (.object fields) :=
  perform_keeps (P := fun v => ∃ fields, v.at? p = some (.object fields)) hacts
    (fun act hact _ hv h => exists_object_apply (hspares act hact) hp hv h) hv h

/-! ### Marks -/

/-- Names under which an expression is evaluated: `children`, and others that are neither reserved nor those of
handlers, ids or forms. -/
def IsCandidate (name : String) : Prop :=
  name = "children" ∨ isMetaField name = false ∧ isHandlerName name = false ∧ name ≠ "id" ∧ name ≠ "form"

/-- The names of the entries that hold expressions, in the order of the entries. -/
structure NamesExpressions (fields : List (String × Json)) (names : List String) : Prop where
  ordered : names.Sublist (fields.map (·.1))
  members : ∀ name, name ∈ names ↔
    IsCandidate name ∧ ∃ text, Fields.get? fields name = some (.string text) ∧ isBinding text = true

theorem isDynamicCandidate_iff (name : String) : isDynamicCandidate name = true ↔ IsCandidate name := by
  unfold isDynamicCandidate IsCandidate
  simp [and_assoc]

theorem any_isBinding_iff : v.str?.any isBinding = true ↔ ∃ text, v = .string text ∧ isBinding text = true := by
  cases v with
  | string text =>
    refine ⟨fun h => ⟨text, rfl, h⟩, ?_⟩
    rintro ⟨_, heq, h⟩
    cases heq
    exact h
  | _ =>
    refine ⟨fun h => (nomatch h), ?_⟩
    rintro ⟨_, heq, -⟩
    cases heq

theorem namesExpressions (hfields : (fields.map (·.1)).Nodup) : NamesExpressions fields (expressionNames fields) := by
  refine ⟨List.filter_sublist.map _, fun name => ?_⟩
  unfold expressionNames
  simp only [List.mem_map, List.mem_filter, Bool.and_eq_true]
  constructor
  · rintro ⟨⟨name, v⟩, ⟨hmem, hcandidate, hbinding⟩, rfl⟩
    obtain ⟨text, rfl, htext⟩ := any_isBinding_iff.1 hbinding
    exact ⟨(isDynamicCandidate_iff name).1 hcandidate, text, Fields.get?_of_mem hfields hmem, htext⟩
  · rintro ⟨hcandidate, text, hget, htext⟩
    refine ⟨(name, .string text), ⟨Fields.mem_of_get? hget, (isDynamicCandidate_iff name).2 hcandidate, ?_⟩, rfl⟩
    exact any_isBinding_iff.2 ⟨text, rfl, htext⟩

theorem marks?_eq_ite (names : List String) :
    marks? names = if names = [] then none else some (.array (names.map .string)) := by
  cases names <;> rfl

end LiveLayout.Annotate

namespace LiveLayout

open Annotate

/-- However a layout is edited and annotated, after each pass every brick that was visited marks just the expressions
that it has, in their order. It has an id then, which any later object at its place still has, unless that has been
edited. -/
theorem annotate_perform (registry : Registry) (options : Annotate.Options) {tree : Json} {before after : List Act}
    (htree : tree.wellFormed = true) (hacts : ∀ act ∈ before ++ after, act.wellFormed = true) {p : Json.Place}
    (hp : Visited registry options.formName (perform registry options before tree) p) :
    ∃ fields names id, (perform registry options (before ++ [.pass]) tree).at? p = some (.object fields) ∧
      NamesExpressions fields names ∧
      Fields.get? fields "_expressions" = (if names = [] then none else some (.array (names.map .string))) ∧
      Fields.get? fields "id" = some (.string id) ∧ id ≠ "" ∧
      ((∀ act ∈ after, act.Spares (p ++ [.entry "id"])) →
        HasId p id (perform registry options (before ++ .pass :: after) tree) ∧
        ((∀ s ∈ p, s ∉ ownSteps) →
          ∃ fields', (perform registry options (before ++ .pass :: after) tree).at? p = some (.object fields'))) := by
  rw [List.forall_mem_append] at hacts
  have hbefore : (perform registry options before tree).wellFormed = true := wellFormed_perform hacts.1 htree
  have hpass : (annotate registry options (perform registry options before tree)).wellFormed = true :=
    staysWellFormed hbefore _ _
  have hsplit (rest : List Act) : perform registry options (before ++ .pass :: rest) tree =
      perform registry options rest (annotate registry options (perform registry options before tree)) := by
    unfold perform
    rw [List.foldl_append, List.foldl_cons]
    rfl
  obtain ⟨old, typeName, inner, ids, -, hold, -, hat⟩ :=
    hp.value_at hbefore options ⟨0, collectIds (perform registry options before tree)⟩
  have hannotated : Annotated registry options typeName inner old _ := brick_annotated hold inner ids
  change (annotate registry options (perform registry options before tree)).at? p = _ at hat
  generalize (brick registry options typeName old (entries registry options old) inner ids).1 = fields
    at hat hannotated
  obtain ⟨id, hne, hid⟩ := hannotated.identified
  have hfields : (fields.map (·.1)).Nodup := (Json.wellFormed_object_iff.1 (Json.wellFormed_of_at? hpass hat)).1
  have hhas : HasId p id (annotate registry options (perform registry options before tree)) := by
    intro fields' hat'
    cases hat.symm.trans hat'
    exact hid
  refine ⟨fields, expressionNames fields, id, (congrArg (Json.at? · p) (hsplit [])).trans hat, namesExpressions hfields,
    hannotated.marks.trans (marks?_eq_ite _), hid, hne, fun hspares => ?_⟩
  rw [hsplit after]
  exact ⟨hasId_perform hspares hacts.2 hpass hne hhas,
    fun havoid => exists_object_perform hspares hacts.2 havoid hpass ⟨fields, hat⟩⟩

/-- A text whose marks say that its content and its title are expressions. -/
def markedText : Json := .object
  [("type", .string "Text"), ("content", .string "\x7ba\x7d"), ("title", .string "\x7bb\x7d"),
    ("_expressions", .array [.string "content", .string "title"])]

/-- The title is set to a plain text. Later the text loses its type, and so is no brick any more. -/
def retitle : Act := .edit ⟨[], .set "title" (.string "plain")⟩

def untype : Act := .edit ⟨[], .swapErase "type"⟩

theorem annotate_perform_retitled : markedText.wellFormed = true ∧
    Visited {} none (perform {} {} [retitle] markedText) [] ∧
    ∃ fields names id, (perform {} {} [retitle, .pass] markedText).at? [] = some (.object fields) ∧
      NamesExpressions fields names ∧
      Fields.get? fields "_expressions" = (if names = [] then none else some (.array (names.map .string))) ∧
      Fields.get? fields "id" = some (.string id) ∧ id ≠ "" ∧
      HasId [] id (perform {} {} [retitle, .pass, untype, .pass] markedText) := by
  have hvisited : Visited {} none (perform {} {} [retitle] markedText) [] := @Visited.here {} none _ "Text" (by decide)
  have hspares : ∀ act ∈ [untype, .pass], act.Spares ([] ++ [.entry "id"]) := by
    simp [untype, Act.Spares, Json.Edit.target, Json.Change.target]
  obtain ⟨fields, names, id, hat, hnames, hmarks, hid, hne, hlater⟩ :=
    @annotate_perform {} {} markedText [retitle] [untype, .pass] (by decide) (by decide) [] hvisited
  exact ⟨by decide, hvisited, fields, names, id, hat, hnames, hmarks, hid, hne, (hlater hspares).1⟩

end LiveLayout
