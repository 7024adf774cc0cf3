import LiveLayout.Annotate
import LiveLayout.Proofs.Fields
/-!
What the entries of a brick say by themselves: their names, and their texts where they are strings. The type
of a brick, its names and its expressions depend on nothing else, and visits leave it as it is.
-/
namespace LiveLayout

namespace Json

mutual

/-- Every object names each of its entries once. -/
def wellFormed : Json → Bool
  | .array items => wellFormedItems items
  | .object fields => decide (fields.map (·.1)).Nodup && wellFormedFields fields
  | _ => true

def wellFormedItems : List Json → Bool
  | [] => true
  | v :: rest => v.wellFormed && wellFormedItems rest

def wellFormedFields : List (String × Json) → Bool
  | [] => true
  | (_, v) :: rest => v.wellFormed && wellFormedFields rest

end

theorem wellFormed_object {fields : List (String × Json)} (h : (object fields).wellFormed = true) :
    (fields.map (·.1)).Nodup ∧ wellFormedFields fields = true := by
  unfold wellFormed at h
  rw [Bool.and_eq_true, decide_eq_true_iff] at h
  exact h

/-- What is true of a value when it is true of all that stands in it. -/
structure Inherits (P : Json → Prop) : Prop where
  array : ∀ items, (∀ v ∈ items, P v) → P (.array items)
  object : ∀ fields, (fields.map (·.1)).Nodup → (∀ e ∈ fields, P e.2) → P (.object fields)
  leaf : ∀ v : Json, v.items? = none → v.fields? = none → P v

section

variable {P : Json → Prop}

mutual

theorem Inherits.of_wellFormed (hP : Inherits P) : (v : Json) → v.wellFormed = true → P v
  | .array items, h => hP.array items (hP.of_wellFormedItems items h)
  | .object fields, h => by
    obtain ⟨hnames, hfields⟩ := wellFormed_object h
    exact hP.object fields hnames (hP.of_wellFormedFields fields hfields)
  | .null, _ | .bool _, _ | .number _, _ | .string _, _ => hP.leaf _ rfl rfl

theorem Inherits.of_wellFormedItems (hP : Inherits P) :
    (items : List Json) → wellFormedItems items = true → ∀ v ∈ items, P v
  | [], _ => fun _ hv => nomatch hv
  | w :: rest, h => by
    unfold wellFormedItems at h
    rw [Bool.and_eq_true] at h
    rw [List.forall_mem_cons]
    exact ⟨hP.of_wellFormed w h.1, hP.of_wellFormedItems rest h.2⟩

theorem Inherits.of_wellFormedFields (hP : Inherits P) :
    (fields : List (String × Json)) → wellFormedFields fields = true → ∀ e ∈ fields, P e.2
  | [], _ => fun _ he => nomatch he
  | (_, w) :: rest, h => by
    unfold wellFormedFields at h
    rw [Bool.and_eq_true] at h
    rw [List.forall_mem_cons]
    exact ⟨hP.of_wellFormed w h.1, hP.of_wellFormedFields rest h.2⟩

end

end

end Json

namespace Annotate

variable {fields fields' : List (String × Json)} {name : String} {v w : Json}

/-- The text under a name: nothing without an entry, and no text where that is not a string. -/
def textAt? (fields : List (String × Json)) (name : String) : Option (Option String) :=
  (Fields.get? fields name).map Json.str?

theorem textAt?_eq_none : textAt? fields name = none ↔ Fields.get? fields name = none := Option.map_eq_none_iff

theorem bind_str?_eq (fields : List (String × Json)) (name : String) :
    (Fields.get? fields name).bind Json.str? = (textAt? fields name).join := by
  unfold textAt?
  cases Fields.get? fields name <;> rfl

/-! ### What depends on texts alone -/

theorem typeName?_congr (h : textAt? fields' "type" = textAt? fields "type")
    (h' : textAt? fields' "brick" = textAt? fields "brick") :
    (Brick.mk fields').typeName? = (Brick.mk fields).typeName? := by
  have htext (m : List (String × Json)) : ((Fields.get? m "type").or (Fields.get? m "brick")).bind Json.str? =
      ((textAt? m "type").or (textAt? m "brick")).join := by
    unfold textAt?
    cases Fields.get? m "type" with
    | none => cases Fields.get? m "brick" <;> rfl
    | some v => rfl
  unfold Brick.typeName? Brick.get?
  dsimp only
  rw [htext, htext, h, h']

theorem name?_congr (h : textAt? fields' "name" = textAt? fields "name") :
    (Brick.mk fields').name? = (Brick.mk fields).name? := by
  unfold Brick.name? Brick.get?
  dsimp only
  rw [bind_str?_eq, bind_str?_eq, h]

theorem form?_congr (h : textAt? fields' "form" = textAt? fields "form") :
    (Brick.mk fields').form? = (Brick.mk fields).form? := by
  unfold Brick.form? Brick.get?
  dsimp only
  rw [bind_str?_eq, bind_str?_eq, h]

theorem innerForm_congr (h : textAt? fields' "name" = textAt? fields "name") (registry : Registry)
    (typeName : String) : innerForm registry typeName fields' = innerForm registry typeName fields := by
  funext form
  unfold innerForm
  rw [name?_congr h]

theorem takesForm_congr (h : textAt? fields' "form" = textAt? fields "form") (registry : Registry)
    (typeName : String) : takesForm registry typeName fields' = takesForm registry typeName fields := by
  unfold takesForm
  rw [form?_congr h]

theorem nestedAttributes_congr (h : textAt? fields' "slotKey" = textAt? fields "slotKey")
    (registry : Registry) (typeName : String) :
    nestedAttributes registry typeName fields' = nestedAttributes registry typeName fields := by
  have hslot (kind : Special) : kind.nestedAttributes fields' = kind.nestedAttributes fields := by
    unfold Special.nestedAttributes
    rw [bind_str?_eq, bind_str?_eq, h]
  unfold nestedAttributes
  simp only [hslot]

/-! ### Expressions -/

theorem expressionNames_eq_map (fields : List (String × Json)) : expressionNames fields =
    ((fields.map fun e => (e.1, e.2.str?)).filter fun e =>
      isDynamicCandidate e.1 && e.2.any isBinding).map (·.1) := by
  simp only [expressionNames, List.filter_map, List.map_map]
  rfl

/-- An entry that is no candidate does not count. -/
theorem expressionNames_set (h : isDynamicCandidate name = false) (fields : List (String × Json)) (v : Json) :
    expressionNames (Fields.set fields name v) = expressionNames fields := by
  unfold expressionNames
  fun_induction Fields.set fields name v with
  | case1 => simp [h]
  | case2 => simp [h]
  | case3 k w rest name v hne ih =>
    have ih := ih h
    simp only [List.filter_cons]
    split
    · rw [List.map_cons, List.map_cons, ih]
    · exact ih

/-- Nor does it matter what an entry is replaced by, if that says the same. -/
theorem expressionNames_set_of_str? (h : Fields.get? fields name = some w) (hv : v.str? = w.str?) :
    expressionNames (Fields.set fields name v) = expressionNames fields := by
  rw [expressionNames_eq_map, expressionNames_eq_map]
  congr 2
  fun_induction Fields.set fields name v with
  | case1 => cases h
  | case2 u rest name v =>
    unfold Fields.get? at h
    rw [if_pos rfl] at h
    cases h
    rw [List.map_cons, List.map_cons, hv]
  | case3 k u rest name v hne ih =>
    unfold Fields.get? at h
    rw [if_neg hne] at h
    rw [List.map_cons, List.map_cons, ih h hv]

theorem expressionNames_swapErase (hfields : (fields.map (·.1)).Nodup) (h : expressionNames fields = [])
    (key : String) : expressionNames (Fields.swapErase fields key) = [] := by
  unfold expressionNames at h ⊢
  rw [List.map_eq_nil_iff, List.filter_eq_nil_iff] at h ⊢
  intro e he
  have hmem := (Fields.swapErase_perm_erase hfields).mem_iff.1 he
  exact h e ((Fields.erase_sublist fields key).subset hmem)

end Annotate
end LiveLayout
