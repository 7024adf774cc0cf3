import LiveLayout.Output
import Mathlib.Data.List.Nodup
/-!
The keys of the elements that are shown. Each joins the keys of the rows around an element with the element's own, so
that all of them can be told apart once the parts can be read off the joined text.
-/
namespace LiveLayout

namespace Output

mutual

/-- The elements of an output, each before what is in it. -/
def elements : Output → List Output
  | .primitive _ => []
  | .element tag key props children => .element tag key props children :: elementsAll children

def elementsAll : List Output → List Output
  | [] => []
  | o :: rest => o.elements ++ elementsAll rest

end

def key? : Output → Option String
  | .primitive _ => none
  | .element _ key _ _ => key

def keys (os : List Output) : List String := (elementsAll os).filterMap key?

theorem elementsAll_append (os ps : List Output) : elementsAll (os ++ ps) = elementsAll os ++ elementsAll ps := by
  induction os with
  | nil => rfl
  | cons o rest ih => rw [List.cons_append, elementsAll, elementsAll, ih, List.append_assoc]

theorem keys_append (os ps : List Output) : keys (os ++ ps) = keys os ++ keys ps := by
  rw [keys, elementsAll_append, List.filterMap_append, keys, keys]

theorem keys_element (tag : String) (key : Option String) (props : Props) (children : List Output) :
    keys [.element tag key props children] = key.toList ++ keys children := by
  rw [keys, elementsAll, elements, elementsAll, List.append_nil]
  cases key with
  | none => exact List.filterMap_cons_none rfl
  | some k => exact List.filterMap_cons_some rfl

mutual

theorem find?_eq (key : String) : (o : Output) → o.find? key = o.elements.find? fun o => o.key? = some key
  | .primitive _ => rfl
  | .element tag k props children => by
    rw [find?, elements, List.find?_cons, findAll?_eq key children]
    by_cases hk : k = some key
    · simp [key?, hk]
    · simp [key?, hk]

theorem findAll?_eq (key : String) : (os : List Output) →
    findAll? key os = (elementsAll os).find? fun o => o.key? = some key
  | [] => rfl
  | o :: rest => by rw [findAll?, find?_eq key o, findAll?_eq key rest, elementsAll, List.find?_append]

end

/-- Where no two elements have the same key, each is found by its own. -/
theorem findAll?_of_nodup {os : List Output} {o : Output} {key : String} (h : (keys os).Nodup)
    (ho : o ∈ elementsAll os) (hkey : o.key? = some key) : findAll? key os = some o := by
  rw [findAll?_eq]
  unfold keys at h
  obtain ⟨before, after, hsplit⟩ := List.append_of_mem ho
  rw [hsplit, List.filterMap_append, List.filterMap_cons_some hkey] at h
  have hfirst : ∀ o' ∈ before, o'.key? ≠ some key := fun o' ho' heq =>
    (List.nodup_append.1 h).2.2 key (List.mem_filterMap.2 ⟨o', ho', heq⟩) key (List.mem_cons_self ..) rfl
  rw [hsplit, List.find?_append, List.find?_eq_none.2 (by simpa using hfirst), Option.none_or,
    List.find?_cons_of_pos (by simpa using hkey)]

end Output

namespace Mounted

/-- Where an element stands: the keys of the fragments around it, from the outside in, and its own. -/
structure Address where
  rows : List String
  id : String

/-- The same element, inside one more fragment. -/
def Address.inside (row : String) (a : Address) : Address := { a with rows := row :: a.rows }

/-- The key that is shown. -/
def Address.spelled (around : String) (a : Address) : String := scopedKey (a.rows.foldl scopedKey around) a.id

mutual

/-- The addresses of the elements with keys. -/
def addresses : Mounted → List Address
  | .primitive _ => []
  | .element _ key _ children => (key.map (Address.mk [])).toList ++ addressesAll children
  | .component _ _ _ _ children => addressesAll children
  | .fragment (some key) children => (addressesAll children).map (Address.inside key)
  | .fragment none children => addressesAll children

def addressesAll : List Mounted → List Address
  | [] => []
  | m :: rest => m.addresses ++ addressesAll rest

end

theorem addressesAll_append (ms ns : List Mounted) : addressesAll (ms ++ ns) = addressesAll ms ++ addressesAll ns := by
  induction ms with
  | nil => rfl
  | cons m rest ih => rw [List.cons_append, addressesAll, addressesAll, ih, List.append_assoc]

@[simp] theorem addressesAll_singleton (m : Mounted) : addressesAll [m] = m.addresses := List.append_nil _

mutual

theorem keys_flatten (around : String) : (m : Mounted) →
    Output.keys (m.flatten around) = m.addresses.map (Address.spelled around)
  | .primitive _ => rfl
  | .element _ key _ children => by
    rw [flatten, Output.keys_element, keys_flattenAll around children, addresses, List.map_append]
    cases key <;> rfl
  | .component _ _ _ _ children => keys_flattenAll around children
  | .fragment (some key) children => by
    rw [flatten, keys_flattenAll (scopedKey around key) children, addresses, List.map_map]
    rfl
  | .fragment none children => keys_flattenAll around children

theorem keys_flattenAll (around : String) : (ms : List Mounted) →
    Output.keys (flattenAll around ms) = (addressesAll ms).map (Address.spelled around)
  | [] => rfl
  | m :: rest => by
    rw [flattenAll, Output.keys_append, keys_flatten around m, keys_flattenAll around rest, addressesAll,
      List.map_append]

end

/-! ### Reading an address off its key -/

/-- The keys of the rows begin with a mark, and none of them contains the separator. An id that contains the
separator does not begin with the mark. -/
structure Address.Legible (a : Address) : Prop where
  marked : ∀ row ∈ a.rows, row.toList.head? = some '#'
  unseparated : ∀ row ∈ a.rows, '/' ∉ row.toList
  id : '/' ∈ a.id.toList → a.id.toList.head? ≠ some '#'

/-- The parts of an address, with the separator after each row. -/
def Address.joined (a : Address) : List Char := a.rows.foldr (fun row rest => row.toList ++ '/' :: rest) a.id.toList

theorem scopedKey_of_ne {around : String} (h : around ≠ "") (key : String) :
    (scopedKey around key).toList = around.toList ++ '/' :: key.toList := by
  unfold scopedKey
  rw [if_neg h, String.toList_append, String.toList_append, List.append_assoc]
  rfl

theorem scopedKey_ne_empty {around : String} (h : around ≠ "") (key : String) : scopedKey around key ≠ "" := by
  intro heq
  have hlist := scopedKey_of_ne h key
  rw [heq] at hlist
  simp at hlist

theorem toList_spelled {around : String} (h : around ≠ "") (a : Address) :
    (a.spelled around).toList = around.toList ++ '/' :: a.joined := by
  obtain ⟨rows, id⟩ := a
  unfold Address.spelled Address.joined
  induction rows generalizing around with
  | nil => exact scopedKey_of_ne h id
  | cons row rest ih =>
    rw [List.foldl_cons, ih (scopedKey_ne_empty h row), scopedKey_of_ne h, List.append_assoc]
    rfl

namespace Address

variable {a b : Address}

theorem Legible.toList_spelled (h : a.Legible) : (a.spelled "").toList = a.joined := by
  obtain ⟨rows, id⟩ := a
  cases rows with
  | nil => rfl
  | cons row rest =>
    have hrow : row ≠ "" := by
      rintro rfl
      cases h.marked "" (List.mem_cons_self ..)
    exact Mounted.toList_spelled hrow ⟨rest, id⟩

/-- What stands before the first separator is the same, and so is what stands after it. -/
theorem append_separator_inj {xs ys xs' ys' : List Char} (hxs : '/' ∉ xs) (hxs' : '/' ∉ xs')
    (h : xs ++ '/' :: ys = xs' ++ '/' :: ys') : xs = xs' ∧ ys = ys' := by
  rcases List.append_eq_append_iff.1 h with ⟨zs, rfl, hrest⟩ | ⟨zs, rfl, hrest⟩
  · cases zs with
    | nil => exact ⟨(List.append_nil _).symm, List.cons_injective hrest⟩
    | cons z zs =>
      cases hrest
      exact absurd (List.mem_append_right _ (List.mem_cons_self ..)) hxs'
  · cases zs with
    | nil => exact ⟨List.append_nil _, (List.cons_injective hrest).symm⟩
    | cons z zs =>
      cases hrest
      exact absurd (List.mem_append_right _ (List.mem_cons_self ..)) hxs

theorem Legible.joined_ne {row : String} {rows : List String} {id id' : String} (ha : Legible ⟨row :: rows, id⟩)
    (hb : Legible ⟨[], id'⟩) : joined ⟨row :: rows, id⟩ ≠ joined ⟨[], id'⟩ := by
  intro h
  have hid : row.toList ++ '/' :: joined ⟨rows, id⟩ = id'.toList := h
  have hhead := ha.marked row (List.mem_cons_self ..)
  refine hb.id ?_ ?_
  · rw [← hid]
    exact List.mem_append_right _ (List.mem_cons_self ..)
  · rw [← hid, List.head?_append, hhead]
    rfl

theorem Legible.joined_inj (ha : a.Legible) (hb : b.Legible) (h : a.joined = b.joined) : a = b := by
  obtain ⟨rows, id⟩ := a
  obtain ⟨rows', id'⟩ := b
  induction rows generalizing rows' with
  | nil =>
    cases rows' with
    | nil => exact congrArg (Address.mk []) (String.toList_inj.1 h)
    | cons row' rest' => exact absurd h.symm (hb.joined_ne ha)
  | cons row rest ih =>
    cases rows' with
    | nil => exact absurd h (ha.joined_ne hb)
    | cons row' rest' =>
      obtain ⟨hrow, hrest⟩ := append_separator_inj (ha.unseparated row (List.mem_cons_self ..))
        (hb.unseparated row' (List.mem_cons_self ..)) h
      have hafter (row : String) {rest : List String} {id : String} (h : Legible ⟨row :: rest, id⟩) :
          Legible ⟨rest, id⟩ :=
        ⟨fun r hr => h.marked r (List.mem_cons_of_mem _ hr), fun r hr => h.unseparated r (List.mem_cons_of_mem _ hr),
          h.id⟩
      have htail := ih (hafter row ha) rest' (hafter row' hb) hrest
      rw [String.toList_inj.1 hrow, (Address.mk.inj htail).1, (Address.mk.inj htail).2]

end Address

/-- Elements at different addresses have different keys, if these are legible. -/
theorem nodup_keys_snapshot {ms : List Mounted} (h : (addressesAll ms).Nodup)
    (hlegible : ∀ a ∈ addressesAll ms, a.Legible) : (Output.keys (snapshot ms)).Nodup := by
  rw [snapshot, keys_flattenAll]
  refine h.map_on fun a ha b hb heq => (hlegible a ha).joined_inj (hlegible b hb) ?_
  rw [← (hlegible a ha).toList_spelled, ← (hlegible b hb).toList_spelled, heq]

end Mounted
end LiveLayout
