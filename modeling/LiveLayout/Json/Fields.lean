/-!
Named entries in the order they were written. A name is looked up at its first place; setting a known
name keeps its place and a new name goes last.
-/
namespace LiveLayout.Fields

variable {α : Type}

def get? : List (String × α) → String → Option α
  | [], _ => none
  | (k, v) :: rest, key => if k = key then some v else get? rest key

def has (m : List (String × α)) (key : String) : Bool := (get? m key).isSome

def set : List (String × α) → String → α → List (String × α)
  | [], key, value => [(key, value)]
  | (k, v) :: rest, key, value =>
    if k = key then (k, value) :: rest else (k, v) :: set rest key value

/-- Removes a name and keeps the others in order. -/
def erase : List (String × α) → String → List (String × α)
  | [], _ => []
  | (k, v) :: rest, key => if k = key then rest else (k, v) :: erase rest key

/-- Removes a name and puts the last entry into the freed place. -/
def swapErase (m : List (String × α)) (key : String) : List (String × α) :=
  match m.getLast?, get? m key with
  | some last, some _ => m.dropLast.map fun e => if e.1 = key then last else e
  | _, _ => m

/-- Sets a name in a list that is sorted by name. -/
def insertSorted : List (String × α) → String → α → List (String × α)
  | [], key, value => [(key, value)]
  | (k, v) :: rest, key, value =>
    if k = key then (k, value) :: rest
    else if key < k then (key, value) :: (k, v) :: rest
    else (k, v) :: insertSorted rest key value

/-- The entries set one after the other, so that a repeated name keeps its first place and last value. -/
def ofList (entries : List (String × α)) : List (String × α) :=
  entries.foldl (fun m e => set m e.1 e.2) []

@[simp] theorem get?_set_self (m : List (String × α)) (key : String) (value : α) :
    get? (set m key value) key = some value := by
  fun_induction set m key value with
  | case1 => simp [get?]
  | case2 => simp [get?]
  | case3 _ _ _ _ _ h ih => simp [get?, h, ih]

theorem get?_set_of_ne (m : List (String × α)) {key other : String} (value : α) (h : other ≠ key) :
    get? (set m key value) other = get? m other := by
  fun_induction set m key value with
  | case1 => simp [get?, Ne.symm h]
  | case2 => simp [get?, Ne.symm h]
  | case3 => simp_all [get?]

end LiveLayout.Fields
