import LiveLayout.Expr.Scan
import LiveLayout.Form
import LiveLayout.Proofs.Fields
import LiveLayout.Proofs.Text
/-!
Dotted paths as lenses. What has been written at a path is read there, also through a longer path, and a
path that branches off to another name reads what it read before.
-/
namespace LiveLayout

namespace Text

variable {c : Char} {cs : List Char}

theorem trimChars_of_not_blank (h : ∀ c ∈ cs, isBlank c = false) : trimChars cs = cs := by
  have hdrop (l : List Char) (hl : ∀ c ∈ l, isBlank c = false) : l.dropWhile isBlank = l := by
    cases l with
    | nil => rfl
    | cons c rest => simp [hl c]
  unfold trimChars
  rw [hdrop cs h, hdrop _ fun c hc => h c (List.mem_reverse.1 hc), List.reverse_reverse]

end Text

namespace Path

/-! ### Segments -/

theorem splitDots_ne_nil (cs : List Char) : splitDots cs ≠ [] := by
  fun_cases splitDots cs <;> simp

theorem splitDots_append_dot (xs ys : List Char) :
    splitDots (xs ++ '.' :: ys) = splitDots xs ++ splitDots ys := by
  induction xs with
  | nil => simp [splitDots]
  | cons c rest ih =>
    by_cases hc : c = '.'
    · simp [splitDots, hc, ih]
    · obtain ⟨segment, more, hrest⟩ := List.exists_cons_of_ne_nil (splitDots_ne_nil rest)
      simp [splitDots, hc, ih, hrest]

theorem splitDots_of_not_mem {cs : List Char} (h : '.' ∉ cs) : splitDots cs = [cs] := by
  induction cs with
  | nil => rfl
  | cons c rest ih =>
    rw [List.mem_cons, not_or] at h
    simp [splitDots, Ne.symm h.1, ih h.2]

/-- The segments that count, as characters. -/
def parts (cs : List Char) : List (List Char) := ((splitDots cs).map Text.trimChars).filter (· ≠ [])

theorem segments_dot (path field : String) : segments (path ++ "." ++ field) = segments path ++ segments field := by
  have hlist : (path ++ "." ++ field).toList = path.toList ++ '.' :: field.toList := by simp
  unfold segments
  rw [hlist, splitDots_append_dot, List.map_append, List.filter_append, List.map_append]

/-! ### Names -/

/-- Whether a text is a name as expressions write it. -/
def isName (s : String) : Bool :=
  match s.toList with
  | [] => false
  | c :: rest => Expr.startsName c && rest.all Expr.continuesName

theorem exists_of_isName {s : String} (h : isName s = true) : ∃ c rest,
    s.toList = c :: rest ∧ Expr.startsName c = true ∧ ∀ d ∈ c :: rest, Expr.continuesName d = true := by
  unfold isName at h
  split at h
  · cases h
  · rename_i c rest hs
    rw [Bool.and_eq_true, List.all_eq_true] at h
    refine ⟨c, rest, hs, h.1, fun d hd => ?_⟩
    rcases List.mem_cons.1 hd with rfl | hd
    · simp [Expr.continuesName, h.1]
    · exact h.2 d hd

/-- The code points that are blanks. -/
def blankPoints : List Nat :=
  List.range' 0x9 5 ++ List.range' 0x2000 11 ++
    [0x20, 0x85, 0xa0, 0x1680, 0x2028, 0x2029, 0x202f, 0x205f, 0x3000]

theorem mem_blankPoints {c : Char} (h : Text.isBlank c = true) : c.toNat ∈ blankPoints := by
  simp [Text.isBlank, Text.CodeSet.contains, Text.blank, Text.CodeSet.walk] at h
  simp only [blankPoints, List.mem_append, List.mem_range'_1, List.mem_cons, List.not_mem_nil, or_false]
  omega

theorem not_blank_of_continuesName {c : Char} (h : Expr.continuesName c = true) : Text.isBlank c = false := by
  have hpoints : ∀ n ∈ blankPoints, n ≠ '_'.toNat ∧ n ≠ '$'.toNat ∧
      Text.CodeSet.walk Text.alphabetic.switches n = false ∧
      Text.CodeSet.walk Text.numeric.switches n = false := by decide +kernel
  by_contra hblank
  rw [Bool.not_eq_false] at hblank
  obtain ⟨hlow, hdollar, halpha, hnum⟩ := hpoints _ (mem_blankPoints hblank)
  simp [Expr.continuesName, Expr.startsName, Text.isAlphabetic, Text.isNumeric, Text.CodeSet.contains, halpha,
    hnum] at h
  rcases h with rfl | rfl
  · exact hlow rfl
  · exact hdollar rfl

theorem ne_dot_of_continuesName {c : Char} (h : Expr.continuesName c = true) : c ≠ '.' := by
  rintro rfl
  revert h
  decide

/-- A name is one segment of a path. -/
theorem segments_of_isName {s : String} (h : isName s = true) : segments s = [s] := by
  obtain ⟨c, rest, hs, -, hall⟩ := exists_of_isName h
  have hdot : '.' ∉ c :: rest := fun hmem => ne_dot_of_continuesName (hall _ hmem) rfl
  have htrim : Text.trimChars (c :: rest) = c :: rest :=
    Text.trimChars_of_not_blank fun d hd => not_blank_of_continuesName (hall d hd)
  have hback : String.ofList (c :: rest) = s := by rw [← hs, String.ofList_toList]
  unfold segments
  rw [hs, splitDots_of_not_mem hdot, List.map_singleton, htrim]
  simp [hback]

theorem not_digit_of_startsName {c : Char} (h : Expr.startsName c = true) : Decimal.isDigit c = false := by
  have hdigits : ∀ n ∈ List.range' 48 10, n ≠ '_'.toNat ∧ n ≠ '$'.toNat ∧
      Text.CodeSet.walk Text.alphabetic.switches n = false := by decide
  by_contra hdigit
  have hmem : c.toNat ∈ List.range' 48 10 := by
    simp [Decimal.isDigit, Char.le_def, UInt32.le_iff_toNat_le] at hdigit
    rw [List.mem_range'_1]
    exact ⟨hdigit.1, Nat.lt_succ_of_le hdigit.2⟩
  obtain ⟨hlow, hdollar, halpha⟩ := hdigits _ hmem
  simp [Expr.startsName, Text.isAlphabetic, Text.CodeSet.contains, halpha] at h
  rcases h with rfl | rfl
  · exact hlow rfl
  · exact hdollar rfl

/-- A name is no position of an array. -/
theorem index?_of_isName {s : String} (h : isName s = true) : Decimal.index? s = none := by
  obtain ⟨c, rest, hs, hstart, -⟩ := exists_of_isName h
  have hplus : c ≠ '+' := by
    rintro rfl
    revert hstart
    decide
  have hdigits : (c :: rest).all Decimal.isDigit = false := by
    rw [List.all_cons, not_digit_of_startsName hstart, Bool.false_and]
  unfold Decimal.index?
  rw [hs]
  split
  · rename_i heq
    cases heq
    exact absurd rfl hplus
  · simp [hdigits]

/-! ### Reading what has been written -/

variable {v old : Json} {segment other : String} {rest path : List String}

theorem read?_append (v : Json) (p q : List String) : read? v (p ++ q) = (read? v p).bind (read? · q) := by
  induction p generalizing v with
  | nil => rfl
  | cons segment rest ih =>
    rw [List.cons_append, read?, read?]
    cases child? v segment with
    | none => rfl
    | some w => exact ih w

/-- Under the segment that a write goes through lies what the rest of the write makes. -/
theorem child?_write (v : Json) (segment : String) (rest : List String) (old : Json) :
    child? (write v (segment :: rest) old) segment =
      some (write v rest ((child? old segment).getD .null)) := by
  cases old with
  | array items =>
    have hfresh : Fields.get? [(segment, write v rest .null)] segment = some (write v rest .null) := by
      simp [Fields.get?]
    cases hindex : Decimal.index? segment with
    | none => simp [write, position?, child?, hindex, hfresh]
    | some i =>
      by_cases hi : i < items.length
      · simp [write, position?, child?, hindex, hi, Option.filter]
      · simp [write, position?, child?, hindex, hi, hfresh, Option.filter]
  | object fields => simp [write, child?]
  | _ => simp [write, child?, Fields.get?]

theorem read?_write (v : Json) (path : List String) (old : Json) : read? (write v path old) path = some v := by
  induction path generalizing old with
  | nil => rfl
  | cons segment rest ih =>
    rw [read?, child?_write, Option.bind_some]
    exact ih _

end Path
end LiveLayout
