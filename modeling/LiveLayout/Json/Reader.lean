import LiveLayout.Decimal.Reading
import LiveLayout.Json.Basic
/-!
Reading JSON text. A number without a point or exponent that fits 64 bits is whole. Any other number
keeps the leading digits that fit 64 bits and is scaled by one power of ten; a number too large for a
double is refused, and so are values nested deeper than `maxNesting`.
-/
namespace LiveLayout.Json

/-- Arrays and objects may lie this deep in one another. -/
def maxNesting : Nat := 127

def isSpace (c : Char) : Bool := c == ' ' || c == '\n' || c == '\t' || c == '\r'

def skipSpace (cs : List Char) : List Char := cs.dropWhile isSpace

theorem length_dropWhile_le (p : Char → Bool) (cs : List Char) :
    (cs.dropWhile p).length ≤ cs.length :=
  (List.dropWhile_sublist p).length_le

theorem length_skipSpace_le (cs : List Char) : (skipSpace cs).length ≤ cs.length :=
  length_dropWhile_le _ _

/-- What is left after reading something. -/
abbrev Rest (cs : List Char) := { r : List Char // r.length < cs.length }

abbrev Step (α : Type) := (cs : List Char) → Option (α × Rest cs)

/-! ### Numbers -/

/-- Scales by a power of ten with one multiplication, or with divisions by at most `1e308` each. -/
def scale (x : Float) (e : Int) : Option Float :=
  if e < -308 then
    if x == 0.0 then some x else scale (x / Float.ofScientific 1 false 308) (e + 308)
  else if e < 0 then some (x / Float.ofScientific 1 false e.natAbs)
  else if 308 < e then (if x == 0.0 then some x else none)
  else
    let y := x * Float.ofScientific 1 false e.natAbs
    if y.isInf then none else some y
termination_by e.natAbs
decreasing_by omega

/-- The value of the leading digits that fit 64 bits, and how many digits that is. -/
def significand (n count : Nat) : List Char → Nat × Nat
  | [] => (n, count)
  | c :: rest =>
    let m := 10 * n + Decimal.digitValue c
    if m < Decimal.pow2 64 then significand m (count + 1) rest else (n, count)

/-- A number from its sign, its digits before and after the point and its exponent. -/
def number? (negative : Bool) (whole : List Char) (fraction : Option (List Char))
    (exponent : Option Int) : Option Number :=
  let (n, kept) := significand 0 0 whole
  let fits := kept = whole.length
  if fits ∧ fraction.isNone ∧ exponent.isNone ∧ (!negative ∨ (0 < n ∧ n ≤ Decimal.pow2 63)) then
    some (.int (if negative then -n else n))
  else
    let (n, used) := significand n 0 (fraction.getD [])
    let e : Int := (whole.length - kept : Nat) - (used : Int) + exponent.getD 0
    (scale (Float.ofNat n) e).map fun x => .float (if negative then -x else x)

/-- The exponent of a number, if one follows. -/
def exponent? (cs : List Char) : Option (Option Int × { r : List Char // r.length ≤ cs.length }) :=
  match cs with
  | [] => some (none, ⟨[], Nat.le_refl _⟩)
  | c :: r =>
    if c = 'e' ∨ c = 'E' then
      let (sign, ds) : Int × { d : List Char // d.length ≤ r.length } := match r with
        | '+' :: ds => (1, ⟨ds, Nat.le_succ _⟩)
        | '-' :: ds => (-1, ⟨ds, Nat.le_succ _⟩)
        | ds => (1, ⟨ds, Nat.le_refl _⟩)
      let digits := ds.val.takeWhile Decimal.isDigit
      if digits.isEmpty then none
      else
        some (some (sign * Decimal.natOfDigits digits),
          ⟨ds.val.dropWhile Decimal.isDigit,
            Nat.le_trans (length_dropWhile_le _ _) (Nat.le_succ_of_le ds.property)⟩)
    else some (none, ⟨c :: r, Nat.le_refl _⟩)

/-- The digits after a point, if one follows. -/
def fraction? (cs : List Char) :
    Option (Option (List Char) × { r : List Char // r.length ≤ cs.length }) :=
  match cs with
  | '.' :: r =>
    let digits := r.takeWhile Decimal.isDigit
    if digits.isEmpty then none
    else some (some digits,
      ⟨r.dropWhile Decimal.isDigit, Nat.le_succ_of_le (length_dropWhile_le _ _)⟩)
  | r => some (none, ⟨r, Nat.le_refl _⟩)

/-- A number whose text starts with a digit. -/
def numeral? (negative : Bool) : Step Number := fun cs =>
  match cs with
  | [] => none
  | c :: r =>
    if !Decimal.isDigit c then none
    else
      let more := if c = '0' then [] else r.takeWhile Decimal.isDigit
      let rest : { d : List Char // d.length ≤ r.length } :=
        if c = '0' then ⟨r, Nat.le_refl _⟩
        else ⟨r.dropWhile Decimal.isDigit, length_dropWhile_le _ _⟩
      if c = '0' ∧ (r.head?.any Decimal.isDigit) then none
      else do
        let (fraction, rest₁) ← fraction? rest.val
        let (exponent, rest₂) ← exponent? rest₁.val
        let n ← number? negative (c :: more) fraction exponent
        some (n, ⟨rest₂.val, Nat.lt_succ_of_le
          (Nat.le_trans rest₂.property (Nat.le_trans rest₁.property rest.property))⟩)

/-! ### Strings -/

def hexValue? (c : Char) : Option Nat :=
  if '0' ≤ c ∧ c ≤ '9' then some (c.toNat - '0'.toNat)
  else if 'a' ≤ c ∧ c ≤ 'f' then some (c.toNat - 'a'.toNat + 10)
  else if 'A' ≤ c ∧ c ≤ 'F' then some (c.toNat - 'A'.toNat + 10)
  else none

def unit? (a b c d : Char) : Option Nat := do
  let a ← hexValue? a
  let b ← hexValue? b
  let c ← hexValue? c
  let d ← hexValue? d
  some (((a * 16 + b) * 16 + c) * 16 + d)

def simpleEscape? : Char → Option Char
  | '"' => some '"'
  | '\\' => some '\\'
  | '/' => some '/'
  | 'b' => some '\x08'
  | 'f' => some '\x0c'
  | 'n' => some '\n'
  | 'r' => some '\r'
  | 't' => some '\t'
  | _ => none

/-- The character written by an escape, after its backslash. Characters beyond the first 65536 are
written as two surrogate units. -/
def escape? : Step Char
  | 'u' :: a :: b :: c :: d :: r =>
    match unit? a b c d with
    | none => none
    | some n =>
      if 0xDC00 ≤ n ∧ n < 0xE000 then none
      else if 0xD800 ≤ n ∧ n < 0xDC00 then
        match r with
        | '\\' :: 'u' :: e :: f :: g :: h :: r' =>
          match unit? e f g h with
          | none => none
          | some m =>
            if 0xDC00 ≤ m ∧ m < 0xE000 then
              some (Char.ofNat (0x10000 + (n - 0xD800) * 0x400 + (m - 0xDC00)),
                ⟨r', by simp only [List.length_cons]; omega⟩)
            else none
        | _ => none
      else some (Char.ofNat n, ⟨r, by simp only [List.length_cons]; omega⟩)
  | c :: r => (simpleEscape? c).map fun d => (d, ⟨r, Nat.lt_succ_self _⟩)
  | [] => none

/-- The characters up to the closing quote, after the ones read so far in reverse. -/
def stringBody? (acc : List Char) : Step String
  | [] => none
  | c :: r =>
    if c = '"' then some (String.ofList acc.reverse, ⟨r, Nat.lt_succ_self _⟩)
    else if c = '\\' then
      match escape? r with
      | none => none
      | some (d, r') =>
        have : r'.val.length < (c :: r).length := Nat.lt_succ_of_lt r'.property
        (stringBody? (d :: acc) r'.val).map fun (s, e) => (s, ⟨e.val, Nat.lt_trans e.property this⟩)
    else if c.toNat < 0x20 then none
    else (stringBody? (c :: acc) r).map fun (s, e) => (s, ⟨e.val, Nat.lt_succ_of_lt e.property⟩)
termination_by cs => cs.length
decreasing_by
  · exact this
  · exact Nat.lt_succ_self _

/-! ### Values -/

/-- A fixed word, which has the given value. -/
def word? (w : List Char) (v : Json) : Step Json := fun cs =>
  if h : w ≠ [] ∧ w.isPrefixOf cs then
    some (v, ⟨cs.drop w.length, by
      obtain ⟨hne, hp⟩ := h
      have := (List.isPrefixOf_iff_prefix.mp hp).length_le
      have : 0 < w.length := List.length_pos_iff.mpr hne
      simp only [List.length_drop]
      omega⟩)
  else none

def weaken {α : Type} {cs ds : List Char} (h : ds.length ≤ cs.length) :
    Option (α × Rest ds) → Option (α × Rest cs) :=
  Option.map fun (a, r) => (a, ⟨r.val, Nat.lt_of_lt_of_le r.property h⟩)

/-- The elements of an array up to its closing bracket, after the ones read so far in reverse. -/
def elements? (value : Step Json) (acc : List Json) (cs : List Char) :
    Option (List Json × Rest cs) :=
  match value cs with
  | none => none
  | some (v, r) =>
    match h : skipSpace r.val with
    | ']' :: r' => some ((v :: acc).reverse, ⟨r', by
        have := r.property; have := length_skipSpace_le r.val; rw [h] at this
        simp only [List.length_cons] at this
        omega⟩)
    | ',' :: r' =>
      have hr : r'.length < cs.length := by
        have := r.property; have := length_skipSpace_le r.val; rw [h] at this
        simp only [List.length_cons] at this
        omega
      weaken (Nat.le_of_lt hr) (elements? value (v :: acc) r')
    | _ => none
termination_by cs.length

/-- The entries of an object up to its closing brace, after the ones read so far. -/
def entries? (value : Step Json) (acc : List (String × Json)) (cs : List Char) :
    Option (List (String × Json) × Rest cs) :=
  match hs : skipSpace cs with
  | '"' :: t =>
    have ht : t.length < cs.length := by
      have := length_skipSpace_le cs; rw [hs] at this
      simp only [List.length_cons] at this
      omega
    match stringBody? [] t with
    | none => none
    | some (key, u) =>
      match hu : skipSpace u.val with
      | ':' :: w =>
        have hw : w.length < cs.length := by
          have := u.property; have := length_skipSpace_le u.val; rw [hu] at this
          simp only [List.length_cons] at this
          omega
        match value w with
        | none => none
        | some (v, r) =>
          match h : skipSpace r.val with
          | '\x7d' :: r' => some (Fields.set acc key v, ⟨r', by
              have := r.property; have := length_skipSpace_le r.val; rw [h] at this
              simp only [List.length_cons] at this
              omega⟩)
          | ',' :: r' =>
            have hr : r'.length < cs.length := by
              have := r.property; have := length_skipSpace_le r.val; rw [h] at this
              simp only [List.length_cons] at this
              omega
            weaken (Nat.le_of_lt hr) (entries? value (Fields.set acc key v) r')
          | _ => none
      | _ => none
  | _ => none
termination_by cs.length

/-- A value that may hold `nesting` arrays and objects in one another. -/
def value? : Nat → Step Json
  | nesting, cs =>
    match hs : skipSpace cs with
    | [] => none
    | c :: t =>
      have ht : t.length < cs.length := by
        have := length_skipSpace_le cs; rw [hs] at this
        simp only [List.length_cons] at this
        omega
      have hc : (c :: t).length ≤ cs.length := by simp only [List.length_cons]; omega
      if c = '"' then
        weaken (Nat.le_of_lt ht) ((stringBody? [] t).map fun (s, r) => (.string s, r))
      else if c = '-' then
        weaken (Nat.le_of_lt ht) ((numeral? true t).map fun (n, r) => (.number n, r))
      else if Decimal.isDigit c then
        weaken hc ((numeral? false (c :: t)).map fun (n, r) => (.number n, r))
      else if c = '[' then
        match nesting with
        | 0 => none
        | inner + 1 =>
          match h : skipSpace t with
          | ']' :: r => some (.array [], ⟨r, by
              have := length_skipSpace_le t; rw [h] at this
              simp only [List.length_cons] at this
              omega⟩)
          | _ => weaken (Nat.le_of_lt ht)
              ((elements? (value? inner) [] t).map fun (vs, r) => (.array vs, r))
      else if c = '\x7b' then
        match nesting with
        | 0 => none
        | inner + 1 =>
          match h : skipSpace t with
          | '\x7d' :: r => some (.object [], ⟨r, by
              have := length_skipSpace_le t; rw [h] at this
              simp only [List.length_cons] at this
              omega⟩)
          | _ => weaken (Nat.le_of_lt ht)
              ((entries? (value? inner) [] t).map fun (es, r) => (.object es, r))
      else
        weaken hc ((word? "null".toList .null (c :: t)).or
          ((word? "true".toList (.bool true) (c :: t)).or
            (word? "false".toList (.bool false) (c :: t))))

/-- The whole text as one value. -/
def read? (s : String) : Option Json :=
  match value? maxNesting s.toList with
  | some (v, r) => if (skipSpace r.val).isEmpty then some v else none
  | none => none

end LiveLayout.Json
