import LiveLayout.Expr.Parse
import LiveLayout.Proofs.Decimal
import LiveLayout.Proofs.Forms.Paths
import Mathlib.Data.List.Chain
/-!
How an expression spells a dotted path: a name, and then a point and a word or a numeral for each segment.
-/
namespace LiveLayout.Path

/-- A position as expressions spell it: a decimal numeral of a number that doubles hold exactly. -/
def IsPosition (s : String) : Prop := ∃ n < 2 ^ 53, s = n.repr

/-- A segment that is a name, keywords included, or a position. -/
def IsSegment (s : String) : Prop := isName s = true ∨ IsPosition s

/-- No position comes right after another one. -/
def Apart (segments : List String) : Prop := segments.IsChain fun s t => ¬(IsPosition s ∧ IsPosition t)

section

variable {s : String} {n : Nat}

theorem digits_repr (n : Nat) : ∃ c cs, n.repr.toList = c :: cs ∧ ∀ d ∈ c :: cs, Decimal.isDigit d = true := by
  have hlist : n.repr.toList = Nat.toDigits 10 n := by
    rw [Nat.repr_eq_ofList_toDigits, String.toList_ofList]
  obtain ⟨c, cs, hcs⟩ := List.exists_cons_of_ne_nil (Nat.toDigits_ne_nil (n := n) (b := 10))
  refine ⟨c, cs, hlist.trans hcs, fun d hd => ?_⟩
  rw [← hcs] at hd
  have hdigit := Nat.isDigit_of_mem_toDigits (by decide) (by decide) hd
  simpa [Char.isDigit, Decimal.isDigit, Char.le_def] using hdigit

theorem natOfDigits_repr (n : Nat) : Decimal.natOfDigits n.repr.toList = n := by
  rw [Nat.repr_eq_ofList_toDigits, String.toList_ofList]
  exact Nat.ofDigitChars_ten_toDigits

theorem not_startsName_of_isDigit {c : Char} (h : Decimal.isDigit c = true) : Expr.startsName c = false := by
  by_contra hname
  rw [Bool.not_eq_false] at hname
  rw [not_digit_of_startsName hname] at h
  cases h

theorem isName_repr (n : Nat) : isName n.repr = false := by
  obtain ⟨c, cs, hcs, hdigits⟩ := digits_repr n
  unfold isName
  rw [hcs]
  simp [not_startsName_of_isDigit (hdigits c (List.mem_cons_self ..))]

theorem not_isPosition_of_isName (h : isName s = true) : ¬IsPosition s := by
  rintro ⟨n, -, rfl⟩
  rw [isName_repr] at h
  cases h

end
end LiveLayout.Path

namespace LiveLayout.Expr

open LiveLayout.Path

/-! ### Tokens -/

/-- The marks that tokens other than words and numerals start with. -/
def marks : List Char :=
  ['.', ',', '(', ')', '[', ']', '?', ':', '+', '-', '*', '/', '%', '!', '=', '<', '>', '&', '|', '"', '\'']

theorem not_mem_marks_of_startsName {c : Char} (h : startsName c = true) : c ∉ marks := by
  have hmarks : marks.all (!startsName ·) = true := by decide
  intro hmem
  have hc := List.all_eq_true.1 hmarks c hmem
  rw [h] at hc
  cases hc

theorem not_mem_marks_of_isDigit {c : Char} (h : Decimal.isDigit c = true) : c ∉ marks := by
  have hmarks : marks.all (!Decimal.isDigit ·) = true := by decide
  intro hmem
  have hc := List.all_eq_true.1 hmarks c hmem
  rw [h] at hc
  cases hc

theorem not_blank_of_isDigit {c : Char} (h : Decimal.isDigit c = true) : Text.isBlank c = false := by
  have hpoints : ∀ n ∈ blankPoints, ¬(48 ≤ n ∧ n ≤ 57) := by decide
  by_contra hblank
  rw [Bool.not_eq_false] at hblank
  apply hpoints _ (mem_blankPoints hblank)
  simpa [Decimal.isDigit, Char.le_def, UInt32.le_iff_toNat_le] using h

theorem scanToken_of_not_mem_marks {c : Char} (h : c ∉ marks) (offset : Nat) (r : List Char) :
    scanToken offset c r =
      if Decimal.isDigit c then .ok (scanNumber offset (c :: r))
      else if startsName c then .ok (scanWord offset (c :: r))
      else .error ⟨.unexpectedChar c, offset⟩ := by
  simp only [marks, List.mem_cons, List.not_mem_nil, or_false, not_or] at h
  have hchar : Token.ofChar? c = none := by
    unfold Token.ofChar?
    split <;> simp_all
  unfold scanToken
  rw [hchar]
  dsimp only
  split <;> simp_all

theorem scanFrom_of_scanToken {c : Char} (hblank : Text.isBlank c = false) {offset : Nat} {r : List Char}
    {scanned : Scanned} (h : scanToken offset c r = .ok scanned) (acc : List Lexeme) :
    scanFrom offset acc (c :: r) = scanFrom scanned.offset (⟨scanned.token, offset⟩ :: acc) scanned.rest := by
  rw [scanFrom, if_neg (by simp [hblank])]
  split
  · rename_i e he
    cases h.symm.trans he
  · rename_i s hs
    cases h.symm.trans hs
    rfl

theorem byteLength_of_digits {cs : List Char} (h : ∀ c ∈ cs, Decimal.isDigit c = true) : byteLength cs = cs.length := by
  induction cs with
  | nil => rfl
  | cons c rest ih =>
    rw [List.forall_mem_cons] at h
    have hvalue : c.val.toNat ≤ 127 := by
      have hdigit := h.1
      simp only [Decimal.isDigit, Char.le_def, UInt32.le_iff_toNat_le, Bool.and_eq_true, decide_eq_true_eq] at hdigit
      exact Nat.le_trans hdigit.2 (by decide)
    have hsize : c.utf8Size = 1 := if_pos (UInt32.le_iff_toNat_le.2 hvalue)
    rw [byteLength, List.foldr_cons, List.length_cons, hsize, Nat.add_comm]
    exact congrArg (· + 1) (ih h.2)

/-- With the given characters after them, the characters from `offset` on are one token. -/
def Scans (offset : Nat) (t : Token) (cs tail : List Char) : Prop :=
  ∃ c r, cs = c :: r ∧ Text.isBlank c = false ∧
    scanToken offset c (r ++ tail) = .ok ⟨t, offset + byteLength cs, tail⟩

theorem Scans.scanFrom_eq {offset : Nat} {t : Token} {cs tail : List Char} (h : Scans offset t cs tail)
    (acc : List Lexeme) :
    scanFrom offset acc (cs ++ tail) = scanFrom (offset + byteLength cs) (⟨t, offset⟩ :: acc) tail := by
  obtain ⟨c, r, rfl, hblank, hscan⟩ := h
  exact scanFrom_of_scanToken hblank hscan acc

/-- Characters of one kind are taken up to the first one that is not of the kind. -/
theorem takeWhile_append_eq {p : Char → Bool} {cs tail : List Char} (hall : ∀ c ∈ cs, p c = true)
    (htail : ∀ c ∈ tail.head?, p c = false) :
    (cs ++ tail).takeWhile p = cs ∧ (cs ++ tail).dropWhile p = tail := by
  rw [List.takeWhile_append_of_pos hall, List.dropWhile_append_of_pos hall]
  cases tail with
  | nil => simp
  | cons d rest =>
    have hd := htail d rfl
    simp [hd]

/-- A name is one token, if what follows does not go on with it. -/
theorem scans_name {s : String} (hs : isName s = true) {tail : List Char}
    (htail : ∀ c ∈ tail.head?, continuesName c = false) (offset : Nat) :
    Scans offset (.ofWord s) s.toList tail := by
  obtain ⟨c, cs, hlist, hstart, hall⟩ := exists_of_isName hs
  obtain ⟨htake, hdrop⟩ := takeWhile_append_eq hall htail
  rw [List.cons_append] at htake hdrop
  have hword : String.ofList (c :: cs) = s := by rw [← hlist, String.ofList_toList]
  refine ⟨c, cs, hlist, not_blank_of_continuesName (hall c (List.mem_cons_self ..)), ?_⟩
  rw [scanToken_of_not_mem_marks (not_mem_marks_of_startsName hstart), not_digit_of_startsName hstart, hstart]
  unfold scanWord
  rw [htake, hdrop, hlist]
  dsimp only
  rw [hword]
  rfl

/-- A numeral is one token, if neither a digit nor a fraction follows. -/
theorem scans_numeral (n : Nat) {tail : List Char} (hdigit : ∀ c ∈ tail.head?, Decimal.isDigit c = false)
    (hfraction : ∀ d rest, tail = '.' :: d :: rest → Decimal.isDigit d = false) (offset : Nat) :
    Scans offset (.number (Decimal.nearest n 0)) n.repr.toList tail := by
  obtain ⟨c, cs, hlist, hall⟩ := digits_repr n
  have hc := hall c (List.mem_cons_self ..)
  obtain ⟨htake, hdrop⟩ := takeWhile_append_eq hall hdigit
  rw [List.cons_append] at htake hdrop
  have hvalue : Decimal.natOfDigits (c :: cs) = n := by rw [← hlist, natOfDigits_repr]
  refine ⟨c, cs, hlist, not_blank_of_isDigit hc, ?_⟩
  rw [scanToken_of_not_mem_marks (not_mem_marks_of_isDigit hc), if_pos hc, hlist, byteLength_of_digits hall]
  unfold scanNumber
  rw [htake, hdrop]
  dsimp only
  rw [hvalue]
  split
  · rename_i d rest
    rw [hfraction d rest rfl]
    rfl
  · rfl

theorem scanFrom_name {s : String} (hs : isName s = true) {tail : List Char}
    (htail : ∀ c ∈ tail.head?, continuesName c = false) (offset : Nat) (acc : List Lexeme) :
    ∃ next, scanFrom offset acc (s.toList ++ tail) = scanFrom next (⟨.ofWord s, offset⟩ :: acc) tail :=
  ⟨_, (scans_name hs htail offset).scanFrom_eq acc⟩

theorem scanFrom_position (n : Nat) {tail : List Char}
    (htail : tail = [] ∨ ∃ c rest, tail = '.' :: c :: rest ∧ Decimal.isDigit c = false) (offset : Nat)
    (acc : List Lexeme) : ∃ next, scanFrom offset acc (n.repr.toList ++ tail) =
      scanFrom next (⟨.number (Decimal.nearest n 0), offset⟩ :: acc) tail := by
  have hpoint : Decimal.isDigit '.' = false := by decide
  refine ⟨_, (scans_numeral n (fun d hd => ?_) (fun d rest heq => ?_) offset).scanFrom_eq acc⟩
  · rcases htail with rfl | ⟨c, rest, rfl, -⟩
    · cases hd
    · cases hd
      exact hpoint
  · rcases htail with rfl | ⟨c, rest', rfl, hc⟩
    · cases heq
    · cases heq
      exact hc

theorem scanFrom_dot (tail : List Char) (offset : Nat) (acc : List Lexeme) :
    scanFrom offset acc ('.' :: tail) = scanFrom (offset + 1) (⟨.dot, offset⟩ :: acc) tail := by
  have hscan : scanToken offset '.' tail = .ok ⟨.dot, offset + 1, tail⟩ := rfl
  exact scanFrom_of_scanToken (by decide) hscan acc

/-! ### Segments -/

/-- What an expression takes a segment for: it has two words for null. -/
def spoken (s : String) : String := if s = "undefined" then "null" else s

theorem fieldName?_word (s : String) : Parse.fieldName? (.ofWord s) = some (spoken s) := by
  unfold Token.ofWord spoken
  split
  · subst s
    rfl
  · split
    · subst s
      rfl
    · split
      · rename_i hnull
        rcases hnull with rfl | rfl
        · rfl
        · rfl
      · rename_i hnull
        rw [not_or] at hnull
        rw [if_neg hnull.2]
        rfl

theorem fieldName?_position {n : Nat} (h : n < 2 ^ 53) :
    Parse.fieldName? (.number (Decimal.nearest n 0)) = some n.repr := by
  have hmin : min n (Decimal.pow2 64 - 1) = n := by
    have hpow : Decimal.pow2 64 = 2 ^ 64 := rfl
    omega
  unfold Parse.fieldName?
  dsimp only
  rw [Decimal.whole?_nearest h]
  change some (toString (min n (Decimal.pow2 64 - 1))) = _
  rw [hmin]
  rfl

/-- The lexemes of a chain of members, up to the end of the text. -/
inductive Accesses : List String → List Lexeme → Prop where
  | done {l : Lexeme} (eof : l.token = .eof) : Accesses [] [l]
  | member {field : String} {rest : List String} {d f : Lexeme} {ls : List Lexeme} (dot : d.token = .dot)
      (name : Parse.fieldName? f.token = some field) (more : Accesses rest ls) :
      Accesses (field :: rest) (d :: f :: ls)

/-- The segments, each after a point. -/
def dotted (segments : List String) : List Char := segments.flatMap fun s => '.' :: s.toList

theorem head?_dotted {segments : List String} {c : Char} (h : c ∈ (dotted segments).head?) : c = '.' := by
  cases segments with
  | nil => cases h
  | cons s rest =>
    cases h
    rfl

/-- After a position comes no digit of a fraction. -/
theorem dotted_of_isName {segments : List String} (h : ∀ s ∈ segments.head?, isName s = true) :
    dotted segments = [] ∨ ∃ c rest, dotted segments = '.' :: c :: rest ∧ Decimal.isDigit c = false := by
  cases segments with
  | nil => exact .inl rfl
  | cons s rest =>
    obtain ⟨c, cs, hlist, hstart, -⟩ := exists_of_isName (h s rfl)
    have hdotted : dotted (s :: rest) = '.' :: c :: (cs ++ dotted rest) := by
      change '.' :: s.toList ++ dotted rest = _
      rw [hlist]
      rfl
    exact .inr ⟨c, _, hdotted, not_digit_of_startsName hstart⟩

theorem scanFrom_dotted {segments : List String} (hsegments : ∀ s ∈ segments, IsSegment s) (hapart : Apart segments)
    (offset : Nat) (acc : List Lexeme) : ∃ ls, scanFrom offset acc (dotted segments) = .ok (acc.reverse ++ ls) ∧
      Accesses (segments.map spoken) ls := by
  induction segments generalizing offset acc with
  | nil =>
    refine ⟨[⟨.eof, offset⟩], ?_, .done rfl⟩
    change scanFrom offset acc [] = _
    rw [scanFrom, List.reverse_cons]
  | cons s rest ih =>
    rw [List.forall_mem_cons] at hsegments
    have hrest := ih hsegments.2 hapart.tail
    -- The segment is one token, which is read as the name of a field.
    have hsegment : ∃ token next, Parse.fieldName? token = some (spoken s) ∧
        scanFrom (offset + 1) (⟨.dot, offset⟩ :: acc) (s.toList ++ dotted rest) =
          scanFrom next (⟨token, offset + 1⟩ :: ⟨.dot, offset⟩ :: acc) (dotted rest) := by
      rcases hsegments.1 with hname | ⟨n, hn, rfl⟩
      · have htail : ∀ c ∈ (dotted rest).head?, continuesName c = false := by
          intro c hc
          rw [head?_dotted hc]
          decide
        obtain ⟨next, hnext⟩ := scanFrom_name hname htail (offset + 1) (⟨.dot, offset⟩ :: acc)
        exact ⟨_, next, fieldName?_word s, hnext⟩
      · have hnames : ∀ t ∈ rest.head?, isName t = true := by
          intro t ht
          cases rest with
          | nil => cases ht
          | cons first more =>
            cases ht
            rw [List.forall_mem_cons] at hsegments
            apply hsegments.2.1.resolve_right
            intro hposition
            exact hapart.rel ⟨⟨n, hn, rfl⟩, hposition⟩
        have hspoken : spoken n.repr = n.repr := by
          apply if_neg
          intro h
          have hname := isName_repr n
          rw [h] at hname
          revert hname
          decide
        obtain ⟨next, hnext⟩ := scanFrom_position n (dotted_of_isName hnames) (offset + 1) (⟨.dot, offset⟩ :: acc)
        refine ⟨_, next, ?_, hnext⟩
        rw [hspoken]
        exact fieldName?_position hn
    obtain ⟨token, next, hfield, hscan⟩ := hsegment
    obtain ⟨ls, hls, haccesses⟩ := hrest next (⟨token, offset + 1⟩ :: ⟨.dot, offset⟩ :: acc)
    refine ⟨⟨.dot, offset⟩ :: ⟨token, offset + 1⟩ :: ls, ?_, .member rfl hfield haccesses⟩
    change scanFrom offset acc ('.' :: (s.toList ++ dotted rest)) = _
    rw [scanFrom_dot, hscan, hls]
    simp

/-! ### Parsing -/

namespace Parse

theorem accesses_eq {fields : List String} {ls : List Lexeme} (h : Accesses fields ls) (inner : Parser Expr)
    (e : Expr) : ∃ (l : Lexeme) (hlength : [l].length ≤ ls.length), l.token = .eof ∧
      accesses inner e ls = .ok (fields.foldl .member e, ⟨[l], hlength⟩) := by
  induction h generalizing e with
  | @done l eof =>
    refine ⟨l, Nat.le_refl _, eof, ?_⟩
    rw [accesses]
    simp [eof]
  | @member field rest d f ls dot name more ih =>
    obtain ⟨l, hlength, heof, heq⟩ := ih (.member e field)
    have hle : ls.length ≤ (d :: f :: ls).length := by
      rw [List.length_cons, List.length_cons]
      omega
    refine ⟨l, Nat.le_trans hlength hle, heof, ?_⟩
    unfold accesses
    simp [dot, name, heq, Except.map]

/-- A name with members after it, up to the end, is one expression. -/
theorem ofLexemes_eq {root : String} {fields : List String} {l : Lexeme} {ls : List Lexeme}
    (hroot : l.token = .ident root) (h : Accesses fields ls) :
    ofLexemes (l :: ls) = .ok (fields.foldl .member (.ident root)) := by
  have hprimary (inner : Parser Expr) : primary inner (l :: ls) = .ok (.ident root, ⟨ls, by simp⟩) := by
    unfold primary
    simp [hroot, atom?]
  -- No operator stands before, between or after the members.
  have hunary (n : Nat) : ∃ (last : Lexeme) (hlength : [last].length < (l :: ls).length), last.token = .eof ∧
      unary (n + 1) (l :: ls) = .ok (fields.foldl .member (.ident root), ⟨[last], hlength⟩) := by
    obtain ⟨last, hlength, heof, haccesses⟩ :=
      accesses_eq h (conditionalBody (unary n) (conditional n)) (.ident root)
    refine ⟨last, Nat.lt_succ_of_le hlength, heof, ?_⟩
    unfold unary unaryBody postfixed
    simp [hroot, unaryOp?, hprimary, haccesses, bind, Except.bind]
  obtain ⟨last, hlength, heof, hoperand⟩ := hunary 126
  have hbinary : binary (unary 127) 0 (l :: ls) =
      .ok (fields.foldl .member (.ident root), ⟨[last], hlength⟩) := by
    unfold binary
    rw [hoperand]
    unfold climb
    simp [heof, binaryOp?, Except.map]
  have hconditional : conditional maxNesting (l :: ls) =
      .ok (fields.foldl .member (.ident root), ⟨[last], hlength⟩) := by
    change conditionalBody (unary 127) (conditional 127) (l :: ls) = _
    unfold conditionalBody
    rw [hbinary]
    simp [heof, bind, Except.bind]
  unfold ofLexemes
  rw [hconditional]
  simp [peek, hroot, heof, bind, Except.bind]

end Parse

/-- The text of a path is an expression that goes from its root through its segments. -/
theorem parse_intercalate {root : String} {segments : List String} (hroot : isName root = true)
    (hfree : Token.ofWord root = .ident root) (hsegments : ∀ s ∈ segments, IsSegment s) (hapart : Apart segments) :
    parse (".".intercalate (root :: segments)) = .ok ((segments.map spoken).foldl .member (.ident root)) := by
  have htext (first : String) (rest : List String) :
      (".".intercalate (first :: rest)).toList = first.toList ++ dotted rest := by
    induction rest generalizing first with
    | nil => simp [dotted]
    | cons s more ih =>
      rw [String.intercalate_cons_cons, String.toList_append, ih]
      simp [dotted]
  have htail : ∀ c ∈ (dotted segments).head?, continuesName c = false := by
    intro c hc
    rw [head?_dotted hc]
    decide
  obtain ⟨next, hnext⟩ := scanFrom_name hroot htail 0 []
  obtain ⟨ls, hls, haccesses⟩ := scanFrom_dotted hsegments hapart next [⟨.ofWord root, 0⟩]
  have hscan : scan (".".intercalate (root :: segments)) = .ok (⟨.ofWord root, 0⟩ :: ls) := by
    unfold scan
    rw [htext, hnext, hls]
    rfl
  unfold parse
  rw [hscan]
  exact Parse.ofLexemes_eq hfree haccesses

end LiveLayout.Expr
