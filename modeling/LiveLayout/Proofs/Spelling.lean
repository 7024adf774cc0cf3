import LiveLayout.Proofs.Dotted.Lexemes
/-!
How tokens are spelled, and texts of spelled tokens with blanks between them. Scanning such a text gives back its
tokens, each at the byte where its spelling starts.
-/
namespace LiveLayout.Expr

open LiveLayout.Path

inductive Keyword : Token → String → Prop where
  | true : Keyword .true "true"
  | false : Keyword .false "false"
  | null : Keyword .null "null"
  | undefined : Keyword .null "undefined"

/-- Punctuation and operators. Those for equality may end in one more sign. -/
inductive Mark : Token → String → Prop where
  | dot : Mark .dot "."
  | comma : Mark .comma ","
  | lparen : Mark .lparen "("
  | rparen : Mark .rparen ")"
  | lbracket : Mark .lbracket "["
  | rbracket : Mark .rbracket "]"
  | question : Mark .question "?"
  | colon : Mark .colon ":"
  | plus : Mark .plus "+"
  | minus : Mark .minus "-"
  | star : Mark .star "*"
  | slash : Mark .slash "/"
  | percent : Mark .percent "%"
  | bang : Mark .bang "!"
  | eqEq : Mark .eqEq "=="
  | eqEqEq : Mark .eqEq "==="
  | bangEq : Mark .bangEq "!="
  | bangEqEq : Mark .bangEq "!=="
  | lt : Mark .lt "<"
  | ltEq : Mark .ltEq "<="
  | gt : Mark .gt ">"
  | gtEq : Mark .gtEq ">="
  | andAnd : Mark .andAnd "&&"
  | orOr : Mark .orOr "||"

/-- A character of a string between quotes: the quote and the backslash come after a backslash. -/
def escaped (quote c : Char) : List Char := if c = quote ∨ c = '\\' then ['\\', c] else [c]

def quoted (quote : Char) (s : String) : String :=
  String.ofList (quote :: (s.toList.flatMap (escaped quote) ++ [quote]))

/-- The spellings of tokens. A numeral stands for the double nearest to it. -/
inductive Spells : Token → String → Prop where
  | name {s : String} (name : isName s = true) (free : ∀ t, ¬Keyword t s) : Spells (.ident s) s
  | text (s : String) {quote : Char} (quotes : quote = '"' ∨ quote = '\'') : Spells (.str s) (quoted quote s)
  | numeral (n : Nat) : Spells (.number (Decimal.nearest n 0)) n.repr
  | keyword {t : Token} {s : String} (keyword : Keyword t s) : Spells t s
  | mark {t : Token} {s : String} (mark : Mark t s) : Spells t s

/-! ### Bytes -/

theorem byteLength_append (cs ds : List Char) : byteLength (cs ++ ds) = byteLength cs + byteLength ds := by
  induction cs with
  | nil => exact (Nat.zero_add _).symm
  | cons c rest ih =>
    change c.utf8Size + byteLength (rest ++ ds) = c.utf8Size + byteLength rest + byteLength ds
    rw [ih, Nat.add_assoc]

theorem byteLength_toList (s : String) : byteLength s.toList = s.utf8ByteSize := by
  have hlist (cs : List Char) : byteLength cs = (String.ofList cs).utf8ByteSize := by
    induction cs with
    | nil => rfl
    | cons c rest ih =>
      rw [String.ofList_cons, String.utf8ByteSize_append, String.utf8ByteSize_singleton, ← ih]
      rfl
  rw [hlist, String.ofList_toList]

/-! ### Spelled tokens -/

section

variable {t : Token} {s : String} {tail : List Char} {offset : Nat}

theorem not_keyword_iff : (∀ t, ¬Keyword t s) ↔ Token.ofWord s = .ident s := by
  unfold Token.ofWord
  constructor
  · intro h
    have htrue : s ≠ "true" := by
      rintro rfl
      exact h _ .true
    have hfalse : s ≠ "false" := by
      rintro rfl
      exact h _ .false
    have hnull : ¬(s = "null" ∨ s = "undefined") := by
      rintro (rfl | rfl)
      · exact h _ .null
      · exact h _ .undefined
    rw [if_neg htrue, if_neg hfalse, if_neg hnull]
  · rintro h t ⟨⟩ <;> exact absurd h (by decide)

/-- No blank goes on with a word. -/
theorem not_continuesName_of_blank (h : ∀ c ∈ tail.head?, Text.isBlank c = true) :
    ∀ c ∈ tail.head?, continuesName c = false := by
  intro c hc
  by_contra hcontinues
  rw [Bool.not_eq_false] at hcontinues
  have hblank := h c hc
  rw [not_blank_of_continuesName hcontinues] at hblank
  cases hblank

theorem not_isDigit_of_blank (h : ∀ c ∈ tail.head?, Text.isBlank c = true) :
    ∀ c ∈ tail.head?, Decimal.isDigit c = false := by
  intro c hc
  by_contra hdigit
  rw [Bool.not_eq_false] at hdigit
  have hblank := h c hc
  rw [not_blank_of_isDigit hdigit] at hblank
  cases hblank

theorem scans_keyword (h : Keyword t s) (htail : ∀ c ∈ tail.head?, Text.isBlank c = true) :
    Scans offset t s.toList tail := by
  have hname : isName s = true := by cases h <;> decide
  have hword : Token.ofWord s = t := by cases h <;> decide
  rw [← hword]
  exact scans_name hname (not_continuesName_of_blank htail) offset

/-- Operators that are read on up to an equality sign. -/
theorem scanToken_alone {c : Char} (h : c = '!' ∧ t = .bang ∨ c = '<' ∧ t = .lt ∨ c = '>' ∧ t = .gt)
    (htail : ∀ c ∈ tail.head?, c ≠ '=') : scanToken offset c tail = .ok ⟨t, offset + 1, tail⟩ := by
  cases tail with
  | nil => rcases h with ⟨rfl, rfl⟩ | ⟨rfl, rfl⟩ | ⟨rfl, rfl⟩ <;> rfl
  | cons d rest =>
    have hd := htail d rfl
    unfold scanToken
    rcases h with ⟨rfl, rfl⟩ | ⟨rfl, rfl⟩ | ⟨rfl, rfl⟩
    all_goals
      simp only [Token.ofChar?]
      split <;> simp_all

theorem skipEquals_of_ne (htail : ∀ c ∈ tail.head?, c ≠ '=') : skipEquals t offset tail = ⟨t, offset, tail⟩ := by
  unfold skipEquals
  split
  · exact absurd rfl (htail '=' rfl)
  · rfl

theorem scans_mark (h : Mark t s) (htail : ∀ c ∈ tail.head?, c ≠ '=') : Scans offset t s.toList tail := by
  cases h with
  | bang => exact ⟨'!', [], rfl, by decide, scanToken_alone (by simp) htail⟩
  | lt => exact ⟨'<', [], rfl, by decide, scanToken_alone (by simp) htail⟩
  | gt => exact ⟨'>', [], rfl, by decide, scanToken_alone (by simp) htail⟩
  | eqEq => exact ⟨'=', ['='], rfl, by decide, congrArg Except.ok (skipEquals_of_ne htail)⟩
  | bangEq => exact ⟨'!', ['='], rfl, by decide, congrArg Except.ok (skipEquals_of_ne htail)⟩
  | _ => exact ⟨_, _, rfl, by decide, rfl⟩

theorem scanString_escaped {quote : Char} (hquote : quote = '"' ∨ quote = '\'') (cs acc : List Char) (offset : Nat) :
    scanString quote offset acc (cs.flatMap (escaped quote) ++ quote :: tail) =
      .ok ⟨.str (String.ofList (acc.reverse ++ cs)),
        offset + byteLength (cs.flatMap (escaped quote)) + quote.utf8Size, tail⟩ := by
  have hbackslash : '\\' ≠ quote := by rcases hquote with rfl | rfl <;> decide
  induction cs generalizing acc offset with
  | nil =>
    rw [List.flatMap_nil, List.nil_append, List.append_nil]
    unfold scanString
    rw [if_pos rfl]
    rfl
  | cons c rest ih =>
    rw [List.flatMap_cons, byteLength_append]
    by_cases hc : c = quote ∨ c = '\\'
    · have hsame : unescape c = c := by
        rcases hc with rfl | rfl
        · rcases hquote with rfl | rfl <;> rfl
        · rfl
      rw [escaped, if_pos hc, List.append_assoc, List.cons_append, List.cons_append, List.nil_append]
      unfold scanString
      dsimp only
      rw [if_neg hbackslash, if_pos rfl, hsame, ih, List.reverse_cons, List.append_assoc, List.singleton_append]
      have hsize : byteLength ['\\', c] = 1 + c.utf8Size := rfl
      rw [hsize, ← Nat.add_assoc, ← Nat.add_assoc]
    · obtain ⟨hends, hescape⟩ := not_or.1 hc
      rw [escaped, if_neg hc, List.append_assoc, List.singleton_append]
      unfold scanString
      rw [if_neg hends, if_neg hescape, ih, List.reverse_cons, List.append_assoc, List.singleton_append]
      have hsize : byteLength [c] = c.utf8Size := rfl
      rw [hsize, ← Nat.add_assoc]

theorem scans_quoted {quote : Char} (hquote : quote = '"' ∨ quote = '\'') (s : String) :
    Scans offset (.str s) (quoted quote s).toList tail := by
  have hsize : quote.utf8Size = 1 := by rcases hquote with rfl | rfl <;> rfl
  have hblank : Text.isBlank quote = false := by rcases hquote with rfl | rfl <;> decide
  have hopen (r : List Char) : scanToken offset quote r = scanString quote (offset + 1) [] r := by
    rcases hquote with rfl | rfl <;> rfl
  have hlength : byteLength (quote :: (s.toList.flatMap (escaped quote) ++ [quote])) =
      1 + (byteLength (s.toList.flatMap (escaped quote)) + 1) := by
    change quote.utf8Size + byteLength (s.toList.flatMap (escaped quote) ++ [quote]) = _
    rw [byteLength_append, hsize]
    change 1 + (byteLength (s.toList.flatMap (escaped quote)) + quote.utf8Size) = _
    rw [hsize]
  refine ⟨quote, s.toList.flatMap (escaped quote) ++ [quote], String.toList_ofList, hblank, ?_⟩
  rw [hopen, List.append_assoc, List.singleton_append, scanString_escaped hquote, hsize, quoted,
    String.toList_ofList, hlength, List.reverse_nil, List.nil_append, String.ofList_toList]
  simp only [Nat.add_assoc]

/-- With a blank or nothing after it, a spelling is the token that it spells. -/
theorem Spells.scans (h : Spells t s) (htail : ∀ c ∈ tail.head?, Text.isBlank c = true) :
    Scans offset t s.toList tail := by
  cases h with
  | name hname hfree =>
    have hscans := scans_name hname (not_continuesName_of_blank htail) offset
    rwa [not_keyword_iff.1 hfree] at hscans
  | text s hquote => exact scans_quoted hquote s
  | numeral n =>
    refine scans_numeral n (not_isDigit_of_blank htail) (fun d rest hpoint => ?_) offset
    rw [hpoint] at htail
    exact absurd (htail '.' rfl) (by decide)
  | keyword hkeyword => exact scans_keyword hkeyword htail
  | mark hmark =>
    refine scans_mark hmark fun c hc => ?_
    rintro rfl
    exact absurd (htail _ hc) (by decide)

end

/-! ### Texts -/

/-- A token as it is written, with the blanks before it. -/
structure Piece where
  gap : String
  token : Token
  spelling : String
  blank : ∀ c ∈ gap.toList, Text.isBlank c = true
  spells : Spells token spelling

/-- Some tokens as they are written, one after the other, and what follows them. -/
def written (tail : String) : List Piece → String
  | [] => tail
  | p :: rest => p.gap ++ (p.spelling ++ written tail rest)

/-- The tokens, each at the byte where its spelling starts, if the first gap starts at `offset`. -/
def placed (offset : Nat) : List Piece → List Lexeme
  | [] => []
  | p :: rest =>
    ⟨p.token, offset + p.gap.utf8ByteSize⟩ ::
      placed (offset + p.gap.utf8ByteSize + p.spelling.utf8ByteSize) rest

theorem scanFrom_blanks {cs : List Char} (h : ∀ c ∈ cs, Text.isBlank c = true) (rest : List Char) (offset : Nat)
    (acc : List Lexeme) : scanFrom offset acc (cs ++ rest) = scanFrom (offset + byteLength cs) acc rest := by
  induction cs generalizing offset with
  | nil => rfl
  | cons c cs ih =>
    rw [List.forall_mem_cons] at h
    rw [List.cons_append, scanFrom, if_pos h.1, ih h.2, Nat.add_assoc]
    rfl

/-- After a spelling comes a blank, or the text ends. -/
theorem head?_written {pieces : List Piece} {tail : String} (hgaps : ∀ p ∈ pieces, p.gap ≠ "")
    (htail : ∀ c ∈ tail.toList, Text.isBlank c = true) :
    ∀ c ∈ (written tail pieces).toList.head?, Text.isBlank c = true := by
  intro c hc
  cases pieces with
  | nil => exact htail c (List.mem_of_mem_head? hc)
  | cons p rest =>
    have hgap : p.gap.toList ≠ [] := fun hnil => hgaps p (List.mem_cons_self ..) (String.toList_eq_nil_iff.1 hnil)
    rw [written, String.toList_append, List.head?_append_of_ne_nil _ hgap] at hc
    exact p.blank c (List.mem_of_mem_head? hc)

theorem scanFrom_written {tail : String} (htail : ∀ c ∈ tail.toList, Text.isBlank c = true) (pieces : List Piece)
    (hgaps : ∀ p ∈ pieces.tail, p.gap ≠ "") (offset : Nat) (acc : List Lexeme) :
    scanFrom offset acc (written tail pieces).toList =
      .ok (acc.reverse ++ (placed offset pieces ++ [⟨.eof, offset + (written tail pieces).utf8ByteSize⟩])) := by
  induction pieces generalizing offset acc with
  | nil =>
    have hblanks := scanFrom_blanks htail [] offset acc
    rw [List.append_nil] at hblanks
    rw [written, hblanks, byteLength_toList, scanFrom, List.reverse_cons]
    rfl
  | cons p rest ih =>
    have hrest : ∀ q ∈ rest.tail, q.gap ≠ "" := fun q hq => hgaps q (List.mem_of_mem_tail hq)
    have hnext : ∀ c ∈ (written tail rest).toList.head?, Text.isBlank c = true := head?_written hgaps htail
    have hscans : Scans (offset + p.gap.utf8ByteSize) p.token p.spelling.toList (written tail rest).toList :=
      p.spells.scans hnext
    rw [written, String.toList_append, scanFrom_blanks p.blank, String.toList_append, byteLength_toList,
      hscans.scanFrom_eq, byteLength_toList, ih hrest, List.reverse_cons, List.append_assoc]
    simp [placed, Nat.add_assoc]

/-- Tokens that are spelled with blanks between them, and any blanks around them, are scanned as these tokens, each
at the byte where its spelling starts, and the end of the text after them. -/
theorem scan_written (pieces : List Piece) (hgaps : ∀ p ∈ pieces.tail, p.gap ≠ "") {tail : String}
    (htail : ∀ c ∈ tail.toList, Text.isBlank c = true) :
    scan (written tail pieces) = .ok (placed 0 pieces ++ [⟨.eof, (written tail pieces).utf8ByteSize⟩]) := by
  have hscan := scanFrom_written htail pieces hgaps 0 []
  rwa [Nat.zero_add] at hscan

/-- A name that is not in ASCII, an operator of three characters, a string with a quote in it, a numeral and a
keyword. -/
def mixedPieces : List Piece := [
  ⟨" ", .ident "naïve", "naïve", List.all_eq_true.1 rfl, .name (by decide +kernel) (not_keyword_iff.2 (by decide))⟩,
  ⟨"\t", .eqEq, "===", List.all_eq_true.1 rfl, .mark .eqEqEq⟩,
  ⟨" ", .str "it's", quoted '\'' "it's", List.all_eq_true.1 rfl, .text "it's" (.inr rfl)⟩,
  ⟨"  ", .number (Decimal.nearest 42 0), "42", List.all_eq_true.1 rfl, .numeral 42⟩,
  ⟨" ", .null, "undefined", List.all_eq_true.1 rfl, .keyword .undefined⟩]

theorem scan_written_mixed : (∀ p ∈ mixedPieces.tail, p.gap ≠ "") ∧ (∀ c ∈ "\n".toList, Text.isBlank c = true) ∧
    written "\n" mixedPieces = " naïve\t=== 'it\\'s'  42 undefined\n" ∧
    scan " naïve\t=== 'it\\'s'  42 undefined\n" =
      .ok [⟨.ident "naïve", 1⟩, ⟨.eqEq, 8⟩, ⟨.str "it's", 12⟩, ⟨.number (Decimal.nearest 42 0), 21⟩, ⟨.null, 24⟩,
        ⟨.eof, 34⟩] := by
  have hgaps : ∀ p ∈ mixedPieces.tail, p.gap ≠ "" := by simp [mixedPieces]
  have htail : ∀ c ∈ "\n".toList, Text.isBlank c = true := List.all_eq_true.1 rfl
  have htext : written "\n" mixedPieces = " naïve\t=== 'it\\'s'  42 undefined\n" := by decide
  refine ⟨hgaps, htail, htext, ?_⟩
  rw [← htext, scan_written mixedPieces hgaps htail, htext]
  rfl

end LiveLayout.Expr
