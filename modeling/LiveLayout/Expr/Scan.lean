import LiveLayout.Decimal.Reading
import LiveLayout.Expr.Token
import LiveLayout.Text.Alphabetic
import LiveLayout.Text.Blank
import LiveLayout.Text.Numeric
/-!
From characters to tokens. Blanks separate tokens and are dropped; the list always ends in `eof`.
-/
namespace LiveLayout.Expr

def byteLength (cs : List Char) : Nat := cs.foldr (fun c n => c.utf8Size + n) 0

def startsName (c : Char) : Bool := c == '_' || c == '$' || Text.isAlphabetic c

def continuesName (c : Char) : Bool := startsName c || Text.isNumeric c

def Token.ofWord (word : String) : Token :=
  if word = "true" then .true
  else if word = "false" then .false
  else if word = "null" ∨ word = "undefined" then .null
  else .ident word

/-- The character that an escaped character stands for. -/
def unescape (c : Char) : Char := if c = 'n' then '\n' else if c = 't' then '\t' else c

/-- A token, the byte after it and the characters after it. -/
structure Scanned where
  token : Token
  offset : Nat
  rest : List Char

/-- The string up to its closing quote, where `acc` holds the characters read so far in reverse. -/
def scanString (quote : Char) (offset : Nat) (acc : List Char) :
    List Char → Except SyntaxError Scanned
  | [] => .error ⟨.openString, offset⟩
  | c :: r =>
    if c = quote then .ok ⟨.str (String.ofList acc.reverse), offset + c.utf8Size, r⟩
    else if c = '\\' then
      match r with
      | [] => .error ⟨.openEscape, offset + 1⟩
      | d :: r' => scanString quote (offset + 1 + d.utf8Size) (unescape d :: acc) r'
    else scanString quote (offset + c.utf8Size) (c :: acc) r

/-- A point belongs to a numeral only when a digit follows it. -/
def scanNumber (offset : Nat) (cs : List Char) : Scanned :=
  let whole := cs.takeWhile Decimal.isDigit
  match cs.dropWhile Decimal.isDigit with
  | '.' :: d :: r =>
    if Decimal.isDigit d then
      let fraction := (d :: r).takeWhile Decimal.isDigit
      ⟨.number (Decimal.nearest (Decimal.natOfDigits (whole ++ fraction)) (-fraction.length)),
        offset + whole.length + 1 + fraction.length, (d :: r).dropWhile Decimal.isDigit⟩
    else ⟨.number (Decimal.nearest (Decimal.natOfDigits whole) 0), offset + whole.length, '.' :: d :: r⟩
  | rest => ⟨.number (Decimal.nearest (Decimal.natOfDigits whole) 0), offset + whole.length, rest⟩

def scanWord (offset : Nat) (cs : List Char) : Scanned :=
  let word := cs.takeWhile continuesName
  ⟨.ofWord (String.ofList word), offset + byteLength word, cs.dropWhile continuesName⟩

/-- The tokens that are one character. -/
def Token.ofChar? : Char → Option Token
  | '.' => some .dot
  | ',' => some .comma
  | '(' => some .lparen
  | ')' => some .rparen
  | '[' => some .lbracket
  | ']' => some .rbracket
  | '?' => some .question
  | ':' => some .colon
  | '+' => some .plus
  | '-' => some .minus
  | '*' => some .star
  | '/' => some .slash
  | '%' => some .percent
  | _ => none

/-- An optional `=`, which the comparison operators with three characters may end in. -/
def skipEquals (token : Token) (offset : Nat) : List Char → Scanned
  | '=' :: r => ⟨token, offset + 1, r⟩
  | r => ⟨token, offset, r⟩

/-- The token that starts with `c`. -/
def scanToken (offset : Nat) (c : Char) (r : List Char) : Except SyntaxError Scanned :=
  match Token.ofChar? c with
  | some t => .ok ⟨t, offset + 1, r⟩
  | none =>
    match c, r with
    | '!', '=' :: r' => .ok (skipEquals .bangEq (offset + 2) r')
    | '!', r' => .ok ⟨.bang, offset + 1, r'⟩
    | '=', '=' :: r' => .ok (skipEquals .eqEq (offset + 2) r')
    | '=', _ => .error ⟨.assignment, offset + 1⟩
    | '<', '=' :: r' => .ok ⟨.ltEq, offset + 2, r'⟩
    | '<', r' => .ok ⟨.lt, offset + 1, r'⟩
    | '>', '=' :: r' => .ok ⟨.gtEq, offset + 2, r'⟩
    | '>', r' => .ok ⟨.gt, offset + 1, r'⟩
    | '&', '&' :: r' => .ok ⟨.andAnd, offset + 2, r'⟩
    | '&', _ => .error ⟨.halfAnd, offset + 1⟩
    | '|', '|' :: r' => .ok ⟨.orOr, offset + 2, r'⟩
    | '|', _ => .error ⟨.halfOr, offset + 1⟩
    | c, r' =>
      if c = '"' ∨ c = '\'' then scanString c (offset + 1) [] r'
      else if Decimal.isDigit c then .ok (scanNumber offset (c :: r'))
      else if startsName c then .ok (scanWord offset (c :: r'))
      else .error ⟨.unexpectedChar c, offset⟩

/-! ### A token takes at least one character -/

theorem length_scanString_le {quote : Char} {offset : Nat} {acc cs : List Char} {s : Scanned}
    (h : scanString quote offset acc cs = .ok s) : s.rest.length ≤ cs.length := by
  fun_induction scanString quote offset acc cs with
  | case1 => simp at h
  | case2 => cases h; simp
  | case3 => simp at h
  | case4 _ _ _ _ _ ih => have := ih h; simp only [List.length_cons]; omega
  | case5 _ _ _ _ _ _ ih => have := ih h; simp only [List.length_cons]; omega

theorem length_dropWhile_lt {p : Char → Bool} {c : Char} {r : List Char} (h : p c) :
    ((c :: r).dropWhile p).length < (c :: r).length := by
  have := (List.dropWhile_sublist (l := r) p).length_le
  simp only [List.dropWhile_cons, h, if_true, List.length_cons]
  omega

theorem length_scanNumber_lt {offset : Nat} {c : Char} {r : List Char} (h : Decimal.isDigit c) :
    (scanNumber offset (c :: r)).rest.length < (c :: r).length := by
  have hd := length_dropWhile_lt (r := r) h
  unfold scanNumber
  split
  · rename_i d r' heq
    rw [heq] at hd
    split
    · have := (List.dropWhile_sublist (l := d :: r') Decimal.isDigit).length_le
      simp only [List.length_cons] at *
      omega
    · exact hd
  · exact hd

theorem length_skipEquals_le (token : Token) (offset : Nat) (r : List Char) :
    (skipEquals token offset r).rest.length ≤ r.length := by
  unfold skipEquals
  split <;> simp

theorem length_scanToken_lt {offset : Nat} {c : Char} {r : List Char} {s : Scanned}
    (h : scanToken offset c r = .ok s) : s.rest.length < (c :: r).length := by
  unfold scanToken at h
  split at h
  · cases h; simp
  · split at h
    case h_1 => cases h; have := length_skipEquals_le .bangEq (offset + 2) ‹_›; grind
    case h_3 => cases h; have := length_skipEquals_le .eqEq (offset + 2) ‹_›; grind
    case h_13 =>
      split at h
      · have := length_scanString_le h; simp only [List.length_cons]; omega
      · split at h
        · cases h; exact length_scanNumber_lt ‹_›
        · split at h
          · cases h
            exact length_dropWhile_lt (by simp [continuesName, ‹startsName _ = true›])
          · cases h
    all_goals cases h
    all_goals simp only [List.length_cons]; omega

/-- The lexemes of the characters from `offset` on, after the ones read so far in reverse. -/
def scanFrom (offset : Nat) (acc : List Lexeme) (cs : List Char) : Except SyntaxError (List Lexeme) :=
  match cs with
  | [] => .ok (⟨.eof, offset⟩ :: acc).reverse
  | c :: r =>
    if Text.isBlank c then scanFrom (offset + c.utf8Size) acc r
    else match _h : scanToken offset c r with
      | .error e => .error e
      | .ok s => scanFrom s.offset (⟨s.token, offset⟩ :: acc) s.rest
termination_by cs.length
decreasing_by
  · simp
  · exact length_scanToken_lt ‹_›

/-- The lexemes of a whole text. -/
def scan (src : String) : Except SyntaxError (List Lexeme) := scanFrom 0 [] src.toList

end LiveLayout.Expr
