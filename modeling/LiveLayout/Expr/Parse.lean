import LiveLayout.Expr.Basic
import LiveLayout.Expr.Scan
/-!
From tokens to expressions. Binary operators associate to the left in six levels of strength, a
conditional binds weakest, and members and positions bind strongest. Parentheses, brackets, the parts
of a conditional and the operands of prefix operators may lie `maxNesting` deep in one another.
-/
namespace LiveLayout.Expr
namespace Parse

def maxNesting : Nat := 128

/-- The tokens left after something was read. -/
abbrev Remaining (ts : List Lexeme) := { r : List Lexeme // r.length < ts.length }

abbrev Parser (α : Type) := (ts : List Lexeme) → Except SyntaxError (α × Remaining ts)

def peek : List Lexeme → Token
  | [] => .eof
  | l :: _ => l.token

def offsetOf : List Lexeme → Nat
  | [] => 0
  | l :: _ => l.offset

def fail {α : Type} (ts : List Lexeme) (cause : SyntaxCause) : Except SyntaxError α :=
  .error ⟨cause, offsetOf ts⟩

def tooDeep {α : Type} : Parser α := fun ts => fail ts .tooDeep

/-- Integral literals are whole numbers, as far as doubles hold every integer. A literal too large for
a double is null. -/
def literalOf (x : Float) : Json :=
  if x.isNaN || x.isInf then .null
  else match Decimal.whole? x with
    | some n => if n.natAbs < Decimal.pow2 53 then .number (.int n) else .number (.float x)
    | none => .number (.float x)

/-- The operator of a token and its strength. -/
def binaryOp? : Token → Option (BinaryOp × Nat)
  | .orOr => some (.or, 1)
  | .andAnd => some (.and, 2)
  | .eqEq => some (.eq, 3)
  | .bangEq => some (.notEq, 3)
  | .lt => some (.lt, 4)
  | .ltEq => some (.ltEq, 4)
  | .gt => some (.gt, 4)
  | .gtEq => some (.gtEq, 4)
  | .plus => some (.add, 5)
  | .minus => some (.sub, 5)
  | .star => some (.mul, 6)
  | .slash => some (.div, 6)
  | .percent => some (.rem, 6)
  | _ => none

def unaryOp? : Token → Option UnaryOp
  | .bang => some .not
  | .minus => some .neg
  | _ => none

/-- The name after a point: a word, a keyword, or a numeral for a position. -/
def fieldName? : Token → Option String
  | .ident name => some name
  | .number x =>
    match Decimal.whole? x with
    | some (.ofNat n) => some (toString (min n (Decimal.pow2 64 - 1)))
    | _ => none
  | .true => some "true"
  | .false => some "false"
  | .null => some "null"
  | _ => none

/-- The value of a token that is an expression by itself. -/
def atom? : Token → Option Expr
  | .number x => some (.literal (literalOf x))
  | .str s => some (.literal (.string s))
  | .true => some (.literal (.bool true))
  | .false => some (.literal (.bool false))
  | .null => some (.literal .null)
  | .ident name => some (.ident name)
  | _ => none

/-- The wanted token, which is dropped. -/
def expect (wanted : Token) : Parser Unit
  | [] => fail [] (.expected wanted .eof)
  | l :: r => if l.token = wanted then .ok ((), ⟨r, by simp⟩) else fail (l :: r) (.expected wanted l.token)

/-- The items of an array up to its bracket, after the ones read so far in reverse. -/
def items (inner : Parser Expr) (acc : List Expr) (ts : List Lexeme) :
    Except SyntaxError (Expr × Remaining ts) :=
  match inner ts with
  | .error e => .error e
  | .ok (e, ⟨[], h⟩) => (expect .rbracket []).map fun (_, r) => (.array (e :: acc).reverse, ⟨r.val, by
      have := r.property; simp at this⟩)
  | .ok (e, ⟨l :: r, h⟩) =>
    have hr : r.length < ts.length := by simp only [List.length_cons] at h; omega
    if l.token = .comma then
      (items inner (e :: acc) r).map fun (a, s) => (a, ⟨s.val, Nat.lt_trans s.property hr⟩)
    else
      (expect .rbracket (l :: r)).map fun (_, s) =>
        (.array (e :: acc).reverse, ⟨s.val, Nat.lt_trans s.property h⟩)
termination_by ts.length

def primary (inner : Parser Expr) : Parser Expr
  | [] => fail [] (.expectedValue .eof)
  | l :: r =>
    match atom? l.token with
    | some e => .ok (e, ⟨r, by simp⟩)
    | none =>
      if l.token = .lparen then do
        let (e, r₁) ← inner r
        let (_, r₂) ← expect .rparen r₁.val
        .ok (e, ⟨r₂.val, by
          have := r₁.property; have := r₂.property; simp only [List.length_cons]; omega⟩)
      else if l.token = .lbracket then
        if peek r = .rbracket then do
          let (_, r₁) ← expect .rbracket r
          .ok (.array [], ⟨r₁.val, by have := r₁.property; simp only [List.length_cons]; omega⟩)
        else do
          let (e, r₁) ← items inner [] r
          .ok (e, ⟨r₁.val, by have := r₁.property; simp only [List.length_cons]; omega⟩)
      else fail (l :: r) (.expectedValue l.token)

/-- The members and positions that follow an expression. -/
def accesses (inner : Parser Expr) (e : Expr) (ts : List Lexeme) :
    Except SyntaxError (Expr × { r : List Lexeme // r.length ≤ ts.length }) :=
  match ts with
  | [] => .ok (e, ⟨[], Nat.le_refl _⟩)
  | l :: r =>
    if l.token = .dot then
      match r with
      | [] => fail [] (.expectedField .eof)
      | f :: r' =>
        match fieldName? f.token with
        | some name =>
          (accesses inner (.member e name) r').map fun (a, s) =>
            (a, ⟨s.val, Nat.le_succ_of_le (Nat.le_succ_of_le s.property)⟩)
        | none => .error ⟨.expectedField f.token, match r' with
            | [] => f.offset
            | next :: _ => next.offset⟩
    else if l.token = .lbracket then
      match inner r with
      | .error e => .error e
      | .ok (position, r₁) =>
        match expect .rbracket r₁.val with
        | .error e => .error e
        | .ok (_, r₂) =>
          have h : r₂.val.length < (l :: r).length :=
            Nat.lt_succ_of_lt (Nat.lt_trans r₂.property r₁.property)
          (accesses inner (.index e position) r₂.val).map fun (a, s) =>
            (a, ⟨s.val, Nat.le_of_lt (Nat.lt_of_le_of_lt s.property h)⟩)
    else .ok (e, ⟨l :: r, Nat.le_refl _⟩)
termination_by ts.length
decreasing_by
  · exact Nat.lt_succ_of_lt (Nat.lt_succ_self _)
  · exact h

def postfixed (inner : Parser Expr) : Parser Expr := fun ts => do
  let (e, r₁) ← primary inner ts
  let (e, r₂) ← accesses inner e r₁.val
  .ok (e, ⟨r₂.val, Nat.lt_of_le_of_lt r₂.property r₁.property⟩)

/-- A prefix operator with its operand, or an expression that starts with none. -/
def unaryBody (operand inner : Parser Expr) : Parser Expr
  | [] => postfixed inner []
  | l :: r =>
    match unaryOp? l.token with
    | some op =>
      (operand r).map fun (e, s) =>
        (.unary op e, ⟨s.val, by have := s.property; simp only [List.length_cons]; omega⟩)
    | none => postfixed inner (l :: r)

mutual

/-- Operands joined by operators of at least the given strength. -/
def binary (operand : Parser Expr) (least : Nat) (ts : List Lexeme) :
    Except SyntaxError (Expr × Remaining ts) :=
  match operand ts with
  | .error e => .error e
  | .ok (left, r) =>
    have := r.property
    (climb operand least left r.val).map fun (e, s) =>
      (e, ⟨s.val, Nat.lt_of_le_of_lt s.property r.property⟩)
termination_by 2 * ts.length
decreasing_by omega

/-- The operators of at least the given strength that follow a left operand. -/
def climb (operand : Parser Expr) (least : Nat) (left : Expr) (ts : List Lexeme) :
    Except SyntaxError (Expr × { r : List Lexeme // r.length ≤ ts.length }) :=
  match ts with
  | [] => .ok (left, ⟨[], Nat.le_refl _⟩)
  | l :: r =>
    match binaryOp? l.token with
    | none => .ok (left, ⟨l :: r, Nat.le_refl _⟩)
    | some (op, strength) =>
      if strength < least then .ok (left, ⟨l :: r, Nat.le_refl _⟩)
      else
        match binary operand (strength + 1) r with
        | .error e => .error e
        | .ok (right, s) =>
          have : s.val.length < (l :: r).length := by
            have := s.property; simp only [List.length_cons]; omega
          (climb operand least (.binary op left right) s.val).map fun (e, t) =>
            (e, ⟨t.val, by have := t.property; omega⟩)
termination_by 2 * ts.length + 1
decreasing_by
  · simp only [List.length_cons]
    omega
  · omega

end

/-- A condition alone or with its two branches. -/
def conditionalBody (operand inner : Parser Expr) : Parser Expr := fun ts => do
  let (condition, r₁) ← binary operand 0 ts
  match r₁ with
  | ⟨[], h⟩ => .ok (condition, ⟨[], h⟩)
  | ⟨l :: r, h⟩ =>
    if l.token = .question then do
      let (yes, r₂) ← inner r
      let (_, r₃) ← expect .colon r₂.val
      let (no, r₄) ← inner r₃.val
      .ok (.conditional condition yes no, ⟨r₄.val, by
        have := r₂.property; have := r₃.property; have := r₄.property
        simp only [List.length_cons] at h
        omega⟩)
    else .ok (condition, ⟨l :: r, h⟩)

mutual

/-- An expression that may hold one level of nesting less than the given number. -/
def conditional : Nat → Parser Expr
  | 0, ts => tooDeep ts
  | n + 1, ts => conditionalBody (unary n) (conditional n) ts

/-- An operand that may hold the given number of levels of nesting. -/
def unary : Nat → Parser Expr
  | 0, ts => unaryBody tooDeep tooDeep ts
  | n + 1, ts => unaryBody (unary n) (conditionalBody (unary n) (conditional n)) ts

end

/-- The one expression that a list of lexemes is. -/
def ofLexemes (ts : List Lexeme) : Except SyntaxError Expr :=
  if peek ts = .eof then fail ts .empty
  else do
    let (e, r) ← conditional maxNesting ts
    if peek r.val = .eof then .ok e else fail r.val (.trailing (peek r.val))

end Parse

/-- The one expression that a text is. -/
def parse (src : String) : Except SyntaxError Expr := scan src >>= Parse.ofLexemes

end LiveLayout.Expr
