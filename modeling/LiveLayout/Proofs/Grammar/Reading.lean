import LiveLayout.Expr.Parse
import Mathlib.Tactic.Common
/-!
What each reader of expressions makes of a list of lexemes in terms of the readers that it uses.
-/
namespace LiveLayout.Expr.Parse

variable {α : Type}

/-- What was read and the lexemes after it, without the proof that they are fewer. -/
def read? {P : List Lexeme → Prop} : Except SyntaxError (α × { r : List Lexeme // P r }) → Option (α × List Lexeme)
  | .ok (a, r) => some (a, r.val)
  | .error _ => none

theorem read?_ok {P : List Lexeme → Prop} (a : α) (r : { r : List Lexeme // P r }) :
    read? (.ok (a, r)) = some (a, r.val) := rfl

theorem read?_expect_eq_some {wanted : Token} {ts rest : List Lexeme} {u : Unit} :
    read? (expect wanted ts) = some (u, rest) ↔ ∃ l, l.token = wanted ∧ ts = l :: rest := by
  cases ts with
  | nil => simp [expect, fail, read?]
  | cons l r =>
    by_cases h : l.token = wanted
    · simp [expect, h, read?]
    · simp [expect, h, fail, read?]

theorem read?_items (inner : Parser Expr) (acc : List Expr) (ts : List Lexeme) :
    read? (items inner acc ts) = (read? (inner ts)).bind fun (e, r) =>
      match r with
      | [] => none
      | l :: r =>
        if l.token = .comma then read? (items inner (e :: acc) r)
        else (read? (expect .rbracket (l :: r))).map fun (_, s) => (.array (e :: acc).reverse, s) := by
  rw [items]
  cases hinner : inner ts with
  | error cause => rfl
  | ok result =>
    obtain ⟨e, ⟨_ | ⟨l, r⟩, hr⟩⟩ := result
    · rfl
    · rw [read?_ok]
      dsimp only [Option.bind_some]
      by_cases hcomma : l.token = .comma
      · rw [if_pos hcomma, if_pos hcomma]
        cases items inner (e :: acc) r <;> rfl
      · rw [if_neg hcomma, if_neg hcomma]
        cases expect .rbracket (l :: r) <;> rfl

theorem read?_primary (inner : Parser Expr) (ts : List Lexeme) :
    read? (primary inner ts) = match ts with
      | [] => none
      | l :: r =>
        match atom? l.token with
        | some e => some (e, r)
        | none =>
          if l.token = .lparen then
            (read? (inner r)).bind fun (e, r₁) => (read? (expect .rparen r₁)).map fun (_, r₂) => (e, r₂)
          else if l.token = .lbracket then
            if peek r = .rbracket then (read? (expect .rbracket r)).map fun (_, r₁) => (.array [], r₁)
            else read? (items inner [] r)
          else none := by
  cases ts with
  | nil => rfl
  | cons l r =>
    unfold primary
    dsimp only
    cases atom? l.token with
    | some e => rfl
    | none =>
      dsimp only
      split
      · cases hinner : inner r with
        | error cause => rfl
        | ok result =>
          obtain ⟨e, r₁⟩ := result
          dsimp only [bind, Except.bind, read?, Option.bind_some]
          cases expect .rparen r₁.val <;> rfl
      · split
        · split
          · cases expect .rbracket r <;> rfl
          · cases items inner [] r <;> rfl
        · rfl

theorem read?_accesses (inner : Parser Expr) (e : Expr) (ts : List Lexeme) :
    read? (accesses inner e ts) = match ts with
      | [] => some (e, [])
      | l :: r =>
        if l.token = .dot then
          match r with
          | [] => none
          | f :: r' => (fieldName? f.token).bind fun name => read? (accesses inner (.member e name) r')
        else if l.token = .lbracket then
          (read? (inner r)).bind fun (position, r₁) => (read? (expect .rbracket r₁)).bind fun (_, r₂) =>
            read? (accesses inner (.index e position) r₂)
        else some (e, l :: r) := by
  rw [accesses.eq_def]
  cases ts with
  | nil => rfl
  | cons l r =>
    dsimp only
    split
    · cases r with
      | nil => rfl
      | cons f r' =>
        dsimp only
        cases fieldName? f.token with
        | none => rfl
        | some name =>
          dsimp only [Option.bind_some]
          cases accesses inner (.member e name) r' <;> rfl
    · split
      · cases inner r with
        | error cause => rfl
        | ok result =>
          obtain ⟨position, r₁⟩ := result
          dsimp only [read?, Option.bind_some]
          cases expect .rbracket r₁.val with
          | error cause => rfl
          | ok result =>
            obtain ⟨_, r₂⟩ := result
            dsimp only [Option.bind_some]
            cases accesses inner (.index e position) r₂.val <;> rfl
      · rfl

theorem read?_postfixed (inner : Parser Expr) (ts : List Lexeme) :
    read? (postfixed inner ts) = (read? (primary inner ts)).bind fun (e, r) => read? (accesses inner e r) := by
  unfold postfixed
  cases primary inner ts with
  | error cause => rfl
  | ok result =>
    obtain ⟨e, r⟩ := result
    dsimp only [bind, Except.bind, read?, Option.bind_some]
    cases accesses inner e r.val <;> rfl

theorem read?_unaryBody (operand inner : Parser Expr) (ts : List Lexeme) :
    read? (unaryBody operand inner ts) = match ts with
      | [] => none
      | l :: r =>
        match unaryOp? l.token with
        | some op => (read? (operand r)).map fun (e, s) => (.unary op e, s)
        | none => read? (postfixed inner (l :: r)) := by
  cases ts with
  | nil => rfl
  | cons l r =>
    unfold unaryBody
    dsimp only
    cases unaryOp? l.token with
    | none => rfl
    | some op => cases operand r <;> rfl

theorem read?_binary (operand : Parser Expr) (least : Nat) (ts : List Lexeme) :
    read? (binary operand least ts) =
      (read? (operand ts)).bind fun (left, r) => read? (climb operand least left r) := by
  rw [binary]
  cases operand ts with
  | error cause => rfl
  | ok result =>
    obtain ⟨left, r⟩ := result
    dsimp only [read?, Option.bind_some]
    cases climb operand least left r.val <;> rfl

theorem read?_climb (operand : Parser Expr) (least : Nat) (left : Expr) (ts : List Lexeme) :
    read? (climb operand least left ts) = match ts with
      | [] => some (left, [])
      | l :: r =>
        match binaryOp? l.token with
        | none => some (left, l :: r)
        | some (op, strength) =>
          if strength < least then some (left, l :: r)
          else (read? (binary operand (strength + 1) r)).bind fun (right, s) =>
            read? (climb operand least (.binary op left right) s) := by
  rw [climb.eq_def]
  cases ts with
  | nil => rfl
  | cons l r =>
    dsimp only
    cases binaryOp? l.token with
    | none => rfl
    | some operator =>
      obtain ⟨op, strength⟩ := operator
      dsimp only
      split
      · rfl
      · cases binary operand (strength + 1) r with
        | error cause => rfl
        | ok result =>
          obtain ⟨right, s⟩ := result
          dsimp only [read?, Option.bind_some]
          cases climb operand least (.binary op left right) s.val <;> rfl

theorem read?_conditionalBody (operand inner : Parser Expr) (ts : List Lexeme) :
    read? (conditionalBody operand inner ts) = (read? (binary operand 0 ts)).bind fun (condition, r₁) =>
      match r₁ with
      | [] => some (condition, [])
      | l :: r =>
        if l.token = .question then
          (read? (inner r)).bind fun (yes, r₂) => (read? (expect .colon r₂)).bind fun (_, r₃) =>
            (read? (inner r₃)).map fun (no, r₄) => (.conditional condition yes no, r₄)
        else some (condition, l :: r) := by
  unfold conditionalBody
  cases binary operand 0 ts with
  | error cause => rfl
  | ok result =>
    obtain ⟨condition, ⟨_ | ⟨l, r⟩, h⟩⟩ := result
    · rfl
    · rw [read?_ok]
      dsimp only [bind, Except.bind, Option.bind_some]
      by_cases hquestion : l.token = .question
      · rw [if_pos hquestion, if_pos hquestion]
        cases inner r with
        | error cause => rfl
        | ok result =>
          obtain ⟨yes, r₂⟩ := result
          rw [read?_ok]
          dsimp only [Option.bind_some]
          cases expect .colon r₂.val with
          | error cause => rfl
          | ok result =>
            obtain ⟨_, r₃⟩ := result
            rw [read?_ok]
            dsimp only [Option.bind_some]
            cases inner r₃.val <;> rfl
      · rw [if_neg hquestion, if_neg hquestion]
        rfl

/-- A whole text is one expression, which ends where the text does. -/
theorem ofLexemes_eq_ok {ts : List Lexeme} {e : Expr} :
    ofLexemes ts = .ok e ↔
      peek ts ≠ .eof ∧ ∃ rest, read? (conditional maxNesting ts) = some (e, rest) ∧ peek rest = .eof := by
  unfold ofLexemes
  by_cases hempty : peek ts = .eof
  · simp [hempty, fail]
  · rw [if_neg hempty]
    cases conditional maxNesting ts with
    | error cause => simp [bind, Except.bind, read?]
    | ok result =>
      obtain ⟨e', r⟩ := result
      by_cases hend : peek r.val = .eof
      · simp [bind, Except.bind, read?, hempty, hend]
      · simp [bind, Except.bind, read?, hempty, hend, fail]

theorem unary_zero : unary 0 = unaryBody tooDeep (conditional 0) := by
  funext ts
  rw [unary]
  rfl

theorem unary_succ (n : Nat) : unary (n + 1) = unaryBody (unary n) (conditional (n + 1)) := rfl

end LiveLayout.Expr.Parse
