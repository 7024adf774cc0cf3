import LiveLayout.Expr.Parse
import Mathlib
/-!
The grammar of expressions: a conditional, which nests to the right, over six levels of binary operators, each of
which associates to the left, over signs, over members and positions, over literals, names, parentheses and arrays.
-/
namespace LiveLayout.Expr.Grammar

/-- The binary operators of each strength. -/
inductive Operator : Nat → Token → BinaryOp → Prop where
  | or : Operator 1 .orOr .or
  | and : Operator 2 .andAnd .and
  | eq : Operator 3 .eqEq .eq
  | notEq : Operator 3 .bangEq .notEq
  | lt : Operator 4 .lt .lt
  | ltEq : Operator 4 .ltEq .ltEq
  | gt : Operator 4 .gt .gt
  | gtEq : Operator 4 .gtEq .gtEq
  | add : Operator 5 .plus .add
  | sub : Operator 5 .minus .sub
  | mul : Operator 6 .star .mul
  | div : Operator 6 .slash .div
  | rem : Operator 6 .percent .rem

inductive Sign : Token → UnaryOp → Prop where
  | not : Sign .bang .not
  | neg : Sign .minus .neg

/-- What may stand after a point. A position is a whole number; one that is too large is the last one. -/
inductive Field : Token → String → Prop where
  | name (s : String) : Field (.ident s) s
  | position {x : Float} {n : Nat} (whole : Decimal.whole? x = some (.ofNat n)) :
      Field (.number x) (toString (min n (2 ^ 64 - 1)))
  | true : Field .true "true"
  | false : Field .false "false"
  | null : Field .null "null"

/-- Tokens that are expressions by themselves. -/
inductive Atom : Token → Expr → Prop where
  | number (x : Float) : Atom (.number x) (.literal (Parse.literalOf x))
  | text (s : String) : Atom (.str s) (.literal (.string s))
  | true : Atom .true (.literal (.bool Bool.true))
  | false : Atom .false (.literal (.bool Bool.false))
  | null : Atom .null (.literal .null)
  | name (s : String) : Atom (.ident s) (.ident s)

/-- The kinds of phrases, from the loosest to the tightest, and the items of an array. -/
inductive Kind where
  | conditional
  /-- Operands joined by operators of the strength, each side of which may be joined more tightly. -/
  | joined (strength : Nat)
  | signed
  | accessed
  | primary
  | items

/-- The phrases of each kind, what they stand for, and how deep they are nested: a conditional or what stands
for one, and the operand of a sign, lie one level deeper. -/
inductive Derives : Kind → List Token → Expr → Nat → Prop where
  | alone {ts : List Token} {e : Expr} {d : Nat} (condition : Derives (.joined 1) ts e d) :
      Derives .conditional ts e (d + 1)
  | choice {ts us vs : List Token} {condition yes no : Expr} {d₁ d₂ d₃ : Nat}
      (first : Derives (.joined 1) ts condition d₁) (second : Derives .conditional us yes d₂)
      (third : Derives .conditional vs no d₃) :
      Derives .conditional (ts ++ .question :: (us ++ .colon :: vs)) (.conditional condition yes no)
        (max d₁ (max d₂ d₃) + 1)
  | tighter {ts : List Token} {e : Expr} {d k : Nat} (inner : Derives (.joined (k + 1)) ts e d) :
      Derives (.joined k) ts e d
  | join {ts us : List Token} {left right : Expr} {d₁ d₂ k : Nat} {t : Token} {op : BinaryOp}
      (first : Derives (.joined k) ts left d₁) (operator : Operator k t op)
      (second : Derives (.joined (k + 1)) us right d₂) :
      Derives (.joined k) (ts ++ t :: us) (.binary op left right) (max d₁ d₂)
  -- No operator has the strength 7.
  | operand {ts : List Token} {e : Expr} {d : Nat} (inner : Derives .signed ts e d) : Derives (.joined 7) ts e d
  | sign {ts : List Token} {e : Expr} {d : Nat} {t : Token} {op : UnaryOp} (operator : Sign t op)
      (inner : Derives .signed ts e d) : Derives .signed (t :: ts) (.unary op e) (d + 1)
  | unsigned {ts : List Token} {e : Expr} {d : Nat} (inner : Derives .accessed ts e d) : Derives .signed ts e d
  | member {ts : List Token} {e : Expr} {d : Nat} {t : Token} {name : String} (object : Derives .accessed ts e d)
      (field : Field t name) : Derives .accessed (ts ++ [.dot, t]) (.member e name) d
  | index {ts us : List Token} {e position : Expr} {d₁ d₂ : Nat} (object : Derives .accessed ts e d₁)
      (inner : Derives .conditional us position d₂) :
      Derives .accessed (ts ++ .lbracket :: (us ++ [.rbracket])) (.index e position) (max d₁ d₂)
  | whole {ts : List Token} {e : Expr} {d : Nat} (inner : Derives .primary ts e d) : Derives .accessed ts e d
  | atom {t : Token} {e : Expr} (single : Atom t e) : Derives .primary [t] e 0
  | parenthesised {ts : List Token} {e : Expr} {d : Nat} (inner : Derives .conditional ts e d) :
      Derives .primary (.lparen :: (ts ++ [.rparen])) e d
  | noItems : Derives .primary [.lbracket, .rbracket] (.array []) 0
  | array {ts : List Token} {es : List Expr} {d : Nat} (inner : Derives .items ts (.array es) d) :
      Derives .primary (.lbracket :: (ts ++ [.rbracket])) (.array es) d
  | lastItem {ts : List Token} {e : Expr} {d : Nat} (item : Derives .conditional ts e d) :
      Derives .items ts (.array [e]) d
  | item {ts us : List Token} {e : Expr} {es : List Expr} {d₁ d₂ : Nat} (first : Derives .conditional ts e d₁)
      (more : Derives .items us (.array es) d₂) :
      Derives .items (ts ++ .comma :: us) (.array (e :: es)) (max d₁ d₂)

variable {t : Token}

theorem binaryOp?_eq_some_iff {op : BinaryOp} {k : Nat} : Parse.binaryOp? t = some (op, k) ↔ Operator k t op := by
  constructor
  · intro h
    cases t <;> cases h <;> constructor
  · rintro ⟨⟩ <;> rfl

theorem unaryOp?_eq_some_iff {op : UnaryOp} : Parse.unaryOp? t = some op ↔ Sign t op := by
  constructor
  · intro h
    cases t <;> cases h <;> constructor
  · rintro ⟨⟩ <;> rfl

theorem atom?_eq_some_iff {e : Expr} : Parse.atom? t = some e ↔ Atom t e := by
  constructor
  · intro h
    cases t <;> cases h <;> constructor
  · rintro ⟨⟩ <;> rfl

theorem fieldName?_eq_some_iff {name : String} : Parse.fieldName? t = some name ↔ Field t name := by
  constructor
  · intro h
    cases t with
    | number x =>
      unfold Parse.fieldName? at h
      dsimp only at h
      split at h
      · cases h
        exact .position ‹_›
      · cases h
    | _ => cases h <;> constructor
  · intro h
    cases h with
    | position whole =>
      unfold Parse.fieldName?
      dsimp only
      rw [whole]
      rfl
    | _ => rfl

/-- The strengths of operators. -/
theorem Operator.bounds {op : BinaryOp} {k : Nat} (h : Operator k t op) : 1 ≤ k ∧ k ≤ 6 := by
  cases h <;> decide

variable {c : Kind} {ts : List Token} {e : Expr} {d : Nat}

/-- How a phrase starts: no closing bracket, no end, and a sign only where signs are read. -/
theorem Derives.exists_cons (h : Derives c ts e d) : ∃ t us, ts = t :: us ∧ t ≠ .rbracket ∧ t ≠ .eof ∧
    (c = .accessed ∨ c = .primary → Parse.unaryOp? t = none) := by
  induction h with
  | alone _ ih | tighter _ ih | operand _ ih | unsigned _ ih | lastItem _ ih =>
    obtain ⟨t, us, rfl, hbracket, heof, -⟩ := ih
    exact ⟨t, us, rfl, hbracket, heof, by simp⟩
  | choice _ _ _ ih | join _ _ _ ih | item _ _ ih =>
    obtain ⟨t, us, rfl, hbracket, heof, -⟩ := ih
    exact ⟨t, _, rfl, hbracket, heof, by simp⟩
  | sign operator _ ih => cases operator <;> exact ⟨_, _, rfl, by simp, by simp, by simp⟩
  | member _ _ ih | index _ _ ih =>
    obtain ⟨t, us, rfl, hbracket, heof, hsign⟩ := ih
    exact ⟨t, _, rfl, hbracket, heof, fun _ => hsign (.inl rfl)⟩
  | whole _ ih =>
    obtain ⟨t, us, rfl, hbracket, heof, hsign⟩ := ih
    exact ⟨t, us, rfl, hbracket, heof, fun _ => hsign (.inr rfl)⟩
  | atom single => cases single <;> exact ⟨_, _, rfl, by simp, by simp, fun _ => rfl⟩
  | parenthesised | noItems | array => exact ⟨_, _, rfl, by simp, by simp, fun _ => rfl⟩

theorem Derives.eof_notMem (h : Derives c ts e d) : .eof ∉ ts := by
  induction h with
  | alone _ ih | tighter _ ih | operand _ ih | unsigned _ ih | whole _ ih | lastItem _ ih => exact ih
  | choice _ _ _ ih₁ ih₂ ih₃ => simp [ih₁, ih₂, ih₃]
  | join _ operator _ ih₁ ih₂ => cases operator <;> simp [ih₁, ih₂]
  | sign operator _ ih => cases operator <;> simp [ih]
  | member _ field ih => cases field <;> simp [ih]
  | index _ _ ih₁ ih₂ => simp [ih₁, ih₂]
  | atom single => cases single <;> simp
  | parenthesised _ ih | array _ ih => simp [ih]
  | noItems => simp
  | item _ _ ih₁ ih₂ => simp [ih₁, ih₂]

end LiveLayout.Expr.Grammar
