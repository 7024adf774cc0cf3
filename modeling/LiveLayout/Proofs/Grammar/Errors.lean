import LiveLayout.Proofs.Grammar.Reading
/-!
Where the errors of each reader of expressions come from: from a reader that it uses, or from itself.
-/
namespace LiveLayout.Expr.Parse

variable {operand inner : Parser Expr} {ts : List Lexeme} {l : Lexeme} {r : List Lexeme} {e : Expr} {err : SyntaxError}

theorem map_eq_error {α β ε : Type} {x : Except ε α} {f : α → β} {cause : ε} (h : x.map f = .error cause) :
    x = .error cause := by
  cases x with
  | error cause' =>
    cases h
    rfl
  | ok a => cases h

theorem bind_eq_error {α β ε : Type} {x : Except ε α} {f : α → Except ε β} {cause : ε}
    (h : x >>= f = .error cause) : x = .error cause ∨ ∃ a, x = .ok a ∧ f a = .error cause := by
  cases x with
  | error cause' =>
    cases h
    exact .inl rfl
  | ok a => exact .inr ⟨a, rfl, h⟩

theorem expect_eq_error {wanted : Token} (h : expect wanted (l :: r) = .error err) :
    l.token ≠ wanted ∧ err = ⟨.expected wanted l.token, l.offset⟩ := by
  unfold expect at h
  dsimp only at h
  split at h
  · cases h
  · rename_i hwanted
    cases h
    exact ⟨hwanted, rfl⟩

theorem items_eq_error {acc : List Expr} (h : items inner acc ts = .error err) :
    inner ts = .error err ∨ ∃ e r, read? (inner ts) = some (e, r) ∧
      (r = [] ∨ ∃ l r', r = l :: r' ∧
        (l.token = .comma ∧ items inner (e :: acc) r' = .error err ∨
          l.token ≠ .comma ∧ expect .rbracket (l :: r') = .error err)) := by
  rw [items] at h
  cases hinner : inner ts with
  | error cause =>
    rw [hinner] at h
    exact .inl h
  | ok result =>
    rw [hinner] at h
    obtain ⟨e, ⟨_ | ⟨l, r'⟩, hr⟩⟩ := result
    · exact .inr ⟨e, [], rfl, .inl rfl⟩
    · refine .inr ⟨e, l :: r', rfl, .inr ⟨l, r', rfl, ?_⟩⟩
      dsimp only at h
      split at h
      · exact .inl ⟨‹_›, map_eq_error h⟩
      · exact .inr ⟨‹_›, map_eq_error h⟩

theorem primary_eq_error (h : primary inner (l :: r) = .error err) : atom? l.token = none ∧
    (l.token = .lparen ∧
        (inner r = .error err ∨ ∃ e r₁, read? (inner r) = some (e, r₁) ∧ expect .rparen r₁ = .error err) ∨
      l.token = .lbracket ∧ peek r ≠ .rbracket ∧ items inner [] r = .error err ∨
      l.token ≠ .lparen ∧ l.token ≠ .lbracket ∧ err = ⟨.expectedValue l.token, l.offset⟩) := by
  unfold primary at h
  dsimp only at h
  cases hatom : atom? l.token with
  | some single =>
    rw [hatom] at h
    cases h
  | none =>
    rw [hatom] at h
    refine ⟨rfl, ?_⟩
    dsimp only at h
    split at h
    · rename_i hparen
      refine .inl ⟨hparen, ?_⟩
      obtain hinner | ⟨⟨e, r₁⟩, hinner, hclose⟩ := bind_eq_error h
      · exact .inl hinner
      · obtain hexpect | ⟨_, -, hdone⟩ := bind_eq_error hclose
        · exact .inr ⟨e, r₁.val, congrArg read? hinner, hexpect⟩
        · cases hdone
    · rename_i hparen
      split at h
      · rename_i hbracket
        refine .inr (.inl ⟨hbracket, ?_⟩)
        split at h
        · rename_i hclose
          cases r with
          | nil => cases hclose
          | cons last r' =>
            have hexpect : expect .rbracket (last :: r') = .ok ((), ⟨r', by simp⟩) := if_pos hclose
            rw [hexpect] at h
            cases h
        · rename_i hopen
          obtain hitems | ⟨_, -, hdone⟩ := bind_eq_error h
          · exact ⟨hopen, hitems⟩
          · cases hdone
      · rename_i hbracket
        cases h
        exact .inr (.inr ⟨hparen, hbracket, rfl⟩)

/-- After a point that no field follows, the error is where the lexeme after the next one starts. -/
theorem accesses_eq_error (h : accesses inner e ts = .error err) : ∃ l r, ts = l :: r ∧
    (l.token = .dot ∧ (r = [] ∨ ∃ f r', r = f :: r' ∧
        (fieldName? f.token = none ∧
            err = ⟨.expectedField f.token, match r' with | [] => f.offset | next :: _ => next.offset⟩ ∨
          ∃ name, fieldName? f.token = some name ∧ accesses inner (.member e name) r' = .error err)) ∨
      l.token ≠ .dot ∧ l.token = .lbracket ∧
        (inner r = .error err ∨ ∃ position r₁, read? (inner r) = some (position, r₁) ∧
          (expect .rbracket r₁ = .error err ∨ ∃ r₂, read? (expect .rbracket r₁) = some ((), r₂) ∧
            accesses inner (.index e position) r₂ = .error err))) := by
  rw [accesses.eq_def] at h
  cases ts with
  | nil => cases h
  | cons l r =>
    refine ⟨l, r, rfl, ?_⟩
    dsimp only at h
    split at h
    · rename_i hdot
      refine .inl ⟨hdot, ?_⟩
      cases r with
      | nil => exact .inl rfl
      | cons f r' =>
        refine .inr ⟨f, r', rfl, ?_⟩
        dsimp only at h
        cases hname : fieldName? f.token with
        | none =>
          rw [hname] at h
          cases h
          exact .inl ⟨rfl, rfl⟩
        | some name =>
          rw [hname] at h
          exact .inr ⟨name, rfl, map_eq_error h⟩
    · rename_i hdot
      split at h
      · rename_i hbracket
        refine .inr ⟨hdot, hbracket, ?_⟩
        cases hinner : inner r with
        | error cause =>
          rw [hinner] at h
          cases h
          exact .inl rfl
        | ok result =>
          rw [hinner] at h
          dsimp only at h
          refine .inr ⟨result.1, result.2.val, rfl, ?_⟩
          cases hexpect : expect .rbracket result.2.val with
          | error cause =>
            rw [hexpect] at h
            cases h
            exact .inl rfl
          | ok result' =>
            rw [hexpect] at h
            exact .inr ⟨result'.2.val, rfl, map_eq_error h⟩
      · cases h

theorem postfixed_eq_error (h : postfixed inner ts = .error err) : primary inner ts = .error err ∨
    ∃ e r, read? (primary inner ts) = some (e, r) ∧ accesses inner e r = .error err := by
  obtain hprimary | ⟨⟨e, r⟩, hprimary, hnext⟩ := bind_eq_error h
  · exact .inl hprimary
  · obtain haccesses | ⟨_, -, hdone⟩ := bind_eq_error hnext
    · exact .inr ⟨e, r.val, congrArg read? hprimary, haccesses⟩
    · cases hdone

theorem unaryBody_eq_error (h : unaryBody operand inner (l :: r) = .error err) :
    (∃ op, unaryOp? l.token = some op ∧ operand r = .error err) ∨
      unaryOp? l.token = none ∧ postfixed inner (l :: r) = .error err := by
  unfold unaryBody at h
  dsimp only at h
  cases hsign : unaryOp? l.token with
  | none =>
    rw [hsign] at h
    exact .inr ⟨rfl, h⟩
  | some op =>
    rw [hsign] at h
    exact .inl ⟨op, rfl, map_eq_error h⟩

theorem binary_eq_error {least : Nat} (h : binary operand least ts = .error err) : operand ts = .error err ∨
    ∃ left r, read? (operand ts) = some (left, r) ∧ climb operand least left r = .error err := by
  rw [binary] at h
  cases hoperand : operand ts with
  | error cause =>
    rw [hoperand] at h
    exact .inl h
  | ok result =>
    rw [hoperand] at h
    exact .inr ⟨result.1, result.2.val, rfl, map_eq_error h⟩

theorem climb_eq_error {least : Nat} (h : climb operand least e ts = .error err) : ∃ l r op strength,
    ts = l :: r ∧ binaryOp? l.token = some (op, strength) ∧ least ≤ strength ∧
      (binary operand (strength + 1) r = .error err ∨
        ∃ right s, read? (binary operand (strength + 1) r) = some (right, s) ∧
          climb operand least (.binary op e right) s = .error err) := by
  rw [climb.eq_def] at h
  cases ts with
  | nil => cases h
  | cons l r =>
    dsimp only at h
    cases hop : binaryOp? l.token with
    | none =>
      rw [hop] at h
      cases h
    | some operator =>
      obtain ⟨op, strength⟩ := operator
      rw [hop] at h
      dsimp only at h
      split at h
      · cases h
      · rename_i hstrong
        refine ⟨l, r, op, strength, rfl, hop, Nat.le_of_not_lt hstrong, ?_⟩
        cases hright : binary operand (strength + 1) r with
        | error cause =>
          rw [hright] at h
          cases h
          exact .inl rfl
        | ok result =>
          rw [hright] at h
          exact .inr ⟨result.1, result.2.val, rfl, map_eq_error h⟩

theorem conditionalBody_eq_error (h : conditionalBody operand inner ts = .error err) :
    binary operand 0 ts = .error err ∨ ∃ condition l r, read? (binary operand 0 ts) = some (condition, l :: r) ∧
      l.token = .question ∧ (inner r = .error err ∨ ∃ yes r₂, read? (inner r) = some (yes, r₂) ∧
        (expect .colon r₂ = .error err ∨ ∃ r₃, read? (expect .colon r₂) = some ((), r₃) ∧
          inner r₃ = .error err)) := by
  obtain hcondition | ⟨⟨condition, r₁, hr₁⟩, hcondition, hnext⟩ := bind_eq_error h
  · exact .inl hcondition
  · cases r₁ with
    | nil => cases hnext
    | cons l r =>
      dsimp only at hnext
      split at hnext
      · rename_i hquestion
        refine .inr ⟨condition, l, r, congrArg read? hcondition, hquestion, ?_⟩
        obtain hyes | ⟨⟨yes, r₂⟩, hyes, hnext⟩ := bind_eq_error hnext
        · exact .inl hyes
        · refine .inr ⟨yes, r₂.val, congrArg read? hyes, ?_⟩
          obtain hcolon | ⟨⟨_, r₃⟩, hcolon, hnext⟩ := bind_eq_error hnext
          · exact .inl hcolon
          · obtain hno | ⟨_, -, hdone⟩ := bind_eq_error hnext
            · exact .inr ⟨r₃.val, congrArg read? hcolon, hno⟩
            · cases hdone
      · cases hnext

/-- A text that is no expression is empty, or the error is one of reading it, or it goes on after an expression. -/
theorem ofLexemes_eq_error (h : ofLexemes ts = .error err) :
    peek ts = .eof ∧ err = ⟨.empty, offsetOf ts⟩ ∨
      peek ts ≠ .eof ∧ (conditional maxNesting ts = .error err ∨
        ∃ e r, read? (conditional maxNesting ts) = some (e, r) ∧ peek r ≠ .eof ∧
          err = ⟨.trailing (peek r), offsetOf r⟩) := by
  unfold ofLexemes at h
  split at h
  · cases h
    exact .inl ⟨‹_›, rfl⟩
  · refine .inr ⟨‹_›, ?_⟩
    obtain hread | ⟨⟨e, r⟩, hread, hnext⟩ := bind_eq_error h
    · exact .inl hread
    · dsimp only at hnext
      split at hnext
      · cases hnext
      · rename_i hmore
        cases hnext
        exact .inr ⟨e, r.val, congrArg read? hread, hmore, rfl⟩

end LiveLayout.Expr.Parse
