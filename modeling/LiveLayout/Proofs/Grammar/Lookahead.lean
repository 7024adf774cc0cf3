import LiveLayout.Proofs.Grammar.Completeness
/-!
How far the readers of phrases look ahead: what they read depends on the first lexeme after it and on no later one.
-/
namespace LiveLayout.Expr

open Parse

namespace Grammar

variable {operand inner : Parser Expr} {ts rest rest' : List Lexeme} {e e' : Expr} {n : Nat}

/-! ### Where reading stops -/

theorem property_of_read? {α : Type} {P : List Lexeme → Prop} {x : Except SyntaxError (α × { r : List Lexeme // P r })}
    {a : α} (h : read? x = some (a, rest)) : P rest := by
  cases x with
  | error cause => cases h
  | ok result =>
    cases h
    exact result.2.property

/-- After whatever is read comes neither a member nor a position. -/
def Stops (p : Parser Expr) : Prop := ∀ ts e rest, read? (p ts) = some (e, rest) → NoAccess rest

theorem noAccess_nil : NoAccess [] := by simp [NoAccess, peek]

theorem accesses_stops (ts : List Lexeme) (h : read? (accesses inner e ts) = some (e', rest)) : NoAccess rest := by
  induction hlength : ts.length using Nat.strongRecOn generalizing e ts with
  | ind length ih =>
  subst hlength
  rw [read?_accesses] at h
  cases ts with
  | nil =>
    cases h
    exact noAccess_nil
  | cons l r =>
    dsimp only at h
    split at h
    · cases r with
      | nil => cases h
      | cons f r' =>
        obtain ⟨name, -, hnext⟩ := Option.bind_eq_some_iff.1 h
        exact ih _ (Nat.lt_succ_of_lt (Nat.lt_succ_self _)) r' hnext rfl
    · split at h
      · obtain ⟨⟨position, r₁⟩, hread, hclose⟩ := Option.bind_eq_some_iff.1 h
        obtain ⟨⟨_, r₂⟩, hexpect, hnext⟩ := Option.bind_eq_some_iff.1 hclose
        have hfirst := property_of_read? hread
        have hsecond := property_of_read? hexpect
        exact ih _ (Nat.lt_succ_of_lt (Nat.lt_trans hsecond hfirst)) r₂ hnext rfl
      · rename_i hdot hbracket
        cases h
        exact ⟨hdot, hbracket⟩

theorem unaryBody_stops (hoperand : Stops operand) : Stops (unaryBody operand inner) := by
  intro ts e rest h
  rw [read?_unaryBody] at h
  cases ts with
  | nil => cases h
  | cons l r =>
    dsimp only at h
    cases hsign : unaryOp? l.token with
    | none =>
      rw [hsign] at h
      dsimp only at h
      rw [read?_postfixed] at h
      obtain ⟨⟨first, r₁⟩, -, hnext⟩ := Option.bind_eq_some_iff.1 h
      exact accesses_stops r₁ hnext
    | some op =>
      rw [hsign] at h
      obtain ⟨⟨e', s⟩, hread, hs⟩ := Option.map_eq_some_iff.1 h
      cases hs
      exact hoperand _ _ _ hread

theorem unary_stops (n : Nat) : Stops (Parse.unary n) := by
  induction n with
  | zero =>
    rw [unary_zero]
    exact unaryBody_stops nofun
  | succ n ih =>
    rw [unary_succ]
    exact unaryBody_stops ih

theorem climb_stops (hoperand : Stops operand) {least : Nat} (ts : List Lexeme) (hts : NoAccess ts)
    (h : read? (climb operand least e ts) = some (e', rest)) : NoAccess rest := by
  induction hlength : ts.length using Nat.strongRecOn generalizing least e e' rest ts with
  | ind length ih =>
  subst hlength
  rw [read?_climb] at h
  cases ts with
  | nil =>
    cases h
    exact hts
  | cons l r =>
    dsimp only at h
    split at h
    · cases h
      exact hts
    · split at h
      · cases h
        exact hts
      · obtain ⟨⟨right, s⟩, hright, hnext⟩ := Option.bind_eq_some_iff.1 h
        have hs := property_of_read? hright
        rw [read?_binary] at hright
        obtain ⟨⟨left, r₁⟩, hleft, hclimb⟩ := Option.bind_eq_some_iff.1 hright
        have hr₁ := property_of_read? hleft
        have hstop := ih _ (Nat.lt_succ_of_lt hr₁) r₁ (hoperand _ _ _ hleft) hclimb rfl
        exact ih _ (Nat.lt_succ_of_lt hs) s hstop hnext rfl

/-- What is read as operands that are joined, and where reading it stops. -/
theorem binary_starts {least : Nat} (hleast : least ≤ 7)
    (h : read? (Parse.binary (Parse.unary n) least ts) = some (e, rest)) :
    Starts (.joined least) n ts e rest ∧ Below least rest ∧ NoAccess rest := by
  have hoperand := (conditional_sound n).2
  obtain ⟨hstarts, hbelow⟩ := binary_sound hoperand hleast (fun r _ => climb_sound hoperand r) h
  refine ⟨hstarts, hbelow, ?_⟩
  rw [read?_binary] at h
  obtain ⟨⟨left, r⟩, hleft, hnext⟩ := Option.bind_eq_some_iff.1 h
  exact climb_stops (unary_stops n) r (unary_stops n _ _ _ hleft) hnext

theorem conditional_ends (n : Nat) (h : read? (Parse.conditional n ts) = some (e, rest)) : Ends rest := by
  induction n generalizing ts e rest with
  | zero => cases h
  | succ n ih =>
    change read? (conditionalBody (Parse.unary n) (Parse.conditional n) ts) = _ at h
    rw [read?_conditionalBody] at h
    obtain ⟨⟨condition, r₁⟩, hcondition, hnext⟩ := Option.bind_eq_some_iff.1 h
    obtain ⟨-, hbelow, haccess⟩ := binary_starts (by omega) hcondition
    have hoperator : binaryOp? (peek r₁) = none := by
      cases hop : binaryOp? (peek r₁) with
      | none => rfl
      | some operator => exact absurd (hbelow operator.1 operator.2 hop) (Nat.not_lt_zero _)
    cases r₁ with
    | nil =>
      cases hnext
      exact ⟨haccess, hoperator, by simp [peek]⟩
    | cons l r =>
      dsimp only at hnext
      split at hnext
      · obtain ⟨⟨yes, r₂⟩, -, hnext⟩ := Option.bind_eq_some_iff.1 hnext
        obtain ⟨⟨_, r₃⟩, -, hnext⟩ := Option.bind_eq_some_iff.1 hnext
        obtain ⟨⟨no, r₄⟩, hno, hs⟩ := Option.map_eq_some_iff.1 hnext
        cases hs
        exact ih hno
      · rename_i hquestion
        cases hnext
        exact ⟨haccess, hoperator, hquestion⟩

/-! ### What is read again -/

theorem peek_congr (h : rest'.head? = rest.head?) : peek rest' = peek rest := by
  cases rest <;> cases rest' <;> cases h <;> rfl

theorem Ends.congr (h : Ends rest) (hpeek : peek rest' = peek rest) : Ends rest' := by
  obtain ⟨haccess, hoperator, hquestion⟩ := h
  unfold NoAccess at haccess
  rw [← hpeek] at haccess hoperator hquestion
  exact ⟨haccess, hoperator, hquestion⟩

/-- The lexemes start with a phrase that is at most so deep, and that is read again before whatever starts with the
same lexeme as the rest. -/
def Rereads (p : Parser Expr) (c : Kind) (n : Nat) (ts : List Lexeme) (e : Expr) (rest : List Lexeme) : Prop :=
  ∃ front d, ts = front ++ rest ∧ d ≤ n ∧ Derives c (front.map Lexeme.token) e d ∧
    ∀ rest', rest'.head? = rest.head? → read? (p (front ++ rest')) = some (e, rest')

theorem rereads_primary (h : read? (primary (Parse.conditional n) ts) = some (e, rest)) :
    Rereads (primary (Parse.conditional n)) .primary n ts e rest := by
  obtain ⟨front, d, rfl, hd, hfront⟩ := primary_sound (conditional_sound n).1 _ _ _ h
  exact ⟨front, d, rfl, hd, hfront, fun rest' _ => hfront.complete n front rest' hd rfl⟩

theorem rereads_unary (h : read? (Parse.unary n ts) = some (e, rest)) :
    Rereads (Parse.unary n) .signed n ts e rest := by
  obtain ⟨front, d, rfl, hd, hfront⟩ := (conditional_sound n).2 _ _ _ h
  refine ⟨front, d, rfl, hd, hfront, fun rest' hhead => hfront.complete n front rest' hd rfl ?_⟩
  have hstop := unary_stops n _ _ _ h
  unfold NoAccess at hstop ⊢
  rwa [peek_congr hhead]

theorem rereads_binary {least : Nat} (hleast : least ≤ 7)
    (h : read? (Parse.binary (Parse.unary n) least ts) = some (e, rest)) :
    Rereads (Parse.binary (Parse.unary n) least) (.joined least) n ts e rest := by
  obtain ⟨⟨front, d, rfl, hd, hfront⟩, hbelow, haccess⟩ := binary_starts hleast h
  refine ⟨front, d, rfl, hd, hfront, fun rest' hhead => ?_⟩
  unfold NoAccess at haccess
  rw [← peek_congr hhead] at haccess
  have hbelow' : Below least rest' := by
    intro op strength hop
    rw [peek_congr hhead] at hop
    exact hbelow op strength hop
  have htighter : Below (least + 1) rest' := fun o s ho => Nat.lt_succ_of_lt (hbelow' o s ho)
  have hread := hfront.complete n front rest' hd rfl htighter haccess least (Nat.le_refl _)
  rwa [read?_climb_of_below hbelow'] at hread

theorem rereads_conditional (h : read? (Parse.conditional n ts) = some (e, rest)) :
    Rereads (Parse.conditional n) .conditional n ts e rest := by
  obtain ⟨front, d, rfl, hd, hfront⟩ := (conditional_sound n).1 _ _ _ h
  have hends := conditional_ends n h
  exact ⟨front, d, rfl, hd, hfront, fun rest' hhead =>
    hfront.complete n front rest' hd rfl (hends.congr (peek_congr hhead))⟩

end Grammar
end LiveLayout.Expr
