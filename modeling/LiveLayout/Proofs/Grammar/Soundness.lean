import LiveLayout.Proofs.Grammar.Phrases
import LiveLayout.Proofs.Grammar.Reading
/-!
Whatever is read is a phrase of the grammar, no deeper than the reader goes.
-/
namespace LiveLayout.Expr

open Parse

namespace Grammar

/-- The lexemes start with a phrase that is at most so deep. -/
def Starts (c : Kind) (n : Nat) (ts : List Lexeme) (e : Expr) (rest : List Lexeme) : Prop :=
  ∃ front d, ts = front ++ rest ∧ d ≤ n ∧ Derives c (front.map Lexeme.token) e d

/-- All that is read is a phrase of the kind. -/
def Sound (p : Parser Expr) (c : Kind) (n : Nat) : Prop :=
  ∀ ts e rest, read? (p ts) = some (e, rest) → Starts c n ts e rest

theorem Starts.map {c c' : Kind} {n n' : Nat} {ts rest : List Lexeme} {e : Expr} (h : Starts c n ts e rest)
    (hmap : ∀ us d, d ≤ n → Derives c us e d → ∃ d' ≤ n', Derives c' us e d') : Starts c' n' ts e rest := by
  obtain ⟨front, d, hts, hd, hfront⟩ := h
  obtain ⟨d', hd', hfront'⟩ := hmap _ d hd hfront
  exact ⟨front, d', hts, hd', hfront'⟩

theorem sound_tooDeep (c : Kind) (n : Nat) : Sound tooDeep c n := by
  intro ts e rest h
  cases h

variable {operand inner : Parser Expr} {n : Nat}

/-! ### Arrays -/

theorem items_sound (hinner : Sound inner .conditional n) (acc : List Expr) (ts : List Lexeme) {e : Expr}
    {rest : List Lexeme} (h : read? (items inner acc ts) = some (e, rest)) :
    ∃ es last, last.token = .rbracket ∧ e = .array (acc.reverse ++ es) ∧
      Starts .items n ts (.array es) (last :: rest) := by
  rw [read?_items] at h
  obtain ⟨⟨first, r⟩, hfirst, hnext⟩ := Option.bind_eq_some_iff.1 h
  obtain ⟨front, d, hts, hd, hfront⟩ := hinner ts first r hfirst
  cases r with
  | nil => cases hnext
  | cons l r =>
    have hshorter : r.length < ts.length := by
      rw [hts, List.length_append, List.length_cons]
      omega
    dsimp only at hnext
    split at hnext
    · rename_i hcomma
      obtain ⟨es, last, hlast, rfl, more, d', hr, hd', hmore⟩ := items_sound hinner (first :: acc) r hnext
      refine ⟨first :: es, last, hlast, by simp, front ++ l :: more, max d d', by simp [hts, hr], by omega, ?_⟩
      rw [List.map_append, List.map_cons, hcomma]
      exact .item hfront hmore
    · obtain ⟨⟨_, s⟩, hexpect, hs⟩ := Option.map_eq_some_iff.1 hnext
      obtain ⟨last, hlast, hcons⟩ := read?_expect_eq_some.1 hexpect
      cases hs
      cases hcons
      exact ⟨[first], l, hlast, by simp, front, d, hts, hd, .lastItem hfront⟩
termination_by ts.length

/-! ### Operands -/

theorem primary_sound (hinner : Sound inner .conditional n) : Sound (primary inner) .primary n := by
  intro ts e rest h
  rw [read?_primary] at h
  cases ts with
  | nil => cases h
  | cons l r =>
    dsimp only at h
    cases hatom : atom? l.token with
    | some single =>
      rw [hatom] at h
      cases h
      exact ⟨[l], 0, rfl, by omega, .atom (atom?_eq_some_iff.1 hatom)⟩
    | none =>
      rw [hatom] at h
      dsimp only at h
      split at h
      · rename_i hparen
        obtain ⟨⟨e', r₁⟩, hread, hnext⟩ := Option.bind_eq_some_iff.1 h
        obtain ⟨⟨_, r₂⟩, hexpect, hs⟩ := Option.map_eq_some_iff.1 hnext
        cases hs
        obtain ⟨last, hlast, rfl⟩ := read?_expect_eq_some.1 hexpect
        obtain ⟨front, d, rfl, hd, hfront⟩ := hinner _ _ _ hread
        refine ⟨l :: (front ++ [last]), d, by simp, hd, ?_⟩
        rw [List.map_cons, List.map_append, List.map_singleton, hparen, hlast]
        exact .parenthesised hfront
      · split at h
        · rename_i hbracket
          split at h
          · obtain ⟨⟨_, r₁⟩, hexpect, hs⟩ := Option.map_eq_some_iff.1 h
            cases hs
            obtain ⟨last, hlast, rfl⟩ := read?_expect_eq_some.1 hexpect
            refine ⟨[l, last], 0, rfl, by omega, ?_⟩
            rw [List.map_cons, List.map_singleton, hbracket, hlast]
            exact .noItems
          · obtain ⟨es, last, hlast, rfl, front, d, rfl, hd, hfront⟩ := items_sound hinner [] r h
            refine ⟨l :: (front ++ [last]), d, by simp, hd, ?_⟩
            rw [List.map_cons, List.map_append, List.map_singleton, hbracket, hlast]
            exact .array hfront
        · cases h

theorem accesses_sound (hinner : Sound inner .conditional n) {before : List Token} {object : Expr} {d : Nat}
    (hd : d ≤ n) (hobject : Derives .accessed before object d) (ts : List Lexeme) {e : Expr} {rest : List Lexeme}
    (h : read? (accesses inner object ts) = some (e, rest)) :
    ∃ more d', ts = more ++ rest ∧ d' ≤ n ∧ Derives .accessed (before ++ more.map Lexeme.token) e d' := by
  induction hlength : ts.length using Nat.strongRecOn generalizing before object d ts with
  | ind length ih =>
  subst hlength
  rw [read?_accesses] at h
  cases ts with
  | nil =>
    cases h
    exact ⟨[], d, rfl, hd, by simpa using hobject⟩
  | cons l r =>
    dsimp only at h
    split at h
    · rename_i hdot
      cases r with
      | nil => cases h
      | cons f r' =>
        obtain ⟨name, hname, hnext⟩ := Option.bind_eq_some_iff.1 h
        have hmember := hobject.member (fieldName?_eq_some_iff.1 hname)
        have hshorter : r'.length < (l :: f :: r').length := Nat.lt_succ_of_lt (Nat.lt_succ_self _)
        obtain ⟨more, d', rfl, hd', hmore⟩ := ih _ hshorter hd hmember r' hnext rfl
        refine ⟨l :: f :: more, d', rfl, hd', ?_⟩
        rw [List.map_cons, List.map_cons, hdot]
        simpa using hmore
    · split at h
      · rename_i hbracket
        obtain ⟨⟨position, r₁⟩, hread, hclose⟩ := Option.bind_eq_some_iff.1 h
        obtain ⟨⟨_, r₂⟩, hexpect, hnext⟩ := Option.bind_eq_some_iff.1 hclose
        obtain ⟨last, hlast, rfl⟩ := read?_expect_eq_some.1 hexpect
        obtain ⟨front, d₂, rfl, hd₂, hfront⟩ := hinner _ _ _ hread
        have hmax : max d d₂ ≤ n := by omega
        have hshorter : r₂.length < (l :: (front ++ last :: r₂)).length := by
          rw [List.length_cons, List.length_append, List.length_cons]
          omega
        obtain ⟨more, d', rfl, hd', hmore⟩ := ih _ hshorter hmax (hobject.index hfront) r₂ hnext rfl
        refine ⟨l :: (front ++ last :: more), d', by simp, hd', ?_⟩
        rw [List.map_cons, List.map_append, List.map_cons, hbracket, hlast]
        simpa using hmore
      · cases h
        exact ⟨[], d, rfl, hd, by simpa using hobject⟩

theorem postfixed_sound (hinner : Sound inner .conditional n) : Sound (postfixed inner) .accessed n := by
  intro ts e rest h
  rw [read?_postfixed] at h
  obtain ⟨⟨first, r⟩, hfirst, hnext⟩ := Option.bind_eq_some_iff.1 h
  obtain ⟨front, d, rfl, hd, hfront⟩ := primary_sound hinner _ _ _ hfirst
  obtain ⟨more, d', rfl, hd', hmore⟩ := accesses_sound hinner hd hfront.whole r hnext
  exact ⟨front ++ more, d', by simp, hd', by simpa using hmore⟩

theorem unaryBody_sound {m : Nat} (hm : ∀ ts e rest, read? (operand ts) = some (e, rest) → m < n)
    (hoperand : Sound operand .signed m) (hinner : Sound inner .conditional n) :
    Sound (unaryBody operand inner) .signed n := by
  intro ts e rest h
  rw [read?_unaryBody] at h
  cases ts with
  | nil => cases h
  | cons l r =>
    dsimp only at h
    cases hsign : unaryOp? l.token with
    | none =>
      rw [hsign] at h
      exact (postfixed_sound hinner _ _ _ h).map fun _ d hd hfront => ⟨d, hd, hfront.unsigned⟩
    | some op =>
      rw [hsign] at h
      obtain ⟨⟨e', s⟩, hread, hs⟩ := Option.map_eq_some_iff.1 h
      cases hs
      have hlt := hm _ _ _ hread
      obtain ⟨front, d, rfl, hd, hfront⟩ := hoperand _ _ _ hread
      exact ⟨l :: front, d + 1, rfl, by omega, .sign (unaryOp?_eq_some_iff.1 hsign) hfront⟩

/-! ### Operators -/

/-- If an operator comes next, it is weaker than the given strength. -/
def Below (k : Nat) (ts : List Lexeme) : Prop :=
  ∀ op strength, binaryOp? (peek ts) = some (op, strength) → strength < k

theorem below_eight (ts : List Lexeme) : Below 8 ts := by
  intro op strength h
  have := (binaryOp?_eq_some_iff.1 h).bounds
  omega

/-- What is joined more tightly is also joined less tightly. -/
theorem Derives.loosen {k k' d : Nat} {ts : List Token} {e : Expr} (h : Derives (.joined k') ts e d) (hk : k ≤ k') :
    Derives (.joined k) ts e d := by
  induction hk with
  | refl => exact h
  | step _ ih => exact ih h.tighter

theorem Derives.of_joined_zero {ts : List Token} {e : Expr} {d : Nat} (h : Derives (.joined 0) ts e d) :
    Derives (.joined 1) ts e d := by
  cases h with
  | tighter inner => exact inner
  | join _ operator _ => exact absurd operator.bounds.1 (by decide)

/-- Operators that follow a phrase join it to the left: it is joined at least as tightly as the first of them
joins, so that no operator is passed over. -/
def ClimbSound (operand : Parser Expr) (n : Nat) (ts : List Lexeme) : Prop :=
  ∀ {least k d : Nat} {before : List Lexeme} {left e : Expr} {rest : List Lexeme}, least ≤ k → d ≤ n →
    Derives (.joined k) (before.map Lexeme.token) left d → Below (k + 1) ts →
      read? (climb operand least left ts) = some (e, rest) →
        Starts (.joined least) n (before ++ ts) e rest ∧ Below least rest

theorem binary_sound (hoperand : Sound operand .signed n) {least : Nat} (hleast : least ≤ 7) {ts : List Lexeme}
    (hclimb : ∀ r : List Lexeme, r.length < ts.length → ClimbSound operand n r) {e : Expr} {rest : List Lexeme}
    (h : read? (Parse.binary operand least ts) = some (e, rest)) :
    Starts (.joined least) n ts e rest ∧ Below least rest := by
  rw [read?_binary] at h
  obtain ⟨⟨left, r⟩, hleft, hnext⟩ := Option.bind_eq_some_iff.1 h
  obtain ⟨front, d, rfl, hd, hfront⟩ := hoperand _ _ _ hleft
  have hshorter : r.length < (front ++ r).length := by
    obtain ⟨t, us, hcons, -⟩ := hfront.exists_cons
    have hlength := congrArg List.length hcons
    rw [List.length_map, List.length_cons] at hlength
    rw [List.length_append]
    omega
  exact hclimb r hshorter hleast hd hfront.operand (below_eight r) hnext

theorem climb_sound (hoperand : Sound operand .signed n) (ts : List Lexeme) : ClimbSound operand n ts := by
  induction hlength : ts.length using Nat.strongRecOn generalizing ts with
  | ind length ih =>
  subst hlength
  intro least k d before left e rest hleast hd hleft hbelow h
  have hstop : Starts (.joined least) n (before ++ ts) left ts := ⟨before, d, rfl, hd, hleft.loosen hleast⟩
  rw [read?_climb] at h
  cases ts with
  | nil =>
    cases h
    exact ⟨hstop, nofun⟩
  | cons l r =>
    dsimp only at h
    cases hop : binaryOp? l.token with
    | none =>
      rw [hop] at h
      cases h
      refine ⟨hstop, fun op strength hnext => ?_⟩
      cases hop.symm.trans hnext
    | some operator =>
      obtain ⟨op, strength⟩ := operator
      rw [hop] at h
      dsimp only at h
      split at h
      · rename_i hweak
        cases h
        refine ⟨hstop, fun op' strength' hnext => ?_⟩
        cases hop.symm.trans hnext
        exact hweak
      · rename_i hstrong
        obtain ⟨⟨right, s⟩, hright, hnext⟩ := Option.bind_eq_some_iff.1 h
        have hoperator := binaryOp?_eq_some_iff.1 hop
        have htighter : strength + 1 ≤ 7 := Nat.succ_le_succ hoperator.bounds.2
        have hshorter : ∀ s : List Lexeme, s.length < r.length → ClimbSound operand n s :=
          fun s hs => ih _ (Nat.lt_succ_of_lt hs) s rfl
        obtain ⟨⟨front, d₂, rfl, hd₂, hfront⟩, hs⟩ := binary_sound hoperand htighter hshorter hright
        have hlower : strength ≤ k := Nat.le_of_lt_succ (hbelow op strength hop)
        have hjoin : Derives (.joined strength) ((before ++ l :: front).map Lexeme.token) (.binary op left right)
            (max d d₂) := by
          rw [List.map_append, List.map_cons]
          exact (hleft.loosen hlower).join hoperator hfront
        have hmax : max d d₂ ≤ n := by omega
        have hrest : s.length < (l :: (front ++ s)).length := by
          rw [List.length_cons, List.length_append]
          omega
        have hmore := ih _ hrest s rfl (Nat.le_of_not_lt hstrong) hmax hjoin hs hnext
        simpa using hmore

/-! ### Conditionals -/

theorem conditionalBody_sound (hoperand : Sound operand .signed n) (hinner : Sound inner .conditional n) :
    Sound (conditionalBody operand inner) .conditional (n + 1) := by
  intro ts e rest h
  rw [read?_conditionalBody] at h
  obtain ⟨⟨condition, r₁⟩, hcondition, hnext⟩ := Option.bind_eq_some_iff.1 h
  have hclimb (r : List Lexeme) (_ : r.length < ts.length) : ClimbSound operand n r := climb_sound hoperand r
  obtain ⟨⟨front, d₁, rfl, hd₁, hfront⟩, -⟩ := binary_sound hoperand (by omega) hclimb hcondition
  have hloosest := hfront.of_joined_zero
  have halone : Starts .conditional (n + 1) (front ++ r₁) condition r₁ :=
    ⟨front, d₁ + 1, rfl, by omega, .alone hloosest⟩
  cases r₁ with
  | nil =>
    cases hnext
    exact halone
  | cons l r =>
    dsimp only at hnext
    split at hnext
    · rename_i hquestion
      obtain ⟨⟨yes, r₂⟩, hyes, hnext⟩ := Option.bind_eq_some_iff.1 hnext
      obtain ⟨⟨_, r₃⟩, hcolon, hnext⟩ := Option.bind_eq_some_iff.1 hnext
      obtain ⟨⟨no, r₄⟩, hno, hs⟩ := Option.map_eq_some_iff.1 hnext
      cases hs
      obtain ⟨colon, htoken, rfl⟩ := read?_expect_eq_some.1 hcolon
      obtain ⟨second, d₂, rfl, hd₂, hsecond⟩ := hinner _ _ _ hyes
      obtain ⟨third, d₃, rfl, hd₃, hthird⟩ := hinner _ _ _ hno
      refine ⟨front ++ l :: (second ++ colon :: third), max d₁ (max d₂ d₃) + 1, by simp, by omega, ?_⟩
      rw [List.map_append, List.map_cons, List.map_append, List.map_cons, hquestion, htoken]
      exact .choice hloosest hsecond hthird
    · cases hnext
      exact halone

/-! ### The depth -/

theorem conditional_sound (n : Nat) : Sound (Parse.conditional n) .conditional n ∧ Sound (Parse.unary n) .signed n := by
  induction n with
  | zero =>
    have hconditional : Sound (Parse.conditional 0) .conditional 0 := sound_tooDeep _ _
    refine ⟨hconditional, ?_⟩
    rw [unary_zero]
    exact unaryBody_sound (m := 0) nofun (sound_tooDeep _ _) hconditional
  | succ n ih =>
    have hconditional : Sound (Parse.conditional (n + 1)) .conditional (n + 1) := conditionalBody_sound ih.2 ih.1
    refine ⟨hconditional, ?_⟩
    rw [unary_succ]
    exact unaryBody_sound (fun _ _ _ _ => n.lt_succ_self) ih.2 hconditional

end Grammar
end LiveLayout.Expr
