import LiveLayout.Proofs.Grammar.Errors
import LiveLayout.Proofs.Grammar.Lookahead
/-!
What the errors of the readers of phrases point at: the first lexeme that nothing can follow which would make up a
phrase with the lexemes up to it.
-/
namespace LiveLayout.Expr

open Parse

namespace Grammar

/-- The offset of an error that arises at `l`. When a field is missing the lexeme has been taken already. -/
def pointed (cause : SyntaxCause) (l : Lexeme) (rest : List Lexeme) : Nat :=
  match cause with
  | .expectedField _ => (rest.head?.getD l).offset
  | _ => l.offset

/-- Readers of lexemes; what they leave is related to what they get. -/
abbrev Reader (α : Type) (P : List Lexeme → List Lexeme → Prop) :=
  (ts : List Lexeme) → Except SyntaxError (α × { r : List Lexeme // P ts r })

/-- The tokens that any phrase that is begun can be ended with. -/
def closing : List Token := [.null, .rparen, .rbracket, .colon]

/-- Reading the lexemes fails at one of them, and fails there whatever comes after it, while what stands before it
can be continued to a whole. -/
def Blames {α : Type} {P : List Lexeme → List Lexeme → Prop} (p : Reader α P) (Whole : List Token → Prop)
    (err : SyntaxError) (ts : List Lexeme) : Prop :=
  ∃ front l rest, ts = front ++ l :: rest ∧ err.offset = pointed err.cause l rest ∧
    (∀ rest', read? (p (front ++ l :: rest')) = none) ∧
      ∃ more, more ⊆ closing ∧ Whole (front.map Lexeme.token ++ more)

/-- The tokens are a phrase of the kind, at most so deep. -/
def Phrase (c : Kind) (n : Nat) (us : List Token) : Prop := ∃ e d, d ≤ n ∧ Derives c us e d

/-- The end of the text is among the lexemes. -/
def Ended (ts : List Lexeme) : Prop := ∃ l ∈ ts, l.token = .eof

/-- All errors, but those on nesting, are at the lexeme that cannot belong to a whole. -/
def Faulty (p : Parser Expr) (Whole : List Token → Prop) : Prop :=
  ∀ ts err, Ended ts → p ts = .error err → err.cause ≠ .tooDeep → Blames p Whole err ts

variable {α β : Type} {P Q : List Lexeme → List Lexeme → Prop} {p : Reader α P} {q : Reader β Q}
  {Whole Whole' : List Token → Prop} {err : SyntaxError} {ts ts' front rest r : List Lexeme} {l : Lexeme} {e : Expr}
  {c : Kind} {d n : Nat}

/-- If reading what comes after some lexemes fails at a lexeme, then so does reading it all. -/
theorem Blames.liftClosed (h : Blames q Whole' err ts) (front : List Lexeme) (hts : ts' = front ++ ts)
    (hfail : ∀ us, us.head? = ts.head? → read? (q us) = none → read? (p (front ++ us)) = none) (more : List Token)
    (hclosing : more ⊆ closing) (hwhole : ∀ us, Whole' us → Whole (front.map Lexeme.token ++ (us ++ more))) :
    Blames p Whole err ts' := by
  obtain ⟨before, l, rest, rfl, hoffset, hfails, more', hclosing', hmore'⟩ := h
  refine ⟨front ++ before, l, rest, by rw [hts, List.append_assoc], hoffset, fun rest' => ?_, more' ++ more,
    List.append_subset.2 ⟨hclosing', hclosing⟩, ?_⟩
  · rw [List.append_assoc]
    refine hfail _ ?_ (hfails rest')
    cases before <;> rfl
  · simpa using hwhole _ hmore'

theorem Blames.lift (h : Blames q Whole' err ts) (front : List Lexeme) (hts : ts' = front ++ ts)
    (hfail : ∀ us, us.head? = ts.head? → read? (q us) = none → read? (p (front ++ us)) = none)
    (hwhole : ∀ us, Whole' us → Whole (front.map Lexeme.token ++ us)) : Blames p Whole err ts' := by
  refine h.liftClosed front hts hfail [] (List.nil_subset _) fun us hus => ?_
  rw [List.append_nil]
  exact hwhole us hus

/-- A reader that starts with another one fails where that one does. -/
theorem Blames.mono (h : Blames q Whole' err ts)
    (hfail : ∀ us, us.head? = ts.head? → read? (q us) = none → read? (p us) = none)
    (hwhole : ∀ us, Whole' us → Whole us) : Blames p Whole err ts :=
  h.lift [] rfl hfail hwhole

theorem not_ended_nil : ¬Ended [] := nofun

theorem Ended.tail (h : Ended (l :: r)) (hl : l.token ≠ .eof) : Ended r := by
  obtain ⟨last, hlast, heof⟩ := h
  rcases List.mem_cons.1 hlast with rfl | hlast
  · exact absurd heof hl
  · exact ⟨last, hlast, heof⟩

/-- The end is not in a phrase. -/
theorem Ended.after (h : Ended (front ++ rest)) (hfront : Derives c (front.map Lexeme.token) e d) : Ended rest := by
  obtain ⟨last, hlast, heof⟩ := h
  rcases List.mem_append.1 hlast with hlast | hlast
  · exact absurd (heof ▸ List.mem_map_of_mem hlast) hfront.eof_notMem
  · exact ⟨last, hlast, heof⟩

theorem expect_blames {wanted : Token} (hwanted : [wanted] ⊆ closing) (hended : Ended ts)
    (h : expect wanted ts = .error err) :
    Blames (expect wanted) (· = [wanted]) err ts := by
  cases ts with
  | nil => exact absurd hended not_ended_nil
  | cons l r =>
    obtain ⟨hne, rfl⟩ := expect_eq_error h
    refine ⟨[], l, r, rfl, rfl, fun rest' => ?_, [wanted], hwanted, rfl⟩
    cases hread : read? (expect wanted (l :: rest')) with
    | none => exact hread
    | some result =>
      obtain ⟨l', hl', hcons⟩ := read?_expect_eq_some.1 hread
      cases hcons
      exact absurd hl' hne

/-! ### Arrays -/

/-- Items of an array with the bracket after them. -/
def Closed (n : Nat) (us : List Token) : Prop :=
  ∃ inside es d, us = inside ++ [.rbracket] ∧ d ≤ n ∧ Derives .items inside (.array es) d

theorem items_blames (hinner : Faulty (Parse.conditional n) (Phrase .conditional n)) (acc : List Expr)
    (ts : List Lexeme) (hended : Ended ts) (h : items (Parse.conditional n) acc ts = .error err)
    (hdeep : err.cause ≠ .tooDeep) :
    Blames (items (Parse.conditional n) acc) (Closed n) err ts := by
  induction hlength : ts.length using Nat.strongRecOn generalizing acc ts with
  | ind length ih =>
  subst hlength
  rcases items_eq_error h with hitem | ⟨e, r, hread, hnext⟩
  · have hblames := hinner ts err hended hitem hdeep
    refine hblames.liftClosed [] rfl (fun us _ hfail => ?_) [.rbracket] (by simp [closing]) ?_
    · rw [List.nil_append, read?_items, hfail]
      rfl
    · rintro us ⟨e, d, hd, hus⟩
      exact ⟨us, [e], d, rfl, hd, .lastItem hus⟩
  · obtain ⟨front, d, rfl, hd, hfront, hagain⟩ := rereads_conditional hread
    have hended' := hended.after hfront
    rcases hnext with rfl | ⟨l, r', rfl, ⟨hcomma, hmore⟩ | ⟨hcomma, hclose⟩⟩
    · exact absurd hended' not_ended_nil
    · have hshorter : r'.length < (front ++ l :: r').length := by
        rw [List.length_append, List.length_cons]
        omega
      have hblames := ih _ hshorter (e :: acc) r' (hended'.tail (by simp [hcomma])) hmore rfl
      refine hblames.lift (front ++ [l]) (by simp) (fun us _ hfail => ?_) ?_
      · rw [List.append_assoc, List.singleton_append, read?_items, hagain (l :: us) rfl]
        dsimp only [Option.bind_some]
        rw [if_pos hcomma]
        exact hfail
      · rintro us ⟨inside, es, d', rfl, hd', hinside⟩
        refine ⟨front.map Lexeme.token ++ .comma :: inside, e :: es, max d d', ?_, by omega, .item hfront hinside⟩
        simp [hcomma]
    · refine (expect_blames (by simp [closing]) hended' hclose).lift front rfl (fun us hhead hfail => ?_) ?_
      · rw [read?_items, hagain us hhead]
        cases us with
        | nil => rfl
        | cons l' us' =>
          cases hhead
          dsimp only [Option.bind_some]
          rw [if_neg hcomma, hfail]
          rfl
      · rintro us rfl
        exact ⟨front.map Lexeme.token, [e], d, rfl, hd, .lastItem hfront⟩

/-! ### Operands -/

theorem read?_primary_lparen {inner : Parser Expr} (hl : l.token = .lparen) (r : List Lexeme) :
    read? (primary inner (l :: r)) =
      (read? (inner r)).bind fun (e, r₁) => (read? (expect .rparen r₁)).map fun (_, r₂) => (e, r₂) := by
  have hnone : atom? l.token = none := by rw [hl]; rfl
  rw [read?_primary]
  dsimp only
  rw [hnone]
  dsimp only
  rw [if_pos hl]

theorem primary_blames (hinner : Faulty (Parse.conditional n) (Phrase .conditional n)) :
    Faulty (primary (Parse.conditional n)) (Phrase .primary n) := by
  intro ts err hended h hdeep
  cases ts with
  | nil => exact absurd hended not_ended_nil
  | cons l r =>
    obtain ⟨hatom, ⟨hparen, hexpr⟩ | ⟨hbracket, hopen, hitems⟩ | ⟨hparen, hbracket, rfl⟩⟩ := primary_eq_error h
    · have hended' := hended.tail (by simp [hparen])
      rcases hexpr with hexpr | ⟨e, r₁, hread, hclose⟩
      · have hblames := hinner r err hended' hexpr hdeep
        refine hblames.liftClosed [l] rfl (fun us _ hfail => ?_) [.rparen] (by simp [closing]) ?_
        · rw [List.singleton_append, read?_primary_lparen hparen, hfail]
          rfl
        · rintro us ⟨e, d, hd, hus⟩
          refine ⟨e, d, hd, ?_⟩
          rw [List.map_singleton, hparen]
          exact .parenthesised hus
      · obtain ⟨front, d, rfl, hd, hfront, hagain⟩ := rereads_conditional hread
        have hblames := expect_blames (by simp [closing]) (hended'.after hfront) hclose
        refine hblames.lift (l :: front) rfl (fun us hhead hfail => ?_) ?_
        · rw [List.cons_append, read?_primary_lparen hparen, hagain us hhead]
          dsimp only [Option.bind_some]
          rw [hfail]
          rfl
        · rintro us rfl
          refine ⟨e, d, hd, ?_⟩
          rw [List.map_cons, hparen]
          exact .parenthesised hfront
    · have hended' := hended.tail (by simp [hbracket])
      refine (items_blames hinner [] r hended' hitems hdeep).lift [l] rfl (fun us hhead hfail => ?_) ?_
      · rw [← peek_congr hhead] at hopen
        rw [List.singleton_append, read?_primary_lbracket hbracket, if_neg hopen]
        exact hfail
      · rintro us ⟨inside, es, d, rfl, hd, hinside⟩
        refine ⟨.array es, d, hd, ?_⟩
        rw [List.map_singleton, hbracket]
        exact .array hinside
    · refine ⟨[], l, r, rfl, rfl, fun rest' => ?_, [.null], by simp [closing], .literal .null, 0, Nat.zero_le _,
        .atom .null⟩
      rw [List.nil_append, read?_primary]
      dsimp only
      rw [hatom]
      dsimp only
      rw [if_neg hparen, if_neg hbracket]

theorem read?_accesses_dot {inner : Parser Expr} (hdot : l.token = .dot) (object : Expr) (f : Lexeme)
    (r : List Lexeme) : read? (accesses inner object (l :: f :: r)) =
      (fieldName? f.token).bind fun name => read? (accesses inner (.member object name) r) := by
  rw [read?_accesses]
  exact if_pos hdot

theorem read?_accesses_lbracket {inner : Parser Expr} (hbracket : l.token = .lbracket) (object : Expr)
    (r : List Lexeme) : read? (accesses inner object (l :: r)) =
      (read? (inner r)).bind fun (position, r₁) => (read? (expect .rbracket r₁)).bind fun (_, r₂) =>
        read? (accesses inner (.index object position) r₂) := by
  have hdot : l.token ≠ .dot := by simp [hbracket]
  rw [read?_accesses]
  dsimp only
  rw [if_neg hdot, if_pos hbracket]

/-- Members and positions after an object. -/
theorem accesses_blames (hinner : Faulty (Parse.conditional n) (Phrase .conditional n)) {before : List Token}
    {object : Expr} (hd : d ≤ n) (hobject : Derives .accessed before object d) (ts : List Lexeme) (hended : Ended ts)
    (h : accesses (Parse.conditional n) object ts = .error err) (hdeep : err.cause ≠ .tooDeep) :
    Blames (accesses (Parse.conditional n) object) (fun us => Phrase .accessed n (before ++ us))
      err ts := by
  induction hlength : ts.length using Nat.strongRecOn generalizing before object d ts with
  | ind length ih =>
  subst hlength
  obtain ⟨l, r, rfl, ⟨hdot, hfield⟩ | ⟨-, hbracket, hposition⟩⟩ := accesses_eq_error h
  · have hended' := hended.tail (by simp [hdot])
    rcases hfield with rfl | ⟨f, r', rfl, ⟨hname, rfl⟩ | ⟨name, hname, hnext⟩⟩
    · exact absurd hended' not_ended_nil
    -- The lexeme in place of a field is taken before it is looked at, so that the error is one lexeme further on.
    · refine ⟨[l], f, r', rfl, by cases r' <;> rfl, fun rest' => ?_, [.null], by simp [closing],
        .member object "null", d, hd, ?_⟩
      · rw [List.singleton_append, read?_accesses_dot hdot, hname]
        rfl
      · rw [List.map_singleton, hdot]
        exact hobject.member .null
    · have hmember := hobject.member (fieldName?_eq_some_iff.1 hname)
      have hshorter : r'.length < (l :: f :: r').length := Nat.lt_succ_of_lt (Nat.lt_succ_self _)
      have hf : f.token ≠ .eof := by
        intro heof
        rw [heof] at hname
        cases hname
      refine (ih _ hshorter hd hmember r' (hended'.tail hf) hnext rfl).lift [l, f] rfl (fun us _ hfail => ?_) ?_
      · rw [List.cons_append, List.singleton_append, read?_accesses_dot hdot, hname]
        exact hfail
      · intro us hus
        rw [List.map_cons, List.map_singleton, hdot, ← List.append_assoc]
        exact hus
  · have hended' := hended.tail (by simp [hbracket])
    rcases hposition with hexpr | ⟨position, r₁, hread, hrest⟩
    · have hblames := hinner r err hended' hexpr hdeep
      refine hblames.liftClosed [l] rfl (fun us _ hfail => ?_) [.rbracket] (by simp [closing]) ?_
      · rw [List.singleton_append, read?_accesses_lbracket hbracket, hfail]
        rfl
      · rintro us ⟨position, d', hd', hus⟩
        refine ⟨.index object position, max d d', by omega, ?_⟩
        rw [List.map_singleton, hbracket]
        exact hobject.index hus
    · obtain ⟨front, d', rfl, hd', hfront, hagain⟩ := rereads_conditional hread
      have hended'' := hended'.after hfront
      rcases hrest with hclose | ⟨r₂, hexpect, hnext⟩
      · refine (expect_blames (by simp [closing]) hended'' hclose).lift (l :: front) rfl (fun us hhead hfail => ?_) ?_
        · rw [List.cons_append, read?_accesses_lbracket hbracket, hagain us hhead]
          dsimp only [Option.bind_some]
          rw [hfail]
          rfl
        · rintro us rfl
          refine ⟨.index object position, max d d', by omega, ?_⟩
          rw [List.map_cons, hbracket]
          exact hobject.index hfront
      · obtain ⟨last, hlast, rfl⟩ := read?_expect_eq_some.1 hexpect
        have hshorter : r₂.length < (l :: (front ++ last :: r₂)).length := by
          rw [List.length_cons, List.length_append, List.length_cons]
          omega
        have hmax : max d d' ≤ n := by omega
        have hblames := ih _ hshorter hmax (hobject.index hfront) r₂ (hended''.tail (by simp [hlast])) hnext rfl
        refine hblames.lift (l :: (front ++ [last])) (by simp) (fun us _ hfail => ?_) ?_
        · rw [List.cons_append, List.append_assoc, List.singleton_append, read?_accesses_lbracket hbracket,
            hagain (last :: us) rfl]
          dsimp only [Option.bind_some]
          rw [read?_expect_cons hlast]
          exact hfail
        · intro us hus
          simpa [hbracket, hlast] using hus

theorem postfixed_blames (hinner : Faulty (Parse.conditional n) (Phrase .conditional n)) :
    Faulty (postfixed (Parse.conditional n)) (Phrase .accessed n) := by
  intro ts err hended h hdeep
  rcases postfixed_eq_error h with hprimary | ⟨e, r, hread, haccesses⟩
  · refine (primary_blames hinner ts err hended hprimary hdeep).mono (fun us _ hfail => ?_) ?_
    · rw [read?_postfixed, hfail]
      rfl
    · rintro us ⟨e, d, hd, hus⟩
      exact ⟨e, d, hd, hus.whole⟩
  · obtain ⟨front, d, rfl, hd, hfront, hagain⟩ := rereads_primary hread
    have hblames := accesses_blames hinner hd hfront.whole r (hended.after hfront) haccesses hdeep
    refine hblames.lift front rfl (fun us hhead hfail => ?_) fun us hus => hus
    rw [read?_postfixed, hagain us hhead]
    exact hfail

/-- The operand of a sign is less deep than what the sign starts. -/
theorem unaryBody_blames {operand : Parser Expr}
    (hoperand : Faulty operand fun us => ∃ e d, d < n ∧ Derives .signed us e d)
    (hinner : Faulty (Parse.conditional n) (Phrase .conditional n)) :
    Faulty (unaryBody operand (Parse.conditional n)) (Phrase .signed n) := by
  intro ts err hended h hdeep
  cases ts with
  | nil => exact absurd hended not_ended_nil
  | cons l r =>
    rcases unaryBody_eq_error h with ⟨op, hsign, hfails⟩ | ⟨hsign, hfails⟩
    · have hl : l.token ≠ .eof := by
        intro heof
        rw [heof] at hsign
        cases hsign
      refine (hoperand r err (hended.tail hl) hfails hdeep).lift [l] rfl (fun us _ hfail => ?_) ?_
      · rw [List.singleton_append, read?_unaryBody]
        dsimp only
        rw [hsign]
        dsimp only
        rw [hfail]
        rfl
      · rintro us ⟨e, d, hd, hus⟩
        exact ⟨.unary op e, d + 1, hd, hus.sign (unaryOp?_eq_some_iff.1 hsign)⟩
    · refine (postfixed_blames hinner _ err hended hfails hdeep).mono (fun us hhead hfail => ?_) ?_
      · cases us with
        | nil => cases hhead
        | cons l' us' =>
          cases hhead
          rw [read?_unaryBody]
          dsimp only
          rw [hsign]
          exact hfail
      · rintro us ⟨e, d, hd, hus⟩
        exact ⟨e, d, hd, hus.unsigned⟩

/-! ### Operators -/

/-- All errors in the operators that follow a phrase, but those on nesting, are at the lexeme that cannot go on with
it. -/
def ClimbFaulty (n : Nat) (ts : List Lexeme) : Prop :=
  ∀ {least k d : Nat} {before : List Token} {left : Expr} {err : SyntaxError}, least ≤ k → d ≤ n →
    Derives (.joined k) before left d → Below (k + 1) ts → Ended ts →
      climb (Parse.unary n) least left ts = .error err → err.cause ≠ .tooDeep →
        Blames (climb (Parse.unary n) least left) (fun us => Phrase (.joined least) n (before ++ us)) err ts

theorem binary_blames (hunary : Faulty (Parse.unary n) (Phrase .signed n)) {least : Nat} (hleast : least ≤ 7)
    (hclimb : ∀ r : List Lexeme, r.length < ts.length → ClimbFaulty n r) (hended : Ended ts)
    (h : Parse.binary (Parse.unary n) least ts = .error err) (hdeep : err.cause ≠ .tooDeep) :
    Blames (Parse.binary (Parse.unary n) least) (Phrase (.joined least) n) err ts := by
  rcases binary_eq_error h with hoperand | ⟨left, r, hread, hnext⟩
  · refine (hunary ts err hended hoperand hdeep).mono (fun us _ hfail => ?_) ?_
    · rw [read?_binary, hfail]
      rfl
    · rintro us ⟨e, d, hd, hus⟩
      exact ⟨e, d, hd, hus.operand.loosen hleast⟩
  · have hshorter : r.length < ts.length := property_of_read? hread
    obtain ⟨front, d, rfl, hd, hfront, hagain⟩ := rereads_unary hread
    have hblames := hclimb r hshorter hleast hd hfront.operand (below_eight r) (hended.after hfront) hnext hdeep
    refine hblames.lift front rfl (fun us hhead hfail => ?_) fun us hus => hus
    rw [read?_binary, hagain us hhead]
    exact hfail

theorem climb_blames (hunary : Faulty (Parse.unary n) (Phrase .signed n)) (ts : List Lexeme) : ClimbFaulty n ts := by
  induction hlength : ts.length using Nat.strongRecOn generalizing ts with
  | ind length ih =>
  subst hlength
  intro least k d before left err hleast hd hleft hbelow hended h hdeep
  obtain ⟨l, r, op, strength, rfl, hop, hstrong, hfails⟩ := climb_eq_error h
  have hoperator := binaryOp?_eq_some_iff.1 hop
  have htighter : strength + 1 ≤ 7 := Nat.succ_le_succ hoperator.bounds.2
  have hlower : strength ≤ k := Nat.le_of_lt_succ (hbelow op strength hop)
  have hl : l.token ≠ .eof := by
    intro heof
    rw [heof] at hop
    cases hop
  have hended' := hended.tail hl
  have hread?_eq (us : List Lexeme) : read? (climb (Parse.unary n) least left (l :: us)) =
      (read? (Parse.binary (Parse.unary n) (strength + 1) us)).bind fun (right, s) =>
        read? (climb (Parse.unary n) least (.binary op left right) s) := by
    rw [read?_climb]
    dsimp only
    rw [hop]
    dsimp only
    rw [if_neg (Nat.not_lt.2 hstrong)]
  rcases hfails with hright | ⟨right, s, hread, hnext⟩
  · have hclimb : ∀ s : List Lexeme, s.length < r.length → ClimbFaulty n s :=
      fun s hs => ih _ (Nat.lt_succ_of_lt hs) s rfl
    refine (binary_blames hunary htighter hclimb hended' hright hdeep).lift [l] rfl (fun us _ hfail => ?_) ?_
    · rw [List.singleton_append, hread?_eq, hfail]
      rfl
    · rintro us ⟨right, d', hd', hus⟩
      have hjoin := (hleft.loosen hlower).join hoperator hus
      exact ⟨.binary op left right, max d d', by omega, hjoin.loosen hstrong⟩
  · have hshorter : s.length < (l :: r).length := Nat.lt_succ_of_lt (property_of_read? hread)
    obtain ⟨-, hs, -⟩ := binary_starts htighter hread
    obtain ⟨front, d', rfl, hd', hfront, hagain⟩ := rereads_binary htighter hread
    have hjoin := (hleft.loosen hlower).join hoperator hfront
    have hmax : max d d' ≤ n := by omega
    have hblames := ih _ hshorter s rfl hstrong hmax hjoin hs (hended'.after hfront) hnext hdeep
    refine hblames.lift (l :: front) rfl (fun us hhead hfail => ?_) fun us hus => ?_
    · rw [List.cons_append, hread?_eq, hagain us hhead]
      exact hfail
    · simpa using hus

/-! ### Conditionals -/

/-- Where a conditional fits, so does the shortest one. -/
theorem Phrase.null {us : List Token} (h : Phrase .conditional n us) : Phrase .conditional n [.null] := by
  obtain ⟨e, d, hd, hus⟩ := h
  have hpositive : 1 ≤ d := by cases hus <;> omega
  have hnull : Derives .accessed [.null] (.literal .null) 0 := .whole (.atom .null)
  exact ⟨_, 1, by omega, .alone ((Derives.operand (.unsigned hnull)).loosen (by decide))⟩

theorem Phrase.choice {before us vs : List Token} {d₁ : Nat} (hd₁ : d₁ ≤ n)
    (hcondition : Derives (.joined 1) before e d₁) (hyes : Phrase .conditional n us) (hno : Phrase .conditional n vs) :
    Phrase .conditional (n + 1) (before ++ .question :: (us ++ .colon :: vs)) := by
  obtain ⟨yes, d₂, hd₂, hyes⟩ := hyes
  obtain ⟨no, d₃, hd₃, hno⟩ := hno
  exact ⟨_, _, by omega, .choice hcondition hyes hno⟩

theorem conditionalBody_blames (hunary : Faulty (Parse.unary n) (Phrase .signed n))
    (hinner : Faulty (Parse.conditional n) (Phrase .conditional n)) :
    Faulty (conditionalBody (Parse.unary n) (Parse.conditional n)) (Phrase .conditional (n + 1)) := by
  intro ts err hended h hdeep
  have hclimb (r : List Lexeme) (_ : r.length < ts.length) : ClimbFaulty n r := climb_blames hunary r
  rcases conditionalBody_eq_error h with hcondition | ⟨condition, l, r, hread, hquestion, hfails⟩
  · refine (binary_blames hunary (by omega) hclimb hended hcondition hdeep).mono (fun us _ hfail => ?_) ?_
    · rw [read?_conditionalBody, hfail]
      rfl
    · rintro us ⟨e, d, hd, hus⟩
      exact ⟨e, d + 1, by omega, .alone hus.of_joined_zero⟩
  · obtain ⟨front, d₁, rfl, hd₁, hfront, hagain⟩ := rereads_binary (by omega) hread
    have hloosest := hfront.of_joined_zero
    have hended' := (hended.after hfront).tail (by simp [hquestion])
    have hread?_eq (us : List Lexeme) :
        read? (conditionalBody (Parse.unary n) (Parse.conditional n) (front ++ l :: us)) =
          (read? (Parse.conditional n us)).bind fun (yes, r₂) => (read? (expect .colon r₂)).bind fun (_, r₃) =>
            (read? (Parse.conditional n r₃)).map fun (no, r₄) => (.conditional condition yes no, r₄) := by
      rw [read?_conditionalBody, hagain (l :: us) rfl]
      exact if_pos hquestion
    rcases hfails with hyes | ⟨yes, r₂, hyes, hrest⟩
    · have hblames := hinner r err hended' hyes hdeep
      refine hblames.liftClosed (front ++ [l]) (by simp) (fun us _ hfail => ?_) [.colon, .null] (by simp [closing])
        fun us hus => ?_
      · rw [List.append_assoc, List.singleton_append, hread?_eq, hfail]
        rfl
      · simpa [hquestion] using Phrase.choice hd₁ hloosest hus hus.null
    · obtain ⟨second, d₂, rfl, hd₂, hsecond, hagain'⟩ := rereads_conditional hyes
      have hyes' : Phrase .conditional n (second.map Lexeme.token) := ⟨yes, d₂, hd₂, hsecond⟩
      have hended'' := hended'.after hsecond
      rcases hrest with hcolon | ⟨r₃, hcolon, hno⟩
      · have hblames := expect_blames (by simp [closing]) hended'' hcolon
        refine hblames.liftClosed (front ++ l :: second) (by simp) (fun us hhead hfail => ?_) [.null]
          (by simp [closing]) ?_
        · rw [List.append_assoc, List.cons_append, hread?_eq, hagain' us hhead]
          dsimp only [Option.bind_some]
          rw [hfail]
          rfl
        · rintro us rfl
          simpa [hquestion] using Phrase.choice hd₁ hloosest hyes' hyes'.null
      · obtain ⟨colon, htoken, rfl⟩ := read?_expect_eq_some.1 hcolon
        have hblames := hinner r₃ err (hended''.tail (by simp [htoken])) hno hdeep
        refine hblames.lift (front ++ l :: (second ++ [colon])) (by simp) (fun us _ hfail => ?_) fun us hus => ?_
        · have hshape : front ++ l :: (second ++ [colon]) ++ us = front ++ l :: (second ++ colon :: us) := by simp
          rw [hshape, hread?_eq, hagain' (colon :: us) rfl]
          dsimp only [Option.bind_some]
          rw [read?_expect_cons htoken]
          dsimp only [Option.bind_some]
          rw [hfail]
          rfl
        · simpa [hquestion, htoken] using Phrase.choice hd₁ hloosest hyes' hus

/-! ### The depth -/

theorem tooDeep_faulty (Whole : List Token → Prop) : Faulty tooDeep Whole := by
  intro ts err _ h hdeep
  cases h
  exact absurd rfl hdeep

theorem conditional_faulty (n : Nat) :
    Faulty (Parse.conditional n) (Phrase .conditional n) ∧ Faulty (Parse.unary n) (Phrase .signed n) := by
  induction n with
  | zero =>
    have hconditional : Faulty (Parse.conditional 0) (Phrase .conditional 0) := tooDeep_faulty _
    refine ⟨hconditional, ?_⟩
    rw [unary_zero]
    exact unaryBody_blames (tooDeep_faulty _) hconditional
  | succ n ih =>
    have hconditional : Faulty (Parse.conditional (n + 1)) (Phrase .conditional (n + 1)) :=
      conditionalBody_blames ih.2 ih.1
    refine ⟨hconditional, ?_⟩
    rw [unary_succ]
    refine unaryBody_blames (fun ts err hended h hdeep => ?_) hconditional
    refine (ih.2 ts err hended h hdeep).mono (fun us _ hfail => hfail) ?_
    rintro us ⟨e, d, hd, hus⟩
    exact ⟨e, d, Nat.lt_succ_of_le hd, hus⟩

end Grammar
end LiveLayout.Expr
