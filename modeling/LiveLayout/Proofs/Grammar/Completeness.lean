import LiveLayout.Proofs.Grammar.Soundness
/-!
Every phrase is read, as what it stands for. Hence the lexemes that are an expression are those that the grammar
derives with at most 128 levels of nesting, and no two expressions have the same ones.
-/
namespace LiveLayout.Expr

open Parse

namespace Grammar

variable {ts us : List Token} {t : Token} {front rest : List Lexeme} {e : Expr} {d n : Nat}

/-! ### What may follow a phrase -/

/-- Neither a member nor a position comes next. -/
def NoAccess (ts : List Lexeme) : Prop := peek ts ≠ .dot ∧ peek ts ≠ .lbracket

/-- Nothing comes next that would go on with a conditional. -/
structure Ends (ts : List Lexeme) : Prop where
  access : NoAccess ts
  operator : binaryOp? (peek ts) = none
  question : peek ts ≠ .question

theorem ends_cons {l : Lexeme} (h : l.token = .rparen ∨ l.token = .rbracket ∨ l.token = .comma ∨ l.token = .colon ∨
    l.token = .eof) (rest : List Lexeme) : Ends (l :: rest) := by
  rcases h with h | h | h | h | h <;> constructor <;> simp [NoAccess, peek, h, binaryOp?]

theorem Ends.below (h : Ends rest) (k : Nat) : Below k rest := by
  intro op strength hop
  cases h.operator.symm.trans hop

theorem Operator.noAccess {op : BinaryOp} {k : Nat} (h : Operator k t op) {l : Lexeme} (hl : l.token = t)
    (rest : List Lexeme) : NoAccess (l :: rest) := by
  cases h <;> simp [NoAccess, peek, hl]

theorem Operator.below {op : BinaryOp} {k : Nat} (h : Operator k t op) {l : Lexeme} (hl : l.token = t)
    (rest : List Lexeme) : Below (k + 1) (l :: rest) := by
  intro op' strength hop
  have hsame : some (op, k) = some (op', strength) := by
    rw [← binaryOp?_eq_some_iff.2 h, ← hl]
    exact hop
  cases hsame
  exact Nat.lt_succ_self _

/-- Where no operator of the strength comes next, what was read stays as it is. -/
theorem read?_climb_of_below {operand : Parser Expr} {least : Nat} (h : Below least rest) (left : Expr) :
    read? (climb operand least left rest) = some (left, rest) := by
  rw [read?_climb]
  cases rest with
  | nil => rfl
  | cons l r =>
    dsimp only
    cases hop : binaryOp? l.token with
    | none => rfl
    | some operator => exact if_pos (h _ _ hop)

theorem read?_accesses_of_noAccess {inner : Parser Expr} (h : NoAccess rest) (e : Expr) :
    read? (accesses inner e rest) = some (e, rest) := by
  rw [read?_accesses]
  cases rest with
  | nil => rfl
  | cons l r =>
    obtain ⟨hdot, hbracket⟩ : l.token ≠ .dot ∧ l.token ≠ .lbracket := h
    dsimp only
    rw [if_neg hdot, if_neg hbracket]

theorem read?_expect_cons {wanted : Token} {l : Lexeme} (h : l.token = wanted) (rest : List Lexeme) :
    read? (expect wanted (l :: rest)) = some ((), rest) :=
  read?_expect_eq_some.2 ⟨l, h, rfl⟩

theorem unary_eq (n : Nat) : ∃ operand, Parse.unary n = unaryBody operand (Parse.conditional n) := by
  cases n with
  | zero => exact ⟨_, unary_zero⟩
  | succ n => exact ⟨_, unary_succ n⟩

theorem exists_of_map_eq_append_cons (h : front.map Lexeme.token = ts ++ t :: us) :
    ∃ f l g, front = f ++ l :: g ∧ f.map Lexeme.token = ts ∧ l.token = t ∧ g.map Lexeme.token = us := by
  obtain ⟨f, tail, rfl, hf, htail⟩ := List.map_eq_append_iff.1 h
  obtain ⟨l, g, rfl, hl, hg⟩ := List.map_eq_cons_iff.1 htail
  exact ⟨f, l, g, rfl, hf, hl, hg⟩

/-! ### What is read of a phrase -/

/-- What the reader of a kind of phrases makes of a phrase with other lexemes after it, at the given depth. -/
def Read : Kind → Nat → Expr → List Lexeme → List Lexeme → Prop
  | .conditional, n, e, ts, rest => Ends rest → read? (Parse.conditional n ts) = some (e, rest)
  | .joined k, n, e, ts, rest => Below (k + 1) rest → NoAccess rest → ∀ least ≤ k,
      read? (Parse.binary (Parse.unary n) least ts) = read? (climb (Parse.unary n) least e rest)
  | .signed, n, e, ts, rest => NoAccess rest → read? (Parse.unary n ts) = some (e, rest)
  | .accessed, n, e, ts, rest =>
      read? (postfixed (Parse.conditional n) ts) = read? (accesses (Parse.conditional n) e rest)
  | .primary, n, e, ts, rest => read? (primary (Parse.conditional n) ts) = some (e, rest)
  | .items, n, e, ts, rest => ∀ acc es last rest', e = .array es → rest = last :: rest' → last.token = .rbracket →
      read? (items (Parse.conditional n) acc ts) = some (.array (acc.reverse ++ es), rest')

/-- A phrase is read whatever comes after it and however deep the reader may still go. -/
def Complete (c : Kind) (ts : List Token) (e : Expr) (d : Nat) : Prop :=
  ∀ n front rest, d ≤ n → front.map Lexeme.token = ts → Read c n e (front ++ rest) rest

theorem complete_alone (h : Complete (.joined 1) ts e d) : Complete .conditional ts e (d + 1) := by
  intro n front rest hn hfront hends
  obtain ⟨m, rfl⟩ := Nat.exists_eq_add_of_le' hn
  have hbinary := h (m + d) front rest (Nat.le_add_left ..) hfront (hends.below 2) hends.access 0 (by omega)
  rw [read?_climb_of_below (hends.below 0)] at hbinary
  change read? (conditionalBody (Parse.unary (m + d)) _ _) = _
  rw [read?_conditionalBody, hbinary]
  cases rest with
  | nil => rfl
  | cons l r => exact if_neg hends.question

theorem complete_choice {vs : List Token} {condition yes no : Expr} {d₁ d₂ d₃ : Nat}
    (hcondition : Complete (.joined 1) ts condition d₁) (hyes : Complete .conditional us yes d₂)
    (hno : Complete .conditional vs no d₃) :
    Complete .conditional (ts ++ .question :: (us ++ .colon :: vs)) (.conditional condition yes no)
      (max d₁ (max d₂ d₃) + 1) := by
  intro n front rest hn hfront hends
  obtain ⟨m, rfl⟩ := Nat.exists_eq_add_of_le' hn
  obtain ⟨first, question, tail, rfl, hfirst, hquestion, htail⟩ := exists_of_map_eq_append_cons hfront
  obtain ⟨second, colon, third, rfl, hsecond, hcolon, hthird⟩ := exists_of_map_eq_append_cons htail
  have hnone : binaryOp? question.token = none := by rw [hquestion]; rfl
  have hbelow (k : Nat) : Below k (question :: (second ++ colon :: third ++ rest)) := by
    intro op strength hop
    cases hnone.symm.trans hop
  have haccess : NoAccess (question :: (second ++ colon :: third ++ rest)) := by simp [NoAccess, peek, hquestion]
  have hbinary := hcondition (m + max d₁ (max d₂ d₃)) first _ (by omega) hfirst (hbelow 2) haccess 0 (by omega)
  rw [read?_climb_of_below (hbelow 0)] at hbinary
  have hsecond' := hyes (m + max d₁ (max d₂ d₃)) second (colon :: (third ++ rest)) (by omega) hsecond
    (ends_cons (by simp [hcolon]) _)
  have hthird' := hno (m + max d₁ (max d₂ d₃)) third rest (by omega) hthird hends
  change read? (conditionalBody (Parse.unary (m + max d₁ (max d₂ d₃)))
    (Parse.conditional (m + max d₁ (max d₂ d₃))) _) = _
  rw [read?_conditionalBody, List.append_assoc, List.cons_append, hbinary]
  dsimp only [Option.bind_some]
  rw [if_pos hquestion, List.append_assoc, List.cons_append, hsecond']
  dsimp only [Option.bind_some]
  rw [read?_expect_cons hcolon]
  dsimp only [Option.bind_some]
  rw [hthird']
  rfl

theorem complete_join {left right : Expr} {d₁ d₂ k : Nat} {op : BinaryOp} (hleft : Complete (.joined k) ts left d₁)
    (hop : Operator k t op) (hright : Complete (.joined (k + 1)) us right d₂) :
    Complete (.joined k) (ts ++ t :: us) (.binary op left right) (max d₁ d₂) := by
  intro n front rest hn hfront hbelow haccess least hleast
  obtain ⟨first, l, second, rfl, hfirst, hl, hsecond⟩ := exists_of_map_eq_append_cons hfront
  have hleft' := hleft n first (l :: (second ++ rest)) (by omega) hfirst (hop.below hl _) (hop.noAccess hl _) least
    hleast
  have htighter : Below (k + 1 + 1) rest := fun o s ho => Nat.lt_succ_of_lt (hbelow o s ho)
  have hright' := hright n second rest (by omega) hsecond htighter haccess (k + 1) (Nat.le_refl _)
  rw [read?_climb_of_below hbelow] at hright'
  have hop' : binaryOp? l.token = some (op, k) := by
    rw [hl]
    exact binaryOp?_eq_some_iff.2 hop
  rw [List.append_assoc, List.cons_append, hleft', read?_climb]
  dsimp only
  rw [hop']
  dsimp only
  rw [if_neg (Nat.not_lt.2 hleast), hright']
  rfl

theorem complete_operand (h : Complete .signed ts e d) : Complete (.joined 7) ts e d := by
  intro n front rest hn hfront _ haccess least _
  rw [read?_binary, h n front rest hn hfront haccess]
  rfl

theorem complete_sign {op : UnaryOp} (hsign : Sign t op) (h : Complete .signed ts e d) :
    Complete .signed (t :: ts) (.unary op e) (d + 1) := by
  intro n front rest hn hfront haccess
  obtain ⟨m, rfl⟩ := Nat.exists_eq_add_of_le' hn
  obtain ⟨l, g, rfl, hl, hg⟩ := List.map_eq_cons_iff.1 hfront
  have hop : unaryOp? l.token = some op := by
    rw [hl]
    exact unaryOp?_eq_some_iff.2 hsign
  change read? (Parse.unary (m + d + 1) (l :: (g ++ rest))) = _
  rw [unary_succ, read?_unaryBody]
  dsimp only
  rw [hop]
  dsimp only
  rw [h (m + d) g rest (Nat.le_add_left ..) hg haccess]
  rfl

theorem complete_unsigned (hphrase : Derives .accessed ts e d) (h : Complete .accessed ts e d) :
    Complete .signed ts e d := by
  intro n front rest hn hfront haccess
  obtain ⟨t, us, rfl, -, -, hsign⟩ := hphrase.exists_cons
  obtain ⟨l, g, rfl, hl, hg⟩ := List.map_eq_cons_iff.1 hfront
  have hnone : unaryOp? l.token = none := by
    rw [hl]
    exact hsign (.inl rfl)
  obtain ⟨operand, hunary⟩ := unary_eq n
  have hpostfixed := h n (l :: g) rest hn hfront
  rw [hunary, List.cons_append, read?_unaryBody]
  dsimp only
  rw [hnone]
  exact hpostfixed.trans (read?_accesses_of_noAccess haccess e)

theorem complete_member {name : String} (h : Complete .accessed ts e d) (hfield : Field t name) :
    Complete .accessed (ts ++ [.dot, t]) (.member e name) d := by
  intro n front rest hn hfront
  obtain ⟨first, dot, tail, rfl, hfirst, hdot, htail⟩ := exists_of_map_eq_append_cons hfront
  obtain ⟨f, empty, rfl, hf, hnil⟩ := List.map_eq_cons_iff.1 htail
  obtain rfl := List.map_eq_nil_iff.1 hnil
  have hobject := h n first (dot :: f :: rest) hn hfirst
  have hname : fieldName? f.token = some name := by
    rw [hf]
    exact fieldName?_eq_some_iff.2 hfield
  rw [List.append_assoc]
  refine hobject.trans ?_
  rw [read?_accesses]
  dsimp only
  rw [if_pos hdot, hname]
  rfl

theorem complete_index {position : Expr} {d₁ d₂ : Nat} (h : Complete .accessed ts e d₁)
    (hposition : Complete .conditional us position d₂) :
    Complete .accessed (ts ++ .lbracket :: (us ++ [.rbracket])) (.index e position) (max d₁ d₂) := by
  intro n front rest hn hfront
  obtain ⟨first, opening, tail, rfl, hfirst, hopening, htail⟩ := exists_of_map_eq_append_cons hfront
  obtain ⟨second, last, empty, rfl, hsecond, hlast, hnil⟩ := exists_of_map_eq_append_cons htail
  obtain rfl := List.map_eq_nil_iff.1 hnil
  have hobject := h n first (opening :: (second ++ last :: rest)) (by omega) hfirst
  have hinner := hposition n second (last :: rest) (by omega) hsecond (ends_cons (by simp [hlast]) _)
  have hdot : opening.token ≠ .dot := by simp [hopening]
  have hshape : first ++ opening :: (second ++ [last]) ++ rest = first ++ opening :: (second ++ last :: rest) := by simp
  rw [hshape]
  refine hobject.trans ?_
  rw [read?_accesses]
  dsimp only
  rw [if_neg hdot, if_pos hopening, hinner]
  dsimp only [Option.bind_some]
  rw [read?_expect_cons hlast]
  rfl

theorem complete_whole (h : Complete .primary ts e d) : Complete .accessed ts e d := by
  intro n front rest hn hfront
  have hprimary : read? (primary (Parse.conditional n) (front ++ rest)) = some (e, rest) := h n front rest hn hfront
  change read? (postfixed _ _) = _
  rw [read?_postfixed, hprimary]
  rfl

theorem complete_atom (h : Atom t e) : Complete .primary [t] e 0 := by
  intro n front rest _ hfront
  obtain ⟨l, empty, rfl, hl, hnil⟩ := List.map_eq_cons_iff.1 hfront
  obtain rfl := List.map_eq_nil_iff.1 hnil
  have hatom : atom? l.token = some e := by
    rw [hl]
    exact atom?_eq_some_iff.2 h
  change read? (primary _ (l :: rest)) = _
  rw [read?_primary]
  dsimp only
  rw [hatom]

theorem complete_parenthesised (h : Complete .conditional ts e d) :
    Complete .primary (.lparen :: (ts ++ [.rparen])) e d := by
  intro n front rest hn hfront
  obtain ⟨opening, tail, rfl, hopening, htail⟩ := List.map_eq_cons_iff.1 hfront
  obtain ⟨inner, last, empty, rfl, hinner, hlast, hnil⟩ := exists_of_map_eq_append_cons htail
  obtain rfl := List.map_eq_nil_iff.1 hnil
  have hread := h n inner (last :: rest) hn hinner (ends_cons (by simp [hlast]) _)
  have hshape : opening :: (inner ++ [last]) ++ rest = opening :: (inner ++ last :: rest) := by simp
  have hnone : atom? opening.token = none := by rw [hopening]; rfl
  change read? (primary _ _) = _
  rw [hshape, read?_primary]
  dsimp only
  rw [hnone]
  dsimp only
  rw [if_pos hopening, hread]
  dsimp only [Option.bind_some]
  rw [read?_expect_cons hlast]
  rfl

theorem read?_primary_lbracket {inner : Parser Expr} {l : Lexeme} (hl : l.token = .lbracket) (r : List Lexeme) :
    read? (primary inner (l :: r)) =
      if peek r = .rbracket then (read? (expect .rbracket r)).map fun (_, r₁) => (.array [], r₁)
      else read? (items inner [] r) := by
  have hnone : atom? l.token = none := by rw [hl]; rfl
  have hparen : l.token ≠ .lparen := by simp [hl]
  rw [read?_primary]
  dsimp only
  rw [hnone]
  dsimp only
  rw [if_neg hparen, if_pos hl]

theorem complete_noItems : Complete .primary [.lbracket, .rbracket] (.array []) 0 := by
  intro n front rest _ hfront
  obtain ⟨opening, tail, rfl, hopening, htail⟩ := List.map_eq_cons_iff.1 hfront
  obtain ⟨last, empty, rfl, hlast, hnil⟩ := List.map_eq_cons_iff.1 htail
  obtain rfl := List.map_eq_nil_iff.1 hnil
  change read? (primary _ (opening :: last :: rest)) = _
  have hpeek : peek (last :: rest) = .rbracket := hlast
  rw [read?_primary_lbracket hopening, if_pos hpeek, read?_expect_cons hlast]
  rfl

theorem complete_array {es : List Expr} (hphrase : Derives .items ts (.array es) d)
    (h : Complete .items ts (.array es) d) : Complete .primary (.lbracket :: (ts ++ [.rbracket])) (.array es) d := by
  intro n front rest hn hfront
  obtain ⟨t, us, rfl, hbracket, -⟩ := hphrase.exists_cons
  obtain ⟨opening, tail, rfl, hopening, htail⟩ := List.map_eq_cons_iff.1 hfront
  obtain ⟨inner, last, empty, rfl, hinner, hlast, hnil⟩ := exists_of_map_eq_append_cons htail
  obtain rfl := List.map_eq_nil_iff.1 hnil
  have hread := h n inner (last :: rest) hn hinner [] es last rest rfl rfl hlast
  obtain ⟨l, g, rfl, hl, -⟩ := List.map_eq_cons_iff.1 hinner
  have hpeek : peek (l :: g ++ last :: rest) ≠ .rbracket := by
    change l.token ≠ .rbracket
    rw [hl]
    exact hbracket
  have hshape : opening :: (l :: g ++ [last]) ++ rest = opening :: (l :: g ++ last :: rest) := by simp
  change read? (primary _ _) = _
  rw [hshape, read?_primary_lbracket hopening, if_neg hpeek]
  exact hread

theorem complete_lastItem (h : Complete .conditional ts e d) : Complete .items ts (.array [e]) d := by
  intro n front rest hn hfront acc es last rest' hes hrest hlast
  cases hes
  subst hrest
  have hread := h n front (last :: rest') hn hfront (ends_cons (by simp [hlast]) _)
  have hcomma : last.token ≠ .comma := by simp [hlast]
  rw [read?_items, hread]
  dsimp only [Option.bind_some]
  rw [if_neg hcomma, read?_expect_cons hlast, List.reverse_cons]
  rfl

theorem complete_item {es : List Expr} {d₁ d₂ : Nat} (hfirst : Complete .conditional ts e d₁)
    (hmore : Complete .items us (.array es) d₂) :
    Complete .items (ts ++ .comma :: us) (.array (e :: es)) (max d₁ d₂) := by
  intro n front rest hn hfront acc es' last rest' hes hrest hlast
  cases hes
  obtain ⟨first, comma, more, rfl, hfirst', hcomma, hmore'⟩ := exists_of_map_eq_append_cons hfront
  have hread := hfirst n first (comma :: (more ++ rest)) (by omega) hfirst' (ends_cons (by simp [hcomma]) _)
  have hitems := hmore n more rest (by omega) hmore' (e :: acc) es last rest' rfl hrest hlast
  rw [List.append_assoc, List.cons_append, read?_items, hread]
  dsimp only [Option.bind_some]
  rw [if_pos hcomma, hitems, List.reverse_cons, List.append_assoc]
  rfl

theorem Derives.complete {c : Kind} (h : Derives c ts e d) : Complete c ts e d := by
  induction h with
  | alone _ ih => exact complete_alone ih
  | choice _ _ _ ih₁ ih₂ ih₃ => exact complete_choice ih₁ ih₂ ih₃
  | tighter _ ih =>
    intro n front rest hn hfront hbelow haccess least hleast
    exact ih n front rest hn hfront (fun o s ho => Nat.lt_succ_of_lt (hbelow o s ho)) haccess least
      (Nat.le_succ_of_le hleast)
  | join _ operator _ ih₁ ih₂ => exact complete_join ih₁ operator ih₂
  | operand _ ih => exact complete_operand ih
  | sign operator _ ih => exact complete_sign operator ih
  | unsigned hphrase ih => exact complete_unsigned hphrase ih
  | member _ field ih => exact complete_member ih field
  | index _ _ ih₁ ih₂ => exact complete_index ih₁ ih₂
  | whole _ ih => exact complete_whole ih
  | atom single => exact complete_atom single
  | parenthesised _ ih => exact complete_parenthesised ih
  | noItems => exact complete_noItems
  | array hphrase ih => exact complete_array hphrase ih
  | lastItem _ ih => exact complete_lastItem ih
  | item _ _ ih₁ ih₂ => exact complete_item ih₁ ih₂

/-! ### Expressions -/

/-- No two expressions have the same tokens, however deep they are nested. -/
theorem Derives.unique {e' : Expr} {d' : Nat} (h : Derives .conditional ts e d) (h' : Derives .conditional ts e' d') :
    e = e' := by
  let front := ts.map fun t => (⟨t, 0⟩ : Lexeme)
  have hfront : front.map Lexeme.token = ts := by simp [front, Function.comp_def]
  have hends : Ends [] := by constructor <;> simp [NoAccess, peek, binaryOp?]
  have hread := h.complete (max d d') front [] (Nat.le_max_left ..) hfront hends
  have hread' := h'.complete (max d d') front [] (Nat.le_max_right ..) hfront hends
  cases hread.symm.trans hread'
  rfl

/-- A phrase after which the text may end goes up to the one end. -/
theorem Derives.eq_of_append {last : Lexeme} {ls : List Lexeme} {c : Kind}
    (hphrase : Derives c (front.map Lexeme.token) e d) (hlast : last.token = .eof)
    (hbefore : ∀ l ∈ ls, l.token ≠ .eof) (hrest : peek rest = .eof) (h : ls ++ [last] = front ++ rest) : front = ls := by
  have hfront : ∀ l ∈ front, l.token ≠ .eof := fun l hl heof =>
    hphrase.eof_notMem (heof ▸ List.mem_map_of_mem hl)
  rcases List.append_eq_append_iff.1 h with ⟨more, rfl, hmore⟩ | ⟨more, rfl, hmore⟩
  · cases more with
    | nil => simp
    | cons l tail =>
      rw [List.cons_append, List.cons.injEq] at hmore
      rw [hmore.1] at hlast
      exact absurd hlast (hfront l (by simp))
  · cases more with
    | nil => simp
    | cons l tail =>
      rw [hmore] at hrest
      exact absurd hrest (hbefore l (by simp))

end Grammar

namespace Parse

open Grammar

/-- Lexemes up to the end of a text are an expression if and only if the grammar derives it from their tokens with
at most 128 levels of nesting, and the tokens alone decide which expression that is. -/
theorem ofLexemes_eq_ok_iff {ls : List Lexeme} {last : Lexeme} (hlast : last.token = .eof)
    (hbefore : ∀ l ∈ ls, l.token ≠ .eof) :
    (∀ e, ofLexemes (ls ++ [last]) = .ok e ↔ ∃ d ≤ 128, Derives .conditional (ls.map Lexeme.token) e d) ∧
      ∀ e e' d d', Derives .conditional (ls.map Lexeme.token) e d →
        Derives .conditional (ls.map Lexeme.token) e' d' → e = e' := by
  refine ⟨fun e => ⟨fun h => ?_, ?_⟩, fun _ _ _ _ h h' => h.unique h'⟩
  · obtain ⟨-, rest, hread, hrest⟩ := ofLexemes_eq_ok.1 h
    obtain ⟨front, d, hfront, hd, hphrase⟩ := (conditional_sound maxNesting).1 _ _ _ hread
    rw [← hphrase.eq_of_append hlast hbefore hrest hfront]
    exact ⟨d, hd, hphrase⟩
  · rintro ⟨d, hd, hphrase⟩
    have hread : read? (conditional maxNesting (ls ++ [last])) = some (e, [last]) :=
      hphrase.complete maxNesting ls [last] hd rfl (ends_cons (by simp [hlast]) [])
    obtain ⟨t, us, hcons, -, heof, -⟩ := hphrase.exists_cons
    obtain ⟨l, rest, rfl, rfl, -⟩ := List.map_eq_cons_iff.1 hcons
    exact ofLexemes_eq_ok.2 ⟨heof, [last], hread, hlast⟩

/-- The lexemes of `a - b - c ? -d.e : [f, g]`. -/
def choiceLexemes : List Lexeme :=
  ([.ident "a", .minus, .ident "b", .minus, .ident "c", .question, .minus, .ident "d", .dot, .ident "e", .colon,
    .lbracket, .ident "f", .comma, .ident "g", .rbracket] : List Token).map fun t => ⟨t, 0⟩

def choiceExpr : Expr :=
  .conditional (.binary .sub (.binary .sub (.ident "a") (.ident "b")) (.ident "c"))
    (.unary .neg (.member (.ident "d") "e")) (.array [.ident "f", .ident "g"])

theorem choiceExpr_derived : Derives .conditional (choiceLexemes.map Lexeme.token) choiceExpr 3 := by
  have hname (s : String) : Derives .accessed [.ident s] (.ident s) 0 := .whole (.atom (.name s))
  have hloose (s : String) (k : Nat) (hk : k ≤ 7) : Derives (.joined k) [.ident s] (.ident s) 0 :=
    (Derives.operand (.unsigned (hname s))).loosen hk
  have hsubtract := ((hloose "a" 5 (by decide)).join .sub (hloose "b" 6 (by decide))).join .sub
    (hloose "c" 6 (by decide))
  have hnegative : Derives .signed [.minus, .ident "d", .dot, .ident "e"] _ 1 :=
    .sign .neg (.unsigned ((hname "d").member (.name "e")))
  have hitem (s : String) : Derives .conditional [.ident s] (.ident s) 1 := .alone (hloose s 1 (by decide))
  have harray : Derives .primary [.lbracket, .ident "f", .comma, .ident "g", .rbracket] _ 1 :=
    .array (.item (hitem "f") (.lastItem (hitem "g")))
  have hno := Derives.operand (.unsigned (.whole harray))
  exact .choice (hsubtract.loosen (by decide)) (.alone ((Derives.operand hnegative).loosen (by decide)))
    (.alone (hno.loosen (by decide)))

theorem ofLexemes_eq_ok_iff_choice :
    (∀ l ∈ choiceLexemes, l.token ≠ .eof) ∧ ofLexemes (choiceLexemes ++ [⟨.eof, 16⟩]) = .ok choiceExpr ∧
      ∀ e' d', Derives .conditional (choiceLexemes.map Lexeme.token) e' d' → choiceExpr = e' := by
  have hbefore : ∀ l ∈ choiceLexemes, l.token ≠ .eof := by decide
  have hlast : (⟨.eof, 16⟩ : Lexeme).token = .eof := rfl
  obtain ⟨hread, hunique⟩ := ofLexemes_eq_ok_iff hlast hbefore
  exact ⟨hbefore, (hread choiceExpr).2 ⟨3, by decide, choiceExpr_derived⟩,
    fun e' d' h => hunique choiceExpr e' 3 d' choiceExpr_derived h⟩

end Parse
end LiveLayout.Expr
