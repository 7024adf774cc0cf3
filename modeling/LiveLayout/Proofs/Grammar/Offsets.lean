import LiveLayout.Proofs.Grammar.Blames
import LiveLayout.Proofs.Spellable
/-!
Where the errors of expressions point: at the first token that no expression goes on with, but for a missing field,
where they point at the token after it.
-/
namespace LiveLayout.Expr

open Parse Grammar

/-- The tokens are the first ones of a text that is an expression. -/
def Viable (ts : List Token) : Prop :=
  ∃ src ls e, scan src = .ok ls ∧ ts <+: ls.map Lexeme.token ∧ parse src = .ok e

variable {ls before rest : List Lexeme} {l : Lexeme} {src : String} {err : SyntaxError} {e : Expr} {d : Nat}
  {ts us : List Token}

theorem parse_of_scan (h : scan src = .ok ls) : parse src = ofLexemes ls := by
  unfold parse
  rw [h]
  rfl

theorem Viable.of_prefix (h : Viable us) (hts : ts <+: us) : Viable ts := by
  obtain ⟨src, ls, e, hscan, hprefix, hparse⟩ := h
  exact ⟨src, ls, e, hscan, hts.trans hprefix, hparse⟩

/-! ### Tokens alone decide -/

theorem peek_of_map_eq {ls ls' : List Lexeme} (h : ls'.map Lexeme.token = ls.map Lexeme.token) :
    peek ls' = peek ls := by
  have hpeek (us : List Lexeme) : peek us = (us.map Lexeme.token).head?.getD .eof := by cases us <;> rfl
  rw [hpeek, hpeek, h]

/-- Where the lexemes are does not matter for what is read of them. -/
theorem ofLexemes_congr {ls ls' : List Lexeme} (h : ls'.map Lexeme.token = ls.map Lexeme.token)
    (hread : ofLexemes ls = .ok e) : ofLexemes ls' = .ok e := by
  obtain ⟨hpeek, rest, hconditional, hrest⟩ := ofLexemes_eq_ok.1 hread
  rw [← peek_of_map_eq h] at hpeek
  have hends := conditional_ends maxNesting hconditional
  obtain ⟨front, d, rfl, hd, hfront⟩ := (conditional_sound maxNesting).1 _ _ _ hconditional
  rw [List.map_append] at h
  obtain ⟨front', rest', rfl, hfront', hrest'⟩ := List.map_eq_append_iff.1 h
  have hpeek' := peek_of_map_eq hrest'
  have hread' := hfront.complete maxNesting front' rest' hd hfront' (hends.congr hpeek')
  exact ofLexemes_eq_ok.2 ⟨hpeek, rest', hread', hpeek'.trans hrest⟩

theorem not_viable (h : ∀ rest e, ofLexemes (before ++ l :: rest) ≠ .ok e) :
    ¬Viable ((before ++ [l]).map Lexeme.token) := by
  rintro ⟨src, ls, e, hscan, ⟨more, hmore⟩, hparse⟩
  obtain ⟨front, rest, rfl, hfront, -⟩ := List.map_eq_append_iff.1 hmore.symm
  rw [parse_of_scan hscan] at hparse
  refine h rest e (ofLexemes_congr ?_ hparse)
  rw [List.map_append, List.map_append, hfront]
  simp

/-- The first tokens of an expression are those of a text that is one. -/
theorem viable_of_derives (h : Derives .conditional (ts ++ us) e d) (hd : d ≤ maxNesting)
    (hspellable : ∀ t ∈ ts ++ us, Spellable t) : Viable ts := by
  obtain ⟨src, ls, hscan, htokens⟩ := exists_scan hspellable
  refine ⟨src, ls, e, hscan, ?_, ?_⟩
  · rw [htokens, List.append_assoc]
    exact List.prefix_append ..
  · obtain ⟨body, last, empty, rfl, hbody, hlast, hnil⟩ := exists_of_map_eq_append_cons htokens
    obtain rfl := List.map_eq_nil_iff.1 hnil
    have hread : read? (Parse.conditional maxNesting (body ++ [last])) = some (e, [last]) :=
      h.complete maxNesting body [last] hd hbody (ends_cons (by simp [hlast]) [])
    obtain ⟨t, us', hcons, -, heof, -⟩ := h.exists_cons
    obtain ⟨l, rest, rfl, rfl, -⟩ := List.map_eq_cons_iff.1 (hbody.trans hcons)
    rw [parse_of_scan hscan]
    exact ofLexemes_eq_ok.2 ⟨heof, [last], hread, hlast⟩

theorem spellable_of_mem_closing {t : Token} (h : t ∈ closing) : Spellable t := by
  simp only [closing, List.mem_cons, List.not_mem_nil, or_false] at h
  rcases h with rfl | rfl | rfl | rfl
  · exact (Spells.keyword .null).spellable
  · exact (Spells.mark .rparen).spellable
  · exact (Spells.mark .rbracket).spellable
  · exact (Spells.mark .colon).spellable

/-! ### Errors -/

theorem ofLexemes_offends {body : List Lexeme} {last : Lexeme} (hlast : last.token = .eof)
    (hbody : ∀ l ∈ body, Spellable l.token) (h : ofLexemes (body ++ [last]) = .error err)
    (hdeep : err.cause ≠ .tooDeep) : ∃ before l after, body ++ [last] = before ++ l :: after ∧
      Viable (before.map Lexeme.token) ∧ (∀ rest e, ofLexemes (before ++ l :: rest) ≠ .ok e) ∧
        err.offset = pointed err.cause l after := by
  have hended : Ended (body ++ [last]) := ⟨last, by simp, hlast⟩
  -- What stands before the offending lexeme is begun as a phrase, so that the end is not in it.
  have hviable {before after : List Lexeme} (more : List Token) {e : Expr} {d : Nat} (hd : d ≤ maxNesting)
      (hls : body ++ [last] = before ++ after) (hmore : more ⊆ closing)
      (hphrase : Derives .conditional (before.map Lexeme.token ++ more) e d) : Viable (before.map Lexeme.token) := by
    refine viable_of_derives hphrase hd fun t ht => ?_
    rcases List.mem_append.1 ht with hbefore | hclosing
    · obtain ⟨l, hl, rfl⟩ := List.mem_map.1 hbefore
      have hmem : l ∈ body ++ [last] := hls ▸ List.mem_append_left _ hl
      rcases List.mem_append.1 hmem with hmem | hmem
      · exact hbody l hmem
      · rw [List.mem_singleton.1 hmem, hlast] at ht
        exact absurd ht hphrase.eof_notMem
    · exact spellable_of_mem_closing (hmore hclosing)
  rcases ofLexemes_eq_error h with ⟨hpeek, rfl⟩ | ⟨hpeek, hread | ⟨e, r, hread, hmore, rfl⟩⟩
  · obtain ⟨l, after, hls⟩ : ∃ l after, body ++ [last] = l :: after :=
      List.exists_cons_of_ne_nil (List.append_ne_nil_of_right_ne_nil body (List.cons_ne_nil last []))
    have hnull : Derives .accessed [.null] (.literal .null) 0 := .whole (.atom .null)
    have hphrase := Derives.alone ((Derives.operand (.unsigned hnull)).loosen (by decide))
    rw [hls] at hpeek
    refine ⟨[], l, after, hls, hviable [.null] (by decide) hls (by simp [closing]) hphrase, ?_, ?_⟩
    · exact fun rest e hok => (ofLexemes_eq_ok.1 hok).1 hpeek
    · rw [hls]
      rfl
  · obtain ⟨before, l, after, hls, hoffset, hfails, more, hclosing, e, d, hd, hphrase⟩ :=
      (conditional_faulty maxNesting).1 _ _ hended hread hdeep
    refine ⟨before, l, after, hls, hviable more hd hls hclosing hphrase, fun rest e hok => ?_, hoffset⟩
    obtain ⟨-, rest', hread', -⟩ := ofLexemes_eq_ok.1 hok
    cases (hfails rest).symm.trans hread'
  · obtain ⟨before, d, hls, hd, hphrase, hagain⟩ := rereads_conditional hread
    cases r with
    | nil => exact absurd rfl hmore
    | cons l after =>
      rw [← List.append_nil (before.map _)] at hphrase
      refine ⟨before, l, after, hls, hviable [] hd hls (List.nil_subset _) hphrase, fun rest e' hok => ?_, rfl⟩
      obtain ⟨-, rest', hread', hpeek'⟩ := ofLexemes_eq_ok.1 hok
      cases (hagain (l :: rest) rfl).symm.trans hread'
      exact hmore hpeek'

theorem parse_offends (hscan : scan src = .ok ls) (h : parse src = .error err) (hdeep : err.cause ≠ .tooDeep) :
    ∃ before l after, ls = before ++ l :: after ∧ Viable (before.map Lexeme.token) ∧
      ¬Viable ((before ++ [l]).map Lexeme.token) ∧ err.offset = pointed err.cause l after := by
  obtain ⟨body, last, rfl, hlast, hbody⟩ := scanFrom_spellable (List.forall_mem_nil _) hscan
  rw [parse_of_scan hscan] at h
  obtain ⟨before, l, after, hls, hviable, hfails, hoffset⟩ := ofLexemes_offends hlast hbody h hdeep
  exact ⟨before, l, after, hls, hviable, not_viable hfails, hoffset⟩

/-- An error of an expression, unless it is nested too deeply, is at the first token with which the tokens up to it
are no longer the first ones of an expression. Only where that token stands in place of a field, the error is at the
token after it. -/
theorem offset_of_parse_error (hscan : scan src = .ok ls) (h : parse src = .error err) (hdeep : err.cause ≠ .tooDeep) :
    ∃ before l after, ls = before ++ l :: after ∧
      (∀ k ≤ ls.length, Viable ((ls.take k).map Lexeme.token) ↔ k ≤ before.length) ∧
        err.offset = pointed err.cause l after := by
  obtain ⟨before, l, after, rfl, hviable, hends, hoffset⟩ := parse_offends hscan h hdeep
  refine ⟨before, l, after, rfl, fun k hk => ⟨fun hcontinued => ?_, fun hshort => ?_⟩, hoffset⟩
  · by_contra hlong
    have hlength : (before ++ [l]).length ≤ ((before ++ l :: after).take k).length := by
      rw [List.length_take, List.length_append, List.length_singleton]
      omega
    have hbeyond : before ++ [l] <+: (before ++ l :: after).take k :=
      List.prefix_of_prefix_length_le ⟨after, by simp⟩ (List.take_prefix ..) hlength
    exact hends (hcontinued.of_prefix (hbeyond.map Lexeme.token))
  · rw [List.take_append_of_le_length hshort]
    exact hviable.of_prefix ((List.take_prefix k before).map Lexeme.token)

set_option maxRecDepth 4000 in
/-- Where the text is only incomplete, the error is at its end. -/
theorem offset_of_parse_error_incomplete :
    scan "a + " = .ok [⟨.ident "a", 0⟩, ⟨.plus, 2⟩, ⟨.eof, 4⟩] ∧ parse "a + " = .error ⟨.expectedValue .eof, 4⟩ ∧
      SyntaxCause.expectedValue .eof ≠ .tooDeep ∧
      ∃ before l after, [⟨.ident "a", 0⟩, ⟨.plus, 2⟩, ⟨.eof, 4⟩] = before ++ l :: after ∧
        (∀ k ≤ 3, Viable (([⟨.ident "a", 0⟩, ⟨.plus, 2⟩, ⟨.eof, 4⟩].take k).map Lexeme.token) ↔ k ≤ before.length) ∧
          4 = pointed (.expectedValue .eof) l after := by
  have hscan : scan "a + " = .ok [⟨.ident "a", 0⟩, ⟨.plus, 2⟩, ⟨.eof, 4⟩] := by cbv
  have hparse : parse "a + " = .error ⟨.expectedValue .eof, 4⟩ := by cbv
  have hcause : SyntaxCause.expectedValue .eof ≠ .tooDeep := by simp
  exact ⟨hscan, hparse, hcause, offset_of_parse_error hscan hparse hcause⟩

set_option maxRecDepth 4000 in
/-- The sign is where no expression goes on, but the error is at the name after it. -/
theorem offset_of_parse_error_field :
    scan "a.+b" = .ok [⟨.ident "a", 0⟩, ⟨.dot, 1⟩, ⟨.plus, 2⟩, ⟨.ident "b", 3⟩, ⟨.eof, 4⟩] ∧
      Viable [.ident "a", .dot] ∧ ¬Viable [.ident "a", .dot, .plus] ∧
      parse "a.+b" = .error ⟨.expectedField .plus, 3⟩ := by
  have hscan : scan "a.+b" = .ok [⟨.ident "a", 0⟩, ⟨.dot, 1⟩, ⟨.plus, 2⟩, ⟨.ident "b", 3⟩, ⟨.eof, 4⟩] := by cbv
  have hparse : parse "a.+b" = .error ⟨.expectedField .plus, 3⟩ := by cbv
  have hviable : Viable [.ident "a", .dot] := by
    have hgood : scan "a.b" = .ok [⟨.ident "a", 0⟩, ⟨.dot, 1⟩, ⟨.ident "b", 2⟩, ⟨.eof, 3⟩] := by cbv
    have hmember : parse "a.b" = .ok (.member (.ident "a") "b") := by cbv
    exact ⟨_, _, _, hgood, ⟨[.ident "b", .eof], rfl⟩, hmember⟩
  refine ⟨hscan, hviable, ?_, hparse⟩
  -- The error is where the name starts, so that the lexeme in place of a field is the one before the name.
  obtain ⟨before, l, after, hls, -, hends, hoffset⟩ := parse_offends hscan hparse (by simp)
  rcases before with _ | ⟨l₁, _ | ⟨l₂, _ | ⟨l₃, _ | ⟨l₄, _ | ⟨l₅, before⟩⟩⟩⟩⟩
  · cases hls
    cases hoffset
  · cases hls
    cases hoffset
  · cases hls
    exact hends
  · cases hls
    cases hoffset
  · cases hls
    cases hoffset
  · simp at hls

end LiveLayout.Expr
