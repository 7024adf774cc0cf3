import LiveLayout.Proofs.Spelling
/-!
Every token that is scanned can be written by itself, so that any such tokens are those of a text.
-/
namespace LiveLayout.Expr

open LiveLayout.Path

/-- Some characters are the token wherever a blank comes after them. -/
def Spellable (t : Token) : Prop :=
  ∃ cs, ∀ offset tail, (∀ c ∈ tail.head?, Text.isBlank c = true) → Scans offset t cs tail

variable {t : Token} {s : String} {c c' : Char} {r cs : List Char} {offset : Nat} {scanned : Scanned}

theorem Spells.spellable (h : Spells t s) : Spellable t := ⟨s.toList, fun _ _ htail => h.scans htail⟩

/-! ### Tokens of each shape -/

theorem spellable_of_ofChar? (h : Token.ofChar? c = some t) : Spellable t := by
  unfold Token.ofChar? at h
  split at h
  all_goals cases h
  all_goals exact (Spells.mark (by constructor)).spellable

theorem spellable_of_scanString {quote : Char} {acc : List Char} (h : scanString quote offset acc cs = .ok scanned) :
    Spellable scanned.token := by
  fun_induction scanString quote offset acc cs with
  | case1 => cases h
  | case2 =>
    cases h
    exact (Spells.text _ (.inl rfl)).spellable
  | case3 => cases h
  | case4 _ _ _ _ _ ih => exact ih h
  | case5 _ _ _ _ _ _ ih => exact ih h

theorem spellable_ofWord (h : isName s = true) : Spellable (.ofWord s) :=
  ⟨s.toList, fun offset _ htail => scans_name h (not_continuesName_of_blank htail) offset⟩

theorem spellable_scanWord (h : startsName c = true) : Spellable (scanWord offset (c :: r)).token := by
  have hcontinues : continuesName c = true := by simp [continuesName, h]
  have hname : isName (String.ofList ((c :: r).takeWhile continuesName)) = true := by
    unfold isName
    rw [String.toList_ofList, List.takeWhile_cons_of_pos hcontinues]
    simp [h]
  exact spellable_ofWord hname

/-- Two numerals with a point between them are one token, if no digit follows. -/
theorem scans_fraction {whole fraction tail : List Char} (hwhole : ∀ d ∈ c :: whole, Decimal.isDigit d = true)
    (hfraction : ∀ d ∈ c' :: fraction, Decimal.isDigit d = true) (htail : ∀ d ∈ tail.head?, Decimal.isDigit d = false)
    (offset : Nat) :
    Scans offset
      (.number (Decimal.nearest (Decimal.natOfDigits (c :: whole ++ c' :: fraction)) (-(c' :: fraction).length)))
      (c :: whole ++ '.' :: c' :: fraction) tail := by
  have hc := hwhole c (List.mem_cons_self ..)
  have hc' := hfraction c' (List.mem_cons_self ..)
  have hpoint : ∀ d ∈ ('.' :: c' :: (fraction ++ tail)).head?, Decimal.isDigit d = false := by
    intro d hd
    cases hd
    decide
  obtain ⟨htake, hdrop⟩ := takeWhile_append_eq hwhole hpoint
  obtain ⟨htake', hdrop'⟩ := takeWhile_append_eq hfraction htail
  rw [List.cons_append] at htake hdrop htake' hdrop'
  have hshape : whole ++ '.' :: c' :: fraction ++ tail = whole ++ '.' :: c' :: (fraction ++ tail) := by simp
  have hlength : byteLength (c :: whole ++ '.' :: c' :: fraction) =
      (c :: whole).length + 1 + (c' :: fraction).length := by
    have hsize : byteLength ('.' :: c' :: fraction) = 1 + byteLength (c' :: fraction) := rfl
    rw [byteLength_append, hsize, byteLength_of_digits hwhole, byteLength_of_digits hfraction, Nat.add_assoc]
  refine ⟨c, whole ++ '.' :: c' :: fraction, rfl, not_blank_of_isDigit hc, ?_⟩
  rw [scanToken_of_not_mem_marks (not_mem_marks_of_isDigit hc), if_pos hc, hlength, hshape]
  unfold scanNumber
  rw [htake, hdrop]
  split
  · rename_i d rest hcons
    cases hcons
    dsimp only
    rw [if_pos hc', htake', hdrop']
    simp only [Nat.add_assoc]
  · rename_i hother
    exact absurd rfl (hother c' (fraction ++ tail))

theorem exists_takeWhile_isDigit (h : Decimal.isDigit c = true) (r : List Char) :
    ∃ more, (c :: r).takeWhile Decimal.isDigit = c :: more ∧ ∀ d ∈ c :: more, Decimal.isDigit d = true := by
  have htake : (c :: r).takeWhile Decimal.isDigit = c :: r.takeWhile Decimal.isDigit := List.takeWhile_cons_of_pos h
  refine ⟨_, htake, ?_⟩
  rw [← htake]
  exact fun d hd => List.mem_takeWhile_imp hd

theorem spellable_scanNumber (h : Decimal.isDigit c = true) : Spellable (scanNumber offset (c :: r)).token := by
  obtain ⟨whole, hwhole, hall⟩ := exists_takeWhile_isDigit h r
  unfold scanNumber
  rw [hwhole]
  split
  · rename_i d r' _
    split
    · obtain ⟨fraction, hfraction, hall'⟩ := exists_takeWhile_isDigit ‹_› r'
      rw [hfraction]
      exact ⟨_, fun offset _ htail => scans_fraction hall hall' (not_isDigit_of_blank htail) offset⟩
    · exact (Spells.numeral _).spellable
  · exact (Spells.numeral _).spellable

theorem skipEquals_token (r : List Char) : (skipEquals t offset r).token = t := by
  unfold skipEquals
  split <;> rfl

theorem scanToken_spellable (h : scanToken offset c r = .ok scanned) : Spellable scanned.token := by
  unfold scanToken at h
  split at h
  · cases h
    exact spellable_of_ofChar? ‹_›
  · split at h
    case h_1 =>
      cases h
      rw [skipEquals_token]
      exact (Spells.mark .bangEq).spellable
    case h_3 =>
      cases h
      rw [skipEquals_token]
      exact (Spells.mark .eqEq).spellable
    case h_13 =>
      split at h
      · exact spellable_of_scanString h
      · split at h
        · cases h
          exact spellable_scanNumber ‹_›
        · split at h
          · cases h
            exact spellable_scanWord ‹_›
          · cases h
    all_goals cases h
    all_goals exact (Spells.mark (by constructor)).spellable

/-! ### Texts -/

/-- A scanned text is some tokens that can be written, and the end. -/
theorem scanFrom_spellable {acc ls : List Lexeme} (hacc : ∀ l ∈ acc, Spellable l.token)
    (h : scanFrom offset acc cs = .ok ls) :
    ∃ body last, ls = body ++ [last] ∧ last.token = .eof ∧ ∀ l ∈ body, Spellable l.token := by
  fun_induction scanFrom offset acc cs with
  | case1 offset acc =>
    cases h
    exact ⟨acc.reverse, ⟨.eof, offset⟩, List.reverse_cons, rfl, fun l hl => hacc l (List.mem_reverse.1 hl)⟩
  | case2 _ _ _ _ _ ih => exact ih hacc h
  | case3 => cases h
  | case4 offset acc c r _ scanned hscanned ih =>
    refine ih (fun l hl => ?_) h
    rcases List.mem_cons.1 hl with rfl | hl
    · exact scanToken_spellable hscanned
    · exact hacc l hl

theorem exists_scanFrom {ts : List Token} (h : ∀ t ∈ ts, Spellable t) :
    ∃ cs, ∀ offset acc, ∃ ls, scanFrom offset acc cs = .ok (acc.reverse ++ ls) ∧
      ls.map Lexeme.token = ts ++ [.eof] := by
  induction ts with
  | nil =>
    refine ⟨[], fun offset acc => ⟨[⟨.eof, offset⟩], ?_, rfl⟩⟩
    rw [scanFrom, List.reverse_cons]
  | cons t ts ih =>
    rw [List.forall_mem_cons] at h
    obtain ⟨first, hfirst⟩ := h.1
    obtain ⟨cs, hcs⟩ := ih h.2
    refine ⟨first ++ ' ' :: cs, fun offset acc => ?_⟩
    have hblank : ∀ c ∈ (' ' :: cs).head?, Text.isBlank c = true := by
      intro c hc
      cases hc
      decide
    obtain ⟨ls, hls, htokens⟩ := hcs (offset + byteLength first + ' '.utf8Size) (⟨t, offset⟩ :: acc)
    refine ⟨⟨t, offset⟩ :: ls, ?_, ?_⟩
    · rw [(hfirst offset _ hblank).scanFrom_eq, scanFrom, if_pos (by decide), hls, List.reverse_cons,
        List.append_assoc]
      rfl
    · rw [List.map_cons, htokens]
      rfl

/-- Any tokens that can be written are those of a text. -/
theorem exists_scan {ts : List Token} (h : ∀ t ∈ ts, Spellable t) :
    ∃ src ls, scan src = .ok ls ∧ ls.map Lexeme.token = ts ++ [.eof] := by
  obtain ⟨cs, hcs⟩ := exists_scanFrom h
  obtain ⟨ls, hls, htokens⟩ := hcs 0 []
  refine ⟨String.ofList cs, ls, ?_, htokens⟩
  unfold scan
  rw [String.toList_ofList]
  exact hls

end LiveLayout.Expr
