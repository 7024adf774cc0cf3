import LiveLayout.Proofs.Dotted.Lexemes
import LiveLayout.Proofs.Forms.Containers
import LiveLayout.Proofs.Telling.Last
import LiveLayout.Store.Evaluate
/-!
What has been written at a dotted path is what the text of the path reads as an expression.
-/
namespace LiveLayout

namespace Path

/-- Paths that mean the same to an expression as to the store: the root is no keyword, each segment is a name or
a position, no position comes right after another one, and none is called like the second word for null. -/
structure Plain (root : String) (segs : List String) : Prop where
  name : isName root = true
  free : root ∉ ["true", "false", "null", "undefined"]
  segments : ∀ s ∈ segs, IsSegment s ∧ s ≠ "undefined"
  apart : Apart segs

variable {root : String} {segs : List String}

theorem segments_of_isPosition {s : String} (h : IsPosition s) : segments s = [s] := by
  obtain ⟨n, -, rfl⟩ := h
  obtain ⟨c, cs, hlist, hdigits⟩ := digits_repr n
  have hdot : '.' ∉ c :: cs := by
    intro hmem
    have hdigit := hdigits '.' hmem
    revert hdigit
    decide
  have htrim : Text.trimChars (c :: cs) = c :: cs :=
    Text.trimChars_of_not_blank fun d hd => Expr.not_blank_of_isDigit (hdigits d hd)
  have hback : String.ofList (c :: cs) = n.repr := by rw [← hlist, String.ofList_toList]
  unfold segments
  rw [hlist, splitDots_of_not_mem hdot, List.map_singleton, htrim]
  simp [hback]

theorem segments_intercalate (hroot : segments root = [root]) (h : ∀ s ∈ segs, IsSegment s) :
    segments (".".intercalate (root :: segs)) = root :: segs := by
  induction segs generalizing root with
  | nil => simpa using hroot
  | cons s rest ih =>
    rw [List.forall_mem_cons] at h
    have hs : segments s = [s] := h.1.elim segments_of_isName segments_of_isPosition
    rw [String.intercalate_cons_cons, segments_dot, hroot, ih hs h.2]
    rfl

end Path

namespace Expr

open LiveLayout.Path

variable {lookup : String → Option Json}

theorem evaluate_members (e : Expr) (fields : List String) : (fields.foldl .member e).evaluate lookup =
    e.evaluate lookup >>= fun v => fields.foldlM readMember v := by
  induction fields generalizing e with
  | nil =>
    change e.evaluate lookup = e.evaluate lookup >>= pure
    rw [bind_pure]
  | cons field rest ih =>
    rw [List.foldl_cons, ih, evaluate, bind_assoc]
    rfl

/-- A member is the child of the same name, where there is one. -/
theorem readMember_of_child? {v w : Json} {field : String} (h : child? v field = some w) :
    readMember v field = .ok w := by
  unfold child? at h
  cases v with
  | object fields =>
    unfold readMember
    dsimp only at h ⊢
    rw [h]
    rfl
  | array items =>
    have hlength : field ≠ "length" := by
      rintro rfl
      rw [index?_of_isName (by decide)] at h
      cases h
    unfold readMember
    dsimp only at h ⊢
    rw [if_neg hlength, h]
    rfl
  | _ => cases h

theorem foldlM_readMember {v w : Json} {fields : List String} (h : read? v fields = some w) :
    fields.foldlM readMember v = .ok w := by
  induction fields generalizing v with
  | nil =>
    cases h
    rfl
  | cons field rest ih =>
    rw [read?] at h
    obtain ⟨u, hu, hrest⟩ := Option.bind_eq_some_iff.1 h
    rw [List.foldlM_cons, readMember_of_child? hu]
    exact ih hrest

end Expr

namespace Store

open LiveLayout.Path LiveLayout.Expr

variable {σ : Store} {scope : Scope} {root : String} {segs : List String}

/-- An expression of members of a variable reads the variable and then the members. -/
theorem evaluateText_members {text : String} {fields : List String}
    (h : parse text = .ok (fields.foldl .member (.ident root))) {w : Json}
    (hw : fields.foldlM readMember ((σ.lookup? scope root).getD .null) = .ok w) :
    σ.evaluateText scope text = .ok w := by
  have hevaluate : σ.evaluate scope (fields.foldl .member (.ident root)) = .ok w := by
    unfold evaluate
    rw [evaluate_members, Expr.evaluate]
    exact hw
  unfold evaluateText
  rw [h]
  dsimp only
  rw [hevaluate]

/-- A plain path reads what has been written there. -/
theorem evaluateText_plain (h : Plain root segs) {v old : Json}
    (hroot : σ.lookup? scope root = some (Path.write v segs old)) :
    σ.evaluateText scope (".".intercalate (root :: segs)) = .ok v := by
  have hfree : Token.ofWord root = .ident root := by
    have hwords := h.free
    simp only [List.mem_cons, List.not_mem_nil, or_false, not_or] at hwords
    simp [Token.ofWord, hwords]
  have hspoken : segs.map spoken = segs := by
    have hsame : ∀ s ∈ segs, spoken s = id s := fun s hs => if_neg (h.segments s hs).2
    rw [List.map_congr_left hsame, List.map_id]
  have hparse := parse_intercalate h.name hfree (fun s hs => (h.segments s hs).1) h.apart
  rw [hspoken] at hparse
  apply evaluateText_members hparse
  rw [hroot]
  exact foldlM_readMember (read?_write v segs _)

end Store

open LiveLayout.Path

/-- A value that has been written at a plain path is what the path reads as an expression, unless somebody who heard of
it has given the variable another value. Where listeners only listen, the write comes to an end. -/
theorem evaluateText_set {s : State} {scope : Scope} (hscope : scope < s.store.levels.size) {root : String}
    {segs : List String} (h : Plain root segs) (v : Json) :
    (∀ s', Engine.set scope (".".intercalate (root :: segs)) v s = some ((), s') →
      s'.store.valueAt? (s.store.owner scope root) root =
        (s.store.write scope root segs v).valueAt? (s.store.owner scope root) root →
      s'.store.evaluateText scope (".".intercalate (root :: segs)) = .ok v) ∧
    (s.OnlyListens → ∃ s', Engine.set scope (".".intercalate (root :: segs)) v s = some ((), s') ∧
      s'.store.evaluateText scope (".".intercalate (root :: segs)) = .ok v) := by
  have howner := Store.owner_lt_size hscope root
  have hreads : ∀ s', Engine.set scope (".".intercalate (root :: segs)) v s = some ((), s') →
      s'.store.valueAt? (s.store.owner scope root) root =
        (s.store.write scope root segs v).valueAt? (s.store.owner scope root) root →
      s'.store.evaluateText scope (".".intercalate (root :: segs)) = .ok v := by
    intro s' hrun hkept
    have hlookup : s'.store.lookup? scope root = s'.store.valueAt? (s.store.owner scope root) root := by
      rw [Store.lookup?, (Chronicle.keepsScopes_of_set hrun).owner_eq hscope]
    rw [hkept, Store.valueAt?_write howner] at hlookup
    exact Store.evaluateText_plain h hlookup
  refine ⟨hreads, fun hs => ?_⟩
  have hpath := segments_intercalate (segments_of_isName h.name) fun s hs => (h.segments s hs).1
  obtain ⟨s', hrun, hunwritten⟩ := Engine.set_passive hs scope hpath v
  have howner' := (s.store.keepsScopes_write scope root segs v).lt_size howner
  exact ⟨s', hrun, hreads s' hrun (congrFun (hunwritten.values.valueAt?_eq howner') root)⟩

/-- One root that holds a list. -/
def listState : State where
  store := ⟨#[{ label := "root", values := [("rows", .array [.object []])], parent := none }]⟩

theorem listState_onlyListens : listState.OnlyListens := fun _ he => nomatch he

/-- A path with a keyword and positions in it. -/
theorem plain_rows : Plain "rows" ["0", "length", "12", "true"] := by
  have hlength : ¬IsPosition "length" := not_isPosition_of_isName (by decide)
  have htrue : ¬IsPosition "true" := not_isPosition_of_isName (by decide)
  refine ⟨by decide, by decide, ?_, ?_⟩
  · simp only [List.forall_mem_cons]
    refine ⟨⟨.inr ⟨0, by decide, rfl⟩, by decide⟩, ⟨.inl (by decide), by decide⟩,
      ⟨.inr ⟨12, by decide, rfl⟩, by decide⟩, ⟨.inl (by decide), by decide⟩, ?_⟩
    exact fun _ h => nomatch h
  · refine .cons_cons (fun h => hlength h.2) (.cons_cons (fun h => hlength h.1) ?_)
    exact .cons_cons (fun h => htrue h.2) (.singleton _)

theorem evaluateText_set_rows : 0 < listState.store.levels.size ∧ Plain "rows" ["0", "length", "12", "true"] ∧
    listState.OnlyListens ∧
    ∃ s', Engine.set 0 (".".intercalate ["rows", "0", "length", "12", "true"]) (.nat 7) listState = some ((), s') ∧
      s'.store.evaluateText 0 (".".intercalate ["rows", "0", "length", "12", "true"]) = .ok (.nat 7) :=
  ⟨by decide, plain_rows, listState_onlyListens,
    (evaluateText_set (by decide) plain_rows (.nat 7)).2 listState_onlyListens⟩

/-- Two positions in a row are one numeral to an expression: below `a.1.0` lies what was written, and it reads
`a.1`. -/
theorem evaluateText_set_positions : ∃ s', Engine.set 0 "a.1.0" (.nat 5) listState = some ((), s') ∧
    s'.store.lookup? 0 "a" = some (.object [("1", .object [("0", .nat 5)])]) ∧
    s'.store.evaluateText 0 "a.1.0" = .ok (.object [("0", .nat 5)]) := by
  have hpath : segments "a.1.0" = ["a", "1", "0"] := by decide
  obtain ⟨s', hrun, hunwritten⟩ := Engine.set_passive listState_onlyListens 0 hpath (.nat 5)
  have hwritten := listState.store.keepsScopes_write 0 "a" ["1", "0"] (.nat 5)
  have hfresh : listState.store.lookup? 0 "a" = none := by
    have howner : listState.store.owner 0 "a" = 0 := Store.owner_root rfl rfl "a"
    rw [Store.lookup?, howner]
    rfl
  have hlookup : s'.store.lookup? 0 "a" = some (.object [("1", .object [("0", .nat 5)])]) := by
    rw [hunwritten.lookup?_eq (hwritten.lt_size (by decide)), Store.lookup?_write (by decide) rfl, hfresh]
    rfl
  -- The point between the positions goes to the numeral, and so does the zero behind it.
  have hnumeral (offset : Nat) : Expr.scanToken offset '1' ['.', '0'] =
      .ok ⟨.number (Decimal.nearest 10 (-1)), offset + 3, []⟩ := rfl
  have hscan : ∃ dot one eof, Expr.scan "a.1.0" =
      .ok [⟨.ident "a", 0⟩, ⟨.dot, dot⟩, ⟨.number (Decimal.nearest 10 (-1)), one⟩, ⟨.eof, eof⟩] := by
    have hname : isName "a" = true := by decide
    have hstop : ∀ c ∈ ['.', '1', '.', '0'].head?, Expr.continuesName c = false := by
      rintro _ ⟨⟩
      decide
    obtain ⟨next, hnext⟩ := Expr.scanFrom_name hname hstop 0 []
    refine ⟨next, next + 1, next + 1 + 3, hnext.trans ?_⟩
    rw [Expr.scanFrom_dot, Expr.scanFrom_of_scanToken (by decide) (hnumeral (next + 1)), Expr.scanFrom]
    rfl
  obtain ⟨dot, one, eof, hscan⟩ := hscan
  have hone : Expr.Parse.fieldName? (.number (Decimal.nearest 10 (-1))) = some "1" := by decide
  have haccesses : Expr.Accesses ["1"] [⟨.dot, dot⟩, ⟨.number (Decimal.nearest 10 (-1)), one⟩, ⟨.eof, eof⟩] :=
    .member rfl hone (.done rfl)
  have hparse : Expr.parse "a.1.0" = .ok ((["1"] : List String).foldl .member (.ident "a")) := by
    unfold Expr.parse
    rw [hscan]
    exact Expr.Parse.ofLexemes_eq (l := ⟨.ident "a", 0⟩) rfl haccesses
  refine ⟨s', hrun, hlookup, Store.evaluateText_members hparse ?_⟩
  rw [hlookup]
  rfl

end LiveLayout
