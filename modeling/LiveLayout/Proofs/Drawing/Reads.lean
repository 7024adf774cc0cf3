import LiveLayout.Proofs.Drawing.Sketch
import LiveLayout.Proofs.Expr
/-!
A proxy depends on all that its expressions read. As long as these variables have the values that they had,
so do its marked properties.
-/
namespace LiveLayout

/-- The expression of the property, if it has one, reads nothing but the given names. -/
def Dynamic.ReadsWithin (names : List String) (d : Dynamic) : Prop :=
  ∀ e, d.expr = some e → ∃ seen, e.collect seen ⊆ names

namespace Scene

theorem readsWithin_foldl_parse (entries : List (String × String)) (done : List Dynamic × List String)
    (h : ∀ d ∈ done.1, d.ReadsWithin done.2) :
    ∀ d ∈ (entries.foldl parse done).1, d.ReadsWithin (entries.foldl parse done).2 := by
  induction entries generalizing done with
  | nil => exact h
  | cons entry rest ih =>
    rw [List.foldl_cons]
    apply ih
    unfold parse
    cases hparse : Expr.parse entry.2 with
    | error cause =>
      intro d hd
      rcases List.mem_append.1 hd with hd | hd
      · exact h d hd
      · rw [List.mem_singleton.1 hd]
        exact fun e he => nomatch he
    | ok expr =>
      intro d hd
      rcases List.mem_append.1 hd with hd | hd
      · intro e he
        obtain ⟨seen, hseen⟩ := h d hd e he
        exact ⟨seen, List.Subset.trans hseen (Expr.subset_collect done.2 expr)⟩
      · rw [List.mem_singleton.1 hd]
        intro e he
        cases he
        exact ⟨done.2, List.Subset.refl _⟩

end Scene

theorem Proxy.Parsed.readsWithin {p : Proxy} (h : p.Parsed) :
    ∀ d ∈ p.dynamic, d.ReadsWithin p.depends := by
  have hreads := Scene.readsWithin_foldl_parse (p.dynamic.map fun d => (d.name, d.text)) ([], []) nofun
  rw [← Scene.parsed_eq, h] at hreads
  exact hreads

/-- A marked property keeps its value while the variables that it reads keep theirs. -/
theorem Scene.current_congr {sc sc' : Scene} {layers : Layers} {d : Dynamic} {names : List String}
    (hd : d.ReadsWithin names)
    (h : ∀ x ∈ names, layers.lookup? sc'.root x = layers.lookup? sc.root x) :
    sc'.current? layers d = sc.current? layers d := by
  unfold current?
  cases hexpr : d.expr with
  | none => rfl
  | some e =>
    obtain ⟨seen, hseen⟩ := hd e hexpr
    have heval := Expr.evaluate_congr seen e fun x hx => h x (hseen hx)
    rw [Option.bind_some, Option.bind_some, evaluate?, evaluate?, heval]

end LiveLayout
