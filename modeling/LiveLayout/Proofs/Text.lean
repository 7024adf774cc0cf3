import LiveLayout.Json.Printer
import LiveLayout.Text.Blank
import Mathlib.Data.List.DropRight
/-!
Trimming a text that has been trimmed, and the texts of numbers, which are never empty.
-/
namespace LiveLayout

namespace Text

theorem trimChars_trimChars (cs : List Char) : trimChars (trimChars cs) = trimChars cs := by
  have hprefix : (cs.dropWhile isBlank).rdropWhile isBlank <+: cs.dropWhile isBlank :=
    List.rdropWhile_prefix _ _
  have hhead : ((cs.dropWhile isBlank).rdropWhile isBlank).dropWhile isBlank =
      (cs.dropWhile isBlank).rdropWhile isBlank := by
    cases h : (cs.dropWhile isBlank).rdropWhile isBlank with
    | nil => rfl
    | cons c rest =>
      rw [h] at hprefix
      obtain ⟨more, hmore⟩ := hprefix
      have hnot := List.head?_dropWhile_not isBlank cs
      rw [← hmore] at hnot
      simpa using hnot
  change (((cs.dropWhile isBlank).rdropWhile isBlank).dropWhile isBlank).rdropWhile isBlank = _
  rw [hhead, List.rdropWhile_idempotent]
  rfl

theorem trim_trim (s : String) : trim (trim s) = trim s := by
  rw [trim, trim, String.toList_ofList, trimChars_trimChars]

end Text

theorem repr_ne_empty (n : Nat) : n.repr ≠ "" := by
  intro h
  have hlength := Nat.length_repr_pos (n := n)
  rw [h] at hlength
  exact Nat.lt_irrefl _ hlength

theorem Decimal.Layout.write_ne_empty (l : Decimal.Layout) (x : Float) : l.write x ≠ "" := by
  have hlist {cs : List Char} (h : cs ≠ []) (sign : String) : sign ++ String.ofList cs ≠ "" := by
    rw [ne_eq, String.append_eq_empty_iff, String.ofList_eq_empty_iff]
    exact fun hempty => h hempty.2
  unfold Decimal.Layout.write
  split
  · decide
  · dsimp only
    split
    · exact fun h => absurd (String.append_eq_empty_iff.1 h).2 (by decide)
    · split
      · exact fun h => absurd (String.append_eq_empty_iff.1 h).2 (by decide)
      · apply hlist
        split
        · unfold Decimal.positional
          dsimp only
          split
          · simp
          · split <;> simp
        · unfold Decimal.scientific
          simp

theorem Number.text_ne_empty (n : Number) : n.text ≠ "" := by
  unfold Number.text
  cases n with
  | int n =>
    cases n with
    | ofNat k => exact repr_ne_empty k
    | negSucc k => exact fun h => absurd (String.append_eq_empty_iff.1 h).1 (by decide)
  | float x =>
    dsimp only
    split
    · decide
    · exact Decimal.Layout.write_ne_empty _ x

end LiveLayout
