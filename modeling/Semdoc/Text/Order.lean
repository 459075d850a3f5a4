/-! # Order of texts

Texts are ordered by their code points, which is also the order of their UTF-8 bytes.  The order
decides where a key stands in a map and how two strings compare.
-/

namespace Semdoc.Text

/-- Lexicographic comparison of two lists of code points. -/
def compareChars : List Char → List Char → Ordering
  | [], [] => .eq
  | [], _ :: _ => .lt
  | _ :: _, [] => .gt
  | a :: as, b :: bs =>
    if a.toNat < b.toNat then .lt
    else if b.toNat < a.toNat then .gt
    else compareChars as bs

/-- Comparison of two texts by code points. -/
def compareTexts (a b : String) : Ordering :=
  compareChars a.toList b.toList

theorem compareChars_refl (a : List Char) : compareChars a a = .eq := by
  induction a with
  | nil => rfl
  | cons c r ih => simp [compareChars, ih]

theorem compareChars_eq {a b : List Char} (h : compareChars a b = .eq) : a = b := by
  induction a generalizing b with
  | nil => cases b <;> simp_all [compareChars]
  | cons c r ih =>
    cases b with
    | nil => simp [compareChars] at h
    | cons d s =>
      simp only [compareChars] at h
      split at h
      · cases h
      · split at h
        · cases h
        · have hc : c.toNat = d.toNat := by omega
          rw [Char.toNat_inj.mp hc, ih h]

/-- Two texts compare as equal exactly if they are the same text. -/
theorem compareTexts_eq_iff (a b : String) : compareTexts a b = .eq ↔ a = b := by
  constructor
  · intro h
    exact String.toList_inj.mp (compareChars_eq h)
  · rintro rfl
    exact compareChars_refl _

end Semdoc.Text
