import Mathlib.Algebra.Group.Nat.Defs
import Semdoc.Double.Text
import Semdoc.Proofs.Literal.Grammar

/-!
# Written numbers

What the machine for numerals makes of the texts of integers, and of decimals in plain and in
scientific notation.
-/

namespace Semdoc

namespace Numeral

open Nat (ofDigitChars ofDigitChars_cons)

lemma areDigits_toDigits (n : Nat) : AreDigits (Nat.toDigits 10 n) := fun _ hc =>
  Nat.isDigit_of_mem_toDigits (by decide) (by decide) hc

namespace Scan

/-- The characters of a sign that is only written if it is negative. -/
def signChars (negative : Bool) : List Char := if negative then ['-'] else []

lemma sign_signChars (negative : Bool) : Sign (signChars negative) negative := by
  cases negative with
  | false => exact .absent
  | true => exact .minus

/-- The characters of the digits after the point; without any there is no point. -/
def placeChars : List Char → List Char
  | [] => []
  | c :: cs => '.' :: c :: cs

end Scan

lemma spells_integer (negative : Bool) (n : Nat) :
    Spells (Scan.signChars negative ++ Nat.toDigits 10 n) (integer negative n) := by
  have h : Unsigned negative (Nat.toDigits 10 n)
      (integer negative (ofDigitChars 10 (Nat.toDigits 10 n) 0)) :=
    .whole (areDigits_toDigits n) Nat.toDigits_ne_nil
  rw [Nat.ofDigitChars_ten_toDigits] at h
  exact spells_iff_written.2 (.mk (Scan.sign_signChars negative) h)

/-- Plain notation. -/
lemma spells_plain (negative : Bool) (cs ds : List Char) (hcs : AreDigits cs) (hne : cs ≠ [])
    (hds : AreDigits ds) :
    Spells (Scan.signChars negative ++ cs ++ '.' :: ds)
      (decimal negative (ofDigitChars 10 (cs ++ ds) 0) (-(ds.length : Int))) := by
  have h : Unsigned negative (cs ++ '.' :: (ds ++ []))
      (decimal negative (ofDigitChars 10 (cs ++ ds) 0) (0 - ds.length)) :=
    .point hcs hne hds .absent
  rw [List.append_nil, Int.zero_sub] at h
  rw [List.append_assoc]
  exact spells_iff_written.2 (.mk (Scan.sign_signChars negative) h)

/-- Scientific notation, with or without a point. -/
lemma spells_scientific (negative exponentNegative : Bool) (cs ds es : List Char)
    (hcs : AreDigits cs) (hne : cs ≠ []) (hds : AreDigits ds) (hes : AreDigits es)
    (hne' : es ≠ []) :
    Spells (Scan.signChars negative ++ cs ++ Scan.placeChars ds ++
        'e' :: (if exponentNegative then '-' else '+') :: es)
      (decimal negative (ofDigitChars 10 (cs ++ ds) 0)
        ((if exponentNegative then -(ofDigitChars 10 es 0 : Int) else ofDigitChars 10 es 0) -
          ds.length)) := by
  have hex : Exponent ('e' :: (if exponentNegative then '-' else '+') :: es)
      (signed exponentNegative (ofDigitChars 10 es 0)) := by
    cases exponentNegative with
    | false => exact .mk (.inl rfl) .plus hes hne'
    | true => exact .mk (.inl rfl) .minus hes hne'
  rw [List.append_assoc, List.append_assoc]
  refine spells_iff_written.2 (.mk (Scan.sign_signChars negative) ?_)
  cases ds with
  | nil =>
    rw [List.append_nil, List.length_nil, Int.natCast_zero, Int.sub_zero]
    exact .exponent hcs hne hex
  | cons d ds => exact .point hcs hne hds (.present hex)

/-- The text of an integer. -/
lemma spells_toString (i : Int) :
    Spells (toString i).toList (integer (decide (i < 0)) i.natAbs) := by
  cases i with
  | ofNat n =>
    have h := spells_integer false n
    have hneg : decide (Int.ofNat n < 0) = false :=
      decide_eq_false (Int.not_lt.2 (Int.natCast_nonneg n))
    have htext : (toString (Int.ofNat n)).toList = Nat.toDigits 10 n := Nat.toList_repr
    rw [htext, hneg]
    exact h
  | negSucc n =>
    have h := spells_integer true (n + 1)
    have htext : (toString (Int.negSucc n)).toList = '-' :: Nat.toDigits 10 (n + 1) := by
      have he : toString (Int.negSucc n) = "-" ++ (n + 1).repr := rfl
      rw [he, String.toList_append, Nat.toList_repr]
      rfl
    have hneg : decide (Int.negSucc n < 0) = true := decide_eq_true (Int.negSucc_lt_zero n)
    rw [htext, hneg]
    exact h

lemma areDigits_replicate (n : Nat) : AreDigits (List.replicate n '0') := by
  intro c hc
  rw [List.eq_of_mem_replicate hc]
  rfl

lemma AreDigits.append {cs ds : List Char} (hcs : AreDigits cs) (hds : AreDigits ds) :
    AreDigits (cs ++ ds) := fun c hc => (List.mem_append.1 hc).elim (hcs c) (hds c)

section Layout

variable {ds : List Char} (hds : AreDigits ds)
include hds

/-- Digits with zeros behind them. -/
lemma spells_whole (hne : ds ≠ []) (negative : Bool) (k : Nat) :
    Spells (Scan.signChars negative ++ (ds ++ List.replicate k '0' ++ ['.', '0']))
      (decimal negative (ofDigitChars 10 ds 0 * 10 ^ (k + 1)) (-1)) := by
  have h := spells_plain negative (ds ++ List.replicate k '0') ['0']
    (hds.append (areDigits_replicate k)) (List.append_ne_nil_of_left_ne_nil hne _)
    (areDigits_replicate 1)
  have hdigits : ofDigitChars 10 (ds ++ List.replicate k '0' ++ ['0']) 0 =
      ofDigitChars 10 ds 0 * 10 ^ (k + 1) := by
    rw [Nat.ofDigitChars_append, Nat.ofDigitChars_append, Nat.ofDigitChars_replicate_zero,
      ofDigitChars_cons, Nat.ofDigitChars_nil, Nat.pow_succ, Nat.mul_comm 10,
      Nat.mul_comm (10 ^ k), Nat.mul_assoc]
    rfl
  rw [hdigits] at h
  rw [← List.append_assoc]
  exact h

/-- Digits with a point between them. -/
lemma spells_split (negative : Bool) {k : Nat} (hpos : 0 < k) (hk : k < ds.length) :
    Spells (Scan.signChars negative ++ (ds.take k ++ '.' :: ds.drop k))
      (decimal negative (ofDigitChars 10 ds 0) (k - ds.length)) := by
  have h := spells_plain negative (ds.take k) (ds.drop k)
    (fun c hc => hds c (List.mem_of_mem_take hc))
    (List.ne_nil_of_length_pos (by rw [List.length_take]; omega))
    (fun c hc => hds c (List.mem_of_mem_drop hc))
  have hexponent : -((ds.drop k).length : Int) = k - ds.length := by
    rw [List.length_drop]
    omega
  rw [List.take_append_drop, hexponent] at h
  rw [← List.append_assoc]
  exact h

/-- Digits behind the point and perhaps behind zeros. -/
lemma spells_fraction (negative : Bool) (k : Nat) :
    Spells (Scan.signChars negative ++ '0' :: '.' :: (List.replicate k '0' ++ ds))
      (decimal negative (ofDigitChars 10 ds 0) (-(k + ds.length))) := by
  have h := spells_plain negative ['0'] (List.replicate k '0' ++ ds) (areDigits_replicate 1)
    (List.cons_ne_nil _ _) ((areDigits_replicate k).append hds)
  have hdigits : ofDigitChars 10 (['0'] ++ (List.replicate k '0' ++ ds)) 0 =
      ofDigitChars 10 ds 0 := by
    rw [Nat.ofDigitChars_append, Nat.ofDigitChars_append, ofDigitChars_cons, Nat.ofDigitChars_nil,
      Nat.ofDigitChars_replicate_zero]
    rfl
  have hexponent : -((List.replicate k '0' ++ ds).length : Int) = -(k + ds.length) := by
    rw [List.length_append, List.length_replicate]
    omega
  rw [hdigits, hexponent, List.append_assoc] at h
  exact h

/-- Digits with a point behind the first one, and an exponent. -/
lemma spells_exponent (hne : ds ≠ []) (negative : Bool) (e : Int) :
    Spells (Scan.signChars negative ++ (ds.take 1 ++ Scan.placeChars (ds.drop 1) ++
        'e' :: (if e < 0 then '-' else '+') :: Nat.toDigits 10 e.natAbs))
      (decimal negative (ofDigitChars 10 ds 0) (e + 1 - ds.length)) := by
  have hlen := List.length_pos_of_ne_nil hne
  have h := spells_scientific negative (decide (e < 0)) (ds.take 1) (ds.drop 1)
    (Nat.toDigits 10 e.natAbs) (fun c hc => hds c (List.mem_of_mem_take hc))
    (List.ne_nil_of_length_pos (by rw [List.length_take]; omega))
    (fun c hc => hds c (List.mem_of_mem_drop hc)) (areDigits_toDigits _) Nat.toDigits_ne_nil
  have hexponent : (if decide (e < 0) then -(e.natAbs : Int) else e.natAbs) -
      ((ds.drop 1).length : Int) = e + 1 - ds.length := by
    rw [List.length_drop]
    simp only [decide_eq_true_eq]
    split_ifs with hneg <;> omega
  rw [List.take_append_drop, Nat.ofDigitChars_ten_toDigits, hexponent] at h
  simp only [decide_eq_true_eq, List.append_assoc] at h ⊢
  exact h

end Layout

/-- The layout of a decimal spells the same number, perhaps with zeros at its end. -/
theorem spells_layout (negative : Bool) (d : Double.Decimal) :
    ∃ z : Nat, Spells (Scan.signChars negative ++ (Double.layout d).toList)
      (decimal negative (d.digits * 10 ^ z) (d.exponent - z)) := by
  have hds := areDigits_toDigits d.digits
  have hne : Nat.toDigits 10 d.digits ≠ [] := Nat.toDigits_ne_nil
  have hvalue : ofDigitChars 10 (Nat.toDigits 10 d.digits) 0 = d.digits :=
    Nat.ofDigitChars_ten_toDigits
  simp only [Double.layout]
  generalize Nat.toDigits 10 d.digits = ds at hds hne hvalue ⊢
  -- one case for each notation
  by_cases h1 : 0 ≤ d.exponent ∧ (ds.length : Int) + d.exponent ≤ 16
  · have h := spells_whole hds hne negative d.exponent.toNat
    -- the zero behind the point is one more zero at the end of the digits
    have hexponent : (-1 : Int) = d.exponent - ↑(d.exponent.toNat + 1) := by omega
    rw [hvalue, hexponent] at h
    rw [if_pos h1, String.toList_ofList]
    exact ⟨_, h⟩
  rw [if_neg h1]
  refine ⟨0, ?_⟩
  rw [Nat.pow_zero, Nat.mul_one, Int.natCast_zero, Int.sub_zero]
  by_cases h2 : 0 < (ds.length : Int) + d.exponent ∧ (ds.length : Int) + d.exponent ≤ 16
  · have h := spells_split hds negative (k := (ds.length + d.exponent).toNat) (by omega) (by omega)
    have hexponent : ((ds.length + d.exponent).toNat : Int) - ds.length = d.exponent := by omega
    rw [hvalue, hexponent] at h
    rw [if_pos h2, String.toList_ofList]
    exact h
  rw [if_neg h2]
  by_cases h3 : -5 < (ds.length : Int) + d.exponent ∧ (ds.length : Int) + d.exponent ≤ 0
  · have h := spells_fraction hds negative (-(ds.length + d.exponent)).toNat
    have hexponent : -(((-(ds.length + d.exponent)).toNat : Int) + ds.length) = d.exponent := by
      omega
    rw [hvalue, hexponent] at h
    rw [if_pos h3, String.toList_ofList]
    exact h
  have h := spells_exponent hds hne negative (ds.length + d.exponent - 1)
  have hexponent : (ds.length : Int) + d.exponent - 1 + 1 - ds.length = d.exponent := by omega
  rw [hvalue, hexponent] at h
  rw [if_neg h3, String.toList_append, String.toList_ofList, Double.digitsOf,
    String.toList_ofList]
  cases hdrop : ds.drop 1 with
  | nil =>
    rw [hdrop] at h
    simpa only [Scan.placeChars, List.append_assoc, List.cons_append, List.nil_append] using h
  | cons c r =>
    rw [hdrop] at h
    simpa only [Scan.placeChars, List.append_assoc, List.cons_append, List.nil_append] using h

end Numeral

end Semdoc
