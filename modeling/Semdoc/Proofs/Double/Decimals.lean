import Mathlib.Data.Nat.Cast.Order.Field
import Semdoc.Proofs.Double.Rounding
import Semdoc.Proofs.Literal.Digits

/-!
# Doubles with six decimals

The text with six decimals is a numeral for the number of millionths of a double.  So it tells the sign and the
number of millionths of a finite double, and nothing more.  From `2 ^ 33` on doubles are more than a
millionth apart, so that there it tells the double.
-/

namespace Semdoc

namespace Numeral

/-- Characters spell one numeral at most. -/
lemma Spells.unique {cs : List Char} {m n : Numeral} (hm : Spells cs m) (hn : Spells cs n) : m = n := by
  obtain ⟨s, hs, hm⟩ := hm
  obtain ⟨t, ht, hn⟩ := hn
  rw [hs] at ht
  cases ht
  exact Option.some_inj.1 (hm.symm.trans hn)

/-- The words that values other than strings and numerals are written as. -/
def words : List String := ["null", "true", "false", "NaN", "inf", "-inf"]

/-- No word is a numeral. -/
lemma not_spells_of_mem_words {s : String} (hs : s ∈ words) (n : Numeral) : ¬ Spells s.toList n := by
  have hnone : ∀ s ∈ words, Scan.run {} s.toList = none := by decide +kernel
  rintro ⟨t, ht, -⟩
  rw [hnone s hs] at ht
  cases ht

end Numeral

namespace Double

variable {d e : Double}

/-! ## The text -/

lemma toList_padZeros (width : ℕ) (s : String) :
    (padZeros width s).toList = List.replicate (width - s.toList.length) '0' ++ s.toList := by
  rw [padZeros, String.toList_append, String.toList_ofList, String.length_toList]

lemma toList_fixedSix (hd : d.isFinite = true) :
    d.fixedSix.toList = Numeral.Scan.signChars d.isNegative ++
      Nat.toDigits 10 (d.millionths / 10 ^ 6) ++ '.' ::
        (List.replicate (6 - (Nat.toDigits 10 (d.millionths % 10 ^ 6)).length) '0' ++
          Nat.toDigits 10 (d.millionths % 10 ^ 6)) := by
  have hsign : (if d.isNegative then "-" else "").toList = Numeral.Scan.signChars d.isNegative := by
    cases d.isNegative <;> rfl
  have hpoint : ".".toList = ['.'] := rfl
  rw [fixedSix, if_pos hd]
  simp only [String.toList_append, hsign, hpoint, digitsOf, toList_padZeros, String.toList_ofList]
  rw [List.append_assoc _ ['.']]
  rfl

/-- The text of a finite double is a numeral for its millionths. -/
theorem spells_fixedSix (hd : d.isFinite = true) :
    Numeral.Spells d.fixedSix.toList (.decimal d.isNegative d.millionths (-6)) := by
  rw [toList_fixedSix hd]
  set q := d.millionths / 10 ^ 6 with hq
  set r := d.millionths % 10 ^ 6 with hr
  have hlength : (Nat.toDigits 10 r).length ≤ 6 :=
    (Nat.length_toDigits_le_iff (by decide) (by decide)).2 (Nat.mod_lt _ (by decide))
  have h := Numeral.spells_plain d.isNegative (Nat.toDigits 10 q)
    (List.replicate (6 - (Nat.toDigits 10 r).length) '0' ++ Nat.toDigits 10 r)
    (Numeral.areDigits_toDigits q) Nat.toDigits_ne_nil
    ((Numeral.areDigits_replicate _).append (Numeral.areDigits_toDigits r))
  have hdigits : Nat.ofDigitChars 10 (Nat.toDigits 10 q ++
      (List.replicate (6 - (Nat.toDigits 10 r).length) '0' ++ Nat.toDigits 10 r)) 0 =
        d.millionths := by
    rw [Nat.ofDigitChars_append, Nat.ofDigitChars_append, Nat.ofDigitChars_replicate_zero,
      Nat.ofDigitChars_eq_ofDigitChars_zero, Nat.ofDigitChars_ten_toDigits,
      Nat.ofDigitChars_ten_toDigits, ← Nat.mul_assoc, ← pow_add, Nat.add_sub_cancel' hlength]
    exact Nat.div_add_mod d.millionths (10 ^ 6)
  have hplaces : (List.replicate (6 - (Nat.toDigits 10 r).length) '0' ++
      Nat.toDigits 10 r).length = 6 := by
    rw [List.length_append, List.length_replicate, Nat.sub_add_cancel hlength]
  rwa [hdigits, hplaces] at h

lemma fixedSix_of_not_finite (hd : d.isFinite = false) : d.fixedSix = d.nonFiniteText := by
  rw [fixedSix, if_neg (by rw [hd]; decide)]

lemma fixedSix_mem_words (hd : d.isFinite = false) : d.fixedSix ∈ Numeral.words := by
  rw [fixedSix_of_not_finite hd, nonFiniteText]
  split_ifs <;> decide

lemma isFinite_of_isNaN (h : d.isNaN = true) : d.isFinite = false := by
  rw [isNaN, Bool.and_eq_true, beq_iff_eq] at h
  rw [isFinite, h.1]
  rfl

lemma magnitudeBits_of_infinite (hd : d.isFinite = false) (hnan : d.isNaN = false) :
    d.magnitudeBits = infinityBits := by
  rw [isFinite, bne_eq_false_iff_eq] at hd
  rw [isNaN, hd, beq_self_eq_true, Bool.true_and, bne_eq_false_iff_eq] at hnan
  rw [exponentField] at hd
  rw [fraction] at hnan
  rw [infinityBits]
  omega

/-- What is not finite is no number or infinite, and then its text tells the sign. -/
lemma nonFiniteText_inj (h : d.nonFiniteText = e.nonFiniteText) :
    d.isNaN = e.isNaN ∧ (d.isNaN = false → d.isNegative = e.isNegative) := by
  rw [nonFiniteText, nonFiniteText] at h
  split_ifs at h <;> simp_all

/-- Finite doubles with the same sign and as many millionths. -/
structure SameMillionths (d e : Double) : Prop where
  finite_left : d.isFinite = true
  finite_right : e.isFinite = true
  sign : d.isNegative = e.isNegative
  millionths : d.millionths = e.millionths

/-- Different doubles have the same text if neither is a number, or both are finite and have the same sign and
as many millionths. -/
theorem fixedSix_eq_iff :
    d.fixedSix = e.fixedSix ↔
      d = e ∨ (d.isNaN = true ∧ e.isNaN = true) ∨ SameMillionths d e := by
  constructor
  · intro h
    cases hd : d.isFinite with
    | true =>
      have hspells := spells_fixedSix hd
      rw [h] at hspells
      cases he : e.isFinite with
      | true =>
        have heq := hspells.unique (spells_fixedSix he)
        rw [Numeral.decimal.injEq] at heq
        exact .inr (.inr ⟨hd, he, heq.1, heq.2.1⟩)
      | false => exact absurd hspells (Numeral.not_spells_of_mem_words (fixedSix_mem_words he) _)
    | false =>
      cases he : e.isFinite with
      | true =>
        have hspells := spells_fixedSix he
        rw [← h] at hspells
        exact absurd hspells (Numeral.not_spells_of_mem_words (fixedSix_mem_words hd) _)
      | false =>
        rw [fixedSix_of_not_finite hd, fixedSix_of_not_finite he] at h
        obtain ⟨hnan, hsign⟩ := nonFiniteText_inj h
        cases hdn : d.isNaN with
        | true => exact .inr (.inl ⟨rfl, hnan.symm.trans hdn⟩)
        | false =>
          left
          rw [← d.ofMagnitude_magnitudeBits, ← e.ofMagnitude_magnitudeBits,
            magnitudeBits_of_infinite hd hdn, magnitudeBits_of_infinite he (hnan.symm.trans hdn),
            hsign hdn]
  · rintro (rfl | ⟨hd, he⟩ | ⟨hd, he, hsign, hmillionths⟩)
    · rfl
    · rw [fixedSix_of_not_finite (isFinite_of_isNaN hd), fixedSix_of_not_finite (isFinite_of_isNaN he),
        nonFiniteText, nonFiniteText, if_pos hd, if_pos he]
    · rw [fixedSix, fixedSix, if_pos hd, if_pos he, hsign, hmillionths]

/-! ## Magnitudes -/

/-- The number that a finite double stands for, without its sign. -/
def magnitude (d : Double) : ℚ := d.significand * 2 ^ d.scale

lemma magnitude_lt (d : Double) : d.magnitude < 2 ^ (d.scale + 53) := by
  have hpos : (0 : ℚ) < 2 ^ d.scale := by positivity
  rw [magnitude, zpow_add₀ two_ne_zero, mul_comm]
  exact mul_lt_mul_of_pos_left (by exact_mod_cast d.significand_lt) hpos

/-- A double with a larger scale has a larger magnitude. -/
lemma magnitude_lt_of_scale_lt (h : d.scale < e.scale) : d.magnitude < e.magnitude := by
  have hfirst : (2 : ℚ) ^ (52 : ℤ) ≤ e.significand := by
    have := d.scale_ge
    exact_mod_cast significand_ge (d := e) (by omega)
  calc d.magnitude < 2 ^ (d.scale + 53) := d.magnitude_lt
    _ ≤ 2 ^ (52 + e.scale) := zpow_le_zpow_right₀ one_le_two (by omega)
    _ = 2 ^ (52 : ℤ) * 2 ^ e.scale := zpow_add₀ two_ne_zero _ _
    _ ≤ e.magnitude := mul_le_mul_of_nonneg_right hfirst (by positivity)

/-- A double is known from its sign and its magnitude. -/
lemma eq_of_magnitude_eq (hsign : d.isNegative = e.isNegative) (h : d.magnitude = e.magnitude) :
    d = e := by
  have hscale : d.scale = e.scale := by
    rcases lt_trichotomy d.scale e.scale with hlt | heq | hlt
    · exact absurd h (magnitude_lt_of_scale_lt hlt).ne
    · exact heq
    · exact absurd h (magnitude_lt_of_scale_lt hlt).ne'
  have hsignificand : d.significand = e.significand := by
    rw [magnitude, magnitude, hscale] at h
    exact_mod_cast mul_right_cancel₀ (by positivity) h
  rw [← d.ofMagnitude_magnitudeBits, ← e.ofMagnitude_magnitudeBits, magnitudeBits_eq,
    magnitudeBits_eq, hscale, hsignificand, hsign]

lemma truncMagnitude_le (d : Double) : (d.truncMagnitude : ℚ) ≤ d.magnitude := by
  rw [truncMagnitude, magnitude]
  split_ifs with h
  · obtain ⟨n, hn⟩ := Int.eq_ofNat_of_zero_le h
    rw [hn, Int.toNat_natCast, zpow_natCast, Nat.cast_mul, Nat.cast_pow, Nat.cast_ofNat]
  · obtain ⟨n, hn⟩ := Int.exists_eq_neg_ofNat (Int.le_of_not_le h)
    rw [hn, neg_neg, Int.toNat_natCast, zpow_neg, zpow_natCast, ← div_eq_mul_inv]
    exact_mod_cast Nat.cast_div_le (α := ℚ)

/-! ## Millionths -/

/-- Rounding goes to an integer at most half away. -/
lemma roundHalfEven_near (num : ℕ) {den : ℕ} (hden : 0 < den) :
    (num / den : ℚ) - 1 / 2 ≤ roundHalfEven num den ∧
      (roundHalfEven num den : ℚ) ≤ num / den + 1 / 2 := by
  have hdiv := Nat.div_add_mod num den
  have hmod := Nat.mod_lt num hden
  have hnear : 2 * num ≤ 2 * (den * roundHalfEven num den) + den ∧
      2 * (den * roundHalfEven num den) ≤ 2 * num + den := by
    have hsucc : den * (num / den + 1) = den * (num / den) + den := Nat.mul_succ _ _
    simp only [roundHalfEven]
    split_ifs <;> omega
  have hpos : (0 : ℚ) < den := Nat.cast_pos.2 hden
  have hx : (num / den : ℚ) * den = num := div_mul_cancel₀ _ hpos.ne'
  have hlow : (2 * num : ℚ) ≤ 2 * (den * roundHalfEven num den) + den := by exact_mod_cast hnear.1
  have hhigh : (2 * (den * roundHalfEven num den) : ℚ) ≤ 2 * num + den := by exact_mod_cast hnear.2
  constructor
  · apply le_of_mul_le_mul_right _ hpos
    linarith
  · apply le_of_mul_le_mul_right _ hpos
    linarith

/-- The millionths of a double are at most half a millionth from it. -/
lemma millionths_near (d : Double) :
    d.magnitude * 10 ^ 6 - 1 / 2 ≤ d.millionths ∧
      (d.millionths : ℚ) ≤ d.magnitude * 10 ^ 6 + 1 / 2 := by
  rw [millionths, magnitude]
  split_ifs with h
  · obtain ⟨n, hn⟩ := Int.eq_ofNat_of_zero_le h
    rw [hn, Int.toNat_natCast, zpow_natCast]
    push_cast
    constructor <;> linarith
  · obtain ⟨n, hn⟩ := Int.exists_eq_neg_ofNat (Int.le_of_not_le h)
    have hnear := roundHalfEven_near (d.significand * 10 ^ 6) (Nat.two_pow_pos n)
    rw [hn, neg_neg, Int.toNat_natCast, zpow_neg, zpow_natCast, ← div_eq_mul_inv,
      div_mul_eq_mul_div]
    exact_mod_cast hnear

/-- At a scale of `-19` or more a double is a multiple of `2 ^ -19`, which is more than a millionth. -/
lemma exists_steps (h : -19 ≤ d.scale) : ∃ n : ℕ, d.magnitude = n * 2 ^ (-19 : ℤ) := by
  obtain ⟨k, hk⟩ := Int.eq_ofNat_of_zero_le (show 0 ≤ d.scale + 19 by omega)
  refine ⟨d.significand * 2 ^ k, ?_⟩
  have hscale : d.scale = k + -19 := by omega
  rw [magnitude, hscale, zpow_add₀ two_ne_zero, zpow_natCast]
  push_cast
  ring

lemma scale_ge_of_le_magnitude (h : (2 : ℚ) ^ (33 : ℤ) ≤ d.magnitude) : -19 ≤ d.scale := by
  have hlt := (zpow_lt_zpow_iff_right₀ (one_lt_two : (1 : ℚ) < 2)).1 (lt_of_le_of_lt h d.magnitude_lt)
  omega

/-- At a smaller scale a double has fewer millionths than `2 ^ 33` has. -/
lemma millionths_lt (h : d.scale < -19) : d.millionths < 2 ^ 33 * 10 ^ 6 := by
  have hnear := d.millionths_near.2
  have hsignificand : (d.significand : ℚ) ≤ 2 ^ 53 - 1 := by
    have hlt : (d.significand : ℚ) + 1 ≤ 2 ^ 53 := by exact_mod_cast d.significand_lt
    linarith
  have hmagnitude : d.magnitude ≤ (2 ^ 53 - 1) * 2 ^ (-20 : ℤ) :=
    mul_le_mul hsignificand (zpow_le_zpow_right₀ one_le_two (by omega)) (by positivity) (by norm_num)
  have hlt : (d.millionths : ℚ) < (2 ^ 33 * 10 ^ 6 : ℕ) := by
    norm_num only at hmagnitude hnear ⊢
    linarith
  exact Nat.cast_lt.1 hlt

/-- From `2 ^ 33` on a double is known from its sign and its millionths. -/
theorem eq_of_millionths_eq (hsign : d.isNegative = e.isNegative) (h : d.millionths = e.millionths)
    (hd : 2 ^ 33 ≤ d.truncMagnitude) : d = e := by
  have hmagnitude : (2 : ℚ) ^ (33 : ℤ) ≤ d.magnitude := by
    refine le_trans ?_ d.truncMagnitude_le
    exact_mod_cast hd
  have hnear := d.millionths_near
  have hnear' := e.millionths_near
  have hscale : -19 ≤ e.scale := by
    by_contra hlt
    have hfew := millionths_lt (lt_of_not_ge hlt)
    rw [← h] at hfew
    have hfew' : (d.millionths : ℚ) + 1 ≤ 2 ^ 33 * 10 ^ 6 := by exact_mod_cast hfew
    norm_num at hmagnitude hfew'
    linarith [hnear.1]
  obtain ⟨m, hm⟩ := exists_steps (scale_ge_of_le_magnitude hmagnitude)
  obtain ⟨n, hn⟩ := exists_steps hscale
  -- a step is more than a millionth, so the numbers of steps cannot differ
  rw [← h] at hnear'
  rw [hm] at hnear
  rw [hn] at hnear'
  have hsteps : m = n := by
    have hstep : (2 : ℚ) ^ (-19 : ℤ) * 10 ^ 6 = 15625 / 8192 := by norm_num
    have hle : (m : ℚ) < n + 1 := by
      nlinarith [hnear.1, hnear'.2]
    have hge : (n : ℚ) < m + 1 := by
      nlinarith [hnear.2, hnear'.1]
    have hle' : m < n + 1 := by exact_mod_cast hle
    have hge' : n < m + 1 := by exact_mod_cast hge
    omega
  exact eq_of_magnitude_eq hsign (by rw [hm, hn, hsteps])

end Double

end Semdoc
