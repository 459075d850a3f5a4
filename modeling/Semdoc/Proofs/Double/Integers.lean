import Semdoc.Proofs.Double.Rounding

/-!
# Integers as doubles

An integer below `2 ^ 53` is a double, so that it is the integer part of the double that is nearest to it.  The
double that is nearest to an integer beyond that is no smaller than `2 ^ 53`.  Hence an integer below `2 ^ 53`
shares its double with no other one.
-/

namespace Semdoc.Double

/-! ## Signs and magnitudes -/

lemma toNat_bits_ofMagnitude (negative : Bool) {m : ℕ} (hm : m < 2 ^ 63) :
    (ofMagnitude negative m).bits.toNat = m + if negative then 2 ^ 63 else 0 := by
  have hlt : (m + if negative then 2 ^ 63 else 0) < 2 ^ 64 := by
    split_ifs <;> omega
  exact UInt64.toNat_ofNat_of_lt' hlt

lemma isNegative_ofMagnitude (negative : Bool) {m : ℕ} (hm : m < 2 ^ 63) :
    (ofMagnitude negative m).isNegative = negative := by
  rw [isNegative, toNat_bits_ofMagnitude negative hm]
  cases negative with
  | true => exact decide_eq_true (Nat.le_add_left _ m)
  | false => exact decide_eq_false (Nat.not_le_of_lt hm)

lemma magnitudeBits_ofMagnitude (negative : Bool) {m : ℕ} (hm : m < 2 ^ 63) :
    (ofMagnitude negative m).magnitudeBits = m := by
  rw [magnitudeBits, toNat_bits_ofMagnitude negative hm]
  split_ifs
  · rw [Nat.add_mod_right, Nat.mod_eq_of_lt hm]
  · exact Nat.mod_eq_of_lt hm

/-! ## Integer parts -/

variable {d : Double}

/-- The bits of the exponent and those of a significand with its first bit set can be read off again. -/
lemma parts_of_magnitudeBits_eq {exponent q : ℕ} (hlow : 2 ^ 52 ≤ q) (hhigh : q < 2 ^ 53)
    (h : d.magnitudeBits = exponent * 2 ^ 52 + q) :
    d.significand = q ∧ d.scale = exponent - 1074 := by
  have hfield : d.exponentField = exponent + 1 := by
    rw [exponentField, h]
    omega
  have hfraction : d.fraction = q - 2 ^ 52 := by
    rw [fraction, h]
    omega
  constructor
  · rw [significand, if_neg (by omega), hfraction]
    omega
  · rw [scale, hfield]
    omega

lemma truncMagnitude_of_scale_nonneg (h : 0 ≤ d.scale) :
    d.truncMagnitude = d.significand * 2 ^ d.scale.toNat := if_pos h

/-- At a scale above zero the integer part has more than fifty-three bits. -/
lemma le_truncMagnitude (h : 1076 * 2 ^ 52 ≤ d.magnitudeBits) : 2 ^ 53 ≤ d.truncMagnitude := by
  have hfield : 1076 ≤ d.exponentField := (Nat.le_div_iff_mul_le (Nat.two_pow_pos 52)).2 h
  have hscale : 1 ≤ d.scale := by
    rw [scale]
    omega
  rw [truncMagnitude_of_scale_nonneg (by omega)]
  calc 2 ^ 53 = 2 ^ 52 * 2 ^ 1 := rfl
    _ ≤ d.significand * 2 ^ d.scale.toNat :=
        Nat.mul_le_mul (significand_ge (by omega)) (Nat.pow_le_pow_right two_pos (by omega))

/-! ## The double nearest to an integer -/

/-- The magnitude bits of the double that is nearest to a positive integer. -/
def nearestBits (n : ℕ) : ℕ :=
  min ((scaleOfRatio n 1 + 1074).toNat * 2 ^ 52 + roundScaled n 1 (scaleOfRatio n 1)) infinityBits

lemma nearestBits_lt (n : ℕ) : nearestBits n < 2 ^ 63 :=
  lt_of_le_of_lt (min_le_right _ _) (by decide)

lemma ofInt_eq {i : ℤ} (hi : i ≠ 0) :
    ofInt i = ofMagnitude (decide (i < 0)) (nearestBits i.natAbs) := by
  rw [ofInt, ofRatio, if_neg (Int.natAbs_ne_zero.2 hi)]
  rfl

/-- All bits of an integer are taken, or the first fifty-three. -/
lemma scaleOfRatio_one {n : ℕ} (hn : n ≠ 0) : scaleOfRatio n 1 = (Nat.log2 n : ℤ) - 52 := by
  obtain ⟨hlow, hhigh⟩ := log2_bounds hn
  rw [← div_one (n : ℚ), ← Nat.cast_one] at hlow hhigh
  apply scaleOfRatio_eq hn Nat.one_pos (by omega)
  · rwa [show (Nat.log2 n : ℤ) - 52 + 53 = Nat.log2 n + 1 by ring]
  · rw [sub_add_cancel]
    exact .inr hlow

lemma roundHalfEven_one (n : ℕ) : roundHalfEven n 1 = n := by
  rw [roundHalfEven, Nat.mod_one, Nat.div_one]
  rfl

/-- An integer below `2 ^ 53` is shifted until its first bit is the first one of a significand. -/
lemma nearestBits_of_lt {n : ℕ} (hn : n ≠ 0) (h : n < 2 ^ 53) :
    nearestBits n = (Nat.log2 n + 1022) * 2 ^ 52 + n * 2 ^ (52 - Nat.log2 n) ∧
      2 ^ 52 ≤ n * 2 ^ (52 - Nat.log2 n) ∧ n * 2 ^ (52 - Nat.log2 n) < 2 ^ 53 := by
  have hlog : Nat.log2 n ≤ 52 := Nat.le_of_lt_succ ((Nat.log2_lt hn).2 h)
  have hshift : roundScaled n 1 ((Nat.log2 n : ℤ) - 52) = n * 2 ^ (52 - Nat.log2 n) := by
    rw [roundScaled]
    split_ifs with he
    · have hall : Nat.log2 n = 52 := by omega
      rw [hall, Nat.sub_self, pow_zero, Nat.mul_one]
      exact roundHalfEven_one n
    · rw [show (-((Nat.log2 n : ℤ) - 52)).toNat = 52 - Nat.log2 n by omega]
      exact roundHalfEven_one _
  have hlow : 2 ^ 52 ≤ n * 2 ^ (52 - Nat.log2 n) := by
    calc 2 ^ 52 = 2 ^ Nat.log2 n * 2 ^ (52 - Nat.log2 n) := by
          rw [← pow_add, Nat.add_sub_cancel' hlog]
      _ ≤ n * 2 ^ (52 - Nat.log2 n) := Nat.mul_le_mul_right _ (Nat.log2_self_le hn)
  have hhigh : n * 2 ^ (52 - Nat.log2 n) < 2 ^ 53 := by
    calc n * 2 ^ (52 - Nat.log2 n) < 2 ^ (Nat.log2 n + 1) * 2 ^ (52 - Nat.log2 n) :=
          Nat.mul_lt_mul_of_pos_right Nat.lt_log2_self (Nat.two_pow_pos _)
      _ = 2 ^ 53 := by
          rw [← pow_add]
          congr 1
          omega
  refine ⟨?_, hlow, hhigh⟩
  rw [nearestBits, scaleOfRatio_one hn, hshift,
    show ((Nat.log2 n : ℤ) - 52 + 1074).toNat = Nat.log2 n + 1022 by omega, min_eq_left]
  rw [infinityBits]
  omega

/-- Rounding an integer of `2 ^ 53` or more does not go below that. -/
lemma le_nearestBits {n : ℕ} (h : 2 ^ 53 ≤ n) : 1076 * 2 ^ 52 ≤ nearestBits n := by
  have hn : n ≠ 0 := by omega
  have hlog : 53 ≤ Nat.log2 n := (Nat.le_log2 hn).2 h
  have hround : 2 ^ 52 ≤ roundScaled n 1 ((Nat.log2 n : ℤ) - 52) := by
    have hquotient : 2 ^ 52 ≤ n / (1 * 2 ^ (Nat.log2 n - 52)) := by
      rw [one_mul, Nat.le_div_iff_mul_le (Nat.two_pow_pos _), ← pow_add, Nat.add_sub_cancel' (by omega)]
      exact Nat.log2_self_le hn
    rw [roundScaled, if_pos (by omega), show ((Nat.log2 n : ℤ) - 52).toNat = Nat.log2 n - 52 by omega]
    rcases roundHalfEven_cases n (1 * 2 ^ (Nat.log2 n - 52)) with he | he
    · rw [he]
      exact hquotient
    · rw [he]
      exact Nat.le_succ_of_le hquotient
  rw [nearestBits, scaleOfRatio_one hn, le_min_iff]
  refine ⟨?_, by decide⟩
  calc 1076 * 2 ^ 52 = 1075 * 2 ^ 52 + 2 ^ 52 := rfl
    _ ≤ _ := Nat.add_le_add (Nat.mul_le_mul_right _ (by omega)) hround

/-! ## Integers and their doubles -/

/-- The integer part of the double that is nearest to an integer below `2 ^ 53` is the integer. -/
theorem trunc_ofInt {i : ℤ} (h : i.natAbs < 2 ^ 53) : (ofInt i).trunc = i := by
  by_cases hi : i = 0
  · subst hi
    decide +kernel
  obtain ⟨hbits, hlow, hhigh⟩ := nearestBits_of_lt (Int.natAbs_ne_zero.2 hi) h
  have hlog : Nat.log2 i.natAbs ≤ 52 :=
    Nat.le_of_lt_succ ((Nat.log2_lt (Int.natAbs_ne_zero.2 hi)).2 h)
  have hlt := nearestBits_lt i.natAbs
  rw [ofInt_eq hi, trunc, isNegative_ofMagnitude _ hlt]
  obtain ⟨hsignificand, hscale⟩ := parts_of_magnitudeBits_eq hlow hhigh
    ((magnitudeBits_ofMagnitude (decide (i < 0)) hlt).trans hbits)
  have htrunc : (ofMagnitude (decide (i < 0)) (nearestBits i.natAbs)).truncMagnitude = i.natAbs := by
    rw [truncMagnitude, hsignificand, hscale]
    split_ifs with hnonneg
    · rw [show Nat.log2 i.natAbs = 52 by omega, Nat.sub_self, pow_zero, Nat.mul_one]
      exact Nat.mul_one _
    · rw [show (-((Nat.log2 i.natAbs + 1022 : ℕ) - 1074 : ℤ)).toNat = 52 - Nat.log2 i.natAbs by omega]
      exact Nat.mul_div_cancel _ (Nat.two_pow_pos _)
  rw [htrunc]
  split_ifs with hneg
  · rw [decide_eq_true_eq] at hneg
    omega
  · rw [decide_eq_true_eq] at hneg
    omega

/-- The integer part of the double that is nearest to an integer from `2 ^ 53` on is from there on, too. -/
theorem le_natAbs_trunc_ofInt {i : ℤ} (h : 2 ^ 53 ≤ i.natAbs) : 2 ^ 53 ≤ (ofInt i).trunc.natAbs := by
  have hi : i ≠ 0 := by
    rintro rfl
    exact absurd h (by decide)
  have hbits := magnitudeBits_ofMagnitude (decide (i < 0)) (nearestBits_lt i.natAbs)
  rw [ofInt_eq hi, trunc]
  have hle := le_truncMagnitude (hbits.symm ▸ le_nearestBits h)
  split_ifs <;> omega

/-- An integer below `2 ^ 53` shares its double with no other integer. -/
theorem ofInt_inj {i j : ℤ} (h : i.natAbs < 2 ^ 53) (hij : ofInt i = ofInt j) : i = j := by
  have hi := trunc_ofInt h
  rw [hij] at hi
  rcases lt_or_ge j.natAbs (2 ^ 53) with hj | hj
  · rw [← hi, trunc_ofInt hj]
  · have hle := le_natAbs_trunc_ofInt hj
    rw [hi] at hle
    omega

end Semdoc.Double
