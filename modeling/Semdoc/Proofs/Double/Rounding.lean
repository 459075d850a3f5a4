import Mathlib.Algebra.Order.Field.Power
import Mathlib.Data.Nat.Log
import Mathlib.Data.Rat.Cast.Order
import Mathlib.Tactic.FieldSimp
import Mathlib.Tactic.Linarith
import Mathlib.Tactic.Positivity
import Mathlib.Tactic.Ring
import Semdoc.Double.Text

/-!
# Rounding to doubles

A number that is nearer to a double than to any other one is rounded to that double.
-/

namespace Semdoc.Double

/-! ## Rounding to integers -/

lemma roundHalfEven_cases (num den : ℕ) :
    roundHalfEven num den = num / den ∨ roundHalfEven num den = num / den + 1 := by
  simp only [roundHalfEven]
  split_ifs
  · exact .inl rfl
  · exact .inr rfl
  · exact .inl rfl
  · exact .inr rfl

/-- A rational number at most half from an integer, and if it is half from it then from an even
one. -/
def RoundsToNat (x : ℚ) (q : ℕ) : Prop :=
  2 * q ≤ 2 * x + 1 ∧ 2 * x ≤ 2 * q + 1 ∧ (q % 2 = 1 → 2 * q < 2 * x + 1 ∧ 2 * x < 2 * q + 1)

/-- A fraction is rounded to the integer next to it. -/
lemma roundHalfEven_eq {num den q : ℕ} (hden : 0 < den) (h : RoundsToNat (num / den) q) :
    roundHalfEven num den = q := by
  have hpos : (0 : ℚ) < den := Nat.cast_pos.2 hden
  obtain ⟨hlow, hhigh, htie⟩ := h
  have hx : (num / den : ℚ) * den = num := div_mul_cancel₀ _ hpos.ne'
  have hq : (2 * q : ℚ) * den = (2 * (den * q) : ℕ) := by push_cast; ring
  have hq' : (2 * q + 1 : ℚ) * den = (2 * (den * q) + den : ℕ) := by push_cast; ring
  have hn : (2 * (num / den) : ℚ) * den = (2 * num : ℕ) := by rw [mul_assoc, hx]; push_cast; rfl
  have hn' : (2 * (num / den) + 1 : ℚ) * den = (2 * num + den : ℕ) := by
    rw [add_mul, hn, one_mul, Nat.cast_add]
  have hlow' : 2 * (den * q) ≤ 2 * num + den := by
    have := mul_le_mul_of_nonneg_right hlow hpos.le
    rw [hq, hn'] at this
    exact_mod_cast this
  have hhigh' : 2 * num ≤ 2 * (den * q) + den := by
    have := mul_le_mul_of_nonneg_right hhigh hpos.le
    rw [hn, hq'] at this
    exact_mod_cast this
  have htie' : q % 2 = 1 → 2 * (den * q) < 2 * num + den ∧ 2 * num < 2 * (den * q) + den := by
    intro hodd
    have h1 := mul_lt_mul_of_pos_right (htie hodd).1 hpos
    have h2 := mul_lt_mul_of_pos_right (htie hodd).2 hpos
    rw [hq, hn'] at h1
    rw [hn, hq'] at h2
    exact ⟨by exact_mod_cast h1, by exact_mod_cast h2⟩
  -- the quotient is the integer or the one below it
  have hdiv := Nat.div_add_mod num den
  have hmod := Nat.mod_lt num hden
  have hcases : q = num / den ∨ q = num / den + 1 := by
    rcases Nat.lt_trichotomy q (num / den) with hq | hq | hq
    · have := Nat.mul_le_mul_left den hq
      rw [Nat.mul_succ] at this
      omega
    · exact .inl hq
    · rcases Nat.eq_or_lt_of_le hq with hq | hq
      · exact .inr hq.symm
      · have := Nat.mul_le_mul_left den hq
        rw [Nat.mul_succ, Nat.mul_succ] at this
        omega
  simp only [roundHalfEven]
  rcases hcases with rfl | rfl
  · split_ifs <;> omega
  · rw [Nat.mul_succ] at hlow' hhigh' htie'
    split_ifs <;> omega

/-- A fraction that is scaled by a power of two is rounded to the integer next to it. -/
lemma roundScaled_eq {num den q : ℕ} {e : ℤ} (hden : 0 < den)
    (h : RoundsToNat (num / den / 2 ^ e) q) : roundScaled num den e = q := by
  rw [roundScaled]
  split_ifs with he
  · obtain ⟨n, rfl⟩ := Int.eq_ofNat_of_zero_le he
    apply roundHalfEven_eq (Nat.mul_pos hden (Nat.two_pow_pos _))
    rw [Int.toNat_natCast, Nat.cast_mul, ← div_div, Nat.cast_pow, Nat.cast_ofNat]
    exact_mod_cast h
  · obtain ⟨n, rfl⟩ := Int.exists_eq_neg_ofNat (Int.le_of_not_le he)
    apply roundHalfEven_eq hden
    rw [neg_neg, Int.toNat_natCast, Nat.cast_mul, Nat.cast_pow, Nat.cast_ofNat]
    rw [zpow_neg, div_inv_eq_mul, zpow_natCast] at h
    rwa [mul_div_right_comm]

/-! ## The scale of a fraction -/

/-- Whether a fraction has fewer bits than a scale asks for. -/
lemma scaled_lt_iff (num k : ℕ) {den : ℕ} (e : ℤ) (hden : 0 < den) :
    (if 0 ≤ e then (decide (num < den * 2 ^ e.toNat * k) : Bool)
      else decide (num * 2 ^ (-e).toNat < den * k)) = true ↔ (num / den : ℚ) < 2 ^ e * k := by
  have hpos : (0 : ℚ) < den := Nat.cast_pos.2 hden
  rw [div_lt_iff₀ hpos]
  split_ifs with he
  · obtain ⟨n, rfl⟩ := Int.eq_ofNat_of_zero_le he
    have hcast : (2 : ℚ) ^ (n : ℤ) * k * den = (den * 2 ^ n * k : ℕ) := by
      rw [zpow_natCast]
      push_cast
      ring
    rw [decide_eq_true_eq, Int.toNat_natCast, hcast, Nat.cast_lt]
  · obtain ⟨n, rfl⟩ := Int.exists_eq_neg_ofNat (Int.le_of_not_le he)
    have hcast : (num : ℚ) * 2 ^ (n : ℤ) = (num * 2 ^ n : ℕ) := by
      rw [zpow_natCast]
      push_cast
      rfl
    rw [decide_eq_true_eq, neg_neg, Int.toNat_natCast, zpow_neg, mul_assoc,
      lt_inv_mul_iff₀ (by positivity), mul_comm _ (num : ℚ), hcast, mul_comm (k : ℚ), ← Nat.cast_mul,
      Nat.cast_lt]

/-- The bounds of a number by its number of bits. -/
lemma log2_bounds {n : ℕ} (hn : n ≠ 0) :
    (2 : ℚ) ^ (Nat.log2 n : ℤ) ≤ n ∧ (n : ℚ) < 2 ^ (Nat.log2 n + 1 : ℤ) := by
  have hlow : 2 ^ Nat.log2 n ≤ n := Nat.log2_self_le hn
  have hhigh : n < 2 ^ (Nat.log2 n + 1) := Nat.lt_log2_self
  constructor
  · rw [zpow_natCast]
    exact_mod_cast hlow
  · have e : (Nat.log2 n + 1 : ℤ) = ((Nat.log2 n + 1 : ℕ) : ℤ) := rfl
    rw [e, zpow_natCast]
    exact_mod_cast hhigh

/-- The bounds of a fraction by the numbers of bits. -/
lemma ratio_bounds {num den : ℕ} (hnum : num ≠ 0) (hden : 0 < den) :
    (2 : ℚ) ^ ((Nat.log2 num : ℤ) - Nat.log2 den - 1) < num / den ∧
      (num / den : ℚ) < 2 ^ ((Nat.log2 num : ℤ) - Nat.log2 den + 1) := by
  obtain ⟨hn, hn'⟩ := log2_bounds hnum
  obtain ⟨hd, hd'⟩ := log2_bounds hden.ne'
  have hpos : (0 : ℚ) < den := Nat.cast_pos.2 hden
  have htwo : (2 : ℚ) ≠ 0 := two_ne_zero
  constructor
  · rw [lt_div_iff₀ hpos]
    calc (2 : ℚ) ^ ((Nat.log2 num : ℤ) - Nat.log2 den - 1) * den
        < 2 ^ ((Nat.log2 num : ℤ) - Nat.log2 den - 1) * 2 ^ (Nat.log2 den + 1 : ℤ) :=
          mul_lt_mul_of_pos_left hd' (by positivity)
      _ = 2 ^ (Nat.log2 num : ℤ) := by
          rw [← zpow_add₀ htwo]
          congr 1
          ring
      _ ≤ num := hn
  · rw [div_lt_iff₀ hpos]
    calc (num : ℚ) < 2 ^ (Nat.log2 num + 1 : ℤ) := hn'
      _ = 2 ^ ((Nat.log2 num : ℤ) - Nat.log2 den + 1) * 2 ^ (Nat.log2 den : ℤ) := by
          rw [← zpow_add₀ htwo]
          congr 1
          ring
      _ ≤ 2 ^ ((Nat.log2 num : ℤ) - Nat.log2 den + 1) * den :=
          mul_le_mul_of_nonneg_left hd (by positivity)

/-- The scale leaves fifty-three bits before the point, or fewer at the least scale of all. -/
lemma scaleOfRatio_eq {num den : ℕ} {s : ℤ} (hnum : num ≠ 0) (hden : 0 < den) (hs : -1074 ≤ s)
    (hhigh : (num / den : ℚ) < 2 ^ (s + 53))
    (hlow : s = -1074 ∨ (2 : ℚ) ^ (s + 52) ≤ num / den) : scaleOfRatio num den = s := by
  obtain ⟨hn, hn'⟩ := ratio_bounds hnum hden
  have hone : (1 : ℚ) < 2 := one_lt_two
  -- a scale that leaves exactly fifty-three bits is the one that is looked for
  have hscale : ∀ r : ℤ, (2 : ℚ) ^ (r + 52) ≤ num / den → (num / den : ℚ) < 2 ^ (r + 53) →
      max r (-1074) = s := by
    intro r hr hr'
    have hle := (zpow_lt_zpow_iff_right₀ hone).1 (lt_of_le_of_lt hr hhigh)
    rcases hlow with hlow | hlow
    · omega
    · have hge := (zpow_lt_zpow_iff_right₀ hone).1 (lt_of_le_of_lt hlow hr')
      omega
  have hshort := scaled_lt_iff num (2 ^ 52)
    ((Nat.log2 num : ℤ) - Nat.log2 den - 52) hden
  rw [Nat.cast_pow, Nat.cast_ofNat, ← zpow_natCast, ← zpow_add₀ (two_ne_zero' ℚ)] at hshort
  simp only [scaleOfRatio]
  rcases lt_or_ge (num / den : ℚ) (2 ^ ((Nat.log2 num : ℤ) - Nat.log2 den - 52 + ((52 : ℕ) : ℤ)))
    with h | h
  · rw [if_pos (hshort.2 h)]
    apply hscale
    · have e : (Nat.log2 num : ℤ) - Nat.log2 den - 52 - 1 + 52 =
          Nat.log2 num - Nat.log2 den - 1 := by ring
      rw [e]
      exact hn.le
    · have e : (Nat.log2 num : ℤ) - Nat.log2 den - 52 - 1 + 53 =
          Nat.log2 num - Nat.log2 den - 52 + ((52 : ℕ) : ℤ) := by push_cast; ring
      rwa [e]
  · rw [if_neg fun hlt => not_lt_of_ge h (hshort.1 hlt)]
    apply hscale
    · exact h
    · have e : (Nat.log2 num : ℤ) - Nat.log2 den - 52 + 53 =
          Nat.log2 num - Nat.log2 den + 1 := by ring
      rwa [e]

/-! ## Doubles as numbers -/

variable {d : Double}

lemma magnitudeBits_lt (d : Double) : d.magnitudeBits < 2 ^ 63 :=
  Nat.mod_lt _ (Nat.two_pow_pos 63)

lemma fraction_lt (d : Double) : d.fraction < 2 ^ 52 := Nat.mod_lt _ (Nat.two_pow_pos 52)

/-- The magnitude bits are those of the exponent before those of the fraction. -/
lemma magnitudeBits_eq (d : Double) :
    d.magnitudeBits = (d.scale + 1074).toNat * 2 ^ 52 + d.significand := by
  have hsplit : d.magnitudeBits = 2 ^ 52 * d.exponentField + d.fraction :=
    (Nat.div_add_mod d.magnitudeBits (2 ^ 52)).symm
  rw [scale, significand]
  split_ifs <;> omega

lemma magnitudeBits_lt_infinityBits (hd : d.isFinite = true) : d.magnitudeBits < infinityBits := by
  have hsplit : d.magnitudeBits = 2 ^ 52 * d.exponentField + d.fraction :=
    (Nat.div_add_mod d.magnitudeBits (2 ^ 52)).symm
  have hlt := d.magnitudeBits_lt
  have hfraction := d.fraction_lt
  have hfinite : d.exponentField ≠ 2047 := by
    rw [isFinite, bne_iff_ne] at hd
    exact hd
  rw [infinityBits]
  omega

/-- A double is made of its sign and its magnitude bits. -/
lemma ofMagnitude_magnitudeBits (d : Double) : ofMagnitude d.isNegative d.magnitudeBits = d := by
  have hlt := d.bits.toNat_lt
  have hbits : d.magnitudeBits + (if d.isNegative then 2 ^ 63 else 0) = d.bits.toNat := by
    rw [magnitudeBits, isNegative]
    split_ifs with h
    · rw [decide_eq_true_eq] at h
      omega
    · rw [decide_eq_true_eq] at h
      omega
  rw [ofMagnitude, hbits, UInt64.ofNat_toNat]

lemma significand_lt (d : Double) : d.significand < 2 ^ 53 := by
  have := d.fraction_lt
  rw [significand]
  split_ifs <;> omega

lemma scale_ge (d : Double) : -1074 ≤ d.scale := by
  rw [scale]
  omega

/-- Above the least scale the first bit of the significand is set. -/
lemma significand_ge (h : -1074 < d.scale) : 2 ^ 52 ≤ d.significand := by
  rw [scale] at h
  rw [significand]
  split_ifs <;> omega

/-- How many quarters of a step below a double are still rounded to it.  Below a power of two the
steps are half as long. -/
def quartersBelow (d : Double) : ℕ := if d.fraction = 0 ∧ 1 < d.exponentField then 1 else 2

lemma quartersBelow_le (d : Double) : d.quartersBelow ≤ 2 := by
  rw [quartersBelow]
  split_ifs <;> decide

/-- The numbers that are rounded to the magnitude of a double. -/
structure Rounds (d : Double) (x : ℚ) : Prop where
  low : (4 * d.significand - d.quartersBelow) * 2 ^ (d.scale - 2) ≤ x
  high : x ≤ (4 * d.significand + 2) * 2 ^ (d.scale - 2)
  odd : d.significand % 2 = 1 → (4 * d.significand - d.quartersBelow) * 2 ^ (d.scale - 2) < x ∧
    x < (4 * d.significand + 2) * 2 ^ (d.scale - 2)

/-- A number that is rounded to a double, in steps of the double. -/
lemma Rounds.steps {x : ℚ} (h : Rounds d x) :
    4 * d.significand - d.quartersBelow ≤ 4 * (x / 2 ^ d.scale) ∧
      4 * (x / 2 ^ d.scale) ≤ 4 * d.significand + 2 ∧
      (d.significand % 2 = 1 → 4 * d.significand - d.quartersBelow < 4 * (x / 2 ^ d.scale) ∧
        4 * (x / 2 ^ d.scale) < 4 * d.significand + 2) := by
  have hpos : (0 : ℚ) < 2 ^ (d.scale - 2) := by positivity
  have hx : x = 4 * (x / 2 ^ d.scale) * 2 ^ (d.scale - 2) := by
    have hne : (2 : ℚ) ^ d.scale ≠ 0 := by positivity
    rw [zpow_sub₀ two_ne_zero]
    field_simp
    norm_num
  obtain ⟨hlow, hhigh, hodd⟩ := h
  rw [hx] at hlow hhigh hodd
  refine ⟨le_of_mul_le_mul_right hlow hpos, le_of_mul_le_mul_right hhigh hpos, fun hq => ?_⟩
  exact ⟨lt_of_mul_lt_mul_right (hodd hq).1 hpos.le, lt_of_mul_lt_mul_right (hodd hq).2 hpos.le⟩

section Ratio

variable {num den : ℕ}

/-- A fraction that takes all bits at the scale of a double is rounded to its significand. -/
lemma ratioBits_of_le (hnum : num ≠ 0) (hden : 0 < den) (h : Rounds d (num / den))
    (hcase : d.scale = -1074 ∨ (2 : ℚ) ^ 52 ≤ num / den / 2 ^ d.scale) :
    (scaleOfRatio num den + 1074).toNat * 2 ^ 52 + roundScaled num den (scaleOfRatio num den) =
      d.magnitudeBits := by
  obtain ⟨hlow, hhigh, hodd⟩ := h.steps
  have hpos : (0 : ℚ) < 2 ^ d.scale := by positivity
  have hx : (num / den : ℚ) = num / den / 2 ^ d.scale * 2 ^ d.scale :=
    (div_mul_cancel₀ _ hpos.ne').symm
  have hm : (d.significand : ℚ) + 1 ≤ 2 ^ 53 := by exact_mod_cast d.significand_lt
  have hbelow : (d.quartersBelow : ℚ) ≤ 2 := by exact_mod_cast d.quartersBelow_le
  have hscale : scaleOfRatio num den = d.scale := by
    apply scaleOfRatio_eq hnum hden d.scale_ge
    · rw [hx, zpow_add₀ two_ne_zero, mul_comm]
      apply mul_lt_mul_of_pos_left _ hpos
      norm_num at hm ⊢
      linarith
    · refine hcase.imp_right fun hge => ?_
      rw [hx, zpow_add₀ two_ne_zero, mul_comm]
      exact mul_le_mul_of_nonneg_right (by exact_mod_cast hge) hpos.le
  rw [hscale, magnitudeBits_eq, roundScaled_eq hden]
  refine ⟨by linarith, by linarith, fun hq => ⟨?_, ?_⟩⟩
  · have := (hodd hq).1
    linarith
  · have := (hodd hq).2
    linarith

/-- Just below a power of two the scale of a fraction is one less, and rounding carries. -/
lemma ratioBits_of_lt (hnum : num ≠ 0) (hden : 0 < den) (h : Rounds d (num / den))
    (hscale : -1074 < d.scale) (hlt : (num / den / 2 ^ d.scale : ℚ) < 2 ^ 52) :
    (scaleOfRatio num den + 1074).toNat * 2 ^ 52 + roundScaled num den (scaleOfRatio num den) =
      d.magnitudeBits := by
  obtain ⟨hlow, -, -⟩ := h.steps
  set y : ℚ := num / den / 2 ^ d.scale
  have hpos : (0 : ℚ) < 2 ^ d.scale := by positivity
  have hx : (num / den : ℚ) = y * 2 ^ d.scale := (div_mul_cancel₀ _ hpos.ne').symm
  have hmlow := significand_ge hscale
  -- the significand cannot be more than the power of two that the fraction is below
  have hmq : d.significand = 2 ^ 52 := by
    have hbelow : (d.quartersBelow : ℚ) ≤ 2 := by exact_mod_cast d.quartersBelow_le
    have : (d.significand : ℚ) < 2 ^ 52 + 1 := by linarith
    have : d.significand < 2 ^ 52 + 1 := by exact_mod_cast this
    omega
  have hone : d.quartersBelow = 1 := by
    rw [significand] at hmq
    rw [scale] at hscale
    rw [quartersBelow, if_pos]
    split_ifs at hmq <;> omega
  rw [hmq, hone] at hlow
  norm_num at hlow hlt
  have hscale' : scaleOfRatio num den = d.scale - 1 := by
    apply scaleOfRatio_eq hnum hden (by omega)
    · have e : d.scale - 1 + 53 = d.scale + 52 := by ring
      rw [e, hx, zpow_add₀ two_ne_zero, mul_comm]
      apply mul_lt_mul_of_pos_left _ hpos
      norm_num
      exact hlt
    · have e : d.scale - 1 + 52 = d.scale + 51 := by ring
      refine .inr ?_
      rw [e, hx, zpow_add₀ two_ne_zero, mul_comm]
      apply mul_le_mul_of_nonneg_right _ hpos.le
      norm_num
      linarith
  rw [hscale', magnitudeBits_eq, hmq, roundScaled_eq (q := 2 ^ 53) hden]
  · omega
  · have hdouble : (num / den : ℚ) / 2 ^ (d.scale - 1) = 2 * y := by
      rw [hx, zpow_sub₀ two_ne_zero]
      field_simp
    rw [hdouble, RoundsToNat]
    norm_num
    exact ⟨by linarith, by linarith⟩

/-- A fraction is rounded to the double whose neighbourhood it is in. -/
theorem ofRatio_eq (hd : d.isFinite = true) (hnum : num ≠ 0) (hden : 0 < den)
    (h : Rounds d (num / den)) : ofRatio d.isNegative num den = d := by
  have hbits : (scaleOfRatio num den + 1074).toNat * 2 ^ 52 +
      roundScaled num den (scaleOfRatio num den) = d.magnitudeBits := by
    by_cases hcase : d.scale = -1074 ∨ (2 : ℚ) ^ 52 ≤ num / den / 2 ^ d.scale
    · exact ratioBits_of_le hnum hden h hcase
    · rw [not_or, not_le] at hcase
      exact ratioBits_of_lt hnum hden h (lt_of_le_of_ne d.scale_ge (Ne.symm hcase.1)) hcase.2
  rw [ofRatio, if_neg hnum]
  show ofMagnitude _ (min _ _) = d
  rw [hbits, min_eq_left (magnitudeBits_lt_infinityBits hd).le, ofMagnitude_magnitudeBits]

end Ratio

/-! ## Decimals -/

lemma scale_le (hd : d.isFinite = true) : d.scale ≤ 971 := by
  have hlt := d.magnitudeBits_lt
  have hfinite : d.magnitudeBits / 2 ^ 52 ≠ 2047 := by
    rw [isFinite, bne_iff_ne] at hd
    exact hd
  rw [scale, exponentField]
  omega

/-- A number that is rounded to a double other than zero is not too small for any double. -/
lemma Rounds.ge {x : ℚ} (h : Rounds d x) (h0 : d.significand ≠ 0) : (2 : ℚ) ^ (-1075 : ℤ) ≤ x := by
  have hbelow : (d.quartersBelow : ℚ) ≤ 2 := by exact_mod_cast d.quartersBelow_le
  have hm : (1 : ℚ) ≤ d.significand := Nat.one_le_cast.2 (Nat.pos_of_ne_zero h0)
  have hscale := d.scale_ge
  calc (2 : ℚ) ^ (-1075 : ℤ) = 2 * 2 ^ (-1076 : ℤ) := by
        rw [← zpow_one_add₀ two_ne_zero]
        rfl
    _ ≤ (4 * d.significand - d.quartersBelow) * 2 ^ (d.scale - 2) :=
        mul_le_mul (by linarith) (zpow_le_zpow_right₀ one_le_two (by omega)) (by positivity)
          (by linarith)
    _ ≤ x := h.low

/-- A number that is rounded to a finite double is not too large for any double. -/
lemma Rounds.lt {x : ℚ} (h : Rounds d x) (hd : d.isFinite = true) : x < (2 : ℚ) ^ (1024 : ℤ) := by
  have hm : (d.significand : ℚ) + 1 ≤ 2 ^ 53 := by exact_mod_cast d.significand_lt
  have hscale := scale_le hd
  calc x ≤ (4 * d.significand + 2) * 2 ^ (d.scale - 2) := h.high
    _ < 2 ^ (55 : ℤ) * 2 ^ (d.scale - 2) := by
        apply mul_lt_mul_of_pos_right _ (by positivity)
        norm_num at hm ⊢
        linarith
    _ ≤ 2 ^ (55 : ℤ) * 2 ^ (969 : ℤ) :=
        mul_le_mul_of_nonneg_left (zpow_le_zpow_right₀ one_le_two (by omega)) (by positivity)
    _ = 2 ^ (1024 : ℤ) := by
        rw [← zpow_add₀ two_ne_zero]
        rfl

lemma two_zpow_le_ten_zpow (n : ℕ) : (2 : ℚ) ^ (3 * n : ℤ) ≤ 10 ^ (n : ℤ) := by
  have height : (2 : ℚ) ^ (3 : ℤ) = 8 := by norm_num
  rw [zpow_mul, height, zpow_natCast, zpow_natCast]
  exact pow_le_pow_left₀ (by norm_num) (by norm_num) n

/-- A decimal is rounded to the double whose neighbourhood it is in. -/
theorem ofDecimal_eq {digits : ℕ} {exponent : ℤ} (hd : d.isFinite = true) (h0 : d.significand ≠ 0)
    (h : Rounds d (digits * 10 ^ exponent)) : ofDecimal d.isNegative digits exponent = d := by
  have hge := h.ge h0
  have hdigits : digits ≠ 0 := by
    rintro rfl
    rw [Nat.cast_zero, zero_mul] at hge
    exact absurd hge (not_le_of_gt (by positivity))
  have hone : (1 : ℚ) ≤ digits := Nat.one_le_cast.2 (Nat.pos_of_ne_zero hdigits)
  rw [ofDecimal, if_neg hdigits]
  dsimp only
  split_ifs with hexp hlarge hsmall
  · -- no double is that large
    have hlt := h.lt hd
    have hbig : (2 : ℚ) ^ (1024 : ℤ) ≤ digits * 10 ^ exponent := by
      calc (2 : ℚ) ^ (1024 : ℤ) ≤ 2 ^ (3 * 400 : ℤ) :=
            zpow_le_zpow_right₀ one_le_two (by norm_num)
        _ ≤ 10 ^ (400 : ℤ) := two_zpow_le_ten_zpow 400
        _ ≤ 10 ^ exponent := zpow_le_zpow_right₀ (by norm_num) hlarge.le
        _ ≤ digits * 10 ^ exponent := le_mul_of_one_le_left (by positivity) hone
    exact absurd hlt (not_lt_of_ge hbig)
  · obtain ⟨n, rfl⟩ := Int.eq_ofNat_of_zero_le hexp
    apply ofRatio_eq hd _ Nat.one_pos
    · rw [Int.toNat_natCast, Nat.cast_mul, Nat.cast_one, div_one, Nat.cast_pow, Nat.cast_ofNat]
      exact_mod_cast h
    · exact Nat.mul_ne_zero hdigits (Nat.pos_iff_ne_zero.1 (Nat.pow_pos (by decide)))
  · -- no double but zero is that small
    obtain ⟨n, rfl⟩ := Int.exists_eq_neg_ofNat (Int.le_of_not_le hexp)
    rw [neg_neg, Int.toNat_natCast] at hsmall
    have hpow : (2 : ℚ) ^ (Nat.log2 digits + 1200 : ℤ) ≤ 10 ^ (n : ℤ) := by
      calc (2 : ℚ) ^ (Nat.log2 digits + 1200 : ℤ) ≤ 2 ^ (3 * n : ℤ) :=
            zpow_le_zpow_right₀ one_le_two (by omega)
        _ ≤ 10 ^ (n : ℤ) := two_zpow_le_ten_zpow n
    have hlt : (digits * 10 ^ (-(n : ℤ)) : ℚ) < 2 ^ (-1199 : ℤ) := by
      rw [zpow_neg, ← div_eq_mul_inv, div_lt_iff₀ (by positivity)]
      have e : (-1199 : ℤ) + (Nat.log2 digits + 1200) = Nat.log2 digits + 1 := by ring
      calc (digits : ℚ) < 2 ^ (Nat.log2 digits + 1 : ℤ) := (log2_bounds hdigits).2
        _ = 2 ^ (-1199 : ℤ) * 2 ^ (Nat.log2 digits + 1200 : ℤ) := by
            rw [← zpow_add₀ two_ne_zero, e]
        _ ≤ 2 ^ (-1199 : ℤ) * 10 ^ (n : ℤ) := mul_le_mul_of_nonneg_left hpow (by positivity)
    have hle : (2 : ℚ) ^ (-1199 : ℤ) ≤ 2 ^ (-1075 : ℤ) :=
      zpow_le_zpow_right₀ one_le_two (by norm_num)
    exact absurd hge (not_le_of_gt (lt_of_lt_of_le hlt hle))
  · obtain ⟨n, rfl⟩ := Int.exists_eq_neg_ofNat (Int.le_of_not_le hexp)
    apply ofRatio_eq hd hdigits (Nat.pow_pos (by decide))
    rw [neg_neg, Int.toNat_natCast, Nat.cast_pow, Nat.cast_ofNat]
    rwa [zpow_neg, zpow_natCast] at h

end Semdoc.Double
