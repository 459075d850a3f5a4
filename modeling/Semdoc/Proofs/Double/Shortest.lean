import Mathlib.Algebra.Order.Floor.Semifield
import Mathlib.Data.Rat.Floor
import Semdoc.Proofs.Double.Rounding

/-!
# Shortest decimals

The search for the shortest decimal of a double finds one that is rounded to the double.
-/

namespace Semdoc.Double

variable {d : Double}

/-- The numerator of a power. -/
def powerUp (b : ℕ) (e : ℤ) : ℕ := if 0 ≤ e then b ^ e.toNat else 1

/-- The denominator of a power. -/
def powerDown (b : ℕ) (e : ℤ) : ℕ := if 0 ≤ e then 1 else b ^ (-e).toNat

lemma power_eq_div (b : ℕ) (e : ℤ) : (powerUp b e / powerDown b e : ℚ) = (b : ℚ) ^ e := by
  rw [powerUp, powerDown]
  split_ifs with he
  · obtain ⟨n, rfl⟩ := Int.eq_ofNat_of_zero_le he
    rw [Int.toNat_natCast, Nat.cast_one, div_one, zpow_natCast, Nat.cast_pow]
  · obtain ⟨n, rfl⟩ := Int.exists_eq_neg_ofNat (Int.le_of_not_le he)
    rw [neg_neg, Int.toNat_natCast, zpow_neg, zpow_natCast, Nat.cast_one, Nat.cast_pow, one_div]

lemma powerDown_pos {b : ℕ} (hb : 0 < b) (e : ℤ) : 0 < powerDown b e := by
  rw [powerDown]
  split_ifs
  · exact Nat.one_pos
  · exact Nat.pow_pos hb

namespace RoundingInterval

/-- An interval contains a fraction if it is between the bounds, which may count or not. -/
lemma contains_iff {r : RoundingInterval} {num den : ℕ} (hr : 0 < r.den) (hden : 0 < den) :
    r.contains num den = true ↔
      if r.closed then (r.low / r.den : ℚ) ≤ num / den ∧ (num / den : ℚ) ≤ r.high / r.den
      else (r.low / r.den : ℚ) < num / den ∧ (num / den : ℚ) < r.high / r.den := by
  have hr' : (0 : ℚ) < r.den := Nat.cast_pos.2 hr
  have hden' : (0 : ℚ) < den := Nat.cast_pos.2 hden
  rw [contains]
  split_ifs
  · rw [div_le_div_iff₀ hr' hden', div_le_div_iff₀ hden' hr', Bool.and_eq_true, decide_eq_true_eq,
      decide_eq_true_eq]
    exact_mod_cast Iff.rfl
  · rw [div_lt_div_iff₀ hr' hden', div_lt_div_iff₀ hden' hr', Bool.and_eq_true, decide_eq_true_eq,
      decide_eq_true_eq]
    exact_mod_cast Iff.rfl

/-- Whether a multiple of a power of ten lies in an interval. -/
def inside (r : RoundingInterval) (k : ℤ) (n : ℕ) : Bool :=
  r.contains (n * powerUp 10 k) (powerDown 10 k)

/-- The point of a grid at the value of an interval or just below it. -/
def gridFloor (r : RoundingInterval) (k : ℤ) : ℕ :=
  r.value * powerDown 10 k / (r.den * powerUp 10 k)

lemma onGrid_eq (r : RoundingInterval) (k : ℤ) :
    r.onGrid k = if r.inside k (r.gridFloor k) then
        if r.inside k (r.gridFloor k + 1) then
          some (roundHalfEven (r.value * powerDown 10 k) (r.den * powerUp 10 k))
        else some (r.gridFloor k)
      else if r.inside k (r.gridFloor k + 1) then some (r.gridFloor k + 1) else none :=
  rfl

/-- What is found on a grid lies in the interval. -/
lemma inside_of_onGrid {r : RoundingInterval} {k : ℤ} {n : ℕ} (h : r.onGrid k = some n) :
    r.inside k n = true := by
  rw [onGrid_eq] at h
  split_ifs at h with h1 h2 h2
  · obtain rfl := Option.some_inj.1 h
    rcases roundHalfEven_cases (r.value * powerDown 10 k) (r.den * powerUp 10 k) with he | he
    · rw [he]
      exact h1
    · rw [he]
      exact h2
  · obtain rfl := Option.some_inj.1 h
    exact h1
  · obtain rfl := Option.some_inj.1 h
    exact h2

/-- If the grid point below the value lies in the interval then something is found. -/
lemma isSome_onGrid_of_inside {r : RoundingInterval} {k : ℤ}
    (h : r.inside k (r.gridFloor k) = true) : (r.onGrid k).isSome = true := by
  rw [onGrid_eq, if_pos h]
  split_ifs <;> rfl

/-- The search ends on a grid with a point in the interval if there is one within its rounds. -/
lemma inside_search {r : RoundingInterval} {fuel : ℕ} {k : ℤ}
    (h : (r.onGrid (k - fuel)).isSome = true) :
    r.inside (r.search fuel k).exponent (r.search fuel k).digits = true := by
  induction fuel generalizing k with
  | zero =>
    rw [Int.natCast_zero, Int.sub_zero] at h
    obtain ⟨n, hn⟩ := Option.isSome_iff_exists.1 h
    rw [search, hn]
    exact inside_of_onGrid hn
  | succ fuel ih =>
    rw [search]
    cases hk : r.onGrid k with
    | some n => exact inside_of_onGrid hk
    -- this grid has no point in the interval, so the next finer one is tried
    | none =>
      apply ih
      have e : k - 1 - (fuel : ℤ) = k - (fuel + 1 : ℕ) := by push_cast; ring
      rwa [e]

end RoundingInterval

/-! ## The interval of a double -/

lemma roundingInterval_den_pos (d : Double) : 0 < d.roundingInterval.den :=
  powerDown_pos two_pos (d.scale - 2)

/-- A bound of the interval in quarters of a step. -/
lemma quarters_eq_div (n : ℕ) (d : Double) :
    ((n * powerUp 2 (d.scale - 2) : ℕ) / d.roundingInterval.den : ℚ) = n * 2 ^ (d.scale - 2) := by
  have h := power_eq_div 2 (d.scale - 2)
  rw [Nat.cast_ofNat] at h
  rw [← h, ← mul_div_assoc, Nat.cast_mul]
  rfl

lemma roundingInterval_value (d : Double) :
    (d.roundingInterval.value / d.roundingInterval.den : ℚ) =
      4 * d.significand * 2 ^ (d.scale - 2) := by
  have hcast : (4 * d.significand : ℚ) = (4 * d.significand : ℕ) := by push_cast; rfl
  rw [hcast]
  exact quarters_eq_div _ d

lemma roundingInterval_high (d : Double) :
    (d.roundingInterval.high / d.roundingInterval.den : ℚ) =
      (4 * d.significand + 2) * 2 ^ (d.scale - 2) := by
  have hcast : (4 * d.significand + 2 : ℚ) = (4 * d.significand + 2 : ℕ) := by push_cast; rfl
  rw [hcast]
  exact quarters_eq_div _ d

lemma roundingInterval_low (h0 : d.significand ≠ 0) :
    (d.roundingInterval.low / d.roundingInterval.den : ℚ) =
      (4 * d.significand - d.quartersBelow) * 2 ^ (d.scale - 2) := by
  have hle : d.quartersBelow ≤ 4 * d.significand := by
    have := d.quartersBelow_le
    omega
  have hcast : (4 * d.significand - d.quartersBelow : ℚ) =
      (4 * d.significand - d.quartersBelow : ℕ) := by
    rw [Nat.cast_sub hle]
    push_cast
    rfl
  rw [hcast]
  exact quarters_eq_div _ d

/-- A point of a grid that lies in the interval of a double is rounded to it. -/
lemma rounds_of_inside {k : ℤ} {n : ℕ} (h0 : d.significand ≠ 0)
    (h : d.roundingInterval.inside k n = true) : Rounds d (n * 10 ^ k) := by
  have hgrid := power_eq_div 10 k
  rw [Nat.cast_ofNat] at hgrid
  have hpoint := (RoundingInterval.contains_iff d.roundingInterval_den_pos
    (powerDown_pos (by decide) k)).1 h
  have hclosed : d.roundingInterval.closed = decide (d.significand % 2 = 0) := rfl
  rw [roundingInterval_low h0, roundingInterval_high, Nat.cast_mul, mul_div_assoc, hgrid,
    hclosed] at hpoint
  split_ifs at hpoint with heven
  · rw [decide_eq_true_eq] at heven
    exact ⟨hpoint.1, hpoint.2, fun hodd => by omega⟩
  · exact ⟨hpoint.1.le, hpoint.2.le, fun _ => hpoint⟩

/-- A grid as fine as a quarter of a step has a point in the interval. -/
lemma isSome_onGrid {k : ℤ} (h0 : d.significand ≠ 0) (hk : (10 : ℚ) ^ k ≤ 2 ^ (d.scale - 2)) :
    (d.roundingInterval.onGrid k).isSome = true := by
  apply RoundingInterval.isSome_onGrid_of_inside
  rw [RoundingInterval.inside, RoundingInterval.contains_iff d.roundingInterval_den_pos
    (powerDown_pos (by decide) k)]
  have hgrid := power_eq_div 10 k
  rw [Nat.cast_ofNat] at hgrid
  rw [roundingInterval_low h0, roundingInterval_high, Nat.cast_mul, mul_div_assoc, hgrid]
  set n := d.roundingInterval.gridFloor k
  have hvalue := roundingInterval_value d
  have hten : (0 : ℚ) < 10 ^ k := by positivity
  have htwo : (0 : ℚ) < 2 ^ (d.scale - 2) := by positivity
  -- the value lies between the grid point and the next one
  have hfloor : ⌊(4 * d.significand * 2 ^ (d.scale - 2) / 10 ^ k : ℚ)⌋₊ = n := by
    rw [← hvalue, ← hgrid, div_div_div_eq, ← Nat.cast_mul, ← Nat.cast_mul, Nat.floor_div_eq_div]
    rfl
  have hle : (n * 10 ^ k : ℚ) ≤ 4 * d.significand * 2 ^ (d.scale - 2) := by
    rw [← le_div_iff₀ hten, ← hfloor]
    exact Nat.floor_le (by positivity)
  have hlt : (4 * d.significand * 2 ^ (d.scale - 2) : ℚ) < (n + 1) * 10 ^ k := by
    rw [← div_lt_iff₀ hten, ← hfloor]
    exact Nat.lt_floor_add_one _
  have hbelow : (1 : ℚ) ≤ d.quartersBelow := by
    rw [quartersBelow]
    split_ifs <;> norm_num
  -- either bound is a quarter of a step away from the value or more, and the grid is no coarser
  have hlow : ((4 * d.significand - d.quartersBelow) * 2 ^ (d.scale - 2) : ℚ) < n * 10 ^ k := by
    nlinarith
  have hhigh : (n * 10 ^ k : ℚ) < (4 * d.significand + 2) * 2 ^ (d.scale - 2) := by
    nlinarith
  split_ifs
  · exact ⟨hlow.le, hhigh.le⟩
  · exact ⟨hlow, hhigh⟩

/-! ## The search -/

/-- Ten is between the roots of two powers of two, which is enough to compare powers of both. -/
lemma ten_zpow_le_two_zpow {k e : ℤ} (hpos : 0 ≤ k → 10 * k ≤ 3 * e)
    (hneg : k < 0 → 83 * k ≤ 25 * e) : (10 : ℚ) ^ k ≤ 2 ^ e := by
  rcases lt_or_ge k 0 with hk | hk
  · have h : ((10 : ℚ) ^ k) ^ 25 ≤ (2 ^ e) ^ 25 := by
      obtain ⟨n, rfl⟩ := Int.exists_eq_neg_ofNat hk.le
      have hroot : (2 : ℚ) ^ (83 : ℤ) ≤ 10 ^ (25 : ℤ) := by norm_num
      calc ((10 : ℚ) ^ (-(n : ℤ))) ^ 25 = ((10 ^ (25 : ℤ)) ^ n)⁻¹ := by
            rw [← zpow_natCast, ← zpow_natCast, ← zpow_mul, ← zpow_mul, ← zpow_neg]
            congr 1
            push_cast
            ring
        _ ≤ ((2 ^ (83 : ℤ)) ^ n)⁻¹ :=
            inv_anti₀ (by positivity) (pow_le_pow_left₀ (by positivity) hroot n)
        _ = 2 ^ (83 * -(n : ℤ)) := by
            rw [← zpow_natCast, ← zpow_mul, ← zpow_neg]
            congr 1
            ring
        _ ≤ 2 ^ (25 * e) := zpow_le_zpow_right₀ one_le_two (hneg hk)
        _ = (2 ^ e) ^ 25 := by
            rw [← zpow_natCast, ← zpow_mul]
            congr 1
            push_cast
            ring
    exact (pow_le_pow_iff_left₀ (by positivity) (by positivity) (by decide)).1 h
  · have h : ((10 : ℚ) ^ k) ^ 3 ≤ (2 ^ e) ^ 3 := by
      obtain ⟨n, rfl⟩ := Int.eq_ofNat_of_zero_le hk
      have hroot : (10 : ℚ) ^ (3 : ℤ) ≤ 2 ^ (10 : ℤ) := by norm_num
      calc ((10 : ℚ) ^ (n : ℤ)) ^ 3 = (10 ^ (3 : ℤ)) ^ n := by
            rw [← zpow_natCast, ← zpow_natCast, ← zpow_mul, ← zpow_mul]
            congr 1
            push_cast
            ring
        _ ≤ (2 ^ (10 : ℤ)) ^ n := pow_le_pow_left₀ (by positivity) hroot n
        _ = 2 ^ (10 * (n : ℤ)) := by rw [← zpow_natCast, ← zpow_mul]
        _ ≤ 2 ^ (3 * e) := zpow_le_zpow_right₀ one_le_two (hpos hk)
        _ = (2 ^ e) ^ 3 := by
            rw [← zpow_natCast, ← zpow_mul]
            congr 1
            push_cast
            ring
    exact (pow_le_pow_iff_left₀ (by positivity) (by positivity) (by decide)).1 h

/-- The decimal that is written for a double is rounded to the double. -/
theorem rounds_shortest (hd : d.isFinite = true) (h0 : d.significand ≠ 0) :
    Rounds d (d.shortest.digits * 10 ^ d.shortest.exponent) := by
  have hlow := d.scale_ge
  have hhigh := scale_le hd
  have hbits : Nat.log2 d.significand < 53 := (Nat.log2_lt h0).2 d.significand_lt
  apply rounds_of_inside h0
  apply RoundingInterval.inside_search
  apply isSome_onGrid h0
  -- `30103 / 100000` stands for the logarithm of two; twenty-four grids down is fine enough
  have hdiv : Int.ediv (((Nat.log2 d.significand : ℤ) + 1 + d.scale) * 30103) 100000 * 100000 ≤
      ((Nat.log2 d.significand : ℤ) + 1 + d.scale) * 30103 := Int.ediv_mul_le _ (by decide)
  generalize Int.ediv (((Nat.log2 d.significand : ℤ) + 1 + d.scale) * 30103) 100000 = q at hdiv ⊢
  apply ten_zpow_le_two_zpow
  · intro hk
    push_cast at hk ⊢
    omega
  · intro hk
    push_cast at hk ⊢
    omega

/-- What is written for a finite double other than zero reads back as the double. -/
theorem ofDecimal_shortest (hd : d.isFinite = true) (h0 : d.significand ≠ 0) :
    ofDecimal d.isNegative d.shortest.digits d.shortest.exponent = d :=
  ofDecimal_eq hd h0 (rounds_shortest hd h0)

end Semdoc.Double
