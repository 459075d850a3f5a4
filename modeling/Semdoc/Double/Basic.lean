/-! # Double-precision numbers

A double is its 64-bit pattern.  All arithmetic here is exact: a finite double is
`significand · 2 ^ scale` with a sign, and rounding goes to the nearest double with ties to the
even significand.  No machine floating-point operation is involved, so every function can be
evaluated and reasoned about.
-/

namespace Semdoc

/-- A double-precision number, given by its bits: one for the sign, eleven for the exponent and
fifty-two for the fraction. -/
structure Double where
  bits : UInt64
  deriving DecidableEq, Inhabited

namespace Double

-- Powers are those of the core library, whatever else is imported.
attribute [local instance (2000)] instPowNat

/-- Whether the sign bit is set. -/
def isNegative (d : Double) : Bool :=
  2 ^ (63 : Nat) ≤ d.bits.toNat

/-- The bits below the sign. -/
def magnitudeBits (d : Double) : Nat :=
  d.bits.toNat % 2 ^ (63 : Nat)

/-- The biased exponent. -/
def exponentField (d : Double) : Nat :=
  d.magnitudeBits / 2 ^ (52 : Nat)

/-- The fraction bits. -/
def fraction (d : Double) : Nat :=
  d.magnitudeBits % 2 ^ (52 : Nat)

/-- Neither infinite nor not-a-number. -/
def isFinite (d : Double) : Bool :=
  d.exponentField != 2047

/-- Not a number. -/
def isNaN (d : Double) : Bool :=
  d.exponentField == 2047 && d.fraction != 0

/-- Positive or negative zero. -/
def isZero (d : Double) : Bool :=
  d.magnitudeBits == 0

/-- The integer `m` of the magnitude `m · 2 ^ scale` of a finite double. -/
def significand (d : Double) : Nat :=
  if d.exponentField = 0 then d.fraction else 2 ^ (52 : Nat) + d.fraction

/-- The exponent of two that goes with `significand`. -/
def scale (d : Double) : Int :=
  (max d.exponentField 1 : Nat) - 1075

/-- Puts a sign before magnitude bits. -/
def ofMagnitude (negative : Bool) (magnitude : Nat) : Double :=
  ⟨UInt64.ofNat (magnitude + if negative then 2 ^ (63 : Nat) else 0)⟩

/-- The magnitude bits of infinity. -/
def infinityBits : Nat := 2047 * 2 ^ (52 : Nat)

def zero : Double := ⟨0⟩

def infinity (negative : Bool) : Double :=
  ofMagnitude negative infinityBits

/-- The integer nearest to `num / den`, a half going to the even neighbour. -/
def roundHalfEven (num den : Nat) : Nat :=
  let q := num / den
  let r := num % den
  if 2 * r < den then q
  else if den < 2 * r then q + 1
  else if q % 2 = 0 then q else q + 1

/-- The integer nearest to `num / (den · 2 ^ e)`. -/
def roundScaled (num den : Nat) (e : Int) : Nat :=
  if 0 ≤ e then roundHalfEven num (den * 2 ^ e.toNat)
  else roundHalfEven (num * 2 ^ (-e).toNat) den

/-- The exponent `e` for which `num / (den · 2 ^ e)` has fifty-three bits before the point, but
not below the least exponent of all, where fewer bits remain. -/
def scaleOfRatio (num den : Nat) : Int :=
  let e : Int := (Nat.log2 num : Int) - Nat.log2 den - 52
  let short : Bool :=
    if 0 ≤ e then num < den * 2 ^ e.toNat * 2 ^ (52 : Nat)
    else num * 2 ^ (-e).toNat < den * 2 ^ (52 : Nat)
  max (if short then e - 1 else e) (-1074)

/-- The double nearest to `num / den`; too large a ratio is infinite. -/
def ofRatio (negative : Bool) (num den : Nat) : Double :=
  if num = 0 then ofMagnitude negative 0
  else
    let e := scaleOfRatio num den
    let magnitude := (e + 1074).toNat * 2 ^ (52 : Nat) + roundScaled num den e
    ofMagnitude negative (min magnitude infinityBits)

/-- The double nearest to an integer. -/
def ofInt (i : Int) : Double :=
  ofRatio (i < 0) i.natAbs 1

/-- The double nearest to `digits · 10 ^ exponent`.  Exponents beyond any double are decided by
size alone, so that no huge power is computed. -/
def ofDecimal (negative : Bool) (digits : Nat) (exponent : Int) : Double :=
  if digits = 0 then ofMagnitude negative 0
  else if 0 ≤ exponent then
    if 400 < exponent then infinity negative
    else ofRatio negative (digits * 10 ^ exponent.toNat) 1
  else
    let k := (-exponent).toNat
    if Nat.log2 digits + 1200 < 3 * k then ofMagnitude negative 0
    else ofRatio negative digits (10 ^ k)

/-- The magnitude of a finite double without its fractional part. -/
def truncMagnitude (d : Double) : Nat :=
  if 0 ≤ d.scale then d.significand * 2 ^ d.scale.toNat
  else d.significand / 2 ^ (-d.scale).toNat

/-- The integer part of a finite double. -/
def trunc (d : Double) : Int :=
  if d.isNegative then -(d.truncMagnitude : Int) else d.truncMagnitude

/-- The 64-bit integer part: out of range it stops at the ends, and not-a-number gives zero. -/
def toInt64 (d : Double) : Int64 :=
  if d.isNaN then 0
  else if !d.isFinite then (if d.isNegative then Int64.minValue else Int64.maxValue)
  else Int64.ofInt (max Int64.minValue.toInt (min Int64.maxValue.toInt d.trunc))

/-- Orders all bit patterns: negative ones first and in reverse, zero and its negative apart, and
not-a-number beyond infinity. -/
def orderKey (d : Double) : Int :=
  if d.isNegative then -(d.magnitudeBits : Int) - 1 else d.magnitudeBits

/-- The total order of all doubles. -/
def compareTotal (a b : Double) : Ordering :=
  if a.orderKey < b.orderKey then .lt else if b.orderKey < a.orderKey then .gt else .eq

theorem orderKey_inj {a b : Double} (h : a.orderKey = b.orderKey) : a = b := by
  have ha : a.bits.toNat < 2 ^ 64 := a.bits.toNat_lt
  have hb : b.bits.toNat < 2 ^ 64 := b.bits.toNat_lt
  simp only [orderKey, isNegative, magnitudeBits, decide_eq_true_eq] at h
  have e : a.bits.toNat = b.bits.toNat := by
    split at h <;> split at h <;> omega
  cases a; cases b
  simp only [Double.mk.injEq]
  exact UInt64.toNat_inj.mp e

/-- Two doubles are equal in the total order exactly if they have the same bits. -/
theorem compareTotal_eq_iff (a b : Double) : compareTotal a b = .eq ↔ a = b := by
  constructor
  · intro h
    apply orderKey_inj
    simp only [compareTotal] at h
    split at h
    · cases h
    · split at h
      · cases h
      · omega
  · rintro rfl
    simp [compareTotal]

end Double

end Semdoc
