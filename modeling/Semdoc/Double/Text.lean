import Semdoc.Double.Basic

/-! # Texts of doubles

Two texts.  `fixedSix` writes six decimals of the exact value.  `shortest` writes the fewest
digits that read back as the same double, of several such the nearest.  `shortestText` lays them
out: plain notation from `1e-5` up to but excluding `1e16`, otherwise scientific notation with a
signed exponent.
-/

namespace Semdoc.Double

attribute [local instance (2000)] instPowNat

/-- The decimal digits of a number. -/
def digitsOf (n : Nat) : String :=
  String.ofList (Nat.toDigits 10 n)

/-- Pads with zeros in front up to a width. -/
def padZeros (width : Nat) (s : String) : String :=
  String.ofList (List.replicate (width - s.length) '0') ++ s

/-- The names of doubles that are no finite number. -/
def nonFiniteText (d : Double) : String :=
  if d.isNaN then "NaN" else if d.isNegative then "-inf" else "inf"

/-- The magnitude in millionths, a half going to the even neighbour. -/
def millionths (d : Double) : Nat :=
  if 0 ≤ d.scale then d.significand * 10 ^ (6 : Nat) * 2 ^ d.scale.toNat
  else roundHalfEven (d.significand * 10 ^ (6 : Nat)) (2 ^ (-d.scale).toNat)

/-- The value with six decimals. -/
def fixedSix (d : Double) : String :=
  if d.isFinite then
    let n := d.millionths
    (if d.isNegative then "-" else "") ++ digitsOf (n / 10 ^ (6 : Nat)) ++ "."
      ++ padZeros 6 (digitsOf (n % 10 ^ (6 : Nat)))
  else d.nonFiniteText

/-- A decimal `digits · 10 ^ exponent`. -/
structure Decimal where
  digits : Nat
  exponent : Int
  deriving DecidableEq, Inhabited

/-- The numbers that round to a positive double: those between `low` and `high` over `den`, the
ends included if `closed`, with the double itself at `value`. -/
structure RoundingInterval where
  low : Nat
  value : Nat
  high : Nat
  den : Nat
  closed : Bool

/-- The numbers that round to the magnitude of a finite double other than zero.  Below a power of
two the doubles lie twice as dense. -/
def roundingInterval (d : Double) : RoundingInterval :=
  let m := d.significand
  let below := if d.fraction = 0 ∧ 1 < d.exponentField then 1 else 2
  let e := d.scale - 2
  let up := if 0 ≤ e then 2 ^ e.toNat else 1
  { low := (4 * m - below) * up
    value := 4 * m * up
    high := (4 * m + 2) * up
    den := if 0 ≤ e then 1 else 2 ^ (-e).toNat
    closed := m % 2 = 0 }

namespace RoundingInterval

/-- Whether `num / den` lies in the interval. -/
def contains (r : RoundingInterval) (num den : Nat) : Bool :=
  let n := num * r.den
  if r.closed then r.low * den ≤ n && n ≤ r.high * den
  else r.low * den < n && n < r.high * den

/-- The multiple of `10 ^ k` that lies in the interval and is nearest to the value, the even one of
two equally near, if there is any. -/
def onGrid (r : RoundingInterval) (k : Int) : Option Nat :=
  let up := if 0 ≤ k then 10 ^ k.toNat else 1
  let down := if 0 ≤ k then 1 else 10 ^ (-k).toNat
  let num := r.value * down
  let den := r.den * up
  let lower := num / den
  let inside := fun n => r.contains (n * up) down
  if inside lower then
    if inside (lower + 1) then some (roundHalfEven num den) else some lower
  else if inside (lower + 1) then some (lower + 1) else none

/-- Searches from coarse to fine grids. -/
def search (r : RoundingInterval) : Nat → Int → Decimal
  | 0, k => ⟨(r.onGrid k).getD 0, k⟩
  | fuel + 1, k =>
    match r.onGrid k with
    | some n => ⟨n, k⟩
    | none => search r fuel (k - 1)

end RoundingInterval

/-- The shortest decimal that reads back as the magnitude of a finite double other than zero. -/
def shortest (d : Double) : Decimal :=
  let bitLength : Int := (Nat.log2 d.significand : Int) + 1 + d.scale
  (d.roundingInterval).search 24 (Int.ediv (bitLength * 30103) 100000 + 1)

/-- Lays out decimal digits in plain or scientific notation. -/
def layout (d : Decimal) : String :=
  let ds := (Nat.toDigits 10 d.digits)
  let point : Int := ds.length + d.exponent
  let zeros := fun (n : Nat) => List.replicate n '0'
  if 0 ≤ d.exponent ∧ point ≤ 16 then
    String.ofList (ds ++ zeros d.exponent.toNat ++ ['.', '0'])
  else if 0 < point ∧ point ≤ 16 then
    String.ofList (ds.take point.toNat ++ '.' :: ds.drop point.toNat)
  else if -5 < point ∧ point ≤ 0 then
    String.ofList ('0' :: '.' :: zeros (-point).toNat ++ ds)
  else
    let e := point - 1
    let fractional := match ds.drop 1 with
      | [] => []
      | r => '.' :: r
    String.ofList (ds.take 1 ++ fractional ++ ['e', if e < 0 then '-' else '+'])
      ++ digitsOf e.natAbs

/-- The text of a finite double with the fewest digits that read back. -/
def shortestText (d : Double) : String :=
  (if d.isNegative then "-" else "") ++ if d.isZero then "0.0" else layout d.shortest

end Semdoc.Double
