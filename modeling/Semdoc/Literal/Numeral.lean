import Semdoc.Double.Basic
import Semdoc.Value.Basic

/-! # Numerals

The grammar of numbers, as a machine over bytes, and what a numeral stands for.  A numeral is an
optional sign followed by hexadecimal digits behind `0x`, decimal digits, or a decimal with a point,
an exponent or both.  The first two forms are integers, the last is a double.
-/

namespace Semdoc

/-- A number as written. -/
inductive Numeral where
  /-- A signed integer. -/
  | integer (negative : Bool) (magnitude : Nat)
  /-- A signed decimal `digits · 10 ^ exponent`. -/
  | decimal (negative : Bool) (digits : Nat) (exponent : Int)
  deriving DecidableEq, Inhabited

namespace Numeral

attribute [local instance (2000)] instPowNat

/-- Whether the numeral is written as an integer. -/
def isInteger : Numeral → Bool
  | integer _ _ => true
  | decimal _ _ _ => false

/-- The integer of an integer numeral. -/
def toInt : Numeral → Int
  | integer negative magnitude => if negative then -(magnitude : Int) else magnitude
  | decimal _ _ _ => 0

/-- The 64-bit integer of an integer numeral in range. -/
def toInt64 (n : Numeral) : Int64 := Int64.ofInt n.toInt

/-- The double nearest to the number. -/
def toDouble : Numeral → Double
  | integer negative magnitude =>
    Double.ofInt (if negative then -(magnitude : Int) else magnitude)
  | decimal negative digits exponent => Double.ofDecimal negative digits exponent

/-- The number as a value. -/
def toValue (n : Numeral) : Value :=
  if n.isInteger then .int n.toInt64 else .double n.toDouble

/-- Whether the number can be represented: as a 64-bit integer, or as a finite double. -/
def inRange : Numeral → Bool
  | integer negative magnitude =>
    magnitude ≤ (if negative then 2 ^ (63 : Nat) else 2 ^ (63 : Nat) - 1)
  | decimal negative digits exponent => (Double.ofDecimal negative digits exponent).isFinite

/-- What has been read of a numeral. -/
inductive Phase where
  | start
  | sign
  /-- One zero. -/
  | leadingZero
  /-- A point without digits before it. -/
  | leadingPoint
  /-- Decimal digits. -/
  | whole
  /-- `0x` and perhaps digits. -/
  | hex (some : Bool)
  /-- A point and perhaps digits, with a digit somewhere. -/
  | fraction
  /-- The letter of an exponent. -/
  | exponentMark
  | exponentSign
  | exponent
  deriving DecidableEq, Inhabited

/-- A numeral in the making. -/
structure Scan where
  phase : Phase := .start
  negative : Bool := false
  /-- The digits before the exponent as one number. -/
  digits : Nat := 0
  /-- The number of digits after the point. -/
  places : Nat := 0
  exponentNegative : Bool := false
  exponent : Nat := 0
  deriving DecidableEq, Inhabited

/-- The value of a decimal digit. -/
def decimalDigit? (c : UInt8) : Option Nat :=
  if 48 ≤ c && c ≤ 57 then some (c.toNat - 48) else none

/-- The value of a digit of a base from two to thirty-six. -/
def digitOf? (base : Nat) (c : UInt8) : Option Nat :=
  let value : Option Nat :=
    if 48 ≤ c && c ≤ 57 then some (c.toNat - 48)
    else if 97 ≤ c && c ≤ 122 then some (c.toNat - 87)
    else if 65 ≤ c && c ≤ 90 then some (c.toNat - 55)
    else none
  value.filter (· < base)

def plusSign : UInt8 := 43
def minusSign : UInt8 := 45
def point : UInt8 := 46

/-- Whether a byte is the letter of an exponent. -/
def isExponentMark (c : UInt8) : Bool := c == 101 || c == 69

/-- Whether a byte is the letter of a hexadecimal number. -/
def isHexMark (c : UInt8) : Bool := c == 120 || c == 88

/-- Whether a byte is a sign. -/
def isSign (c : UInt8) : Bool := c == plusSign || c == minusSign

namespace Scan

/-- Takes a digit before the point. -/
def takeWhole (s : Scan) (d : Nat) : Scan :=
  { s with phase := .whole, digits := s.digits * 10 + d }

/-- Takes a digit after the point. -/
def takePlace (s : Scan) (d : Nat) : Scan :=
  { s with phase := .fraction, digits := s.digits * 10 + d, places := s.places + 1 }

/-- Takes a digit of the exponent. -/
def takeExponent (s : Scan) (d : Nat) : Scan :=
  { s with phase := .exponent, exponent := s.exponent * 10 + d }

/-- Takes one more byte, if some numeral goes on with it. -/
def step (s : Scan) (c : UInt8) : Option Scan :=
  match s.phase with
  | .start =>
    if isSign c then some { s with phase := .sign, negative := c == minusSign }
    else if c == point then some { s with phase := .leadingPoint }
    else (decimalDigit? c).map fun d =>
      if d = 0 then { s with phase := .leadingZero } else s.takeWhole d
  | .sign =>
    if c == point then some { s with phase := .leadingPoint }
    else (decimalDigit? c).map fun d =>
      if d = 0 then { s with phase := .leadingZero } else s.takeWhole d
  | .leadingZero =>
    if isHexMark c then some { s with phase := .hex false }
    else if c == point then some { s with phase := .fraction }
    else if isExponentMark c then some { s with phase := .exponentMark }
    else (decimalDigit? c).map s.takeWhole
  | .leadingPoint => (decimalDigit? c).map s.takePlace
  | .whole =>
    if c == point then some { s with phase := .fraction }
    else if isExponentMark c then some { s with phase := .exponentMark }
    else (decimalDigit? c).map s.takeWhole
  | .hex _ =>
    (digitOf? 16 c).map fun d => { s with phase := .hex true, digits := s.digits * 16 + d }
  | .fraction =>
    if isExponentMark c then some { s with phase := .exponentMark }
    else (decimalDigit? c).map s.takePlace
  | .exponentMark =>
    if isSign c then some { s with phase := .exponentSign, exponentNegative := c == minusSign }
    else (decimalDigit? c).map s.takeExponent
  | .exponentSign => (decimalDigit? c).map s.takeExponent
  | .exponent => (decimalDigit? c).map s.takeExponent

/-- The numeral, if the bytes taken are a whole one. -/
def finish (s : Scan) : Option Numeral :=
  match s.phase with
  | .leadingZero | .whole | .hex true => some (.integer s.negative s.digits)
  | .fraction | .exponent =>
    let e : Int := if s.exponentNegative then -(s.exponent : Int) else s.exponent
    some (.decimal s.negative s.digits (e - s.places))
  | _ => none

end Scan

end Numeral

end Semdoc
