/-! # Escaped bytes

How a single byte is shown in a message: printable ASCII as it is, a few by a letter after a
backslash, everything else by two hexadecimal digits.
-/

namespace Semdoc.Text

/-- The hexadecimal digit of a number below sixteen, in lower case. -/
def lowerHexDigit (n : Nat) : Char :=
  if n < 10 then Char.ofNat (48 + n) else Char.ofNat (87 + n)

/-- A byte as shown in a message. -/
def escapeByte (b : UInt8) : String :=
  if b == 9 then "\\t"
  else if b == 10 then "\\n"
  else if b == 13 then "\\r"
  else if b == 34 then "\\\""
  else if b == 39 then "\\'"
  else if b == 92 then "\\\\"
  else if 0x20 ≤ b && b < 0x7f then String.ofList [Char.ofNat b.toNat]
  else String.ofList ['\\', 'x', lowerHexDigit (b.toNat / 16), lowerHexDigit (b.toNat % 16)]

/-- A number in upper-case hexadecimal digits, padded with zeros to a width. -/
def upperHex (width n : Nat) : String :=
  let digits := (Nat.toDigits 16 n).map Char.toUpper
  String.ofList (List.replicate (width - digits.length) '0' ++ digits)

end Semdoc.Text
