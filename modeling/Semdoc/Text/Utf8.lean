/-! # UTF-8

Texts and their bytes.  Encoding is total.  Decoding is lenient: every maximal ill-formed piece
becomes one replacement character, so that it is total as well and never fails on foreign input.
-/

namespace Semdoc.Text

/-- The bytes of a text. -/
def utf8Bytes (s : String) : List UInt8 :=
  s.toUTF8.toList

/-- The number of bytes of a text. -/
def byteLength (s : String) : Nat :=
  s.utf8ByteSize

/-- Stands for an ill-formed piece of input. -/
def replacementChar : Char := '\ufffd'

/-- Bytes that continue a character and never start one. -/
def isContinuation (b : UInt8) : Bool :=
  0x80 ≤ b && b ≤ 0xbf

/-- The second bytes that may follow the lead byte of a character of three or four bytes.
Narrower than all continuation bytes where an overlong form, a surrogate or a code point past the
last one would result. -/
def isSecondOf (lead second : UInt8) : Bool :=
  if lead == 0xe0 then 0xa0 ≤ second && second ≤ 0xbf
  else if lead == 0xed then 0x80 ≤ second && second ≤ 0x9f
  else if lead == 0xf0 then 0x90 ≤ second && second ≤ 0xbf
  else if lead == 0xf4 then 0x80 ≤ second && second ≤ 0x8f
  else isContinuation second

/-- The six payload bits of a continuation byte. -/
def payload (b : UInt8) : Nat :=
  b.toNat % 64

/-- Lenient decoding to code points. -/
def decodeChars : List UInt8 → List Char
  | [] => []
  | b₀ :: r₀ =>
    if b₀ < 0x80 then Char.ofNat b₀.toNat :: decodeChars r₀
    else if 0xc2 ≤ b₀ && b₀ ≤ 0xdf then
      match r₀ with
      | [] => [replacementChar]
      | b₁ :: r₁ =>
        if isContinuation b₁ then
          Char.ofNat (b₀.toNat % 32 * 64 + payload b₁) :: decodeChars r₁
        else replacementChar :: decodeChars (b₁ :: r₁)
    else if 0xe0 ≤ b₀ && b₀ ≤ 0xef then
      match r₀ with
      | [] => [replacementChar]
      | b₁ :: r₁ =>
        if isSecondOf b₀ b₁ then
          match r₁ with
          | [] => [replacementChar]
          | b₂ :: r₂ =>
            if isContinuation b₂ then
              Char.ofNat (b₀.toNat % 16 * 4096 + payload b₁ * 64 + payload b₂) :: decodeChars r₂
            else replacementChar :: decodeChars (b₂ :: r₂)
        else replacementChar :: decodeChars (b₁ :: r₁)
    else if 0xf0 ≤ b₀ && b₀ ≤ 0xf4 then
      match r₀ with
      | [] => [replacementChar]
      | b₁ :: r₁ =>
        if isSecondOf b₀ b₁ then
          match r₁ with
          | [] => [replacementChar]
          | b₂ :: r₂ =>
            if isContinuation b₂ then
              match r₂ with
              | [] => [replacementChar]
              | b₃ :: r₃ =>
                if isContinuation b₃ then
                  Char.ofNat (b₀.toNat % 8 * 262144 + payload b₁ * 4096 + payload b₂ * 64
                    + payload b₃) :: decodeChars r₃
                else replacementChar :: decodeChars (b₃ :: r₃)
            else replacementChar :: decodeChars (b₂ :: r₂)
        else replacementChar :: decodeChars (b₁ :: r₁)
    else replacementChar :: decodeChars r₀
termination_by bs => bs.length

/-- The text that a sequence of bytes stands for, read leniently. -/
def decodeUtf8 (bytes : List UInt8) : String :=
  String.ofList (decodeChars bytes)

/-- Whether the place `i` of the bytes of a text lies between two characters. -/
def isBoundary (bytes : Array UInt8) (i : Nat) : Bool :=
  match bytes[i]? with
  | some b => !isContinuation b
  | none => i == bytes.size

end Semdoc.Text
