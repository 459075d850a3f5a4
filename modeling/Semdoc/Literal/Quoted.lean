import Semdoc.Literal.Reading

/-! # String literals

Quoted strings with escape sequences, and unquoted text.  Errors inside a quoted string are reported
and reading goes on; what is read is cut at the length limit, counted in bytes.
-/

namespace Semdoc.Literal

def doubleQuote : UInt8 := 34
def singleQuote : UInt8 := 39
def backslash : UInt8 := 92
def lineFeed : UInt8 := 10

/-- Whether a byte opens a quoted string. -/
def isQuote (c : UInt8) : Bool := c == doubleQuote || c == singleQuote

/-- The bytes of a character. -/
def charBytes (c : Char) : List UInt8 := String.utf8EncodeChar c

/-- What one escape sequence stands for: bytes, and whether it is well-formed. -/
abbrev Escape := Outcome (List UInt8)

/-- The byte that a letter after a backslash stands for. -/
def simpleEscape? (c : UInt8) : Option UInt8 :=
  if c == 98 then some 8
  else if c == 102 then some 12
  else if c == 110 then some 10
  else if c == 114 then some 13
  else if c == 116 then some 9
  else if c == 118 then some 11
  else if isQuote c || c == backslash then some c
  else none

/-- The code point with a number, if there is one. -/
def codePoint? (n : Nat) : Option Char :=
  if n < 0xd800 ∨ (0xdfff < n ∧ n < 0x110000) then some (Char.ofNat n) else none

/-- Reads two hexadecimal digits of a code point. -/
def readHexEscape : Reading Escape := do
  match ← Numeral.readFixed 2 16 with
  | some v => return .good (charBytes (Char.ofNat (v % 256)))
  | none => return .bad []

/-- Reads four hexadecimal digits of a code point; `start` is where the escape sequence starts. -/
def readUnicodeEscape (start : Nat) : Reading Escape := do
  match ← Numeral.readFixed 4 16 with
  | some v =>
    match codePoint? v with
    | some c => return .good (charBytes c)
    | none =>
      Reading.error s!"Invalid unicode code point U+{Text.upperHex 4 v}"
        (← Reading.locationFrom start)
      return .bad (charBytes Text.replacementChar)
  | none => return .bad []

/-- Reads two octal digits of a code point after a first one. -/
def readOctalEscape (start high : Nat) : Reading Escape := do
  match ← Numeral.readFixed 2 8 with
  | some low =>
    if high * 64 + low ≤ 0xff then return .good (charBytes (Char.ofNat (high * 64 + low)))
    else
      Reading.error "Octal escape sequence out of range" (← Reading.locationFrom start)
      return .bad []
  | none => return .bad []

/-- Reads an escape sequence after its backslash at `start` and first character. -/
def readEscape (start : Nat) (c : UInt8) : Reading Escape := do
  match simpleEscape? c with
  | some b => return .good [b]
  | none =>
    if c == lineFeed then return .good []
    else if c == 120 then readHexEscape
    else if c == 117 then readUnicodeEscape start
    else if 48 ≤ c && c ≤ 55 then readOctalEscape start (c.toNat - 48)
    else
      Reading.error s!"Unknown escape sequence \"\\{Text.escapeByte c}\""
        (← Reading.locationFrom start)
      return .bad [c]

/-- The text of bytes read so far. -/
def textOf (out : Array UInt8) : String := Text.decodeUtf8 out.toList

/-- Reads a quoted string after its opening quote at `start`.  `out` is what has been read, `ok`
whether it is good so far. -/
def readQuotedRest (limit : UInt64) (quote : UInt8) (start : Nat) :
    Nat → Array UInt8 → Bool → Reading (Outcome String)
  | 0, out, _ => do
    Reading.error "Unterminated string literal" (← Reading.locationFrom start)
    return .bad (textOf out)
  | rounds + 1, out, ok => do
    let long := limit.toNat < out.size
    if long && ok then
      Reading.error "String literal too long" (← Reading.locationFrom start)
    let out := if long then out.extract 0 limit.toNat else out
    let ok := ok && !long
    match ← Reading.read with
    | none =>
      Reading.error "Unterminated string literal" (← Reading.locationFrom start)
      return .bad (textOf out)
    | some c =>
      if c == quote then return ⟨ok, textOf out⟩
      else if c == lineFeed then
        Reading.error "Unterminated string literal, unexpected line break"
          (← Reading.locationFrom start)
        return .bad (textOf out)
      else if c == backslash then
        let escapeStart := (← Reading.offset) - 1
        match ← Reading.read with
        | none => readQuotedRest limit quote start rounds out ok
        | some e =>
          let escape ← readEscape escapeStart e
          readQuotedRest limit quote start rounds (out ++ escape.value) (ok && escape.ok)
      else readQuotedRest limit quote start rounds (out.push c) ok

/-- Reads a string in single or double quotes. -/
def readQuoted (limit : UInt64) : Reading (Outcome String) := do
  Reading.resetPeek
  let start ← Reading.offset
  match ← Reading.read with
  | some q =>
    if isQuote q then readQuotedRest limit q start (← Reading.rounds) #[] true
    else
      Reading.error "Expected quote" (← Reading.locationFrom start)
      return .bad ""
  | none =>
    Reading.error "Expected quote" (← Reading.locationFrom start)
    return .bad ""

/-- Collects characters up to a delimiter. -/
def collectUntil (delims : List UInt8) : Nat → Array UInt8 → Reading (Array UInt8)
  | 0, out => return out
  | rounds + 1, out => do
    match ← Reading.peek with
    | some c =>
      if delims.contains c then
        Reading.resetPeek
        return out
      else
        Reading.consumePeek
        collectUntil delims rounds (out.push c)
    | none =>
      Reading.resetPeek
      return out

/-- Reads text up to a delimiter, which stays, or the end, without the blanks around it. -/
def readUnquoted (delims : List UInt8) : Reading String := do
  let _ ← Reading.skipWhitespace
  let out ← collectUntil delims (← Reading.rounds) #[]
  return Text.trimBlankEnd (textOf out)

end Semdoc.Literal
