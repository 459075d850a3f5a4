import Semdoc.Json.Basic

/-! # Reading JSON

A strict reader.  A number without fraction and exponent is an integer if it fits 64 bits, signed or
not; negative zero and anything larger is a double.  A decimal is its leading digits, as many as fit
64 bits, scaled by a power of ten, with one rounding for each step.  Containers may nest 127 levels
deep.  There is one kind of refusal: the text is not JSON.
-/

namespace Semdoc.Double

attribute [local instance (2000)] instPowNat

/-- The product of finite doubles, rounded once, without regard to sign. -/
def mulMagnitude (a b : Double) : Double :=
  let e := a.scale + b.scale
  let m := a.significand * b.significand
  if 0 ≤ e then ofRatio false (m * 2 ^ e.toNat) 1 else ofRatio false m (2 ^ (-e).toNat)

/-- The quotient of finite doubles, rounded once, without regard to sign. -/
def divMagnitude (a b : Double) : Double :=
  let e := a.scale - b.scale
  if 0 ≤ e then ofRatio false (a.significand * 2 ^ e.toNat) b.significand
  else ofRatio false a.significand (b.significand * 2 ^ (-e).toNat)

end Semdoc.Double

namespace Semdoc.Json

attribute [local instance (2000)] instPowNat

/-- The largest number whose digits are kept exactly. -/
def significandLimit : Nat := 2 ^ (64 : Nat) - 1

/-- Blanks between tokens. -/
def isSpace (c : Char) : Bool :=
  c == ' ' || c == '\t' || c == '\n' || c == '\r'

/-- Skips blanks. -/
def skipSpace (cs : List Char) : List Char :=
  cs.dropWhile isSpace

/-- The value of a decimal digit. -/
def decimalDigit? (c : Char) : Option Nat :=
  if '0' ≤ c && c ≤ '9' then some (c.toNat - 48) else none

/-- Reads digits while the number they make stays below the limit; gives the number, how many
digits went into it, and the rest. -/
def takeDigits (n count : Nat) : List Char → Nat × Nat × List Char
  | [] => (n, count, [])
  | c :: r =>
    match decimalDigit? c with
    | some d =>
      if n * 10 + d ≤ significandLimit then takeDigits (n * 10 + d) (count + 1) r
      else (n, count, c :: r)
    | none => (n, count, c :: r)

/-- Skips digits and counts them. -/
def skipDigits (count : Nat) : List Char → Nat × List Char
  | [] => (count, [])
  | c :: r =>
    match decimalDigit? c with
    | some _ => skipDigits (count + 1) r
    | none => (count, c :: r)

/-- Scales down by powers of ten that a double can hold. -/
def scaleDown (f : Double) : Nat → Nat → Double
  | 0, _ => f
  | fuel + 1, k =>
    if k ≤ 308 then Double.divMagnitude f (Double.ofDecimal false 1 k)
    else if f.isZero then f
    else scaleDown (Double.divMagnitude f (Double.ofDecimal false 1 308)) fuel (k - 308)

/-- The double of a significand and a power of ten; refused if it is too large. -/
def scaleSignificand (negative : Bool) (significand : Nat) (exponent : Int) : Option Double :=
  let f := Double.ofInt significand
  let signed := fun (d : Double) => Double.ofMagnitude negative d.magnitudeBits
  if 0 ≤ exponent then
    if 308 < exponent then if f.isZero then some (signed f) else none
    else
      let p := Double.mulMagnitude f (Double.ofDecimal false 1 exponent)
      if p.isFinite then some (signed p) else none
  else some (signed (scaleDown f 8 (-exponent).toNat))

/-- Reads an exponent after its letter. -/
def readExponent (negative : Bool) (significand : Nat) (start : Int) (cs : List Char) :
    Option (Json × List Char) :=
  let (down, cs) := match cs with
    | '+' :: r => (false, r)
    | '-' :: r => (true, r)
    | r => (false, r)
  match skipDigits 0 cs with
  | (0, _) => none
  | (count, rest) =>
    let e : Nat := (cs.take count).foldl (fun n c => n * 10 + (c.toNat - 48)) 0
    if 2 ^ (31 : Nat) ≤ e then
      if significand ≠ 0 ∧ !down then none
      else some (double (Double.ofMagnitude negative 0), rest)
    else
      (scaleSignificand negative significand (if down then start - (e : Int) else start + (e : Int))).map
        fun d => (double d, rest)

/-- Reads what may follow the digits of a decimal. -/
def finishDecimal (negative : Bool) (significand : Nat) (exponent : Int) (cs : List Char) :
    Option (Json × List Char) :=
  match cs with
  | 'e' :: r => readExponent negative significand exponent r
  | 'E' :: r => readExponent negative significand exponent r
  | r => (scaleSignificand negative significand exponent).map fun d => (double d, r)

/-- Reads a fraction after its point. -/
def readFraction (negative : Bool) (significand : Nat) (start : Nat) (cs : List Char) :
    Option (Json × List Char) :=
  let (n, count, rest) := takeDigits significand 0 cs
  let (skipped, rest) := skipDigits 0 rest
  if count + skipped = 0 then none
  else finishDecimal negative n ((start : Int) - count) rest

/-- The number that digits without fraction and exponent stand for. -/
def wholeNumber (negative : Bool) (n : Nat) : Json :=
  if negative then
    if n = 0 ∨ 2 ^ (63 : Nat) < n then double (Double.ofRatio true n 1) else integer (-(n : Int))
  else integer n

/-- Reads a number after its sign. -/
def readNumber (negative : Bool) (cs : List Char) : Option (Json × List Char) :=
  let continued := fun (n : Nat) (extra : Nat) (rest : List Char) =>
    match rest with
    | '.' :: r => readFraction negative n extra r
    | _ =>
      if extra = 0 then
        match rest with
        | 'e' :: r => readExponent negative n 0 r
        | 'E' :: r => readExponent negative n 0 r
        | r => some (wholeNumber negative n, r)
      else finishDecimal negative n extra rest
  match cs with
  | [] => none
  | c :: r =>
    match decimalDigit? c with
    | none => none
    | some 0 => if (r.head?.bind decimalDigit?).isSome then none else continued 0 0 r
    | some d =>
      let (n, _, rest) := takeDigits d 1 r
      let (extra, rest) := skipDigits 0 rest
      continued n extra rest

/-- The value of a hexadecimal digit. -/
def hexValue? (c : Char) : Option Nat :=
  if '0' ≤ c && c ≤ '9' then some (c.toNat - 48)
  else if 'a' ≤ c && c ≤ 'f' then some (c.toNat - 87)
  else if 'A' ≤ c && c ≤ 'F' then some (c.toNat - 55)
  else none

/-- Reads four hexadecimal digits. -/
def readUnit : List Char → Option (Nat × List Char)
  | a :: b :: c :: d :: r => do
    let w ← hexValue? a
    let x ← hexValue? b
    let y ← hexValue? c
    let z ← hexValue? d
    some (w * 4096 + x * 256 + y * 16 + z, r)
  | _ => none

/-- Reads a code point given by one unit, or by two that make a surrogate pair. -/
def readCodePoint (cs : List Char) : Option (Char × List Char) := do
  let (n, r) ← readUnit cs
  if 0xdc00 ≤ n ∧ n ≤ 0xdfff then none
  else if 0xd800 ≤ n ∧ n ≤ 0xdbff then
    match r with
    | '\\' :: 'u' :: s =>
      let (m, t) ← readUnit s
      if 0xdc00 ≤ m ∧ m ≤ 0xdfff then
        some (Char.ofNat (0x10000 + (n - 0xd800) * 1024 + (m - 0xdc00)), t)
      else none
    | _ => none
  else some (Char.ofNat n, r)

/-- The character that a letter after a backslash stands for. -/
def simpleEscape? : Char → Option Char
  | '"' => some '"'
  | '\\' => some '\\'
  | '/' => some '/'
  | 'b' => some '\x08'
  | 'f' => some '\x0c'
  | 'n' => some '\n'
  | 'r' => some '\r'
  | 't' => some '\t'
  | _ => none

/-- Reads the rest of a string after its opening quote; `done` holds what has been read, the latest
first.  Every round takes at least one character, so `rounds` need not exceed the length. -/
def readString : Nat → List Char → List Char → Option (String × List Char)
  | 0, _, _ => none
  | rounds + 1, done, cs =>
    match cs with
    | [] => none
    | '"' :: r => some (String.ofList done.reverse, r)
    | '\\' :: 'u' :: r =>
      match readCodePoint r with
      | some (c, s) => readString rounds (c :: done) s
      | none => none
    | '\\' :: e :: r =>
      match simpleEscape? e with
      | some c => readString rounds (c :: done) r
      | none => none
    | c :: r => if c.toNat < 0x20 || c == '\\' then none else readString rounds (c :: done) r

/-- How deep containers may nest. -/
def depthLimit : Nat := 127

mutual

/-- Reads a value with room for `depth` more levels of containers. -/
def readValue : Nat → Nat → List Char → Option (Json × List Char)
  | 0, _, _ => none
  | fuel + 1, depth, cs =>
    match skipSpace cs with
    | 'n' :: 'u' :: 'l' :: 'l' :: r => some (null, r)
    | 't' :: 'r' :: 'u' :: 'e' :: r => some (bool true, r)
    | 'f' :: 'a' :: 'l' :: 's' :: 'e' :: r => some (bool false, r)
    | '"' :: r => (readString (r.length + 1) [] r).map fun (s, t) => (string s, t)
    | '-' :: r => readNumber true r
    | '[' :: r =>
      if depth = 0 then none
      else
        match skipSpace r with
        | ']' :: s => some (array [], s)
        | s => readItems fuel (depth - 1) [] s
    | '\x7b' :: r =>
      if depth = 0 then none
      else
        match skipSpace r with
        | '\x7d' :: s => some (object [], s)
        | s => readEntries fuel (depth - 1) [] s
    | r => readNumber false r

/-- Reads the items of an array and its end. -/
def readItems : Nat → Nat → List Json → List Char → Option (Json × List Char)
  | 0, _, _, _ => none
  | fuel + 1, depth, done, cs =>
    match readValue fuel depth cs with
    | none => none
    | some (j, r) =>
      match skipSpace r with
      | ']' :: s => some (array (j :: done).reverse, s)
      | ',' :: s => readItems fuel depth (j :: done) s
      | _ => none

/-- Reads the entries of an object and its end; of two entries with the same key the later one
stays. -/
def readEntries : Nat → Nat → List (String × Json) → List Char → Option (Json × List Char)
  | 0, _, _, _ => none
  | fuel + 1, depth, done, cs =>
    match skipSpace cs with
    | '"' :: r =>
      match readString (r.length + 1) [] r with
      | none => none
      | some (key, s) =>
        match skipSpace s with
        | ':' :: t =>
          match readValue fuel depth t with
          | none => none
          | some (j, u) =>
            match skipSpace u with
            | '\x7d' :: w => some (object (Entries.insert key j done), w)
            | ',' :: w => readEntries fuel depth (Entries.insert key j done) w
            | _ => none
        | _ => none
    | _ => none

end

/-- The JSON value of a text, if it is one. -/
def parse? (s : String) : Option Json :=
  match readValue (2 * s.toList.length + 2) depthLimit s.toList with
  | some (j, r) => if (skipSpace r).isEmpty then some j else none
  | none => none

end Semdoc.Json
