import Semdoc.Literal.Numeral
import Semdoc.Log.Event
import Semdoc.Stream.CharReader
import Semdoc.Text.Escape

/-! # Reading

Computations that read characters and report what is wrong with them, and the reading of numbers.
A reading that goes wrong still ends with some result; `Outcome` says whether it is good.
-/

namespace Semdoc

/-- A computation that moves a reader and emits log events. -/
abbrev Reading (α : Type) := StateT CharReader Logged α

/-- A result and whether it is what the input says. -/
structure Outcome (α : Type) where
  ok : Bool
  value : α
  deriving Inhabited

namespace Outcome

/-- A good result. -/
def good (a : α) : Outcome α := ⟨true, a⟩

/-- A substitute for a result. -/
def bad (a : α) : Outcome α := ⟨false, a⟩

/-- A result that is good if it is there. -/
def ofOption (a : Option α) : Outcome (Option α) := ⟨a.isSome, a⟩

/-- Changes the result. -/
def map (f : α → β) (o : Outcome α) : Outcome β := ⟨o.ok, f o.value⟩

end Outcome

namespace Reading

/-- The next character. -/
def read : Reading (Option UInt8) := fun r => pure r.read

/-- The next character ahead. -/
def peek : Reading (Option UInt8) := fun r => pure r.peek

/-- Forgets what was peeked. -/
def resetPeek : Reading Unit := fun r => pure ((), r.resetPeek)

/-- Reads what was peeked. -/
def consumePeek : Reading Unit := fun r => pure ((), r.consumePeek)

/-- Skips blanks and tells whether a character remains. -/
def skipWhitespace : Reading Bool := fun r => pure r.consumeWhitespace

/-- The offset of the next character. -/
def offset : Reading Nat := fun r => pure (r.offset, r)

/-- The place of the next character. -/
def location : Reading Location := fun r => pure (r.location, r)

/-- What has been read since an offset. -/
def locationFrom (start : Nat) : Reading Location := fun r => pure (r.locationFrom start, r)

/-- More rounds than any loop needs that reads a byte a round. -/
def rounds : Reading Nat := fun r => pure (r.buffer.extent + 2, r)

/-- Reports an error. -/
def error (text : String) (l : Location) : Reading Unit :=
  StateT.lift (Logged.error text l)

/-- Reports a warning. -/
def warning (text : String) (l : Location) : Reading Unit :=
  StateT.lift (Logged.report .warning text l)

/-- The next character ahead, which stays unread. -/
def lookahead : Reading (Option UInt8) := do
  let c ← peek
  resetPeek
  return c

/-- Tries a reading on a fork.  If it has a result the fork is committed with all it reported,
otherwise nothing has happened. -/
def attempt (x : Reading (Option α)) : Reading (Option α) := fun r =>
  let done := x r.fork
  match done.value with
  | (some a, fork) => ⟨(some a, fork.commit r), done.events⟩
  | (none, fork) => ⟨(none, fork.discard r), []⟩

end Reading

namespace Numeral

attribute [local instance (2000)] instPowNat

/-- Reported for numbers that no value can represent. -/
def tooLargeText : String := "Value too large to be represented"

/-- Feeds characters to a scan until a blank, a delimiter or the end; gives the scan, or nothing
after reporting a character that does not fit. -/
def scanWith (delims : List UInt8) : Nat → Scan → Reading (Option Scan)
  | 0, s => return some s
  | rounds + 1, s => do
    match ← Reading.peek with
    | none =>
      Reading.resetPeek
      return some s
    | some c =>
      if Text.isBlankByte c || delims.contains c then
        Reading.resetPeek
        return some s
      else
        match s.step c with
        | some s =>
          Reading.consumePeek
          scanWith delims rounds s
        | none =>
          Reading.resetPeek
          Reading.error s!"Unexpected character '{Text.escapeByte c}' in number"
            (← Reading.location)
          return none

/-- Reads a number up to a blank, a delimiter or the end.  Every character that fits is consumed. -/
def read (delims : List UInt8) : Reading (Option Numeral) := do
  Reading.resetPeek
  match ← scanWith delims (← Reading.rounds) {} with
  | none => return none
  | some s =>
    match s.finish with
    | none =>
      Reading.error "Unexpected end of number" (← Reading.location)
      return none
    | some n =>
      if n.inRange then return some n
      else
        Reading.error tooLargeText (← Reading.location)
        return none

/-- Reads a number that is a whole text, blanks around it apart. -/
def ofText (text : String) : Logged (Option Numeral) := do
  let reading : Reading (Option Numeral) := do
    let _ ← Reading.skipWhitespace
    match ← read [] with
    | none => return none
    | some n =>
      if ← Reading.skipWhitespace then
        Reading.error s!"Unexpected characters after number in \"{text}\"" (← Reading.location)
        return none
      else return some n
  let (n, _) ← reading (.ofString text Location.unknownNumber)
  return n

/-- Reads digits onto a number; more than 32 bits are refused. -/
def readFixedFrom (length base : Nat) : Nat → Nat → Reading (Option Nat)
  | 0, value => return some value
  | count + 1, value => do
    let start ← Reading.offset
    match (← Reading.peek).bind (digitOf? base) with
    | some d =>
      Reading.consumePeek
      if value * base + d < 2 ^ (32 : Nat) then readFixedFrom length base count (value * base + d)
      else return none
    | none =>
      Reading.resetPeek
      Reading.error s!"Expected {length} digits of base {base}" (← Reading.locationFrom start)
      return none

/-- Reads exactly so many digits of a base. -/
def readFixed (length base : Nat) : Reading (Option Nat) :=
  readFixedFrom length base length 0

end Numeral

end Semdoc
