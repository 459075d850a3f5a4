import Semdoc.Text.Blank
import Semdoc.Text.Identifier
import Semdoc.Value.Basic

/-! # Range sets

A set of natural numbers given as ranges, used for the number of children a field may hold.  The
written form is `{1-3,5,7-*}`, where a star stands for no upper end.  The ranges of a set are
sorted, disjoint and not adjacent, so that equal sets have equal ranges; a set also remembers
whether a reversed range was ever merged into it, which makes it invalid.
-/

namespace Semdoc

/-- The numbers from `start` to `stop`, both included.  It is reversed, and empty, if they are the
wrong way round. -/
structure NumberRange where
  start : UInt64
  stop : UInt64
  deriving DecidableEq, Inhabited

namespace NumberRange

/-- The upper end that stands for no upper end. -/
def unbounded : UInt64 := 0xffffffffffffffff

/-- One number. -/
def single (n : UInt64) : NumberRange := ⟨n, n⟩

/-- A number and all after it. -/
def atLeast (n : UInt64) : NumberRange := ⟨n, unbounded⟩

/-- Whether the ends are in order. -/
def isValid (r : NumberRange) : Bool := r.start ≤ r.stop

/-- Whether there is no upper end. -/
def isUnbounded (r : NumberRange) : Bool := r.stop == unbounded

/-- Whether a number is in the range. -/
def contains (r : NumberRange) (n : UInt64) : Bool :=
  r.start ≤ n && n ≤ r.stop

/-- Whether two valid ranges overlap or are adjacent. -/
def joins (r s : NumberRange) : Bool :=
  r.start.toNat ≤ s.stop.toNat + 1 && s.start.toNat ≤ r.stop.toNat + 1

/-- The least range that covers two. -/
def hull (r s : NumberRange) : NumberRange :=
  ⟨min r.start s.start, max r.stop s.stop⟩

/-- The written form of a range. -/
def text (r : NumberRange) : String :=
  if r.start = r.stop then s!"{r.start}"
  else if r.isUnbounded then s!"{r.start}-*"
  else s!"{r.start}-{r.stop}"

end NumberRange

/-- A set of numbers. -/
structure RangeSet where
  ranges : List NumberRange := []
  /-- Whether a reversed range was merged. -/
  invalid : Bool := false
  deriving DecidableEq, Inhabited

namespace RangeSet

attribute [local instance (2000)] instPowNat

/-- Whether the set holds no number. -/
def isEmpty (s : RangeSet) : Bool := s.ranges.isEmpty

/-- Whether the set can be met: it holds a number and no reversed range was merged. -/
def isValid (s : RangeSet) : Bool := !s.invalid && !s.ranges.isEmpty

/-- Places a range before the first that does not start earlier. -/
def place (r : NumberRange) : List NumberRange → List NumberRange
  | [] => [r]
  | s :: rest => if s.start < r.start then s :: place r rest else r :: s :: rest

/-- Absorbs the ranges that join a growing range; gives the range and what stays apart. -/
def absorb (r : NumberRange) : List NumberRange → NumberRange × List NumberRange
  | [] => (r, [])
  | s :: rest =>
    if s.joins r then absorb (s.hull r) rest
    else
      let (grown, apart) := absorb r rest
      (grown, s :: apart)

/-- Adds the numbers of a range. -/
def merge (s : RangeSet) (r : NumberRange) : RangeSet :=
  if r.isValid then
    let (grown, apart) := absorb r s.ranges
    { s with ranges := place grown apart }
  else { s with invalid := true }

/-- Adds the numbers of another set. -/
def mergeSet (s t : RangeSet) : RangeSet :=
  t.ranges.foldl merge { s with invalid := s.invalid || t.invalid }

/-- The numbers of one range. -/
def ofRange (r : NumberRange) : RangeSet := ({} : RangeSet).merge r

/-- All numbers. -/
def any : RangeSet := ofRange (.atLeast 0)

/-- One number. -/
def single (n : UInt64) : RangeSet := ofRange (.single n)

/-- Whether a number is in the set: the first range that does not end before it decides. -/
def contains (s : RangeSet) (n : UInt64) : Bool :=
  match s.ranges.dropWhile fun r => r.stop < n with
  | r :: _ => r.contains n
  | [] => false

/-- The least number. -/
def min? (s : RangeSet) : Option UInt64 := s.ranges.head?.map (·.start)

/-- The greatest number. -/
def max? (s : RangeSet) : Option UInt64 := s.ranges.getLast?.map (·.stop)

/-- The written form of a set. -/
def text (s : RangeSet) : String :=
  "\x7b" ++ ",".intercalate (s.ranges.map NumberRange.text) ++ "\x7d"

/-- Why a text is no range set. -/
inductive Fault where
  | unbalancedBraces
  | emptyRange
  | invalidNumber (part : String)
  deriving DecidableEq

/-- The failure for a fault of a text. -/
def Fault.failure (source : String) : Fault → Failure
  | unbalancedBraces =>
    { kind := .malformed, message := s!"Unbalanced braces in range set \"{source}\"" }
  | emptyRange => { kind := .malformed, message := s!"Empty range in range set \"{source}\"" }
  | invalidNumber part =>
    { kind := .malformed, message := s!"Invalid number \"{part}\" in range set \"{source}\"" }

/-- Reads decimal digits onto a number, at least one if `n` is missing. -/
def readDigits (n : Option Nat) : List Char → Option Nat
  | [] => n
  | c :: r => if Text.isDigit c then readDigits (some (n.getD 0 * 10 + (c.toNat - 48))) r else none

/-- Reads a number of 64 bits, which may have a plus sign. -/
def readNumber (cs : List Char) : Except Fault UInt64 :=
  let cs := Text.trimChars Text.isBlank cs
  let digits := match cs with
    | '+' :: r => r
    | r => r
  match readDigits none digits with
  | some n =>
    if n < 2 ^ (64 : Nat) then .ok (UInt64.ofNat n)
    else .error (.invalidNumber (String.ofList cs))
  | none => .error (.invalidNumber (String.ofList cs))

/-- Reads one range: a star, a number, or two ends around the first dash. -/
def readRange (part : List Char) : Except Fault NumberRange :=
  if part = ['*'] then .ok (.atLeast 0)
  else
    match part.dropWhile (· != '-') with
    | _ :: stop => do
      let start ← readNumber (part.takeWhile (· != '-'))
      if Text.trimChars Text.isBlank stop = ['*'] then return .atLeast start
      return ⟨start, ← readNumber stop⟩
    | [] => do return .single (← readNumber part)

/-- Merges the ranges of a list of written ranges. -/
def readParts (blank : Bool) (s : RangeSet) : List (List Char) → Except Fault RangeSet
  | [] => .ok s
  | part :: r =>
    match Text.trimChars Text.isBlank part with
    | [] => if blank then readParts blank s r else .error .emptyRange
    | trimmed => do readParts blank (s.merge (← readRange trimmed)) r

/-- Reads a list of ranges with or without braces around it. -/
def readChars (cs : List Char) : Except Fault RangeSet :=
  let cs := Text.trimChars Text.isBlank cs
  let parts := fun (inner : List Char) =>
    readParts (inner.all Text.isBlank) {} (Text.splitChars ',' inner)
  match cs, cs.getLast? == some '\x7d' with
  | '\x7b' :: r, true => parts r.dropLast
  | '\x7b' :: _, false => .error .unbalancedBraces
  | _, true => .error .unbalancedBraces
  | r, false => parts r

/-- The set of a text. -/
def parse (s : String) : Except Failure RangeSet :=
  (readChars s.toList).mapError (Fault.failure s)

mutual

/-- The set of a value: a number, a text, or an array of such. -/
def ofValue : Value → Except Failure RangeSet
  | .int i =>
    if 0 ≤ i.toInt then .ok (single (UInt64.ofNat i.toInt.toNat))
    else .error (Failure.mismatch "integer" "cardinality")
  | .string s => parse s
  | .magic s => parse s
  | .array items => ofItems {} items
  | v => .error (Failure.mismatch v.kindName "cardinality")

/-- Merges the sets of items. -/
def ofItems (s : RangeSet) : List Value → Except Failure RangeSet
  | [] => .ok s
  | v :: r => do ofItems (s.mergeSet (← ofValue v)) r

end

end RangeSet

end Semdoc
