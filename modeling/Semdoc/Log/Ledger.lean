import Semdoc.Log.Event
import Semdoc.Source.Excerpt

/-! # Ledgers

A ledger keeps messages in memory.  It counts every message by severity, stores those that are
serious enough, and fills in default locations.  With a source attached it shows messages together
with the line they refer to.
-/

namespace Semdoc

/-- Default locations, the innermost first. -/
abbrev LocationStack := List Location

namespace LocationStack

/-- Replaces the innermost location; there is one afterwards in any case. -/
def set : LocationStack → Location → LocationStack
  | [], l => [l]
  | _ :: r, l => l :: r

/-- Gives a message without valid location the innermost valid default. -/
def fill (stack : LocationStack) (m : Message) : Message :=
  if m.location.isValid then m
  else
    match stack.find? Location.isValid with
    | some l => { m with location := l }
    | none => m

/-- The stack after an event. -/
def after (stack : LocationStack) : LogEvent → LocationStack
  | .message _ => stack
  | .pushLocation l => l :: stack
  | .popLocation => stack.tail
  | .setLocation l => set stack l

end LocationStack

/-- A number for every severity. -/
structure SeverityCounts where
  debug : Nat := 0
  note : Nat := 0
  warning : Nat := 0
  error : Nat := 0
  fatal : Nat := 0
  deriving DecidableEq, Inhabited

namespace SeverityCounts

/-- The number of a severity. -/
def get (c : SeverityCounts) : Severity → Nat
  | .debug => c.debug
  | .note => c.note
  | .warning => c.warning
  | .error => c.error
  | .fatal => c.fatal

/-- Counts one more. -/
def add (c : SeverityCounts) : Severity → SeverityCounts
  | .debug => { c with debug := c.debug + 1 }
  | .note => { c with note := c.note + 1 }
  | .warning => { c with warning := c.warning + 1 }
  | .error => { c with error := c.error + 1 }
  | .fatal => { c with fatal := c.fatal + 1 }

theorem get_add (c : SeverityCounts) (s t : Severity) :
    (c.add s).get t = c.get t + if s = t then 1 else 0 := by
  cases s <;> cases t <;> rfl

end SeverityCounts

/-- Messages in memory. -/
structure Ledger where
  /-- The least severity that is stored. -/
  threshold : Severity := .debug
  /-- The stored messages, the latest first. -/
  stored : List Message := []
  /-- How many messages of each severity came, stored or not. -/
  counts : SeverityCounts := {}
  locations : LocationStack := []
  deriving DecidableEq, Inhabited

namespace Ledger

/-- The stored messages in the order in which they came. -/
def messages (l : Ledger) : List Message :=
  l.stored.reverse

/-- Takes in one event. -/
def record (l : Ledger) (e : LogEvent) : Ledger :=
  match e with
  | .message m =>
    let m := l.locations.fill m
    { l with
      counts := l.counts.add m.severity
      stored := if m.severity.atLeast l.threshold then m :: l.stored else l.stored }
  | _ => { l with locations := l.locations.after e }

/-- Takes in events in order. -/
def recordAll (l : Ledger) (events : List LogEvent) : Ledger :=
  events.foldl record l

/-- The most serious severity that came. -/
def worst? (l : Ledger) : Option Severity :=
  Severity.all.reverse.find? fun s => 0 < l.counts.get s

/-- Whether a message of severity error or worse came. -/
def hasError (l : Ledger) : Bool :=
  0 < l.counts.error + l.counts.fatal

/-- Whether a fatal error came. -/
def hasFatal (l : Ledger) : Bool :=
  0 < l.counts.fatal

/-- Whether a list of characters occurs in another. -/
def occursIn (needle : List Char) : List Char → Bool
  | [] => needle.isEmpty
  | c :: r => needle.isPrefixOf (c :: r) || occursIn needle r

/-- Whether a stored message contains a text. -/
def mentions (l : Ledger) (needle : String) : Bool :=
  l.stored.any fun m => occursIn needle.toList m.text.toList

/-- Drops messages and counts; default locations stay. -/
def reset (l : Ledger) : Ledger :=
  { l with stored := [], counts := {} }

/-- How a message is shown: the place, severity and text, and below them the line of the source
with the location underlined, unless the message asks for less. -/
def format (m : Message) (e : Excerpt) : String :=
  let place :=
    if e.isValid || e.hasFile then e.heading ++ ": "
    else if m.location.isValid then m.location.text ++ ": "
    else ""
  let head := s!"{place}{m.severity.name}: {m.text}"
  if m.mode = .standard && e.hasText then
    let bytes := Text.utf8Bytes e.text
    let indent :=
      if Text.isBoundary bytes.toArray e.position then
        (Text.decodeChars (bytes.take e.position)).length
      else e.position
    let blanks := String.ofList (List.replicate indent ' ')
    let underline := String.ofList (List.replicate (e.length - 1) '~')
    s!"{head}\n{e.text}\n{blanks}^{underline}"
  else head

end Ledger

end Semdoc
