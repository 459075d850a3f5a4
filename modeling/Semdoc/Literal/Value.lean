import Semdoc.Limits
import Semdoc.Literal.Quoted
import Semdoc.Log.Sink
import Semdoc.Text.Identifier
import Semdoc.Value.Text

/-! # Value literals

The written form of values is a superset of JSON.  Strings may have single quotes or none, dotted
identifiers without quotes are magic strings, and entries in brackets or braces are items or, with
`=` or `:` after a key, entries of a map.  What is wrong is reported, and reading goes on behind it.
-/

namespace Semdoc.Literal

def comma : UInt8 := 44
def colon : UInt8 := 58
def equalsSign : UInt8 := 61
def openBracket : UInt8 := 91
def closeBracket : UInt8 := 93
def openBrace : UInt8 := 123
def closeBrace : UInt8 := 125

/-- The closing character of a container. -/
def closerOf? (c : UInt8) : Option UInt8 :=
  if c == openBracket then some closeBracket
  else if c == openBrace then some closeBrace
  else none

/-- The value of a container without entries. -/
def emptyContainer (close : UInt8) : Value :=
  if close == closeBrace then .map [] else .array []

/-- What has been read of a container. -/
structure Container where
  /-- The items, the latest first. -/
  items : List Value := []
  entries : Entries Value := []
  ok : Bool := true
  /-- Whether a mixture of items and entries has been reported. -/
  mixed : Bool := false
  deriving Inhabited

/-- The value of a container: a map if it has any entry. -/
def Container.value (c : Container) (close : UInt8) : Value :=
  if !c.entries.isEmpty then .map c.entries
  else if !c.items.isEmpty then .array c.items.reverse
  else emptyContainer close

/-- The value that unquoted text stands for. -/
def wordValue (s : String) : Value :=
  if s == "true" then .bool true
  else if s == "false" then .bool false
  else if s == "null" then .null
  else if Text.isNamespacedIdentifier s then .magic s
  else .string s

/-- Whether a number may start with a byte. -/
def startsNumber (c : UInt8) : Bool :=
  (48 ≤ c && c ≤ 57) || Numeral.isSign c || c == Numeral.point

/-- Reads a number that is followed by a delimiter or the end, blanks apart.  Where there is none,
nothing has happened. -/
def readNumber? (delims : List UInt8) : Reading (Option Value) :=
  Reading.attempt do
    match ← Numeral.read delims with
    | none => return none
    | some n =>
      let _ ← Reading.skipWhitespace
      match ← Reading.lookahead with
      | none => return some n.toValue
      | some c => return if delims.contains c then some n.toValue else none

/-- Reads text without quotes as a value. -/
def readWord (delims : List UInt8) (start : Nat) : Reading (Outcome Value) := do
  let s ← readUnquoted delims
  if s == "" then
    Reading.error "Expected value" (← Reading.locationFrom start)
    return .bad .null
  else return .good (wordValue s)

/-- The key that a value stands for; only strings are good ones. -/
def keyOf (v : Value) (l : Location) : Reading (Outcome String) := do
  match v with
  | .string s | .magic s => return .good s
  | v =>
    Reading.error s!"Invalid key of type {v.kindName}" l
    return .bad v.plainText

/-- Reads what stands between two entries: a comma, or the closing character ahead.  Anything else
is reported and skipped. -/
def readSeparator (close : UInt8) : Reading Bool := do
  let _ ← Reading.skipWhitespace
  match ← Reading.peek with
  | none =>
    Reading.resetPeek
    return true
  | some c =>
    if c == comma then
      Reading.consumePeek
      return true
    else if c == close then
      Reading.resetPeek
      return true
    else
      Reading.resetPeek
      let closer := String.ofList [Char.ofNat close.toNat]
      Reading.error s!"Expected ',' or '{closer}' but got '{Text.escapeByte c}'"
        (← Reading.location)
      let _ ← Reading.read
      return false

/-- Reports the first mixture of items and entries. -/
def checkMixture (start : Nat) (c : Container) : Reading Container := do
  if !c.entries.isEmpty && !c.items.isEmpty && !c.mixed then
    Reading.error "Cannot mix array entries and map entries" (← Reading.locationFrom start)
    return { c with ok := false, mixed := true }
  else return c

mutual

/-- Reads any value at a nesting depth. -/
def readValueAt (limits : Limits) (delims : List UInt8) :
    Nat → Nat → Reading (Outcome Value)
  | 0, _ => do
    Reading.error "Expected value" (← Reading.location)
    return .bad .null
  | fuel + 1, depth => do
    let _ ← Reading.skipWhitespace
    let start ← Reading.offset
    match ← Reading.lookahead with
    | none =>
      Reading.error "Unexpected end of input, expected value" (← Reading.location)
      return .bad .null
    | some c =>
      if isQuote c then return (← readQuoted limits.stringLength).map .string
      else if c == openBracket || c == openBrace then readContainerAt limits fuel depth
      else if startsNumber c then
        match ← readNumber? delims with
        | some v => return .good v
        | none => readWord delims start
      else readWord delims start

/-- Reads a container at a nesting depth. -/
def readContainerAt (limits : Limits) : Nat → Nat → Reading (Outcome Value)
  | 0, _ => do
    Reading.error "Expected '[' or '\x7b'" (← Reading.location)
    return .bad .null
  | fuel + 1, depth => do
    Reading.resetPeek
    let start ← Reading.offset
    match (← Reading.read).bind closerOf? with
    | none =>
      Reading.error "Expected '[' or '\x7b'" (← Reading.locationFrom start)
      return .bad .null
    | some close =>
      if limits.complexDepth.toNat ≤ depth then
        Reading.error "Maximum nesting depth exceeded" (← Reading.locationFrom start)
        return .bad (emptyContainer close)
      else
        let c ← readEntries limits close start fuel depth {}
        return ⟨c.ok, c.value close⟩

/-- Reads entries and the closing character. -/
def readEntries (limits : Limits) (close : UInt8) (start : Nat) :
    Nat → Nat → Container → Reading Container
  | 0, _, c => do
    Reading.error "Unexpected end of input" (← Reading.locationFrom start)
    return { c with ok := false }
  | fuel + 1, depth, c => do
    if !(← Reading.skipWhitespace) then
      let closer := String.ofList [Char.ofNat close.toNat]
      Reading.error s!"Unexpected end of input, expected '{closer}'" (← Reading.locationFrom start)
      return { c with ok := false }
    else if (← Reading.peek) == some close then
      Reading.consumePeek
      return c
    else
      Reading.resetPeek
      let first ← readValueAt limits [comma, close, equalsSign, colon] fuel (depth + 1)
      let c := { c with ok := c.ok && first.ok }
      let _ ← Reading.skipWhitespace
      let mark ← Reading.peek
      let c ←
        if mark == some equalsSign || mark == some colon then
          Reading.consumePeek
          let place ← Reading.location
          let key ← keyOf first.value place
          let value ← readValueAt limits [comma, close] fuel (depth + 1)
          if Entries.hasKey key.value c.entries then
            Reading.warning s!"Duplicate key \"{key.value}\"" place
          pure { c with
            ok := c.ok && key.ok && value.ok
            entries := Entries.insert key.value value.value c.entries }
        else
          Reading.resetPeek
          pure { c with items := first.value :: c.items }
      let c ← checkMixture start c
      let separated ← readSeparator close
      readEntries limits close start fuel depth { c with ok := c.ok && separated }

end

/-- More fuel than any value of the input needs: every byte takes at most three steps. -/
def fuel : Reading Nat := do
  return 4 * (← Reading.rounds)

/-- Reads any value up to a delimiter. -/
def readValue (limits : Limits) (delims : List UInt8) : Reading (Outcome Value) := do
  readValueAt limits delims (← fuel) 0

/-- Reads a container, an array or a map as its entries say. -/
def readContainer (limits : Limits) : Reading (Outcome Value) := do
  let _ ← Reading.skipWhitespace
  readContainerAt limits (← fuel) 0

/-- Reads an array literal. -/
def readArray (limits : Limits) : Reading (Outcome (List Value)) := do
  let _ ← Reading.skipWhitespace
  let start ← Reading.offset
  if (← Reading.lookahead) != some openBracket then
    Reading.error "Expected '['" (← Reading.locationFrom start)
    return .bad []
  else
    match ← readContainerAt limits (← fuel) 0 with
    | ⟨ok, .array items⟩ => return ⟨ok, items⟩
    | ⟨_, v⟩ =>
      Reading.error s!"Expected array but got {v.kindName}" (← Reading.locationFrom start)
      return .bad []

/-- Reads a map literal.  Brackets will do, and so will no entries at all. -/
def readMap (limits : Limits) : Reading (Outcome (Entries Value)) := do
  let _ ← Reading.skipWhitespace
  let start ← Reading.offset
  let opener ← Reading.lookahead
  if (opener.bind closerOf?).isNone then
    Reading.error "Expected '\x7b'" (← Reading.locationFrom start)
    return .bad []
  else
    match ← readContainerAt limits (← fuel) 0 with
    | ⟨ok, .map entries⟩ => return ⟨ok, entries⟩
    | ⟨ok, .array []⟩ => return ⟨ok, []⟩
    | ⟨_, v⟩ =>
      Reading.error s!"Expected map but got {v.kindName}" (← Reading.locationFrom start)
      return .bad []

/-- Reads an integer; the integer part of any other number is a substitute. -/
def readInteger (delims : List UInt8) : Reading (Outcome Int64) := do
  let _ ← Reading.skipWhitespace
  let start ← Reading.offset
  match ← Numeral.read delims with
  | none => return .bad 0
  | some n =>
    if n.isInteger then return .good n.toInt64
    else
      Reading.error "Expected integer but got double" (← Reading.locationFrom start)
      return .bad n.toDouble.toInt64

/-- Reads a number as a double. -/
def readDouble (delims : List UInt8) : Reading (Outcome Double) := do
  let _ ← Reading.skipWhitespace
  match ← Numeral.read delims with
  | none => return .bad .zero
  | some n => return .good n.toDouble

/-- Reads one of the words of a kind. -/
def readKeyword (kind : ValueKind) (delims : List UInt8) (start : Nat) (words : Entries Value)
    (substitute : Value) : Reading (Outcome Value) := do
  let s ← readUnquoted delims
  match words.get? s with
  | some v => return .good v
  | none =>
    Reading.error s!"Expected {kind.name} but got \"{s}\"" (← Reading.locationFrom start)
    return .bad substitute

/-- Reads a value of a given kind.  Objects and functions have no literals; any value will do. -/
def readTyped (limits : Limits) (kind : ValueKind) (delims : List UInt8) :
    Reading (Outcome Value) := do
  let _ ← Reading.skipWhitespace
  let start ← Reading.offset
  match kind with
  | .int => return (← readInteger delims).map .int
  | .double => return (← readDouble delims).map .double
  | .bool =>
    readKeyword kind delims start [("false", .bool false), ("true", .bool true)] (.bool false)
  | .null => readKeyword kind delims start [("null", .null)] .null
  | .string | .magic =>
    if ((← Reading.lookahead).map isQuote).getD false then
      return (← readQuoted limits.stringLength).map .string
    else return .good (.string (← readUnquoted delims))
  | .array | .map =>
    let v ← readContainer limits
    if v.value.kind = kind || !v.ok then return v
    else
      Reading.error s!"Expected {kind.name} but got {v.value.kindName}"
        (← Reading.locationFrom start)
      return .bad v.value
  | .object | .function => readValue limits delims

/-- Reads a text as a value.  A text that goes on after a value is a string as a whole. -/
def readText (limits : Limits) (text : String) (source : UInt32) : Logged (Outcome Value) :=
  let (some?, r) := (CharReader.ofString text source).consumeWhitespace
  if !some? then pure (.good (.string ""))
  else
    let done := readValue limits [] r
    if done.value.2.consumeWhitespace.1 then pure (.good (.string (Text.trimBlank text)))
    else ⟨done.value.1, done.events⟩

/-- Reads a text that is one value and nothing else; otherwise the first error. -/
def read (options : ReaderOptions) (text : String) : Except Failure Value := do
  let done := readValue options.limits [] (.ofString text 0)
  let (outcome, r) := done.value
  let v ← Logged.toExcept .malformed ⟨outcome.value, done.events⟩
  let (more, r) := r.consumeWhitespace
  if more then
    throw (({ kind := .malformed, message := "Unexpected trailing input" } : Failure).withLocation
      r.location)
  return v

end Semdoc.Literal
