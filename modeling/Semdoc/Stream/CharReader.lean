import Semdoc.Source.Location
import Semdoc.Stream.Buffer
import Semdoc.Text.Blank

/-! # Character readers

A reader has two places in a stream: where it reads and where it peeks ahead.  Peeking can be undone
or consumed.  Line breaks of one or two bytes are read as one line feed, and the reader counts
lines, and columns in characters.

A reader can be forked.  The fork reads on its own but in the same buffer; it is either committed,
which moves its parent to where the fork is, or discarded.
-/

namespace Semdoc

/-- Reads characters of a stream. -/
structure CharReader where
  buffer : Buffer
  readCursor : CursorId
  peekCursor : CursorId
  /-- Whether the peek cursor is known to be at the read cursor. -/
  coherent : Bool := true
  source : UInt32
  line : Nat := 1
  column : Nat := 1
  deriving Inhabited

/-- The line around a reader. -/
structure LineContext where
  text : String
  /-- Bytes from the start of the text to the reader. -/
  position : Nat
  truncatedStart : Bool
  truncatedEnd : Bool
  deriving DecidableEq, Inhabited

namespace CharReader

attribute [local instance (2000)] instPowNat

def lineFeed : UInt8 := 10

def carriageReturn : UInt8 := 13

/-- Whether a byte belongs to a line break. -/
def isBreak (c : UInt8) : Bool :=
  c == lineFeed || c == carriageReturn

/-- A reader at the start of a buffer. -/
def ofBuffer (b : Buffer) (source : UInt32) : CharReader :=
  let (readCursor, b) := b.create
  let (peekCursor, b) := b.create
  { buffer := b, readCursor, peekCursor, source }

/-- A reader of a text in memory. -/
def ofString (s : String) (source : UInt32) : CharReader :=
  ofBuffer (.ofBytes (Text.utf8Bytes s)) source

/-- A reader of a feed. -/
def ofFeed (feed : Feed) (source : UInt32) (limits : Limits) : CharReader :=
  ofBuffer (.ofFeed feed limits) source

/-- Reads one character at a cursor: a byte, or a whole line break as a line feed. -/
def readAt (b : Buffer) (id : CursorId) : Option UInt8 × Buffer :=
  match b.read id with
  | (none, b) => (none, b)
  | (some c, b) =>
    if isBreak c then
      match b.fetch id with
      | (some next, b) =>
        if isBreak next && next != c then (some lineFeed, (b.read id).2) else (some lineFeed, b)
      | (none, b) => (some lineFeed, b)
    else (some c, b)

/-- The offset of the read cursor. -/
def offset (r : CharReader) : Nat := r.buffer.offset r.readCursor

/-- The offset of the peek cursor. -/
def peekOffset (r : CharReader) : Nat := r.buffer.offset r.peekCursor

/-- Counts a byte that has been read.  A byte inside a character starts no new column. -/
def account (r : CharReader) (c : UInt8) : CharReader :=
  if c == lineFeed then { r with line := r.line + 1, column := 1 }
  else if Text.isContinuation c then r
  else { r with column := r.column + 1 }

/-- Puts the peek cursor at the read cursor. -/
def syncPeek (r : CharReader) : CharReader :=
  { r with buffer := r.buffer.copy r.readCursor r.peekCursor, coherent := true }

/-- Reads a character.  The peek cursor is never left behind. -/
def read (r : CharReader) : Option UInt8 × CharReader :=
  let (c, b) := readAt r.buffer r.readCursor
  let r := { r with buffer := b }
  let r := if r.coherent || r.peekOffset ≤ r.offset then r.syncPeek else r
  match c with
  | some c => (some c, r.account c)
  | none => (none, r)

/-- Reads a character ahead. -/
def peek (r : CharReader) : Option UInt8 × CharReader :=
  let (c, b) := readAt r.buffer r.peekCursor
  (c, { r with buffer := b, coherent := r.coherent && c.isNone })

/-- Forgets what was peeked. -/
def resetPeek (r : CharReader) : CharReader :=
  if r.coherent then r else r.syncPeek

/-- Reads characters up to an offset, at most `rounds` of them. -/
def readUpTo (target : Nat) : Nat → CharReader → CharReader
  | 0, r => r
  | rounds + 1, r =>
    if r.offset < target then
      match readAt r.buffer r.readCursor with
      | (some c, b) => readUpTo target rounds (account { r with buffer := b } c)
      | (none, b) => { r with buffer := b }
    else r

/-- Reads what was peeked. -/
def consumePeek (r : CharReader) : CharReader :=
  if r.coherent then r
  else { readUpTo r.peekOffset (r.peekOffset - r.offset) r with coherent := true }

/-- Skips blanks, at most `rounds` of them. -/
def skipBlanks : Nat → CharReader → Bool × CharReader
  | 0, r => (false, r.resetPeek)
  | rounds + 1, r =>
    match r.peek with
    | (some c, r) =>
      if Text.isBlankByte c then skipBlanks rounds r.consumePeek else (true, r.resetPeek)
    | (none, r) => (false, r.resetPeek)

/-- Skips blanks and tells whether a character remains. -/
def consumeWhitespace (r : CharReader) : Bool × CharReader :=
  skipBlanks (r.buffer.extent + 1) r.resetPeek

/-- Reads bytes as they are. -/
def readRawFrom : Nat → List UInt8 → CharReader → List UInt8 × CharReader
  | 0, done, r => (done.reverse, r)
  | n + 1, done, r =>
    match r.buffer.read r.readCursor with
    | (some c, b) => readRawFrom n (c :: done) (account { r with buffer := b } c)
    | (none, b) => (done.reverse, { r with buffer := b })

/-- Reads at most `n` bytes without regard to line breaks, and forgets what was peeked. -/
def readRaw (r : CharReader) (n : Nat) : List UInt8 × CharReader :=
  let (bytes, r) := readRawFrom n [] r
  (bytes, r.syncPeek)

/-- Whether everything has been read. -/
def atEnd (r : CharReader) : Bool × CharReader :=
  let (done, b) := r.buffer.atEnd r.readCursor
  (done, { r with buffer := b })

/-- The place of the read cursor. -/
def location (r : CharReader) : Location :=
  .ofOffsets r.source r.offset r.offset

/-- What has been read since an offset. -/
def locationFrom (r : CharReader) (start : Nat) : Location :=
  .ofOffsets r.source start r.offset

/-- Reads exactly `n` bytes at a cursor, as far as they exist. -/
def readBytes (id : CursorId) : Nat → Buffer → List UInt8 × Buffer
  | 0, b => ([], b)
  | n + 1, b =>
    match b.read id with
    | (some c, b) =>
      let (r, b) := readBytes id n b
      (c :: r, b)
    | (none, b) => readBytes id n b

/-- Reads the rest of a line at a cursor, at most `room` bytes of it and `rounds` in all; tells also
whether it was cut. -/
def readLineRest (id : CursorId) : Nat → Nat → Buffer → List UInt8 × Bool × Buffer
  | 0, _, b => ([], false, b)
  | _ + 1, 0, b =>
    match b.fetch id with
    | (some c, b) => ([], !isBreak c, b)
    | (none, b) => ([], false, b)
  | rounds + 1, room + 1, b =>
    match b.read id with
    | (some c, b) =>
      if isBreak c then ([], false, b)
      else
        let (r, cut, b) := readLineRest id rounds room b
        (c :: r, cut, b)
    | (none, b) => ([], false, b)

/-- The line around the read cursor, at most `size` bytes of it.  Bytes before the cursor come
first; what room they leave goes to those after it. -/
def context (r : CharReader) (size : Nat) : LineContext × CharReader :=
  let (id, b) := r.buffer.createFrom r.readCursor
  let position := b.offset id
  let (back, b) := b.backward id (min size (2 ^ (63 : Nat) - 1))
  let (before, b) := readBytes id back b
  let tail := (before.reverse.takeWhile fun c => !isBreak c).reverse
  let (after, truncatedEnd, b) := readLineRest id (b.extent + 1) (size - tail.length) b
  ({ text := Text.decodeUtf8 (tail ++ after)
     position := tail.length
     truncatedStart := tail.length = before.length && back < position
     truncatedEnd },
    { r with buffer := b.delete id })

/-- A reader of the same buffer at the same places. -/
def fork (r : CharReader) : CharReader :=
  let (readCursor, b) := r.buffer.createFrom r.readCursor
  let (peekCursor, b) := b.createFrom r.peekCursor
  { r with buffer := b, readCursor, peekCursor }

/-- Ends a fork without effect on where its parent is. -/
def discard (fork parent : CharReader) : CharReader :=
  { parent with buffer := (fork.buffer.delete fork.readCursor).delete fork.peekCursor }

/-- Ends a fork and moves its parent to where the fork is. -/
def commit (fork parent : CharReader) : CharReader :=
  let b := (fork.buffer.copy fork.readCursor parent.readCursor).copy
    fork.peekCursor parent.peekCursor
  { parent with
    buffer := (b.delete fork.readCursor).delete fork.peekCursor
    coherent := fork.coherent
    line := fork.line
    column := fork.column }

end CharReader

end Semdoc
