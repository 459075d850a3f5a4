import Semdoc.Limits
import Semdoc.Text.Utf8

/-! # Stream buffers

Where a stream gets its bytes from: a sequence of deliveries.  A request for bytes takes the next
delivery, or as much of it as was asked for; the rest is delivered next.  An interruption is
ignored, and a failure or an empty delivery is the end of the stream.

A buffer holds the part of a stream that is still needed, in chunks, and any number of cursors into
it.  A chunk is fetched when a cursor wants a byte beyond the last one.  The oldest chunk is then
dropped if every cursor has left it behind by at least the lookback, so that a cursor can always
move back that far.

A cursor is a chunk and a place in it.  The place after the last byte of a chunk and the first place
of the next chunk are the same offset of the stream.
-/

/-! ## Feeds -/

namespace Semdoc

/-- What a source answers to one request. -/
inductive Delivery where
  | bytes (data : List UInt8)
  /-- Nothing yet; ask again. -/
  | interrupted
  /-- The source could not be read. -/
  | failed
  deriving DecidableEq, Inhabited

/-- The answers of a source, the next one first. -/
abbrev Feed := List Delivery

namespace Feed

/-- Requests at most `limit` bytes; no bytes mean the end. -/
def pull (limit : Nat) : Feed → List UInt8 × Feed
  | [] => ([], [])
  | .interrupted :: r => pull limit r
  | .failed :: r => ([], r)
  | .bytes data :: r =>
    if limit < data.length then (data.take limit, .bytes (data.drop limit) :: r)
    else (data, r)

/-- The number of bytes of all deliveries. -/
def size (f : Feed) : Nat :=
  f.foldl (fun n d => match d with | .bytes data => n + data.length | _ => n) 0

end Feed

/-- The results of the first `n` steps of a stream, or of fewer where it ends before. -/
def takeUpTo (step : σ → Option α × σ) : Nat → σ → List α × σ
  | 0, s => ([], s)
  | n + 1, s =>
    match step s with
    | (some a, s) =>
      let (as, s) := takeUpTo step n s
      (a :: as, s)
    | (none, s) => ([], s)

end Semdoc

/-! ## Buffers -/

namespace Semdoc

/-- Consecutive bytes of a stream. -/
structure Chunk where
  /-- The offset of the first byte. -/
  start : Nat
  data : Array UInt8
  deriving Inhabited

/-- The offset after the last byte. -/
def Chunk.stop (c : Chunk) : Nat := c.start + c.data.size

/-- A place in a buffer. -/
structure Cursor where
  /-- The number of the chunk among those held. -/
  chunk : Nat := 0
  /-- The place inside the chunk. -/
  index : Nat := 0
  deriving DecidableEq, Inhabited

/-- Names a cursor of a buffer. -/
abbrev CursorId := Nat

/-- A window on a stream with cursors. -/
structure Buffer where
  /-- The chunks held, the oldest first; there is always one. -/
  chunks : List Chunk
  /-- The live cursors. -/
  cursors : List (CursorId × Cursor) := []
  /-- The name of the next cursor. -/
  nextCursor : CursorId := 0
  /-- Where further bytes come from. -/
  feed : Feed := []
  /-- Whether the end of the stream has been seen. -/
  ended : Bool := false
  chunkSize : Nat
  lookback : UInt64
  deriving Inhabited

namespace Buffer

/-- A buffer over a feed. -/
def ofFeed (feed : Feed) (limits : Limits) : Buffer :=
  { chunks := [⟨0, #[]⟩], feed
    chunkSize := max limits.chunkSize.toNat 1, lookback := limits.lookback }

/-- A buffer over bytes in memory. -/
def ofBytes (bytes : List UInt8) : Buffer :=
  let limits : Limits := {}
  { chunks := [⟨0, bytes.toArray⟩], ended := true
    chunkSize := limits.chunkSize.toNat, lookback := limits.lookback }

/-- A cursor by name. -/
def cursor? (b : Buffer) (id : CursorId) : Option Cursor :=
  b.cursors.lookup id

/-- Puts a live cursor somewhere else. -/
def setCursor (b : Buffer) (id : CursorId) (c : Cursor) : Buffer :=
  { b with cursors := b.cursors.map fun e => if e.1 = id then (id, c) else e }

/-- Adds a cursor at a place. -/
def addCursor (b : Buffer) (c : Cursor) : CursorId × Buffer :=
  (b.nextCursor,
    { b with cursors := b.cursors ++ [(b.nextCursor, c)], nextCursor := b.nextCursor + 1 })

/-- Creates a cursor at the oldest byte held. -/
def create (b : Buffer) : CursorId × Buffer :=
  b.addCursor {}

/-- Creates a cursor where another one is; the oldest byte if there is no such cursor. -/
def createFrom (b : Buffer) (id : CursorId) : CursorId × Buffer :=
  b.addCursor ((b.cursor? id).getD {})

/-- Deletes a cursor. -/
def delete (b : Buffer) (id : CursorId) : Buffer :=
  { b with cursors := b.cursors.filter fun e => e.1 != id }

/-- Puts a cursor where another one is. -/
def copy (b : Buffer) (source target : CursorId) : Buffer :=
  match b.cursor? source with
  | some c => b.setCursor target c
  | none => b

/-- The number of bytes in a chunk held. -/
def chunkLength (b : Buffer) (i : Nat) : Nat :=
  match b.chunks[i]? with
  | some c => c.data.size
  | none => 0

/-- The offset at which a chunk held starts. -/
def chunkStart (b : Buffer) (i : Nat) : Nat :=
  match b.chunks[i]? with
  | some c => c.start
  | none => 0

/-- The offset of a place. -/
def offsetOf (b : Buffer) (c : Cursor) : Nat :=
  b.chunkStart c.chunk + c.index

/-- The offset of a cursor; zero if there is no such cursor. -/
def offset (b : Buffer) (id : CursorId) : Nat :=
  match b.cursor? id with
  | some c => b.offsetOf c
  | none => 0

/-- The byte at a place. -/
def byteAt? (b : Buffer) (c : Cursor) : Option UInt8 :=
  b.chunks[c.chunk]? >>= fun chunk => chunk.data[c.index]?

/-- The same offset as a place, but in the next chunk if the place is at the end of one and there is
a next. -/
def settle (b : Buffer) (c : Cursor) : Cursor :=
  if c.index < b.chunkLength c.chunk then c
  else if c.chunk + 1 < b.chunks.length then b.settle ⟨c.chunk + 1, 0⟩
  else c
termination_by b.chunks.length - c.chunk

/-- Whether a cursor is past the first chunk by at least the lookback.  Offsets are counted in 64
bits. -/
def isClearOfFront (b : Buffer) (c : Cursor) : Bool :=
  0 < c.chunk &&
    UInt64.ofNat (b.chunkStart 1) + b.lookback ≤ UInt64.ofNat (b.offsetOf c)

/-- Whether the first chunk may be dropped. -/
def canDropFront (b : Buffer) : Bool :=
  2 ≤ b.chunks.length && b.cursors.all fun e => b.isClearOfFront e.2

/-- Drops the first chunk. -/
def dropFront (b : Buffer) : Buffer :=
  { b with
    chunks := b.chunks.tail
    cursors := b.cursors.map fun e => (e.1, { e.2 with chunk := e.2.chunk - 1 }) }

/-- The offset after the last byte held. -/
def stop (b : Buffer) : Nat :=
  match b.chunks.getLast? with
  | some c => c.stop
  | none => 0

/-- Fetches a chunk, and drops the first one if it may be.  Tells whether there was one. -/
def pull (b : Buffer) : Bool × Buffer :=
  if b.ended then (false, b)
  else
    let b := if b.canDropFront then b.dropFront else b
    let (data, feed) := b.feed.pull b.chunkSize
    if data.isEmpty then (false, { b with feed, ended := true })
    else (true, { b with feed, chunks := b.chunks ++ [⟨b.stop, data.toArray⟩] })

/-- Moves a cursor over the end of a chunk and fetches a chunk if it stands after the last byte
held.  Tells whether there is a byte at the cursor. -/
def ensure (b : Buffer) (id : CursorId) : Bool × Buffer :=
  match b.cursor? id with
  | none => (false, b)
  | some c =>
    let c := b.settle c
    let b := b.setCursor id c
    if (b.byteAt? c).isSome then (true, b)
    else
      match b.pull with
      | (false, b) => (false, b)
      | (true, b) =>
        match b.cursor? id with
        | none => (false, b)
        | some c =>
          let c := b.settle c
          ((b.byteAt? c).isSome, b.setCursor id c)

/-- Whether no byte is left at a cursor. -/
def atEnd (b : Buffer) (id : CursorId) : Bool × Buffer :=
  let (more, b) := b.ensure id
  (!more, b)

/-- The byte at a cursor, without moving it. -/
def fetch (b : Buffer) (id : CursorId) : Option UInt8 × Buffer :=
  let (more, b) := b.ensure id
  if more then ((b.cursor? id).bind b.byteAt?, b) else (none, b)

/-- The byte at a cursor, which moves past it. -/
def read (b : Buffer) (id : CursorId) : Option UInt8 × Buffer :=
  match b.fetch id with
  | (some byte, b) =>
    match b.cursor? id with
    | some c => (some byte, b.setCursor id { c with index := c.index + 1 })
    | none => (none, b)
  | (none, b) => (none, b)

/-- The number of bytes held or still to come, which bounds every walk forward. -/
def extent (b : Buffer) : Nat :=
  b.chunks.foldl (fun n c => n + c.data.size) b.feed.size

/-- Moves a cursor forward chunk by chunk, at most `rounds` of them; gives the distance. -/
def advanceBy (id : CursorId) : Nat → Nat → Buffer → Nat × Buffer
  | 0, _, b => (0, b)
  | _ + 1, 0, b => (0, b)
  | rounds + 1, distance + 1, b =>
    match b.ensure id with
    | (false, b) => (0, b)
    | (true, b) =>
      match b.cursor? id with
      | none => (0, b)
      | some c =>
        let step := min (b.chunkLength c.chunk - c.index) (distance + 1)
        let b := b.setCursor id { c with index := c.index + step }
        let (more, b) := advanceBy id rounds (distance + 1 - step) b
        (step + more, b)

/-- Moves a cursor forward and gives the distance, which is less than asked for only at the end of
the stream. -/
def forward (b : Buffer) (id : CursorId) (distance : Nat) : Nat × Buffer :=
  advanceBy id (b.extent + 1) distance b

/-- The place some bytes before another, or the oldest one held, and the distance.  Crosses from
one chunk to the end of the one before. -/
def placeBefore (b : Buffer) (chunk index distance : Nat) : Nat × Cursor :=
  if distance ≤ index then (distance, ⟨chunk, index - distance⟩)
  else
    match chunk with
    | 0 => (index, ⟨0, 0⟩)
    | previous + 1 =>
      let (more, c) := b.placeBefore previous (b.chunkLength previous) (distance - index)
      (index + more, c)

/-- Moves a cursor back and gives the distance, which is less than asked for only at the oldest
byte held. -/
def backward (b : Buffer) (id : CursorId) (distance : Nat) : Nat × Buffer :=
  match b.cursor? id with
  | none => (0, b)
  | some c =>
    let (moved, c) := b.placeBefore c.chunk c.index distance
    (moved, b.setCursor id c)

/-- Moves a cursor by a signed distance and gives the distance moved. -/
def move (b : Buffer) (id : CursorId) (delta : Int) : Int × Buffer :=
  if 0 ≤ delta then
    let (n, b) := b.forward id delta.toNat
    (n, b)
  else
    let (n, b) := b.backward id delta.natAbs
    (-(n : Int), b)

/-- The offset of the oldest byte held. -/
def firstOffset (b : Buffer) : Nat := b.chunkStart 0

end Buffer

end Semdoc
