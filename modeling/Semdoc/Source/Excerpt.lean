import Semdoc.Source.Location
import Semdoc.Text.Utf8

/-! # Excerpts of a source

What a reader of a message is shown: the line and column of a location and a piece of its line.
Lines end at a line feed, a carriage return or a pair of both in either order.  The piece is a
window of bounded size around the start of the location, widened so that no character is cut.
-/

namespace Semdoc

/-- A human readable account of a location.  Lines and columns count from one; line zero means that
the place is unknown. -/
structure Excerpt where
  file : String := ""
  startLine : Nat := 0
  startColumn : Nat := 0
  endLine : Nat := 0
  endColumn : Nat := 0
  /-- A piece of the line in which the location starts. -/
  text : String := ""
  /-- Bytes from the start of the piece to the start of the location. -/
  position : Nat := 0
  /-- Bytes of the location inside the piece. -/
  length : Nat := 0
  truncatedStart : Bool := false
  truncatedEnd : Bool := false
  deriving DecidableEq, Inhabited

namespace Excerpt

/-- Whether the place is known. -/
def isValid (e : Excerpt) : Bool := 0 < e.startLine

def hasFile (e : Excerpt) : Bool := e.file != ""

def hasText (e : Excerpt) : Bool := e.text != ""

/-- File, line and column as far as they are known. -/
def heading (e : Excerpt) : String :=
  let place := if e.isValid then s!"{e.startLine}:{e.startColumn}" else ""
  if e.hasFile then
    if e.isValid then s!"{e.file}:{place}" else e.file
  else place

end Excerpt

/-- A named text in memory. -/
structure SourceText where
  name : String
  text : String
  deriving DecidableEq, Inhabited

namespace SourceText

def lineFeed : UInt8 := 10

def carriageReturn : UInt8 := 13

/-- Whether a byte ends a line. -/
def isBreak (b : UInt8) : Bool :=
  b == lineFeed || b == carriageReturn

/-- The offsets at which lines after the first start, for bytes that begin at `offset`. -/
def lineStartsFrom (offset : Nat) : List UInt8 → List Nat
  | [] => []
  | [b] => if isBreak b then [offset + 1] else []
  | b :: c :: r =>
    if isBreak b then
      if isBreak c && c != b then (offset + 2) :: lineStartsFrom (offset + 2) r
      else (offset + 1) :: lineStartsFrom (offset + 1) (c :: r)
    else lineStartsFrom (offset + 1) (c :: r)

/-- The bytes of the text. -/
def bytes (s : SourceText) : List UInt8 :=
  Text.utf8Bytes s.text

/-- The offsets at which lines start. -/
def lineStarts (s : SourceText) : List Nat :=
  0 :: lineStartsFrom 0 s.bytes

/-- The bytes from one offset up to another. -/
def slice (s : SourceText) (start stop : Nat) : List UInt8 :=
  (s.bytes.drop start).take (stop - start)

/-- The number of the line, from zero, that holds an offset. -/
def lineOf (s : SourceText) (offset : Nat) : Nat :=
  s.lineStarts.countP (· ≤ offset) - 1

/-- The offset at which a line starts. -/
def startOfLine (s : SourceText) (line : Nat) : Nat :=
  s.lineStarts.getD line 0

/-- The offset of the break that ends a line, or of the end of the text. -/
def endOfLine (s : SourceText) (line : Nat) : Nat :=
  let start := s.startOfLine line
  start + ((s.bytes.drop start).takeWhile fun b => !isBreak b).length

/-- Whether an offset lies between two characters. -/
def isBoundary (s : SourceText) (offset : Nat) : Bool :=
  Text.isBoundary s.bytes.toArray offset

/-- The column of an offset in a line: characters before it, or bytes if it lies inside a
character. -/
def columnOf (s : SourceText) (line offset : Nat) : Nat :=
  let start := s.startOfLine line
  let count :=
    if s.isBoundary offset then (Text.decodeChars (s.slice start offset)).length
    else offset - start
  count + 1

/-- Moves back to the nearest boundary that is not before `least`. -/
def boundaryBelow (s : SourceText) (least : Nat) : Nat → Nat
  | 0 => 0
  | i + 1 => if least < i + 1 && !s.isBoundary (i + 1) then s.boundaryBelow least i else i + 1

/-- Moves on to the nearest boundary, at most `steps` bytes further. -/
def boundaryAbove (s : SourceText) : Nat → Nat → Nat
  | 0, i => i
  | steps + 1, i => if s.isBoundary i then i else s.boundaryAbove steps (i + 1)

/-- The part of a line shown for a location that starts at `start`: the whole line if it is short
enough, otherwise at most `limit` bytes around the start, widened to whole characters. -/
def window (s : SourceText) (lineStart lineEnd start limit : Nat) : Nat × Nat :=
  let (a, b) :=
    if limit < lineEnd - lineStart then
      let a := max (start - limit / 2) lineStart
      (a, min (a + limit) lineEnd)
    else (lineStart, lineEnd)
  (s.boundaryBelow lineStart a, s.boundaryAbove (lineEnd - b) b)

/-- The excerpt for a location, with at most `limit` bytes of its line. -/
def excerpt (s : SourceText) (l : Location) (limit : Nat) : Excerpt :=
  if l.isValid then
    let size := s.bytes.length
    let start := min l.start.toNat size
    let stop := min l.stop.toNat size
    let startLine := s.lineOf start
    let endLine := s.lineOf stop
    let lineStart := s.startOfLine startLine
    let lineEnd := s.endOfLine startLine
    let (a, b) := s.window lineStart lineEnd start limit
    { file := s.name
      startLine := startLine + 1
      startColumn := s.columnOf startLine start
      endLine := endLine + 1
      endColumn := s.columnOf endLine stop
      text := Text.decodeUtf8 (s.slice a b)
      position := start - a
      length := min stop b - start
      truncatedStart := lineStart < a
      truncatedEnd := b < lineEnd }
  else { file := s.name }

/-- The offsets between which the text is cut for a location. -/
def shown (s : SourceText) (l : Location) (limit : Nat) : Nat × Nat :=
  let start := min l.start.toNat s.bytes.length
  let line := s.lineOf start
  s.window (s.startOfLine line) (s.endOfLine line) start limit

/-- Whether the text can be cut at two offsets: they are in order, and both lie between characters. -/
def canCut (s : SourceText) (start stop : Nat) : Bool :=
  start ≤ stop && s.isBoundary start && s.isBoundary stop

/-- The excerpt for a location, unless the text would have to be cut where it cannot be. -/
def excerpt? (s : SourceText) (l : Location) (limit : Nat) : Option Excerpt :=
  if l.isValid && !s.canCut (s.shown l limit).1 (s.shown l limit).2 then none
  else some (s.excerpt l limit)

end SourceText

end Semdoc
