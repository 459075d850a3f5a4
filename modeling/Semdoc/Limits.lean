/-! # Limits

Bounds on what readers and resolution may use, and how options are put together.  Every bound fits
64 bits; the largest such number means that there is practically none.
-/

namespace Semdoc

/-- How lenient conversions of values are. -/
inductive ConversionMode where
  /-- Only integers become doubles, and only primitive values become strings. -/
  | safe
  /-- Also conversions that lose more or may fail. -/
  | all
  deriving DecidableEq, Inhabited

/-- Bounds for readers and resolution. -/
structure Limits where
  /-- The number of bytes asked from an input at once. -/
  chunkSize : UInt64 := 65536
  /-- The number of bytes kept behind the last cursor. -/
  lookback : UInt64 := 128
  /-- How deep literals of arrays and maps may nest. -/
  complexDepth : UInt64 := 128
  /-- How often pending references are tried again. -/
  resolutionPasses : UInt64 := 64
  /-- The number of bytes of a line that is shown around a place. -/
  contextLength : UInt64 := 80
  /-- The number of bytes of a string literal. -/
  stringLength : UInt64 := 1048576
  /-- The number of commands that may be open at once. -/
  stackDepth : UInt64 := 1024
  deriving DecidableEq, Inhabited

namespace Limits

/-- The number that stands for no bound. -/
def unbounded : UInt64 := 0xffffffffffffffff

/-- No bounds but on the size of chunks and the lookback. -/
def unlimited : Limits :=
  { complexDepth := unbounded
    resolutionPasses := unbounded
    contextLength := unbounded
    stringLength := unbounded
    stackDepth := unbounded }

end Limits

/-- What a reader goes by. -/
structure ReaderOptions where
  limits : Limits := {}
  conversion : ConversionMode := .safe
  deriving DecidableEq, Inhabited

namespace ReaderOptions

/-- Sets the size of chunks, which is at least one byte. -/
def withChunkSize (o : ReaderOptions) (n : UInt64) : ReaderOptions :=
  { o with limits := { o.limits with chunkSize := max n 1 } }

end ReaderOptions

end Semdoc
