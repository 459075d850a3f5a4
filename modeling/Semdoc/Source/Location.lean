/-! # Source locations

A location is a range of bytes in one numbered source.  The largest 32-bit number stands for an
unknown source or offset; a location with one of them is not valid and takes part in nothing.
-/

namespace Semdoc

/-- The range of bytes from `start` up to but excluding `stop` in a source. -/
structure Location where
  source : UInt32
  start : UInt32
  stop : UInt32
  ordered : start ≤ stop
  deriving DecidableEq

namespace Location

attribute [local instance (2000)] instPowNat

/-- Stands for an unknown source or offset. -/
def unknownNumber : UInt32 := 0xffffffff

/-- The location of things that come from no source. -/
def unknown : Location :=
  ⟨unknownNumber, unknownNumber, unknownNumber, by decide⟩

instance : Inhabited Location := ⟨unknown⟩

/-- The range between two offsets, in whichever order they are given. -/
def between (source a b : UInt32) : Location :=
  if h : a ≤ b then ⟨source, a, b, h⟩
  else ⟨source, b, a, UInt32.le_of_lt (UInt32.not_le.mp h)⟩

/-- The empty range at an offset. -/
def point (source offset : UInt32) : Location :=
  between source offset offset

/-- The nearest offset that can be represented. -/
def clampOffset (n : Nat) : UInt32 :=
  if n < 2 ^ (32 : Nat) then UInt32.ofNat n else unknownNumber - 1

/-- The range between two offsets of any size, which are clamped. -/
def ofOffsets (source : UInt32) (a b : Nat) : Location :=
  between source (clampOffset a) (clampOffset b)

/-- Whether the source and both offsets are known. -/
def isValid (l : Location) : Bool :=
  l.source != unknownNumber && l.start != unknownNumber && l.stop != unknownNumber

/-- The number of bytes of a valid location. -/
def length (l : Location) : UInt32 :=
  if l.isValid then l.stop - l.start else 0

/-- The least location that covers both.  If only one is valid, or they lie in different sources,
one of them wins: the first if it is valid. -/
def merge (a b : Location) : Location :=
  if a.isValid then
    if b.isValid && a.source == b.source then
      between a.source (min a.start b.start) (max a.stop b.stop)
    else a
  else b

/-- The written form of a location. -/
def text (l : Location) : String :=
  if l.isValid then s!"{l.source}:{l.start}-{l.stop}" else "<unknown>"

end Location

end Semdoc
