import Semdoc.Text.Blank
import Semdoc.Text.Utf8

/-! # Whitespace of character data

Character data reaches a handler unchanged, trimmed or collapsed.  Only the six blank ASCII
characters count.
-/

namespace Semdoc

/-- How blank characters of character data are treated. -/
inductive WhitespaceMode where
  /-- Keep the data unchanged. -/
  | preserve
  /-- Remove leading and trailing blanks. -/
  | trim
  /-- Trim, and replace every inner run of blanks by a single space. -/
  | collapse
  deriving DecidableEq, Inhabited

namespace WhitespaceMode

/-- All modes. -/
def all : List WhitespaceMode := [preserve, trim, collapse]

/-- The written name of a mode. -/
def name : WhitespaceMode → String
  | preserve => "preserve"
  | trim => "trim"
  | collapse => "collapse"

end WhitespaceMode

namespace Text

/-- Writes the words of `cs` with one space between two of them.  `started` tells whether a word
has been written already, `pending` whether blanks have been seen since. -/
def collapseChars (started pending : Bool) : List Char → List Char
  | [] => []
  | c :: r =>
    if isBlankAscii c then collapseChars started started r
    else if pending then ' ' :: c :: collapseChars true false r
    else c :: collapseChars true false r

/-- Applies a whitespace mode to a text. -/
def normalize (mode : WhitespaceMode) (s : String) : String :=
  match mode with
  | .preserve => s
  | .trim => String.ofList (trimChars isBlankAscii s.toList)
  | .collapse => String.ofList (collapseChars false false s.toList)

/-- Whether a text consists of blanks only. -/
def isBlankText (s : String) : Bool :=
  (utf8Bytes s).all isBlankByte

end Text

end Semdoc
