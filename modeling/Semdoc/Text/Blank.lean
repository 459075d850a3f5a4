/-! # Blank characters

Two classes.  The format itself knows six blank ASCII characters (`isBlankByte`); user-supplied
texts such as cardinalities and tokens are trimmed and tested by the Unicode property
`White_Space` (`isBlank`), which contains the six.
-/

namespace Semdoc.Text

/-- Space, tab, line feed, carriage return, vertical tab and form feed. -/
def isBlankByte (b : UInt8) : Bool :=
  b == 32 || (9 ≤ b && b ≤ 13)

/-- The characters of `isBlankByte`. -/
def isBlankAscii (c : Char) : Bool :=
  c.toNat == 32 || (9 ≤ c.toNat && c.toNat ≤ 13)

/-- The code points with the Unicode property `White_Space`, as closed intervals. -/
def whiteSpaceRanges : List (Nat × Nat) :=
  [(0x09, 0x0d), (0x20, 0x20), (0x85, 0x85), (0xa0, 0xa0), (0x1680, 0x1680), (0x2000, 0x200a),
   (0x2028, 0x2029), (0x202f, 0x202f), (0x205f, 0x205f), (0x3000, 0x3000)]

/-- Whether a character has the Unicode property `White_Space`. -/
def isBlank (c : Char) : Bool :=
  whiteSpaceRanges.any fun r => r.1 ≤ c.toNat && c.toNat ≤ r.2

/-- Removes the characters of a class from the end. -/
def trimEndChars (p : Char → Bool) (cs : List Char) : List Char :=
  (cs.reverse.dropWhile p).reverse

/-- Removes the characters of a class from both ends. -/
def trimChars (p : Char → Bool) (cs : List Char) : List Char :=
  trimEndChars p (cs.dropWhile p)

/-- Removes blank characters from both ends of a text. -/
def trimBlank (s : String) : String :=
  String.ofList (trimChars isBlank s.toList)

/-- Removes blank characters from the end of a text. -/
def trimBlankEnd (s : String) : String :=
  String.ofList (trimEndChars isBlank s.toList)

theorem isBlank_of_isBlankAscii {c : Char} (h : isBlankAscii c = true) : isBlank c = true := by
  simp only [isBlankAscii, Bool.or_eq_true, beq_iff_eq, Bool.and_eq_true, decide_eq_true_eq] at h
  simp only [isBlank, whiteSpaceRanges, List.any_cons, Bool.or_eq_true, Bool.and_eq_true,
    decide_eq_true_eq]
  omega

end Semdoc.Text
