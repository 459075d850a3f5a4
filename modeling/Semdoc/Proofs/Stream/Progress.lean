import Semdoc.Proofs.Stream.Cursors
import Semdoc.Proofs.Stream.Desk

/-!
# Progress of readers

A reader of a stream is known by two offsets: what it has read ends at one, what it has peeked at the
other.  Both go from character to character, where a line break of two bytes is one character, so that
the second is always some characters ahead of the first.  Lines and columns are a tally of what the
reader has passed.
-/

namespace Semdoc

namespace CharReader

/-- The character at an offset and the offset after it, if the stream goes on there. -/
def step? (bytes : List UInt8) (o : Nat) : Option (UInt8 × Nat) :=
  match bytes[o]? with
  | none => none
  | some c =>
    if isBreak c then
      match bytes[o + 1]? with
      | some d => if isBreak d && d != c then some (lineFeed, o + 2) else some (lineFeed, o + 1)
      | none => some (lineFeed, o + 1)
    else some (c, o + 1)

/-- Some characters are met one after the other between two offsets. -/
inductive Steps (bytes : List UInt8) : Nat → List UInt8 → Nat → Prop where
  | refl (o : Nat) : Steps bytes o [] o
  | head {o o' t : Nat} {c : UInt8} {cs : List UInt8} (h : step? bytes o = some (c, o'))
      (hs : Steps bytes o' cs t) : Steps bytes o (c :: cs) t

/-- Where the blanks end that begin at an offset. -/
def blanksEnd (bytes : List UInt8) (o : Nat) : Nat :=
  o + ((bytes.drop o).takeWhile Text.isBlankByte).length

/-- The line and the column after some bytes: a line feed starts a new line, and a byte inside a
character no new column. -/
def tally (passed : List UInt8) : Nat × Nat :=
  passed.foldl
    (fun (line, column) c =>
      if c = lineFeed then (line + 1, 1)
      else if Text.isContinuation c then (line, column)
      else (line, column + 1))
    (1, 1)

section Steps

variable {bytes : List UInt8} {o o' t u : Nat} {c : UInt8} {cs ds : List UInt8}

lemma step?_eq_none_iff : step? bytes o = none ↔ bytes.length ≤ o := by
  rw [step?, ← List.getElem?_eq_none_iff]
  cases bytes[o]? with
  | none => simp
  | some c =>
    simp only [reduceCtorEq, iff_false]
    split
    · split
      · split <;> simp
      · simp
    · simp

/-- A step goes at least one byte further, and not beyond the end. -/
lemma step?_bounds (h : step? bytes o = some (c, o')) : o < o' ∧ o' ≤ bytes.length := by
  have ho : o < bytes.length := by
    by_contra hn
    rw [step?_eq_none_iff.2 (not_lt.1 hn)] at h
    cases h
  unfold step? at h
  split at h
  · cases h
  · split at h
    · split at h
      · next d hd =>
        have hd := (List.getElem?_eq_some_iff.1 hd).1
        split at h <;> cases h <;> omega
      · cases h
        omega
    · cases h
      omega

lemma Steps.bounds (h : Steps bytes o cs t) : o ≤ t ∧ (o ≤ bytes.length → t ≤ bytes.length) := by
  induction h with
  | refl o => exact ⟨le_rfl, id⟩
  | head h _ ih =>
    have hb := step?_bounds h
    exact ⟨by omega, fun _ => ih.2 hb.2⟩

lemma Steps.trans (h : Steps bytes o cs t) (h' : Steps bytes t ds u) :
    Steps bytes o (cs ++ ds) u := by
  induction h with
  | refl => exact h'
  | head h _ ih => exact .head h (ih h')

lemma Steps.tail (h : Steps bytes o cs t) (h' : step? bytes t = some (c, u)) :
    Steps bytes o (cs ++ [c]) u :=
  h.trans (.head h' (.refl u))

/-- What is ahead is met after the next character. -/
lemma Steps.of_ne (h : Steps bytes o cs t) (hne : o ≠ t) :
    ∃ c o' ds, step? bytes o = some (c, o') ∧ cs = c :: ds ∧ Steps bytes o' ds t := by
  cases h with
  | refl => exact (hne rfl).elim
  | head h hs => exact ⟨_, _, _, h, rfl, hs⟩

/-- A blank character is a blank byte, or a line break, which consists of them. -/
lemma step?_blank (h : step? bytes o = some (c, o')) :
    if Text.isBlankByte c then blanksEnd bytes o' = blanksEnd bytes o
    else blanksEnd bytes o = o := by
  have hblank : ∀ {i d}, bytes[i]? = some d →
      blanksEnd bytes i = if Text.isBlankByte d then blanksEnd bytes (i + 1) else i := by
    intro i d hd
    obtain ⟨hi, rfl⟩ := List.getElem?_eq_some_iff.1 hd
    rw [blanksEnd, List.drop_eq_getElem_cons hi, List.takeWhile_cons]
    split
    · rw [blanksEnd, List.length_cons]
      omega
    · rfl
  have hfeed : Text.isBlankByte lineFeed = true := by decide
  unfold step? at h
  split at h
  · cases h
  · next d hd =>
    have h1 := hblank hd
    split at h
    · next hbr =>
      rw [isBlankByte_of_isBreak hbr, if_pos rfl] at h1
      split at h
      · next e he =>
        split at h
        · next hbr' =>
          rw [Bool.and_eq_true] at hbr'
          have h2 := hblank he
          rw [isBlankByte_of_isBreak hbr'.1, if_pos rfl] at h2
          cases h
          rw [hfeed, if_pos rfl, h1, h2]
        · cases h
          rw [hfeed, if_pos rfl, h1]
      · cases h
        rw [hfeed, if_pos rfl, h1]
    · cases h
      cases hc : Text.isBlankByte c with
      | true => rw [if_pos rfl, h1, hc, if_pos rfl]
      | false => rw [if_neg Bool.false_ne_true, h1, hc, if_neg Bool.false_ne_true]

lemma blanksEnd_bounds (ho : o ≤ bytes.length) :
    o ≤ blanksEnd bytes o ∧ blanksEnd bytes o ≤ bytes.length := by
  have h := (List.takeWhile_prefix Text.isBlankByte (l := bytes.drop o)).length_le
  rw [List.length_drop] at h
  rw [blanksEnd]
  omega

lemma tally_append (passed : List UInt8) (c : UInt8) :
    tally (passed ++ [c]) =
      if c = lineFeed then ((tally passed).1 + 1, 1)
      else if Text.isContinuation c then tally passed
      else ((tally passed).1, (tally passed).2 + 1) := by
  rw [tally, List.foldl_append]
  rfl

end Steps

end CharReader

/-! ## The model -/

/-- How far a reader is: the offsets up to which it has read and peeked, and what it has passed. -/
structure Progress where
  read : Nat := 0
  peek : Nat := 0
  passed : List UInt8 := []

/-- What a single reader can be told to do. -/
inductive ReaderOp where
  | read
  | peek
  | resetPeek
  | consumePeek
  | consumeWhitespace
  | readRaw (n : Nat)
  | atEnd

/-- What a reader answers. -/
inductive ReaderReply where
  | done
  | char (c : Option UInt8)
  | flag (ok : Bool)
  | bytes (cs : List UInt8)

namespace Progress

open CharReader (step? Steps blanksEnd)

lemma eq_of_peek_eq {p : Progress} (h : p.peek = p.read) :
    ({ read := p.read, peek := p.read, passed := p.passed } : Progress) = p := by
  cases p
  cases h
  rfl

/-- What an operation answers, and how far the reader is then. -/
inductive Step (bytes : List UInt8) : Progress → ReaderOp → ReaderReply → Progress → Prop where
  | read_end {p : Progress} (h : step? bytes p.read = none) : Step bytes p .read (.char none) p
  | read {p : Progress} {c : UInt8} {o : Nat} (h : step? bytes p.read = some (c, o)) :
      Step bytes p .read (.char (some c))
        { read := o, peek := max p.peek o, passed := p.passed ++ [c] }
  | peek_end {p : Progress} (h : step? bytes p.peek = none) : Step bytes p .peek (.char none) p
  | peek {p : Progress} {c : UInt8} {o : Nat} (h : step? bytes p.peek = some (c, o)) :
      Step bytes p .peek (.char (some c)) { p with peek := o }
  | resetPeek (p : Progress) : Step bytes p .resetPeek .done { p with peek := p.read }
  | consumePeek {p : Progress} {cs : List UInt8} (h : Steps bytes p.read cs p.peek) :
      Step bytes p .consumePeek .done
        { read := p.peek, peek := p.peek, passed := p.passed ++ cs }
  | consumeWhitespace {p : Progress} {cs : List UInt8}
      (h : Steps bytes p.read cs (blanksEnd bytes p.read)) :
      Step bytes p .consumeWhitespace (.flag (blanksEnd bytes p.read < bytes.length))
        { read := blanksEnd bytes p.read, peek := blanksEnd bytes p.read, passed := p.passed ++ cs }
  | readRaw (p : Progress) (n : Nat) :
      Step bytes p (.readRaw n) (.bytes ((bytes.drop p.read).take n))
        { read := min (p.read + n) bytes.length, peek := min (p.read + n) bytes.length
          passed := p.passed ++ (bytes.drop p.read).take n }
  | atEnd (p : Progress) : Step bytes p .atEnd (.flag (p.read = bytes.length)) p

end Progress

namespace CharReader

/-- The answer to an operation and the reader after it. -/
def perform (r : CharReader) : ReaderOp → ReaderReply × CharReader
  | .read => (.char r.read.1, r.read.2)
  | .peek => (.char r.peek.1, r.peek.2)
  | .resetPeek => (.done, r.resetPeek)
  | .consumePeek => (.done, r.consumePeek)
  | .consumeWhitespace => (.flag r.consumeWhitespace.1, r.consumeWhitespace.2)
  | .readRaw n => (.bytes (r.readRaw n).1, (r.readRaw n).2)
  | .atEnd => (.flag r.atEnd.1, r.atEnd.2)

/-- The cursors of a reader are at the offsets up to which it has read and peeked, and its line and
column are the tally of what it has passed. -/
structure Shows (bytes : List UInt8) (p : Progress) (r : CharReader) : Prop where
  apart : r.readCursor ≠ r.peekCursor
  read : r.buffer.place? r.readCursor = some p.read
  peek : r.buffer.place? r.peekCursor = some p.peek
  ahead : ∃ cs, Steps bytes p.read cs p.peek
  coherent : r.coherent = true → p.peek = p.read
  tally : (r.line, r.column) = tally p.passed

/-- A reader has become another one with the same cursors, and no other cursor has moved. -/
structure Becomes (bytes : List UInt8) (r r' : CharReader) : Prop where
  window : r'.buffer.Window bytes
  readCursor : r'.readCursor = r.readCursor
  peekCursor : r'.peekCursor = r.peekCursor
  others : ∀ k, k ≠ r.readCursor → k ≠ r.peekCursor → r'.buffer.place? k = r.buffer.place? k

lemma Becomes.trans {bytes : List UInt8} {r r' r'' : CharReader} (h : Becomes bytes r r')
    (h' : Becomes bytes r' r'') : Becomes bytes r r'' := by
  refine ⟨h'.window, h'.readCursor.trans h.readCursor, h'.peekCursor.trans h.peekCursor,
    fun k hk hk' => ?_⟩
  rw [h'.others k (by rwa [h.readCursor]) (by rwa [h.peekCursor]), h.others k hk hk']

lemma offset_eq {b : Buffer} {id : CursorId} {o : Nat} (h : b.place? id = some o) :
    b.offset id = o := by
  obtain ⟨c, hc, rfl⟩ := Buffer.exists_cursor_of_place? h
  rw [Buffer.offset, hc]

/-- Reading a character at a cursor moves the cursor past it. -/
lemma readAt_spec {b : Buffer} {bytes : List UInt8} (hb : b.Window bytes) {id : CursorId} {o : Nat}
    (ho : b.place? id = some o) :
    ∃ b', readAt b id = ((step? bytes o).map (·.1), b') ∧
      Buffer.Serves bytes b b'
        (Function.update b.place? id (some (((step? bytes o).map (·.2)).getD o))) := by
  obtain ⟨b1, h1, hs1⟩ := hb.read ho
  have hp1 : b1.place? id = some (min (o + 1) bytes.length) := by
    rw [hs1.place?, Function.update_self]
  unfold readAt step?
  rw [h1]
  cases hc : bytes[o]? with
  | none =>
    refine ⟨b1, rfl, ?_⟩
    have hend : min (o + 1) bytes.length = o := by
      have h1 := (hb.place?_mem ho).2
      have h2 := List.getElem?_eq_none_iff.1 hc
      omega
    rwa [hend] at hs1
  | some c =>
    have hlt := (List.getElem?_eq_some_iff.1 hc).1
    rw [Nat.min_eq_left hlt] at hs1 hp1
    dsimp only
    cases hbr : isBreak c with
    | false => exact ⟨b1, rfl, hs1⟩
    | true =>
      obtain ⟨b2, h2, hs2, -⟩ := hs1.window.fetch hp1
      have hp2 : b2.place? id = some (o + 1) := by rw [hs2.place?, hp1]
      simp only [if_true, h2]
      rw [hs1.place?] at hs2
      cases hd : bytes[o + 1]? with
      | none => exact ⟨b2, rfl, hs1.trans hs2⟩
      | some d =>
        dsimp only
        split
        · obtain ⟨b3, h3, hs3⟩ := hs2.window.read hp2
          have hlt' := (List.getElem?_eq_some_iff.1 hd).1
          rw [Nat.min_eq_left hlt', hs2.place?, Function.update_idem] at hs3
          rw [h3]
          exact ⟨b3, rfl, hs1.trans (hs2.trans hs3)⟩
        · exact ⟨b2, rfl, hs1.trans hs2⟩

end CharReader

end Semdoc
