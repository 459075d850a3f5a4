import Mathlib.Logic.Relation
import Semdoc.Proofs.Stream.Memory

/-!
# Readers of texts in memory

A reader of a text in memory is known by what is left of the text at its two places.  Each operation
is stated as a change of these; the places of other readers of the same text stay.
-/

namespace Semdoc

open Relation

/-- A text in memory with the cursors of one reader, and where the cursors of others are. -/
structure Desk where
  bytes : List UInt8
  readCursor : CursorId
  peekCursor : CursorId
  apart : readCursor ≠ peekCursor
  others : CursorId → Option Cursor

namespace Desk

variable (d : Desk)

/-- Where the cursors are if the reader stands and peeks before what is left of the text. -/
def cursor? (rest ahead : List UInt8) (k : CursorId) : Option Cursor :=
  if k = d.readCursor then some (Buffer.placeBeforeRest d.bytes rest)
  else if k = d.peekCursor then some (Buffer.placeBeforeRest d.bytes ahead)
  else d.others k

lemma cursor?_readCursor (rest ahead : List UInt8) :
    d.cursor? rest ahead d.readCursor = some (Buffer.placeBeforeRest d.bytes rest) :=
  if_pos rfl

lemma cursor?_peekCursor (rest ahead : List UInt8) :
    d.cursor? rest ahead d.peekCursor = some (Buffer.placeBeforeRest d.bytes ahead) := by
  rw [cursor?, if_neg d.apart.symm, if_pos rfl]

/-- The text with the cursors of a fork. -/
def fork (rest ahead : List UInt8) (next : CursorId) : Desk where
  bytes := d.bytes
  readCursor := next
  peekCursor := next + 1
  apart := (Nat.succ_ne_self next).symm
  others := d.cursor? rest ahead

end Desk

namespace CharReader

/-- What is left after blanks. -/
def skipped (rest : List UInt8) : List UInt8 := rest.dropWhile Text.isBlankByte

lemma toNat_lt_of_isBreak {c : UInt8} (h : isBreak c = true) : c.toNat < 0x80 := by
  obtain h | h := Bool.or_eq_true_iff.1 h
  all_goals
    rw [eq_of_beq h]
    decide

lemma isBlankByte_of_isBreak {c : UInt8} (hc : isBreak c = true) : Text.isBlankByte c = true := by
  rw [isBreak, Bool.or_eq_true, beq_iff_eq, beq_iff_eq] at hc
  rcases hc with rfl | rfl <;> decide

/-- The next character is a blank exactly if the next byte is one. -/
lemma skipped_cons (c : UInt8) (rest : List UInt8) :
    skipped (c :: rest) = if Text.isBlankByte c then skipped (afterNext (c :: rest)) else c :: rest := by
  rw [skipped, List.dropWhile_cons, afterNext_cons]
  split
  · split
    · cases rest with
      | nil => rfl
      | cons d rest =>
        rw [afterBreak]
        split
        · next hd =>
          rw [Bool.and_eq_true] at hd
          rw [List.dropWhile_cons, if_pos (isBlankByte_of_isBreak hd.1), skipped]
        · rfl
    · rfl
  · rfl

/-- What is left at one place is met from another one by reading characters. -/
def Reaches : List UInt8 → List UInt8 → Prop := ReflTransGen fun a b => a ≠ [] ∧ b = afterNext a

lemma Reaches.suffix {a b : List UInt8} (h : Reaches a b) : b <:+ a := by
  induction h with
  | refl => exact List.suffix_refl _
  | tail _ hb ih =>
    rw [hb.2]
    exact (afterNext_suffix _).trans ih

/-- A reader of a text in memory has its cursors before what is left of the text. -/
structure Placed (d : Desk) (rest ahead : List UInt8) (r : CharReader) : Prop where
  holds : r.buffer.Holds d.bytes
  readCursor : r.readCursor = d.readCursor
  peekCursor : r.peekCursor = d.peekCursor
  cursor? : ∀ k, r.buffer.cursor? k = d.cursor? rest ahead k
  fresh : r.buffer.Fresh
  suffix : rest <:+ d.bytes
  suffix_ahead : ahead <:+ d.bytes

/-- A reader of a text in memory stands before what is left of the text, and peeks there or further
on. -/
structure At (d : Desk) (rest ahead : List UInt8) (r : CharReader) : Prop
    extends Placed d rest ahead r where
  reaches : Reaches rest ahead
  coherent : r.coherent = true → ahead = rest

namespace Placed

variable {d : Desk} {rest ahead : List UInt8} {r : CharReader}

lemma cursor?_readCursor (h : Placed d rest ahead r) :
    r.buffer.cursor? r.readCursor = some (Buffer.placeBeforeRest d.bytes rest) := by
  rw [h.cursor?, h.readCursor, d.cursor?_readCursor]

lemma cursor?_peekCursor (h : Placed d rest ahead r) :
    r.buffer.cursor? r.peekCursor = some (Buffer.placeBeforeRest d.bytes ahead) := by
  rw [h.cursor?, h.peekCursor, d.cursor?_peekCursor]

lemma offset (h : Placed d rest ahead r) : r.offset = d.bytes.length - rest.length :=
  h.holds.offset h.cursor?_readCursor

lemma peekOffset (h : Placed d rest ahead r) : r.peekOffset = d.bytes.length - ahead.length :=
  h.holds.offset h.cursor?_peekCursor

/-- The read cursor is moved. -/
lemma moveRead (h : Placed d rest ahead r) {rest' : List UInt8} {b : Buffer}
    (hm : Buffer.Moved r.buffer b r.readCursor (Buffer.placeBeforeRest d.bytes rest'))
    (hs : rest' <:+ d.bytes) : Placed d rest' ahead { r with buffer := b } := by
  refine ⟨hm.holds h.holds, h.readCursor, h.peekCursor, fun k => ?_,
    hm.fresh h.fresh (by rw [h.cursor?_readCursor]; rfl), hs, h.suffix_ahead⟩
  rw [hm.cursor?, h.cursor?, h.readCursor, Desk.cursor?, Desk.cursor?]
  split <;> rfl

/-- The peek cursor is moved. -/
lemma movePeek (h : Placed d rest ahead r) {ahead' : List UInt8} {b : Buffer}
    (hm : Buffer.Moved r.buffer b r.peekCursor (Buffer.placeBeforeRest d.bytes ahead'))
    (hs : ahead' <:+ d.bytes) : Placed d rest ahead' { r with buffer := b } := by
  refine ⟨hm.holds h.holds, h.readCursor, h.peekCursor, fun k => ?_,
    hm.fresh h.fresh (by rw [h.cursor?_peekCursor]; rfl), h.suffix, hs⟩
  rw [hm.cursor?, h.cursor?, h.peekCursor, Desk.cursor?, Desk.cursor?]
  by_cases hk : k = d.peekCursor
  · rw [if_pos hk, hk, if_neg d.apart.symm, if_pos rfl]
  · rw [if_neg hk, if_neg hk, if_neg hk]

/-- Only the cursors matter. -/
lemma congr (h : Placed d rest ahead r) {r' : CharReader} (hb : r'.buffer = r.buffer)
    (hr : r'.readCursor = r.readCursor) (hp : r'.peekCursor = r.peekCursor) :
    Placed d rest ahead r' :=
  ⟨hb ▸ h.holds, hr.trans h.readCursor, hp.trans h.peekCursor, hb ▸ h.cursor?, hb ▸ h.fresh,
    h.suffix, h.suffix_ahead⟩

lemma account (h : Placed d rest ahead r) (c : UInt8) : Placed d rest ahead (r.account c) := by
  unfold CharReader.account
  split
  · exact h.congr rfl rfl rfl
  · split
    · exact h
    · exact h.congr rfl rfl rfl

/-- Putting the peek cursor at the read cursor. -/
lemma syncPeek (h : Placed d rest ahead r) : At d rest rest r.syncPeek := by
  have hm : Buffer.Moved r.buffer (r.buffer.copy r.readCursor r.peekCursor) r.peekCursor
      (Buffer.placeBeforeRest d.bytes rest) :=
    .copy h.cursor?_readCursor (by rw [h.cursor?_peekCursor]; rfl)
  exact ⟨(h.movePeek hm h.suffix).congr rfl rfl rfl, .refl, fun _ => rfl⟩

/-- Reading up to where the reader peeks. -/
lemma readUpTo {rounds : Nat} (h : Placed d rest ahead r) (hr : Reaches rest ahead)
    (hlen : rest.length ≤ ahead.length + rounds) :
    Placed d ahead ahead (CharReader.readUpTo (d.bytes.length - ahead.length) rounds r) := by
  induction rounds generalizing rest r with
  | zero =>
    have e : ahead = rest := hr.suffix.eq_of_length_le hlen
    exact e ▸ h
  | succ rounds ih =>
    have hle := h.suffix.length_le
    rw [CharReader.readUpTo, h.offset]
    rcases ReflTransGen.cases_head hr with rfl | ⟨_, ⟨hne, rfl⟩, hr'⟩
    · rw [if_neg (Nat.lt_irrefl _)]
      exact h
    · obtain ⟨b, hb, hm⟩ := readAt_holds h.holds h.suffix h.cursor?_readCursor
      have hp := h.moveRead hm ((afterNext_suffix rest).trans h.suffix)
      cases rest with
      | nil => exact absurd rfl hne
      | cons c rest =>
        have hshort := afterNext_length_le c rest
        have hal := (Reaches.suffix hr').length_le
        rw [List.length_cons] at hlen hle
        have hlt : d.bytes.length - (c :: rest).length < d.bytes.length - ahead.length := by
          rw [List.length_cons]
          omega
        rw [if_pos hlt, hb]
        exact ih (hp.account _) hr' (by omega)

end Placed

namespace At

variable {d : Desk} {rest ahead : List UInt8} {r : CharReader}

/-- Forgetting what was peeked. -/
lemma resetPeek (h : At d rest ahead r) : At d rest rest r.resetPeek := by
  unfold CharReader.resetPeek
  split
  · next hc => exact h.coherent hc ▸ h
  · exact h.syncPeek

/-- Peeking moves the place of peeking over the next character. -/
lemma peek (h : At d rest ahead r) :
    ∃ r', r.peek = ((next? ahead).map (·.1), r') ∧ At d rest (afterNext ahead) r' := by
  obtain ⟨b, hb, hm⟩ := readAt_holds h.holds h.suffix_ahead h.cursor?_peekCursor
  have hp := h.movePeek hm ((afterNext_suffix ahead).trans h.suffix_ahead)
  unfold CharReader.peek
  rw [hb]
  refine ⟨_, rfl, hp.congr rfl rfl rfl, ?_, fun hc => ?_⟩
  · cases ahead with
    | nil => exact h.reaches
    | cons c a => exact h.reaches.tail ⟨List.cons_ne_nil c a, rfl⟩
  · rw [Bool.and_eq_true] at hc
    cases ahead with
    | nil => exact h.coherent hc.1
    | cons c a => cases hc.2

/-- Reading what was peeked. -/
lemma consumePeek (h : At d rest ahead r) : At d ahead ahead r.consumePeek := by
  unfold CharReader.consumePeek
  split
  · next hc =>
    obtain rfl := h.coherent hc
    exact h
  · have hle := h.suffix.length_le
    rw [h.peekOffset, h.offset]
    have hp : Placed d ahead ahead (CharReader.readUpTo (d.bytes.length - ahead.length)
        (d.bytes.length - ahead.length - (d.bytes.length - rest.length)) r) :=
      h.readUpTo h.reaches (by omega)
    exact ⟨hp.congr rfl rfl rfl, .refl, fun _ => rfl⟩

/-- Reading the next character. -/
lemma read (h : At d rest rest r) :
    ∃ r', r.read = ((next? rest).map (·.1), r') ∧ At d (afterNext rest) (afterNext rest) r' := by
  obtain ⟨b, hb, hm⟩ := readAt_holds h.holds h.suffix h.cursor?_readCursor
  have hp := h.moveRead hm ((afterNext_suffix rest).trans h.suffix)
  unfold CharReader.read
  rw [hb]
  have hsync : { r with buffer := b }.peekOffset ≤ { r with buffer := b }.offset := by
    rw [hp.peekOffset, hp.offset]
    have := (afterNext_suffix rest).length_le
    omega
  have hs := hp.syncPeek
  simp only [hsync, decide_true, Bool.or_true, if_true]
  cases rest with
  | nil => exact ⟨_, rfl, hs⟩
  | cons c rest =>
    refine ⟨_, rfl, hs.account _, .refl, fun _ => rfl⟩

/-- Skipping blanks. -/
lemma skipBlanks {rounds : Nat} (h : At d rest rest r) (hlen : rest.length < rounds) :
    ∃ r', CharReader.skipBlanks rounds r = (!(skipped rest).isEmpty, r') ∧
      At d (skipped rest) (skipped rest) r' := by
  induction rounds generalizing rest r with
  | zero => exact absurd hlen (Nat.not_lt_zero _)
  | succ rounds ih =>
    obtain ⟨r', hp, h'⟩ := h.peek
    rw [CharReader.skipBlanks, hp]
    cases rest with
    | nil => exact ⟨_, rfl, h'.resetPeek⟩
    | cons c rest =>
      have hc : Text.isBlankByte (if isBreak c then (lineFeed, afterBreak c rest) else (c, rest)).1 =
          Text.isBlankByte c := by
        split
        · next hb =>
          rw [isBlankByte_of_isBreak hb]
          rfl
        · rfl
      simp only [next?, Option.map_some, hc]
      rw [skipped_cons]
      cases Text.isBlankByte c with
      | true =>
        have hshort := afterNext_length_le c rest
        rw [List.length_cons] at hlen
        exact ih h'.consumePeek (by omega)
      | false => exact ⟨_, rfl, h'.resetPeek⟩

/-- Skipping all blanks tells whether anything is left. -/
lemma consumeWhitespace (h : At d rest ahead r) :
    ∃ r', r.consumeWhitespace = (!(skipped rest).isEmpty, r') ∧
      At d (skipped rest) (skipped rest) r' := by
  have hlen : rest.length < r.buffer.extent + 1 := by
    have hle := h.suffix.length_le
    rw [h.holds.extent]
    exact Nat.lt_succ_of_le hle
  exact h.resetPeek.skipBlanks hlen

/-- A fork stands where its parent is. -/
lemma fork (h : At d rest ahead r) :
    At (d.fork rest ahead r.buffer.nextCursor) rest ahead r.fork := by
  have hread := h.cursor?_readCursor
  have hpeek : (r.buffer.addCursor (Buffer.placeBeforeRest d.bytes rest)).2.cursor? r.peekCursor =
      some (Buffer.placeBeforeRest d.bytes ahead) := by
    rw [h.fresh.cursor?_addCursor, if_neg, h.cursor?_peekCursor]
    intro e
    have hp := h.cursor?_peekCursor
    rw [e, h.fresh _ le_rfl] at hp
    cases hp
  have hfork : r.fork = { r with
      buffer := ((r.buffer.addCursor (Buffer.placeBeforeRest d.bytes rest)).2.addCursor
        (Buffer.placeBeforeRest d.bytes ahead)).2
      readCursor := r.buffer.nextCursor
      peekCursor := r.buffer.nextCursor + 1 } := by
    simp only [CharReader.fork, Buffer.createFrom, hread, hpeek, Option.getD_some]
    rfl
  have hf := h.fresh.addCursor (Buffer.placeBeforeRest d.bytes rest)
  rw [hfork]
  refine ⟨⟨⟨h.holds.chunks, h.holds.feed, h.holds.ended⟩, rfl, rfl, fun k => ?_,
    hf.addCursor _, h.suffix, h.suffix_ahead⟩, h.reaches, h.coherent⟩
  have hnext : (r.buffer.addCursor (Buffer.placeBeforeRest d.bytes rest)).2.nextCursor =
      r.buffer.nextCursor + 1 := rfl
  rw [hf.cursor?_addCursor, h.fresh.cursor?_addCursor, h.cursor?, hnext]
  simp only [Desk.cursor?, Desk.fork]
  by_cases hk : k = r.buffer.nextCursor + 1
  · have hne : k ≠ r.buffer.nextCursor := by
      rw [hk]
      exact Nat.succ_ne_self _
    simp [hk]
  · simp [hk]

/-- The cursors of a reader were given out before any others that are added. -/
lemma lt_nextCursor (h : At d rest ahead r) :
    d.readCursor < r.buffer.nextCursor ∧ d.peekCursor < r.buffer.nextCursor := by
  refine ⟨Nat.lt_of_not_le fun hle => ?_, Nat.lt_of_not_le fun hle => ?_⟩
  · have hn := h.fresh _ hle
    rw [h.cursor?, d.cursor?_readCursor] at hn
    cases hn
  · have hn := h.fresh _ hle
    rw [h.cursor?, d.cursor?_peekCursor] at hn
    cases hn

/-- Numbers that have not been given out are no cursors, wherever the reader goes. -/
lemma cursor?_of_nextCursor_le (h : At d rest ahead r) (rest' ahead' : List UInt8) {k : Nat}
    (hk : r.buffer.nextCursor ≤ k) : d.cursor? rest' ahead' k = none := by
  obtain ⟨hlt, hlt'⟩ := h.lt_nextCursor
  have hk1 : k ≠ d.readCursor := Nat.ne_of_gt (Nat.lt_of_lt_of_le hlt hk)
  have hk2 : k ≠ d.peekCursor := Nat.ne_of_gt (Nat.lt_of_lt_of_le hlt' hk)
  have hn := h.fresh k hk
  rw [h.cursor?, Desk.cursor?, if_neg hk1, if_neg hk2] at hn
  rw [Desk.cursor?, if_neg hk1, if_neg hk2, hn]

/-- A fork leaves all cursors but its own where they are. -/
lemma cursor?_of_fork {rest' ahead' : List UInt8} {f : CharReader} {n k : Nat}
    (hf : At (d.fork rest ahead n) rest' ahead' f) (h1 : k ≠ n) (h2 : k ≠ n + 1) :
    f.buffer.cursor? k = d.cursor? rest ahead k := by
  rw [hf.cursor?, Desk.cursor?]
  exact (if_neg h1).trans (if_neg h2)

/-- Committing a fork moves its parent there. -/
lemma commit (h : At d rest ahead r) {rest' ahead' : List UInt8} {f : CharReader}
    (hf : At (d.fork rest ahead r.buffer.nextCursor) rest' ahead' f) :
    At d rest' ahead' (f.commit r) := by
  obtain ⟨hlt, hlt'⟩ := h.lt_nextCursor
  have hold : f.buffer.cursor? r.readCursor = some (Buffer.placeBeforeRest d.bytes rest) := by
    rw [h.readCursor, cursor?_of_fork hf hlt.ne (Nat.ne_of_lt (Nat.lt_succ_of_lt hlt)),
      d.cursor?_readCursor]
  have hold' : f.buffer.cursor? r.peekCursor = some (Buffer.placeBeforeRest d.bytes ahead) := by
    rw [h.peekCursor, cursor?_of_fork hf hlt'.ne (Nat.ne_of_lt (Nat.lt_succ_of_lt hlt')),
      d.cursor?_peekCursor]
  -- both cursors of the parent are moved, and those of the fork deleted
  have hm1 : Buffer.Moved f.buffer (f.buffer.copy f.readCursor r.readCursor) r.readCursor
      (Buffer.placeBeforeRest d.bytes rest') := .copy hf.cursor?_readCursor (by rw [hold]; rfl)
  have hapart : r.peekCursor ≠ r.readCursor := by
    rw [h.readCursor, h.peekCursor]
    exact d.apart.symm
  have hpeek1 : (f.buffer.copy f.readCursor r.readCursor).cursor? f.peekCursor =
      some (Buffer.placeBeforeRest d.bytes ahead') := by
    rw [hm1.cursor?, if_neg, hf.cursor?_peekCursor]
    · rfl
    · rw [hf.peekCursor, h.readCursor]
      exact Nat.ne_of_gt (Nat.lt_succ_of_lt hlt)
  have hold1 : (f.buffer.copy f.readCursor r.readCursor).cursor? r.peekCursor =
      some (Buffer.placeBeforeRest d.bytes ahead) := by
    rw [hm1.cursor?, if_neg hapart, hold']
  have hm2 := Buffer.Moved.copy hpeek1 (by rw [hold1]; rfl : ((f.buffer.copy f.readCursor
    r.readCursor).cursor? r.peekCursor).isSome = true)
  have hb := hm2.holds (hm1.holds hf.holds)
  have hfresh := hm2.fresh (hm1.fresh hf.fresh (by rw [hold]; rfl)) (by rw [hold1]; rfl)
  refine ⟨⟨⟨hb.chunks, hb.feed, hb.ended⟩, h.readCursor, h.peekCursor, fun k => ?_,
    (hfresh.delete _).delete _, hf.suffix, hf.suffix_ahead⟩, hf.reaches, hf.coherent⟩
  show ((((f.buffer.copy f.readCursor r.readCursor).copy f.peekCursor r.peekCursor).delete
    f.readCursor).delete f.peekCursor).cursor? k = _
  rw [Buffer.cursor?_delete, Buffer.cursor?_delete, hm2.cursor?, hm1.cursor?, hf.readCursor,
    hf.peekCursor, h.readCursor, h.peekCursor]
  show (if k = r.buffer.nextCursor + 1 then none else if k = r.buffer.nextCursor then none
    else if k = d.peekCursor then some (Buffer.placeBeforeRest d.bytes ahead')
    else if k = d.readCursor then some (Buffer.placeBeforeRest d.bytes rest')
    else f.buffer.cursor? k) = d.cursor? rest' ahead' k
  -- numbers that the fork has used up are free again for the parent
  by_cases h2 : k = r.buffer.nextCursor + 1
  · rw [if_pos h2, h2, h.cursor?_of_nextCursor_le rest' ahead' (Nat.le_succ _)]
  · rw [if_neg h2]
    by_cases h1 : k = r.buffer.nextCursor
    · rw [if_pos h1, h1, h.cursor?_of_nextCursor_le rest' ahead' le_rfl]
    · rw [if_neg h1, cursor?_of_fork hf h1 h2]
      simp only [Desk.cursor?]
      by_cases hk : k = d.readCursor
      · rw [if_neg (hk ▸ d.apart), if_pos hk, if_pos hk]
      · rw [if_neg hk, if_neg hk, if_neg hk]
        split <;> rfl

end At

/-- The text of a reader that has it to itself. -/
def deskOf (text : String) : Desk where
  bytes := Text.utf8Bytes text
  readCursor := 0
  peekCursor := 1
  apart := Nat.zero_ne_one
  others := fun _ => none

/-- A new reader of a text stands before all of it. -/
lemma at_ofString (text : String) (source : UInt32) :
    At (deskOf text) (Text.utf8Bytes text) (Text.utf8Bytes text) (ofString text source) := by
  have hcursor : ∀ k, (ofString text source).buffer.cursor? k =
      (deskOf text).cursor? (Text.utf8Bytes text) (Text.utf8Bytes text) k := by
    intro k
    show List.lookup k [(0, ({} : Cursor)), (1, {})] = _
    simp only [Desk.cursor?, deskOf, Buffer.placeBeforeRest, Nat.sub_self, List.lookup_cons,
      List.lookup_nil]
    by_cases h0 : k = 0
    · simp [h0]
    · by_cases h1 : k = 1
      · simp [h1]
      · have h0' : (k == 0) = false := by simpa using h0
        have h1' : (k == 1) = false := by simpa using h1
        simp [h0, h1, h0', h1']
  refine ⟨⟨⟨rfl, rfl, rfl⟩, rfl, rfl, hcursor, fun k hk => ?_, List.suffix_refl _,
    List.suffix_refl _⟩, .refl, fun _ => rfl⟩
  have hk' : 2 ≤ k := hk
  rw [hcursor, Desk.cursor?, if_neg, if_neg]
  · rfl
  · exact Nat.ne_of_gt hk'
  · exact Nat.ne_of_gt (Nat.lt_of_succ_lt hk')

end CharReader

end Semdoc
