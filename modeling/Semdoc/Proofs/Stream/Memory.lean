import Mathlib.Data.List.Infix
import Mathlib.Tactic.Lemma
import Semdoc.Stream.CharReader

/-!
# Buffers of texts in memory

A text in memory is one chunk, and no more bytes come.  A cursor in it stands before what is left of
the text, and every operation on a cursor moves that one only.
-/

namespace Semdoc

namespace Buffer

/-- A buffer holds a whole text. -/
structure Holds (b : Buffer) (bytes : List UInt8) : Prop where
  chunks : b.chunks = [⟨0, bytes.toArray⟩]
  feed : b.feed = []
  ended : b.ended = true

/-- The place in a text before what is left of it. -/
def placeBeforeRest (bytes rest : List UInt8) : Cursor := ⟨0, bytes.length - rest.length⟩

/-- One cursor has been moved to a place, and nothing else has happened. -/
structure Moved (b b' : Buffer) (id : CursorId) (c : Cursor) : Prop where
  chunks : b'.chunks = b.chunks
  feed : b'.feed = b.feed
  ended : b'.ended = b.ended
  nextCursor : b'.nextCursor = b.nextCursor
  cursor? : ∀ k, b'.cursor? k = if k = id then some c else b.cursor? k

lemma cursor?_setCursor (b : Buffer) (id k : CursorId) (c : Cursor) :
    (b.setCursor id c).cursor? k = if k = id then (b.cursor? id).map fun _ => c else b.cursor? k := by
  unfold setCursor cursor?
  dsimp only
  induction b.cursors with
  | nil => simp
  | cons e r ih =>
    obtain ⟨h, p⟩ := e
    rw [List.map_cons]
    by_cases he : h = id
    · subst he
      by_cases hk : k = h
      · subst hk
        simp
      · have hk' : (k == h) = false := by simpa using hk
        rw [if_neg hk] at ih
        simp only [if_true, hk, if_false, List.lookup_cons, hk']
        exact ih
    · by_cases hk : k = h
      · subst hk
        simp [he]
      · have hk' : (k == h) = false := by simpa using hk
        have hi : (id == h) = false := by simpa using Ne.symm he
        simp only [he, if_false, List.lookup_cons, hk', hi]
        exact ih

/-- The name of the next cursor has not been given out. -/
def Fresh (b : Buffer) : Prop := ∀ k : Nat, b.nextCursor ≤ k → b.cursor? k = none

lemma Fresh.cursor?_addCursor {b : Buffer} (hb : b.Fresh) (c : Cursor) (k : CursorId) :
    (b.addCursor c).2.cursor? k = if k = b.nextCursor then some c else b.cursor? k := by
  have hn := hb _ le_rfl
  unfold addCursor cursor? at *
  rw [List.lookup_append]
  by_cases hk : k = b.nextCursor
  · rw [if_pos hk, hk, hn]
    simp
  · have hk' : (k == b.nextCursor) = false := by simpa using hk
    rw [if_neg hk, List.lookup_cons, hk']
    simp

lemma Fresh.addCursor {b : Buffer} (hb : b.Fresh) (c : Cursor) : (b.addCursor c).2.Fresh := by
  intro k hk
  have hk' : b.nextCursor < k := hk
  rw [hb.cursor?_addCursor, if_neg (Nat.ne_of_gt hk')]
  exact hb k (Nat.le_of_lt hk')

lemma cursor?_delete (b : Buffer) (id k : CursorId) :
    (b.delete id).cursor? k = if k = id then none else b.cursor? k := by
  unfold delete cursor?
  dsimp only
  induction b.cursors with
  | nil => simp
  | cons e r ih =>
    obtain ⟨h, p⟩ := e
    rw [List.filter_cons, List.lookup_cons]
    by_cases he : h = id
    · subst he
      simp only [bne_self_eq_false, Bool.false_eq_true, if_false, ih]
      split
      · rfl
      · next hk =>
        have hk' : (k == h) = false := by simpa using hk
        rw [hk']
    · simp only [bne_iff_ne, ne_eq, he, not_false_eq_true, if_true, List.lookup_cons, ih]
      cases hk : k == h with
      | true =>
        obtain rfl : k = h := by simpa using hk
        simp [he]
      | false => rfl

lemma Fresh.delete {b : Buffer} (hb : b.Fresh) (id : CursorId) : (b.delete id).Fresh := by
  intro k hk
  rw [cursor?_delete]
  split
  · rfl
  · exact hb k hk

namespace Moved

variable {b b' b'' : Buffer} {id : CursorId} {c c' : Cursor}

lemma setCursor (h : (b.cursor? id).isSome = true) : Moved b (b.setCursor id c) id c := by
  refine ⟨rfl, rfl, rfl, rfl, fun k => ?_⟩
  obtain ⟨p, hp⟩ := Option.isSome_iff_exists.1 h
  rw [cursor?_setCursor, hp, Option.map_some]

/-- A cursor is put where another one is. -/
lemma copy {source : CursorId} (hs : b.cursor? source = some c)
    (ht : (b.cursor? id).isSome = true) : Moved b (b.copy source id) id c := by
  rw [Buffer.copy, hs]
  exact .setCursor ht

lemma trans (h : Moved b b' id c) (h' : Moved b' b'' id c') : Moved b b'' id c' := by
  refine ⟨h'.chunks.trans h.chunks, h'.feed.trans h.feed, h'.ended.trans h.ended,
    h'.nextCursor.trans h.nextCursor, fun k => ?_⟩
  rw [h'.cursor?, h.cursor?]
  split <;> rfl

lemma holds {bytes : List UInt8} (h : Moved b b' id c) (hb : b.Holds bytes) : b'.Holds bytes :=
  ⟨h.chunks.trans hb.chunks, h.feed.trans hb.feed, h.ended.trans hb.ended⟩

lemma fresh (h : Moved b b' id c) (hb : b.Fresh) (hid : (b.cursor? id).isSome = true) :
    b'.Fresh := by
  intro k hk
  rw [h.nextCursor] at hk
  rw [h.cursor?, if_neg]
  · exact hb k hk
  · rintro rfl
    rw [hb k hk] at hid
    cases hid

lemma self (h : Moved b b' id c) : b'.cursor? id = some c := by
  rw [h.cursor?, if_pos rfl]

end Moved

section Holds

variable {b : Buffer} {bytes rest : List UInt8} (hb : b.Holds bytes) {id : CursorId} {c : UInt8}
include hb

lemma Holds.extent : b.extent = bytes.length := by
  rw [Buffer.extent, hb.chunks, hb.feed]
  simp [Feed.size]

lemma Holds.settle (i : Nat) : b.settle ⟨0, i⟩ = ⟨0, i⟩ := by
  rw [Buffer.settle, hb.chunks]
  simp

lemma Holds.byteAt? (hr : rest <:+ bytes) :
    b.byteAt? (placeBeforeRest bytes rest) = rest.head? := by
  obtain ⟨before, rfl⟩ := hr
  simp only [Buffer.byteAt?, hb.chunks, placeBeforeRest, List.getElem?_cons_zero,
    Option.bind_eq_bind, Option.bind_some, List.getElem?_toArray, List.length_append,
    Nat.add_sub_cancel]
  rw [List.getElem?_append_right (le_refl _), Nat.sub_self, List.head?_eq_getElem?]

/-- Whether there is a byte at a cursor. -/
lemma Holds.ensure (hr : rest <:+ bytes) (hc : b.cursor? id = some (placeBeforeRest bytes rest)) :
    ∃ b', b.ensure id = (rest.head?.isSome, b') ∧ Moved b b' id (placeBeforeRest bytes rest) := by
  have hm : Moved b (b.setCursor id (placeBeforeRest bytes rest)) id (placeBeforeRest bytes rest) :=
    .setCursor (by rw [hc]; rfl)
  refine ⟨_, ?_, hm⟩
  have hset : b.settle (placeBeforeRest bytes rest) = placeBeforeRest bytes rest := hb.settle _
  have hp : (b.setCursor id (placeBeforeRest bytes rest)).pull =
      (false, b.setCursor id (placeBeforeRest bytes rest)) := by
    rw [Buffer.pull, (hm.holds hb).ended, if_pos rfl]
  unfold Buffer.ensure
  simp only [hc, hset, hp, (hm.holds hb).byteAt? hr]
  cases rest <;> rfl

lemma Holds.fetch (hr : rest <:+ bytes) (hc : b.cursor? id = some (placeBeforeRest bytes rest)) :
    ∃ b', b.fetch id = (rest.head?, b') ∧ Moved b b' id (placeBeforeRest bytes rest) := by
  obtain ⟨b', he, hm⟩ := hb.ensure hr hc
  refine ⟨b', ?_, hm⟩
  unfold Buffer.fetch
  simp only [he, hm.self, Option.bind_some, (hm.holds hb).byteAt? hr]
  cases rest <;> rfl

/-- Reading moves the cursor over a byte, if there is one. -/
lemma Holds.read (hr : rest <:+ bytes) (hc : b.cursor? id = some (placeBeforeRest bytes rest)) :
    ∃ b', b.read id = (rest.head?, b') ∧ Moved b b' id (placeBeforeRest bytes rest.tail) := by
  obtain ⟨b', hf, hm⟩ := hb.fetch hr hc
  unfold Buffer.read
  rw [hf]
  cases rest with
  | nil => exact ⟨b', rfl, hm⟩
  | cons c rest =>
    simp only [List.head?_cons, hm.self, List.tail_cons]
    have hi : bytes.length - (c :: rest).length + 1 = bytes.length - rest.length := by
      have hle := hr.length_le
      rw [List.length_cons] at hle ⊢
      omega
    refine ⟨_, rfl, hm.trans ?_⟩
    have hplace : placeBeforeRest bytes rest =
        { placeBeforeRest bytes (c :: rest) with
          index := (placeBeforeRest bytes (c :: rest)).index + 1 } := by
      rw [placeBeforeRest, ← hi]
      rfl
    rw [hplace]
    exact .setCursor (by rw [hm.self]; rfl)

lemma Holds.offset (hc : b.cursor? id = some (placeBeforeRest bytes rest)) :
    b.offset id = bytes.length - rest.length := by
  simp [Buffer.offset, hc, offsetOf, chunkStart, hb.chunks, placeBeforeRest]

end Holds

end Buffer

namespace CharReader

/-- What is left after a line break that begins with a byte. -/
def afterBreak (c : UInt8) : List UInt8 → List UInt8
  | d :: r => if isBreak d && d != c then r else d :: r
  | [] => []

/-- The character before which a reader stands and what is left after it: a line break of one or two
bytes is a line feed. -/
def next? : List UInt8 → Option (UInt8 × List UInt8)
  | [] => none
  | c :: r => some (if isBreak c then (lineFeed, afterBreak c r) else (c, r))

/-- What is left after the next character. -/
def afterNext (rest : List UInt8) : List UInt8 := ((next? rest).map (·.2)).getD []

lemma afterBreak_suffix (c : UInt8) (r : List UInt8) : afterBreak c r <:+ r := by
  cases r with
  | nil => exact List.suffix_refl _
  | cons d r =>
    show (if isBreak d && d != c then r else d :: r) <:+ d :: r
    split
    · exact List.suffix_cons d r
    · exact List.suffix_refl _

lemma afterNext_cons (c : UInt8) (r : List UInt8) :
    afterNext (c :: r) = if isBreak c then afterBreak c r else r := by
  rw [afterNext, next?, Option.map_some, Option.getD_some]
  split <;> rfl

lemma afterNext_suffix (rest : List UInt8) : afterNext rest <:+ rest := by
  cases rest with
  | nil => exact List.suffix_refl _
  | cons c r =>
    rw [afterNext_cons]
    split
    · exact (afterBreak_suffix c r).trans (List.suffix_cons c r)
    · exact List.suffix_cons c r

lemma afterNext_length_le (c : UInt8) (r : List UInt8) :
    (afterNext (c :: r)).length ≤ r.length := by
  rw [afterNext_cons]
  split
  · exact (afterBreak_suffix c r).length_le
  · exact le_rfl

/-- Reading a character moves the cursor over it. -/
lemma readAt_holds {b : Buffer} {bytes rest : List UInt8} (hb : b.Holds bytes) {id : CursorId}
    (hr : rest <:+ bytes) (hc : b.cursor? id = some (Buffer.placeBeforeRest bytes rest)) :
    ∃ b', readAt b id = ((next? rest).map (·.1), b') ∧
      Buffer.Moved b b' id (Buffer.placeBeforeRest bytes (afterNext rest)) := by
  obtain ⟨b1, h1, hm1⟩ := hb.read hr hc
  unfold readAt
  rw [h1]
  cases rest with
  | nil => exact ⟨b1, rfl, hm1⟩
  | cons c r =>
    have hr' : r <:+ bytes := (List.suffix_cons c r).trans hr
    rw [afterNext_cons, next?, Option.map_some]
    dsimp only [List.head?_cons]
    cases hbr : isBreak c with
    | false => exact ⟨b1, rfl, hm1⟩
    | true =>
      obtain ⟨b2, h2, hm2⟩ := (hm1.holds hb).fetch hr' hm1.self
      have hm12 := hm1.trans hm2
      simp only [if_true, h2]
      cases r with
      | nil => exact ⟨b2, rfl, hm12⟩
      | cons d r =>
        dsimp only [List.head?_cons]
        cases hd : isBreak d && d != c with
        | false =>
          rw [afterBreak, hd]
          exact ⟨b2, rfl, hm12⟩
        | true =>
          obtain ⟨b3, h3, hm3⟩ := (hm12.holds hb).read hr' hm12.self
          rw [afterBreak, hd, h3]
          exact ⟨b3, rfl, hm12.trans hm3⟩

end CharReader

end Semdoc
