import Mathlib.Data.List.DropRight
import Semdoc.Proofs.Stream.Lookback
import Semdoc.Proofs.Stream.Positions
import Semdoc.Proofs.Text.Cuts

/-!
# Lines around readers

A reader that is asked for its line shows the bytes around it.  They are counted first and decoded afterwards, so that
a character that is cut at one of the ends makes the text longer than the bytes are, and one that is cut at the start
lets the reader seem to be further back in the text than it is.
-/

namespace Semdoc

open CharReader (isBreak)

namespace LineContext

/-- The bytes before an offset in its line. -/
def lineBefore (bytes : List UInt8) (o : Nat) : List UInt8 :=
  (bytes.take o).rtakeWhile fun c => !isBreak c

/-- The bytes behind an offset in its line. -/
def lineBehind (bytes : List UInt8) (o : Nat) : List UInt8 :=
  (bytes.drop o).takeWhile fun c => !isBreak c

/-- The last bytes before an offset in its line. -/
def shownBefore (bytes : List UInt8) (o back : Nat) : List UInt8 := (lineBefore bytes o).rtake back

/-- The first bytes behind an offset in its line, for which those before it leave room. -/
def shownBehind (bytes : List UInt8) (o back size : Nat) : List UInt8 :=
  (lineBehind bytes o).take (size - (shownBefore bytes o back).length)

/-- The line around an offset, of which `back` bytes before it can be looked at and `size` ones be shown. -/
def around (bytes : List UInt8) (o back size : Nat) : LineContext where
  text := Text.decodeUtf8 (shownBefore bytes o back ++ shownBehind bytes o back size)
  position := (shownBefore bytes o back).length
  truncatedStart := (shownBefore bytes o back).length = back && back < o
  truncatedEnd := size - (shownBefore bytes o back).length < (lineBehind bytes o).length

section Lines

variable {bytes : List UInt8} {o back size : Nat}

lemma rtakeWhile_rtake (p : UInt8 → Bool) (l : List UInt8) (n : Nat) :
    (l.rtake n).rtakeWhile p = (l.rtakeWhile p).rtake n := by
  rw [List.rtakeWhile, List.rtakeWhile, List.rtake_eq_reverse_take_reverse, List.rtake_eq_reverse_take_reverse,
    List.reverse_reverse, List.reverse_reverse, List.take_takeWhile]

lemma shownBefore_eq (ho : o ≤ bytes.length) (hback : back ≤ o) :
    ((bytes.drop (o - back)).take back).rtakeWhile (fun c => !isBreak c) = shownBefore bytes o back := by
  rw [shownBefore, lineBefore, ← rtakeWhile_rtake, List.rtake, List.length_take, Nat.min_eq_left ho,
    List.drop_take, Nat.sub_sub_self hback]

lemma length_lineBefore_le (bytes : List UInt8) (o : Nat) : (lineBefore bytes o).length ≤ o :=
  (List.rtakeWhile_suffix _ _).length_le.trans (List.length_take_le _ _)

lemma length_shownBefore (bytes : List UInt8) (o back : Nat) :
    (shownBefore bytes o back).length = min back (lineBefore bytes o).length := by
  rw [shownBefore, List.rtake, List.length_drop]
  omega

lemma length_shown_le (bytes : List UInt8) (o : Nat) (hback : back ≤ size) :
    (shownBefore bytes o back).length + (shownBehind bytes o back size).length ≤ size := by
  rw [shownBehind, List.length_take, length_shownBefore]
  omega

lemma lineBehind_of_none (h : bytes[o]? = none) : lineBehind bytes o = [] := by
  rw [lineBehind, List.drop_eq_nil_of_le (List.getElem?_eq_none_iff.1 h), List.takeWhile_nil]

lemma lineBehind_of_some {c : UInt8} (h : bytes[o]? = some c) :
    lineBehind bytes o = if isBreak c then [] else c :: lineBehind bytes (o + 1) := by
  rw [lineBehind, CharReader.drop_eq_cons h, List.takeWhile_cons]
  cases isBreak c <;> rfl

end Lines

end LineContext

namespace Buffer

open LineContext (lineBehind lineBehind_of_none lineBehind_of_some)

variable {b : Buffer} {bytes : List UInt8} {id : CursorId} {o : Nat}

/-- The rest of a line is read up to a line break, the end or where there is no more room. -/
lemma Window.readLineRest (hb : b.Window bytes) (rounds room : Nat) (ho : b.place? id = some o)
    (hr : bytes.length - o < rounds) :
    ∃ b' o', CharReader.readLineRest id rounds room b =
        ((lineBehind bytes o).take room, decide (room < (lineBehind bytes o).length), b') ∧
      Serves bytes b b' (Function.update b.place? id (some o')) := by
  induction rounds generalizing b o room with
  | zero => exact absurd hr (Nat.not_lt_zero _)
  | succ rounds ih =>
    cases room with
    | zero =>
      obtain ⟨b', hf, hs, -⟩ := hb.fetch ho
      refine ⟨b', o, ?_, by rwa [← ho, Function.update_eq_self]⟩
      rw [CharReader.readLineRest, hf]
      cases hc : bytes[o]? with
      | none => rw [lineBehind_of_none hc]; rfl
      | some c =>
        rw [lineBehind_of_some hc, List.take_zero]
        cases hbreak : isBreak c <;> simp [hbreak]
    | succ room =>
      obtain ⟨b₁, hread, hs₁⟩ := hb.read ho
      rw [CharReader.readLineRest, hread]
      cases hc : bytes[o]? with
      | none =>
        rw [lineBehind_of_none hc]
        exact ⟨b₁, _, rfl, hs₁⟩
      | some c =>
        rw [lineBehind_of_some hc]
        cases hbreak : isBreak c with
        | true =>
          dsimp only
          rw [hbreak]
          exact ⟨b₁, _, rfl, hs₁⟩
        | false =>
          have hlt := (List.getElem?_eq_some_iff.1 hc).1
          rw [Nat.min_eq_left hlt] at hs₁
          obtain ⟨b₂, o', hrest, hs₂⟩ := ih hs₁.window room
            (by rw [hs₁.place?, Function.update_self]) (by omega)
          rw [hs₁.place?, Function.update_idem] at hs₂
          refine ⟨b₂, o', ?_, hs₁.trans hs₂⟩
          dsimp only
          rw [hbreak, hrest]
          simp

/-- Where the cursors are decides their offsets. -/
lemma offset_congr {b' : Buffer} (h : b'.place? = b.place?) (k : CursorId) : b'.offset k = b.offset k := by
  have hoffset : ∀ b : Buffer, b.offset k = (b.place? k).getD 0 := by
    intro b
    rw [offset, place?]
    cases b.cursor? k <;> rfl
  rw [hoffset, hoffset, h]

end Buffer

namespace CharReader

open LineContext (shownBefore shownBefore_eq)

variable {bytes : List UInt8} {r : CharReader} {o : Nat}

/-- A reader that is asked for its line looks back as far as the buffer reaches, and stays where it is. -/
lemma context_eq (hw : r.buffer.Window bytes) (ho : r.buffer.place? r.readCursor = some o) (size : Nat) :
    ∃ b, r.context size =
        (.around bytes o (min (min size (2 ^ 63 - 1)) (o - r.buffer.firstOffset)) size, { r with buffer := b }) ∧
      b.Window bytes ∧ b.place? = r.buffer.place? := by
  obtain ⟨hid, hw₁, hp₁⟩ := hw.createFrom ho
  have hfirst : (r.buffer.createFrom r.readCursor).2.firstOffset = r.buffer.firstOffset := rfl
  have hnone : r.buffer.place? r.buffer.nextCursor = none := by
    rw [Buffer.place?, hw.fresh _ le_rfl]
    rfl
  cases hcreate : r.buffer.createFrom r.readCursor with
  | mk id b₁ =>
    rw [hcreate] at hid hw₁ hp₁ hfirst
    dsimp only at hid hw₁ hp₁ hfirst
    subst hid
    have ho₁ : b₁.place? r.buffer.nextCursor = some o := by rw [hp₁, Function.update_self]
    have hend := (hw₁.place?_mem ho₁).2
    -- the new cursor goes back, reads up to where it was, and reads on from there
    obtain ⟨b₂, hback, hs₂, -⟩ := hw₁.backward (min size (2 ^ 63 - 1)) ho₁
    rw [hfirst] at hback hs₂
    generalize hn : min (min size (2 ^ 63 - 1)) (o - r.buffer.firstOffset) = back at hback hs₂ ⊢
    have hle : back ≤ o := by omega
    obtain ⟨b₃, hread, hs₃⟩ := hs₂.window.serves_readBytes (by rw [hs₂.place?, Function.update_self]) back
    rw [Nat.sub_add_cancel hle, Nat.min_eq_left hend, hs₂.place?, Function.update_idem] at hs₃
    have ho₃ : b₃.place? r.buffer.nextCursor = some o := by rw [hs₃.place?, Function.update_self]
    have hextent := hs₃.window.length_sub_le_extent
    have hlow := (hs₃.window.place?_mem ho₃).1
    obtain ⟨b₄, o', hrest, hs₄⟩ := hs₃.window.readLineRest (b₃.extent + 1)
      (size - (shownBefore bytes o back).length) ho₃ (by omega)
    have hs₅ := hs₄.window.delete r.buffer.nextCursor
    have hbefore := shownBefore_eq hend hle
    have hlength : ((bytes.drop (o - back)).take back).length = back := by
      rw [List.length_take, List.length_drop]
      omega
    refine ⟨b₄.delete r.buffer.nextCursor, ?_, hs₅.window, ?_⟩
    · rw [List.rtakeWhile] at hbefore
      rw [context, hcreate]
      dsimp only
      rw [hback]
      dsimp only
      rw [hread]
      dsimp only
      rw [hbefore, hrest, offset_eq ho₁, hlength]
      rfl
    · rw [hs₅.place?, hs₄.place?, hs₃.place?, hp₁, Function.update_idem, Function.update_idem,
        Function.update_idem, ← hnone, Function.update_eq_self]

end CharReader

/-! ## Lines of texts -/

namespace LineContext

open CharReader (toNat_lt_of_isBreak)
open Text (IsText Piece)

variable {bytes lead tail : List UInt8} {whole : List Char} {o back size : Nat}

lemma shownBefore_suffix (bytes : List UInt8) (o back : Nat) : shownBefore bytes o back <:+ bytes.take o :=
  (List.drop_suffix _ _).trans (List.rtakeWhile_suffix _ _)

lemma shownBehind_prefix (bytes : List UInt8) (o back size : Nat) :
    shownBehind bytes o back size <+: bytes.drop o :=
  (List.take_prefix _ _).trans (List.takeWhile_prefix _)

/-- A line of a text starts between two characters. -/
lemma exists_isText_append_lineBefore (h : IsText bytes) (o : Nat) :
    ∃ left, IsText left ∧ bytes.take o = left ++ lineBefore bytes o := by
  refine ⟨(bytes.take o).rdropWhile fun c => !isBreak c, ?_, List.rdropWhile_append_rtakeWhile.symm⟩
  have hprefix := (List.rdropWhile_prefix (fun c => !isBreak c) (bytes.take o)).trans (List.take_prefix o bytes)
  have hlast := List.rdropWhile_last_not (fun c => !isBreak c) (bytes.take o)
  generalize (bytes.take o).rdropWhile (fun c => !isBreak c) = left at hprefix hlast ⊢
  rcases List.eq_nil_or_concat' left with rfl | ⟨left, d, rfl⟩
  · exact .nil
  · obtain ⟨right, rfl⟩ := hprefix
    have hbreak : d.toNat < 0x80 := toNat_lt_of_isBreak (by simpa using hlast)
    have hleft := h.take_of_ascii (n := left.length) (by simp) hbreak
    rw [List.append_assoc, List.take_left] at hleft
    exact hleft.append (.ascii hbreak)

/-- A line of a text ends between two characters. -/
lemma isText_take_append_lineBehind (h : IsText bytes) (o : Nat) : IsText (bytes.take o ++ lineBehind bytes o) := by
  have hsplit := List.takeWhile_append_dropWhile (p := fun c => !isBreak c) (l := bytes.drop o)
  have hhead := List.head?_dropWhile_not (fun c => !isBreak c) (bytes.drop o)
  rw [← lineBehind] at hsplit
  generalize (bytes.drop o).dropWhile (fun c => !isBreak c) = rest at hsplit hhead
  have hbytes : bytes.take o ++ lineBehind bytes o ++ rest = bytes := by
    rw [List.append_assoc, hsplit, List.take_append_drop]
  cases rest with
  | nil =>
    rw [List.append_nil] at hbytes
    rwa [hbytes]
  | cons d rest =>
    have hbreak : d.toNat < 0x80 := toNat_lt_of_isBreak (by simpa using hhead)
    rw [← hbytes] at h
    have hget : (bytes.take o ++ lineBehind bytes o ++ d :: rest)[
        (bytes.take o ++ lineBehind bytes o).length]? = some d := by
      rw [List.getElem?_append_right le_rfl, Nat.sub_self, List.getElem?_cons_zero]
    have hleft := h.take_of_ascii hget hbreak
    rwa [List.take_left] at hleft

/-- What is shown of a text begins within a character only if there is more of the line before it. -/
lemma lead_eq_nil (h : IsText bytes)
    (hp : Piece (shownBefore bytes o back ++ shownBehind bytes o back size) lead whole tail)
    (hstart : (around bytes o back size).truncatedStart = false) : lead = [] := by
  obtain ⟨left, htext, hleft⟩ := exists_isText_append_lineBefore h o
  obtain ⟨right, hright⟩ := shownBehind_prefix bytes o back size
  have hlength := length_shownBefore bytes o back
  have hle := length_lineBefore_le bytes o
  have hall : (lineBefore bytes o).length ≤ back := by
    simp only [around, Bool.and_eq_false_iff, decide_eq_false_iff_not] at hstart
    omega
  have hbefore : shownBefore bytes o back = lineBefore bytes o := by
    rw [shownBefore, List.rtake, Nat.sub_eq_zero_of_le hall, List.drop_zero]
  have hshown : IsText (shownBefore bytes o back ++ shownBehind bytes o back size ++ right) := by
    refine htext.of_append ?_
    rw [hbefore, List.append_assoc, ← List.append_assoc left, ← hleft, hright, List.take_append_drop]
    exact h
  exact hp.lead_eq_nil hshown

/-- What is shown of a text ends within a character only if there is more of the line behind it. -/
lemma tail_eq_nil (h : IsText bytes)
    (hp : Piece (shownBefore bytes o back ++ shownBehind bytes o back size) lead whole tail)
    (hend : (around bytes o back size).truncatedEnd = false) : tail = [] := by
  obtain ⟨left, hleft⟩ := shownBefore_suffix bytes o back
  have hbehind : shownBehind bytes o back size = lineBehind bytes o :=
    List.take_of_length_le (Nat.le_of_not_lt (of_decide_eq_false hend))
  have htext := isText_take_append_lineBehind h o
  rw [← hleft, ← hbehind, List.append_assoc] at htext
  exact hp.tail_eq_nil htext

/-- What is shown of a text is a piece of it.  Between two characters it is decoded on each side on its own. -/
lemma exists_piece (h : IsText bytes) (o back size : Nat) :
    ∃ lead whole tail, Piece (shownBefore bytes o back ++ shownBehind bytes o back size) lead whole tail ∧
      (Text.isBoundary bytes.toArray o = true →
        (around bytes o back size).text = Text.decodeUtf8 (shownBefore bytes o back) ++
            Text.decodeUtf8 (shownBehind bytes o back size) ∧
          Text.byteLength (Text.decodeUtf8 (shownBefore bytes o back)) =
            (shownBefore bytes o back).length + 2 * lead.length) := by
  obtain ⟨left, hleft⟩ := shownBefore_suffix bytes o back
  obtain ⟨right, hright⟩ := shownBehind_prefix bytes o back size
  have hsplit : bytes = left ++ shownBefore bytes o back ++ (shownBehind bytes o back size ++ right) := by
    rw [hleft, hright, List.take_append_drop]
  obtain ⟨cs, hcs⟩ := h
  have hbefore : shownBefore bytes o back <:+: cs.flatMap String.utf8EncodeChar :=
    ⟨left, shownBehind bytes o back size ++ right, hcs ▸ hsplit.symm⟩
  have hbehind : shownBehind bytes o back size <:+: cs.flatMap String.utf8EncodeChar :=
    ⟨left ++ shownBefore bytes o back, right, by rw [List.append_assoc, ← hsplit, hcs]⟩
  have hshown : shownBefore bytes o back ++ shownBehind bytes o back size <:+:
      cs.flatMap String.utf8EncodeChar :=
    ⟨left, right, by rw [← hcs, ← List.append_assoc, List.append_assoc _ _ right, ← hsplit]⟩
  have h : IsText bytes := ⟨cs, hcs⟩
  by_cases hboundary : Text.isBoundary bytes.toArray o = true
  · obtain ⟨lead, whole, tail, hp⟩ := Text.exists_piece_of_infix hbefore
    obtain ⟨lead', whole', tail', hp'⟩ := Text.exists_piece_of_infix hbehind
    obtain rfl := hp.tail_eq_nil (hleft ▸ h.take hboundary)
    obtain rfl := hp'.lead_eq_nil (hright ▸ h.drop hboundary)
    refine ⟨lead, whole ++ whole', tail', hp.append hp', fun _ => ⟨?_, hp.byteLength_eq⟩⟩
    rw [around, Text.decodeUtf8, (hp.append hp').decodeChars_eq, Text.decodeUtf8, Text.decodeUtf8,
      hp.decodeChars_eq, hp'.decodeChars_eq, ← String.ofList_append]
    simp
  · obtain ⟨lead, whole, tail, hp⟩ := Text.exists_piece_of_infix hshown
    exact ⟨lead, whole, tail, hp, fun hn => absurd hn hboundary⟩

lemma utf8Bytes_text (hp : Piece (shownBefore bytes o back ++ shownBehind bytes o back size) [] whole []) :
    Text.utf8Bytes (around bytes o back size).text =
      shownBefore bytes o back ++ shownBehind bytes o back size := by
  have hdecode := hp.decodeChars_eq
  have hbytes := hp.eq
  rw [List.nil_append, List.append_nil] at hbytes
  rw [if_pos rfl, List.length_nil, List.replicate_zero, List.nil_append, List.append_nil] at hdecode
  rw [around, Text.decodeUtf8, hdecode, Text.utf8Bytes_ofList, hbytes]

end LineContext

/-! ## Looking around -/

namespace ReaderStack

open LineContext (shownBefore shownBehind)

/-- A stack of readers of a text after any of them have been used and asked for their lines. -/
inductive Visited (text : String) (source : UInt32) : ReaderStack → Prop where
  | opened {st : ReaderStack} (h : Opens text source st) : Visited text source st
  | used {st : ReaderStack} (h : Visited text source st) (op : StackOp) : Visited text source (st.perform op).2
  | looked {st : ReaderStack} (h : Visited text source st) {level : Nat} {r : CharReader}
    (hr : st.reader? level = some r) (size : Nat) :
    Visited text source { st with buffer := (r.context size).2.buffer }

variable {text : String} {source : UInt32} {st : ReaderStack} {level : Nat} {r : CharReader}

/-- Readers are where they have been when one of them is asked for its line. -/
lemma Shows.look {bytes : List UInt8} {ps : List Progress} (h : Shows bytes st ps)
    (hr : st.reader? level = some r) (size : Nat) :
    Shows bytes { st with buffer := (r.context size).2.buffer } ps := by
  obtain ⟨p, -, hreader⟩ := h.reader hr
  obtain ⟨r', -, rfl⟩ := Option.map_eq_some_iff.1 hr
  obtain ⟨b, hcontext, hw, hplace⟩ := CharReader.context_eq h.window hreader.read size
  rw [hcontext]
  exact ⟨hw, forall₂_congr h.each fun _ _ k _ => congrFun hplace k, h.disjoint⟩

lemma Visited.shows (h : Visited text source st) : ∃ ps, ps ≠ [] ∧ Shows (Text.utf8Bytes text) st ps := by
  induction h with
  | opened h => exact ⟨[{}], List.cons_ne_nil _ _, h.shows⟩
  | used _ op ih =>
    obtain ⟨ps, hne, hs⟩ := ih
    obtain ⟨ps', -, hs', hne'⟩ := hs.perform hne op
    exact ⟨ps', hne', hs'⟩
  | looked _ hr size ih =>
    obtain ⟨ps, hne, hs⟩ := ih
    exact ⟨ps, hne, hs.look hr size⟩

lemma Visited.performAll (h : Visited text source st) (ops : List StackOp) :
    Visited text source (performAll ops st).2 := by
  induction ops generalizing st with
  | nil => exact h
  | cons op ops ih => exact ih (h.used op)

/-- A reader that has read a text of one character of two bytes. -/
def behindAccent : ReaderStack :=
  (performAll [.use 0 .read, .use 0 .read] (ofReader (.ofString "é" 0))).2

end ReaderStack

end Semdoc
