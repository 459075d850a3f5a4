import Mathlib.Data.String.Basic
import Mathlib.Tactic.Lemma
import Semdoc.Proofs.Text.Utf8

/-!
# Boundaries of characters

Every character has one byte that starts it, and only bytes that continue it after that.  So a place among
the bytes of a text is one between two characters if and only if no such byte stands there, and between two
such places there are as many characters as bytes that start one.
-/

namespace Semdoc.Text

open String (utf8EncodeChar utf8Len)

/-- Whether a byte is the first of a character. -/
def startsChar (b : UInt8) : Bool := !isContinuation b

variable {bytes : List UInt8} {cs : List Char} {i j : Nat} {b : UInt8}

lemma startsChar_of_lt (h : b.toNat < 0x80) : startsChar b = true := by
  rw [startsChar, Bool.not_eq_true', ← Bool.not_eq_true, isContinuation_iff]
  omega

lemma isBoundary_iff :
    isBoundary bytes.toArray i = true ↔
      i ≤ bytes.length ∧ ∀ b, bytes[i]? = some b → startsChar b = true := by
  rw [isBoundary, List.getElem?_toArray, List.size_toArray]
  cases hb : bytes[i]? with
  | none =>
    have hle := List.getElem?_eq_none_iff.1 hb
    rw [beq_iff_eq]
    exact ⟨fun h => ⟨Nat.le_of_eq h, nofun⟩, fun h => Nat.le_antisymm h.1 hle⟩
  | some b =>
    have hlt := (List.getElem?_eq_some_iff.1 hb).1
    exact ⟨fun h => ⟨Nat.le_of_lt hlt, fun _ h' => Option.some.inj h' ▸ h⟩, fun h => h.2 b rfl⟩

lemma isBoundary_drop (hij : i ≤ j) (h : isBoundary bytes.toArray j = true) :
    isBoundary (bytes.drop i).toArray (j - i) = true := by
  rw [isBoundary_iff] at h ⊢
  rw [List.length_drop, List.getElem?_drop, Nat.add_sub_cancel' hij]
  exact ⟨Nat.sub_le_sub_right h.1 i, h.2⟩

/-! ## Bytes of a character -/

/-- The bytes of a character are one that starts it and others that continue it; there are no others after
an ASCII byte. -/
lemma exists_utf8EncodeChar_eq (c : Char) :
    ∃ b bs, utf8EncodeChar c = b :: bs ∧ startsChar b = true ∧
      (∀ d ∈ bs, startsChar d = false) ∧ (b.toNat < 0x80 → bs = []) := by
  have hn : c.val.toNat = c.toNat := rfl
  have hv : c.toNat < 0xd800 ∨ 0xdfff < c.toNat ∧ c.toNat < 0x110000 := c.valid
  have hfirst : ∀ n, n < 0x80 ∨ 0xbf < n → n < 256 → startsChar (UInt8.ofNat n) = true := by
    intro n hn hlt
    rw [startsChar, Bool.not_eq_true', ← Bool.not_eq_true, isContinuation_iff, UInt8.toNat_ofNat',
      Nat.mod_eq_of_lt hlt]
    omega
  have hrest : ∀ n, n < 64 → startsChar (UInt8.ofNat (n + 128)) = false := by
    intro n hn
    rw [startsChar, Bool.not_eq_false', isContinuation_iff, UInt8.toNat_ofNat',
      Nat.mod_eq_of_lt (by omega)]
    omega
  have hhigh : ∀ n bs, 0x80 ≤ n → n < 256 →
      (UInt8.ofNat n).toNat < 0x80 → bs = ([] : List UInt8) := by
    intro n bs hle hlt h
    rw [UInt8.toNat_ofNat', Nat.mod_eq_of_lt hlt] at h
    omega
  simp only [utf8EncodeChar, hn]
  split_ifs with h1 h2 h3
  -- one case for each number of bytes
  · exact ⟨_, _, rfl, hfirst _ (by omega) (by omega), nofun, fun _ => rfl⟩
  · refine ⟨_, _, rfl, hfirst _ (by omega) (by omega), ?_, hhigh _ _ (by omega) (by omega)⟩
    simp only [List.forall_mem_cons]
    exact ⟨hrest _ (by omega), nofun⟩
  · refine ⟨_, _, rfl, hfirst _ (by omega) (by omega), ?_, hhigh _ _ (by omega) (by omega)⟩
    simp only [List.forall_mem_cons]
    exact ⟨hrest _ (by omega), hrest _ (by omega), nofun⟩
  · refine ⟨_, _, rfl, hfirst _ (by omega) (by omega), ?_, hhigh _ _ (by omega) (by omega)⟩
    simp only [List.forall_mem_cons]
    exact ⟨hrest _ (by omega), hrest _ (by omega), hrest _ (by omega), nofun⟩

lemma length_flatMap_utf8EncodeChar (cs : List Char) :
    (cs.flatMap utf8EncodeChar).length = utf8Len cs := by
  rw [← utf8Bytes_ofList, length_utf8Bytes, byteLength, String.utf8ByteSize_ofList]

/-- There are as many characters as bytes that start one. -/
lemma countP_startsChar (cs : List Char) :
    (cs.flatMap utf8EncodeChar).countP startsChar = cs.length := by
  induction cs with
  | nil => rfl
  | cons c cs ih =>
    obtain ⟨b, bs, hc, hb, hbs, -⟩ := exists_utf8EncodeChar_eq c
    have hnone : bs.countP startsChar = 0 :=
      List.countP_eq_zero.2 fun d hd => Bool.not_eq_true _ ▸ hbs d hd
    rw [List.flatMap_cons, hc, List.countP_append, ih, List.countP_cons_of_pos hb, hnone,
      List.length_cons]
    omega

lemma isBoundary_zero (cs : List Char) :
    isBoundary (cs.flatMap utf8EncodeChar).toArray 0 = true := by
  refine isBoundary_iff.2 ⟨Nat.zero_le _, fun b hb => ?_⟩
  cases cs with
  | nil => cases hb
  | cons c cs =>
    obtain ⟨d, bs, hc, hd, -⟩ := exists_utf8EncodeChar_eq c
    rw [List.flatMap_cons, hc] at hb
    cases hb
    exact hd

/-! ## Places between characters -/

/-- A boundary is where the bytes of some of the characters end. -/
lemma exists_append_of_isBoundary (h : isBoundary (cs.flatMap utf8EncodeChar).toArray i = true) :
    ∃ before after, cs = before ++ after ∧ (before.flatMap utf8EncodeChar).length = i := by
  induction cs generalizing i with
  | nil => exact ⟨[], [], rfl, (Nat.le_zero.1 (isBoundary_iff.1 h).1).symm⟩
  | cons c cs ih =>
    obtain ⟨b, bs, hc, -, hbs, -⟩ := exists_utf8EncodeChar_eq c
    obtain hlt | hle := Nat.lt_or_ge i (utf8EncodeChar c).length
    · cases i with
      | zero => exact ⟨[], c :: cs, rfl, rfl⟩
      | succ i =>
        -- a later byte of the character continues it
        rw [hc, List.length_cons, Nat.succ_lt_succ_iff] at hlt
        have hd : ((c :: cs).flatMap utf8EncodeChar)[i + 1]? = some bs[i] := by
          rw [List.flatMap_cons, hc, List.cons_append, List.getElem?_cons_succ,
            List.getElem?_append_left hlt, List.getElem?_eq_getElem hlt]
        have hstarts := (isBoundary_iff.1 h).2 _ hd
        rw [hbs _ (List.getElem_mem hlt)] at hstarts
        cases hstarts
    · have hrest := isBoundary_drop hle h
      rw [List.flatMap_cons, List.drop_left] at hrest
      obtain ⟨before, after, rfl, hlen⟩ := ih hrest
      refine ⟨c :: before, after, rfl, ?_⟩
      rw [List.flatMap_cons, List.length_append, hlen]
      omega

/-- Where the bytes of some of the characters end is a boundary. -/
lemma isBoundary_utf8Len (before after : List Char) :
    isBoundary ((before ++ after).flatMap utf8EncodeChar).toArray (utf8Len before) = true := by
  have hafter := isBoundary_iff.1 (isBoundary_zero after)
  rw [← length_flatMap_utf8EncodeChar, isBoundary_iff, List.flatMap_append, List.length_append,
    List.getElem?_append_right le_rfl, Nat.sub_self]
  exact ⟨Nat.le_add_right _ _, hafter.2⟩

/-- A boundary in the midst of the characters splits these. -/
lemma exists_append_of_between {left right : List Char}
    (h : isBoundary ((left ++ cs ++ right).flatMap utf8EncodeChar).toArray i = true)
    (hleft : utf8Len left ≤ i) (hright : i ≤ utf8Len (left ++ cs)) :
    ∃ before after, cs = before ++ after ∧ utf8Len (left ++ before) = i := by
  have hrest := isBoundary_drop hleft h
  rw [List.append_assoc, List.flatMap_append, ← length_flatMap_utf8EncodeChar left, List.drop_left,
    length_flatMap_utf8EncodeChar] at hrest
  obtain ⟨before, after, happend, hlen⟩ := exists_append_of_isBoundary hrest
  rw [length_flatMap_utf8EncodeChar] at hlen
  rw [String.utf8Len_append] at hright
  obtain ⟨rest, rfl, -⟩ | ⟨rest, rfl, -⟩ := List.append_eq_append_iff.1 happend
  · -- the part runs on past the characters, by nothing
    rw [String.utf8Len_append] at hlen
    refine ⟨cs, [], (List.append_nil cs).symm, ?_⟩
    rw [String.utf8Len_append]
    omega
  · refine ⟨before, rest, rfl, ?_⟩
    rw [String.utf8Len_append]
    omega

/-- What stands behind a boundary are the bytes of some characters. -/
lemma exists_drop_eq (h : isBoundary (cs.flatMap utf8EncodeChar).toArray i = true) :
    ∃ ds : List Char, (cs.flatMap utf8EncodeChar).drop i = ds.flatMap utf8EncodeChar := by
  obtain ⟨before, after, rfl, rfl⟩ := exists_append_of_isBoundary h
  exact ⟨after, by rw [List.flatMap_append, List.drop_left]⟩

/-- Between two boundaries there are as many characters as bytes that start one. -/
lemma length_decodeChars_slice (hij : i ≤ j)
    (hi : isBoundary (cs.flatMap utf8EncodeChar).toArray i = true)
    (hj : isBoundary (cs.flatMap utf8EncodeChar).toArray j = true) :
    (decodeChars (((cs.flatMap utf8EncodeChar).drop i).take (j - i))).length =
      (((cs.flatMap utf8EncodeChar).drop i).take (j - i)).countP startsChar := by
  have hrest := isBoundary_drop hij hj
  obtain ⟨ds, hds⟩ := exists_drop_eq hi
  rw [hds] at hrest ⊢
  obtain ⟨before, after, rfl, hlen⟩ := exists_append_of_isBoundary hrest
  have hdecode := decodeChars_utf8Bytes_append (String.ofList before) []
  rw [List.append_nil, decodeChars, List.append_nil, utf8Bytes_ofList, String.toList_ofList] at hdecode
  rw [List.flatMap_append, ← hlen, List.take_left, hdecode, countP_startsChar]

/-- A character ends with an ASCII byte. -/
lemma isBoundary_succ (hi : (cs.flatMap utf8EncodeChar)[i]? = some b) (hb : b.toNat < 0x80) :
    isBoundary (cs.flatMap utf8EncodeChar).toArray (i + 1) = true := by
  have hlt := (List.getElem?_eq_some_iff.1 hi).1
  have hboundary : isBoundary (cs.flatMap utf8EncodeChar).toArray i = true :=
    isBoundary_iff.2 ⟨Nat.le_of_lt hlt, fun d hd => by
      rw [hi] at hd
      cases hd
      exact startsChar_of_lt hb⟩
  obtain ⟨ds, hds⟩ := exists_drop_eq hboundary
  have hget : ∀ k, (cs.flatMap utf8EncodeChar)[i + k]? = (ds.flatMap utf8EncodeChar)[k]? := by
    intro k
    rw [← hds, List.getElem?_drop]
  have hfirst := (hget 0).symm.trans hi
  cases ds with
  | nil => cases hfirst
  | cons c ds =>
    obtain ⟨d, bs, hc, -, -, hend⟩ := exists_utf8EncodeChar_eq c
    rw [List.flatMap_cons, hc] at hfirst
    cases hfirst
    refine isBoundary_iff.2 ⟨hlt, fun e he => ?_⟩
    rw [hget 1, List.flatMap_cons, hc, hend hb] at he
    exact (isBoundary_iff.1 (isBoundary_zero ds)).2 e he

end Semdoc.Text
