import Mathlib.Tactic.Lemma
import Mathlib.Tactic.SplitIfs
import Semdoc.Text.Utf8

/-!
# Bytes of texts

The bytes of a text are those of its characters in order, and decoding them gives the text again.
-/

namespace Semdoc.Text

/-- What holds of all bytes given by numbers holds of all bytes. -/
lemma forall_byte {P : UInt8 → Prop} (h : ∀ n < 256, P (UInt8.ofNat n)) (b : UInt8) : P b := by
  have hb := h b.toNat b.toNat_lt
  rwa [UInt8.ofNat_toNat] at hb

/-- What holds for all ASCII characters can be decided. -/
lemma forall_ascii {P : Char → Prop} (h : ∀ n < 0x80, P (Char.ofNat n)) {c : Char}
    (hc : c.toNat ≤ 0x7f) : P c := by
  have hn := h c.toNat (Nat.lt_succ_of_le hc)
  rwa [Char.ofNat_toNat] at hn

lemma toList_byteArray (bs : ByteArray) : bs.toList = bs.data.toList := by
  have hloop : ∀ (i : Nat) (r : List UInt8),
      ByteArray.toList.loop bs i r = r.reverse ++ bs.data.toList.drop i := by
    intro i r
    fun_induction ByteArray.toList.loop bs i r with
    | case1 i r hi ih =>
      have hi' : i < bs.data.toList.length := hi
      have hget : bs.get! i = bs.data.toList[i] := getElem!_pos bs.data i hi
      rw [ih, List.drop_eq_getElem_cons hi', hget]
      simp
    | case2 i r hi =>
      have hi' : bs.data.toList.length ≤ i := Nat.not_lt.1 hi
      rw [List.drop_eq_nil_of_le hi', List.append_nil]
  exact hloop 0 []

/-- The bytes of a text are those of its characters. -/
lemma utf8Bytes_eq (s : String) : utf8Bytes s = s.toList.flatMap String.utf8EncodeChar := by
  rw [utf8Bytes, toList_byteArray]
  show s.toByteArray.data.toList = _
  rw [← String.utf8Encode_toList, List.utf8Encode, List.toList_data_toByteArray]

lemma utf8Bytes_ofList (cs : List Char) :
    utf8Bytes (String.ofList cs) = cs.flatMap String.utf8EncodeChar := by
  rw [utf8Bytes_eq, String.toList_ofList]

lemma utf8Bytes_append (s t : String) : utf8Bytes (s ++ t) = utf8Bytes s ++ utf8Bytes t := by
  rw [utf8Bytes_eq, String.toList_append, List.flatMap_append, utf8Bytes_eq, utf8Bytes_eq]

lemma length_utf8Bytes (s : String) : (utf8Bytes s).length = byteLength s := by
  rw [utf8Bytes, toList_byteArray, Array.length_toList]
  rfl

/-! ## Characters -/

lemma utf8EncodeChar_of_ascii {c : Char} (hc : c.toNat ≤ 0x7f) :
    String.utf8EncodeChar c = [UInt8.ofNat c.toNat] := if_pos hc

/-- All bytes of a character beyond ASCII are beyond ASCII. -/
lemma le_of_mem_utf8EncodeChar {c : Char} (hc : 0x7f < c.toNat) {b : UInt8}
    (hb : b ∈ String.utf8EncodeChar c) : 0x80 ≤ b.toNat := by
  have hn : c.val.toNat = c.toNat := rfl
  simp only [String.utf8EncodeChar, hn] at hb
  split_ifs at hb with h1 h2 h3
  · omega
  all_goals
    simp only [List.mem_cons, List.not_mem_nil, or_false] at hb
  · rcases hb with rfl | rfl <;> rw [UInt8.toNat_ofNat'] <;> omega
  · rcases hb with rfl | rfl | rfl <;> rw [UInt8.toNat_ofNat'] <;> omega
  · rcases hb with rfl | rfl | rfl | rfl <;> rw [UInt8.toNat_ofNat'] <;> omega

lemma between_iff {lo hi b : UInt8} :
    (decide (lo ≤ b) && decide (b ≤ hi)) = true ↔ lo.toNat ≤ b.toNat ∧ b.toNat ≤ hi.toNat := by
  rw [Bool.and_eq_true, decide_eq_true_eq, decide_eq_true_eq, UInt8.le_iff_toNat_le,
    UInt8.le_iff_toNat_le]

lemma isContinuation_iff {b : UInt8} :
    isContinuation b = true ↔ 0x80 ≤ b.toNat ∧ b.toNat ≤ 0xbf := between_iff

/-- The second bytes that may follow a lead byte, as numbers. -/
lemma isSecondOf_of_toNat {b c : UInt8} (hc : 0x80 ≤ c.toNat ∧ c.toNat ≤ 0xbf)
    (he0 : b.toNat = 0xe0 → 0xa0 ≤ c.toNat) (hed : b.toNat = 0xed → c.toNat ≤ 0x9f)
    (hf0 : b.toNat = 0xf0 → 0x90 ≤ c.toNat) (hf4 : b.toNat = 0xf4 → c.toNat ≤ 0x8f) :
    isSecondOf b c = true := by
  have heq : ∀ n : UInt8, (b == n) = true → b.toNat = n.toNat := by
    intro n h
    rw [eq_of_beq h]
  unfold isSecondOf
  split_ifs with h1 h2 h3 h4
  · exact between_iff.2 ⟨he0 (heq _ h1), hc.2⟩
  · exact between_iff.2 ⟨hc.1, hed (heq _ h2)⟩
  · exact between_iff.2 ⟨hf0 (heq _ h3), hc.2⟩
  · exact between_iff.2 ⟨hc.1, hf4 (heq _ h4)⟩
  · exact isContinuation_iff.2 hc

section Decode

variable {b₀ b₁ b₂ b₃ : UInt8} (rest : List UInt8)

lemma decodeChars_one (h : b₀.toNat < 0x80) :
    decodeChars (b₀ :: rest) = Char.ofNat b₀.toNat :: decodeChars rest := by
  rw [decodeChars.eq_def]
  exact if_pos (UInt8.lt_iff_toNat_lt.2 h)

lemma not_lt_of_le {lo b : UInt8} (h : lo.toNat ≤ b.toNat) : ¬ b < lo :=
  fun hb => Nat.not_lt.2 h (UInt8.lt_iff_toNat_lt.1 hb)

lemma not_between_of_lt {lo hi b : UInt8} (h : hi.toNat < b.toNat) :
    ¬ (decide (lo ≤ b) && decide (b ≤ hi)) = true :=
  fun hb => Nat.not_le.2 h (between_iff.1 hb).2

lemma decodeChars_two (h : 0xc2 ≤ b₀.toNat ∧ b₀.toNat ≤ 0xdf) (h₁ : isContinuation b₁ = true) :
    decodeChars (b₀ :: b₁ :: rest) =
      Char.ofNat (b₀.toNat % 32 * 64 + payload b₁) :: decodeChars rest := by
  have hn : (0x80 : UInt8).toNat ≤ b₀.toNat := Nat.le_trans (by decide) h.1
  rw [decodeChars.eq_def]
  dsimp only
  have hb : (0xc2 : UInt8).toNat ≤ b₀.toNat ∧ b₀.toNat ≤ (0xdf : UInt8).toNat := h
  rw [if_neg (not_lt_of_le hn), if_pos (between_iff.2 hb), if_pos h₁]

lemma decodeChars_three (h : 0xe0 ≤ b₀.toNat ∧ b₀.toNat ≤ 0xef) (h₁ : isSecondOf b₀ b₁ = true)
    (h₂ : isContinuation b₂ = true) :
    decodeChars (b₀ :: b₁ :: b₂ :: rest) =
      Char.ofNat (b₀.toNat % 16 * 4096 + payload b₁ * 64 + payload b₂) :: decodeChars rest := by
  have hn : (0x80 : UInt8).toNat ≤ b₀.toNat := Nat.le_trans (by decide) h.1
  have hd : (0xdf : UInt8).toNat < b₀.toNat := Nat.lt_of_lt_of_le (by decide) h.1
  rw [decodeChars.eq_def]
  dsimp only
  have hb : (0xe0 : UInt8).toNat ≤ b₀.toNat ∧ b₀.toNat ≤ (0xef : UInt8).toNat := h
  rw [if_neg (not_lt_of_le hn), if_neg (not_between_of_lt hd), if_pos (between_iff.2 hb),
    if_pos h₁, if_pos h₂]

lemma decodeChars_four (h : 0xf0 ≤ b₀.toNat ∧ b₀.toNat ≤ 0xf4) (h₁ : isSecondOf b₀ b₁ = true)
    (h₂ : isContinuation b₂ = true) (h₃ : isContinuation b₃ = true) :
    decodeChars (b₀ :: b₁ :: b₂ :: b₃ :: rest) =
      Char.ofNat (b₀.toNat % 8 * 262144 + payload b₁ * 4096 + payload b₂ * 64 + payload b₃) ::
        decodeChars rest := by
  have hn : (0x80 : UInt8).toNat ≤ b₀.toNat := Nat.le_trans (by decide) h.1
  have hd : (0xdf : UInt8).toNat < b₀.toNat := Nat.lt_of_lt_of_le (by decide) h.1
  have he : (0xef : UInt8).toNat < b₀.toNat := Nat.lt_of_lt_of_le (by decide) h.1
  rw [decodeChars.eq_def]
  dsimp only
  have hb : (0xf0 : UInt8).toNat ≤ b₀.toNat ∧ b₀.toNat ≤ (0xf4 : UInt8).toNat := h
  rw [if_neg (not_lt_of_le hn), if_neg (not_between_of_lt hd), if_neg (not_between_of_lt he),
    if_pos (between_iff.2 hb), if_pos h₁, if_pos h₂, if_pos h₃]

end Decode

/-- Decoding takes the bytes of one character after the other. -/
lemma decodeChars_append (c : Char) (rest : List UInt8) :
    decodeChars (String.utf8EncodeChar c ++ rest) = c :: decodeChars rest := by
  have hn : c.val.toNat = c.toNat := rfl
  have hv : c.toNat < 0xd800 ∨ 0xdfff < c.toNat ∧ c.toNat < 0x110000 := c.valid
  have hc : ∀ n, n = c.toNat → Char.ofNat n = c := by
    rintro _ rfl
    exact Char.ofNat_toNat c
  have hb : ∀ n, n < 256 → (UInt8.ofNat n).toNat = n := by
    intro n hn
    rw [UInt8.toNat_ofNat', Nat.mod_eq_of_lt hn]
  simp only [String.utf8EncodeChar, hn]
  split_ifs with h1 h2 h3
  -- one case for each number of bytes, in which the ranges of the bytes have to be shown
  · have e := hb c.toNat (by omega)
    rw [List.singleton_append, decodeChars_one, hc] <;> omega
  · have e0 := hb (c.toNat / 64 % 32 + 192) (by omega)
    have e1 := hb (c.toNat % 64 + 128) (by omega)
    simp only [List.cons_append, List.nil_append]
    rw [decodeChars_two, hc]
    · rw [payload]
      omega
    · omega
    · rw [isContinuation_iff]
      omega
  · have e0 := hb (c.toNat / 4096 % 16 + 224) (by omega)
    have e1 := hb (c.toNat / 64 % 64 + 128) (by omega)
    have e2 := hb (c.toNat % 64 + 128) (by omega)
    simp only [List.cons_append, List.nil_append]
    rw [decodeChars_three, hc]
    · rw [payload, payload]
      omega
    · omega
    · apply isSecondOf_of_toNat <;> omega
    · rw [isContinuation_iff]
      omega
  · have e0 := hb (c.toNat / 262144 % 8 + 240) (by omega)
    have e1 := hb (c.toNat / 4096 % 64 + 128) (by omega)
    have e2 := hb (c.toNat / 64 % 64 + 128) (by omega)
    have e3 := hb (c.toNat % 64 + 128) (by omega)
    simp only [List.cons_append, List.nil_append]
    rw [decodeChars_four, hc]
    · rw [payload, payload, payload]
      omega
    · omega
    · apply isSecondOf_of_toNat <;> omega
    · rw [isContinuation_iff]
      omega
    · rw [isContinuation_iff]
      omega

/-- Decoding takes the bytes of a text. -/
lemma decodeChars_utf8Bytes_append (s : String) (rest : List UInt8) :
    decodeChars (utf8Bytes s ++ rest) = s.toList ++ decodeChars rest := by
  rw [utf8Bytes_eq]
  induction s.toList with
  | nil => rfl
  | cons c cs ih =>
    rw [List.flatMap_cons, List.append_assoc, decodeChars_append, ih, List.cons_append]

/-- Bytes of ASCII characters stand for these. -/
lemma decodeChars_of_ascii {bytes : List UInt8} (h : ∀ b ∈ bytes, b.toNat < 0x80) :
    decodeChars bytes = bytes.map fun b => Char.ofNat b.toNat := by
  induction bytes with
  | nil => rw [decodeChars, List.map_nil]
  | cons b bytes ih =>
    rw [decodeChars_one bytes (h b List.mem_cons_self), List.map_cons,
      ih fun c hc => h c (List.mem_cons_of_mem b hc)]

/-- Decoding gives the text back. -/
theorem decodeUtf8_utf8Bytes (s : String) : decodeUtf8 (utf8Bytes s) = s := by
  have h := decodeChars_utf8Bytes_append s []
  rw [List.append_nil, decodeChars, List.append_nil] at h
  rw [decodeUtf8, h, String.ofList_toList]

end Semdoc.Text
