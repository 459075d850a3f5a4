import Mathlib.Data.List.Infix
import Mathlib.Tactic.IntervalCases
import Semdoc.Proofs.Text.Boundaries

/-!
# Cut texts

Bytes that are cut out of a text somewhere may begin within a character and end within another one.  Decoding turns
each byte that is left of the first character, and all that is left of the last one, into one replacement character.
-/

namespace Semdoc.Text

open String (utf8EncodeChar utf8Len)

variable {bytes lead tail rest : List UInt8} {cs whole : List Char} {c : Char} {b : UInt8} {n : Nat}

/-! ## The end of a character -/

lemma not_between_of_lt_left {lo hi b : UInt8} (h : b.toNat < lo.toNat) :
    ¬ (decide (lo ≤ b) && decide (b ≤ hi)) = true :=
  fun hb => Nat.not_le.2 h (between_iff.1 hb).1

lemma decodeChars_continuation (hb : startsChar b = false) (rest : List UInt8) :
    decodeChars (b :: rest) = replacementChar :: decodeChars rest := by
  rw [startsChar, Bool.not_eq_false', isContinuation_iff] at hb
  have hascii : (0x80 : UInt8).toNat ≤ b.toNat := hb.1
  have htwo : b.toNat < (0xc2 : UInt8).toNat := Nat.lt_of_le_of_lt hb.2 (by decide)
  have hthree : b.toNat < (0xe0 : UInt8).toNat := htwo.trans (by decide)
  have hfour : b.toNat < (0xf0 : UInt8).toNat := htwo.trans (by decide)
  rw [decodeChars.eq_def]
  dsimp only
  rw [if_neg (not_lt_of_le hascii), if_neg (not_between_of_lt_left htwo),
    if_neg (not_between_of_lt_left hthree), if_neg (not_between_of_lt_left hfour)]

/-- Bytes that continue a character are ill-formed, one by one, where the character does not start. -/
lemma decodeChars_continuations (h : ∀ b ∈ lead, startsChar b = false) (rest : List UInt8) :
    decodeChars (lead ++ rest) = List.replicate lead.length replacementChar ++ decodeChars rest := by
  induction lead with
  | nil => rfl
  | cons b lead ih =>
    rw [List.cons_append, decodeChars_continuation (h b List.mem_cons_self),
      ih fun d hd => h d (List.mem_cons_of_mem b hd), List.length_cons, List.replicate_succ, List.cons_append]

/-! ## The beginning of a character -/

/-- The first bytes of a character that lacks others. -/
inductive Unfinished : List UInt8 → Prop
  | one {b₀ : UInt8} (h : 0xc2 ≤ b₀.toNat ∧ b₀.toNat ≤ 0xf4) : Unfinished [b₀]
  | two {b₀ b₁ : UInt8} (h : 0xe0 ≤ b₀.toNat ∧ b₀.toNat ≤ 0xf4) (h₁ : isSecondOf b₀ b₁ = true) :
    Unfinished [b₀, b₁]
  | three {b₀ b₁ b₂ : UInt8} (h : 0xf0 ≤ b₀.toNat ∧ b₀.toNat ≤ 0xf4) (h₁ : isSecondOf b₀ b₁ = true)
    (h₂ : isContinuation b₂ = true) : Unfinished [b₀, b₁, b₂]

/-- What is there of the character is one ill-formed piece. -/
lemma Unfinished.decodeChars_eq (h : Unfinished tail) : decodeChars tail = [replacementChar] := by
  have hascii : ∀ {b : UInt8}, 0xc2 ≤ b.toNat → ¬ b < 0x80 := by
    intro b h
    have hlow : (0x80 : UInt8).toNat ≤ b.toNat := Nat.le_trans (by decide) h
    exact not_lt_of_le hlow
  cases h with
  | @one b₀ h =>
    rw [decodeChars.eq_def]
    dsimp only
    rw [if_neg (hascii h.1)]
    split_ifs <;> first | rfl | rw [decodeChars]
  | @two b₀ b₁ h h₁ =>
    have htwo : (0xdf : UInt8).toNat < b₀.toNat := Nat.lt_of_lt_of_le (by decide) h.1
    rw [decodeChars.eq_def]
    dsimp only
    rw [if_neg (hascii (Nat.le_trans (by decide) h.1)), if_neg (not_between_of_lt htwo)]
    rcases Nat.lt_or_ge (0xef : UInt8).toNat b₀.toNat with hlt | hle
    · have hfour : (0xf0 : UInt8).toNat ≤ b₀.toNat ∧ b₀.toNat ≤ (0xf4 : UInt8).toNat := ⟨hlt, h.2⟩
      rw [if_neg (not_between_of_lt hlt), if_pos (between_iff.2 hfour), if_pos h₁]
    · have hthree : (0xe0 : UInt8).toNat ≤ b₀.toNat ∧ b₀.toNat ≤ (0xef : UInt8).toNat := ⟨h.1, hle⟩
      rw [if_pos (between_iff.2 hthree), if_pos h₁]
  | @three b₀ b₁ b₂ h h₁ h₂ =>
    have htwo : (0xdf : UInt8).toNat < b₀.toNat := Nat.lt_of_lt_of_le (by decide) h.1
    have hthree : (0xef : UInt8).toNat < b₀.toNat := Nat.lt_of_lt_of_le (by decide) h.1
    have hfour : (0xf0 : UInt8).toNat ≤ b₀.toNat ∧ b₀.toNat ≤ (0xf4 : UInt8).toNat := h
    rw [decodeChars.eq_def]
    dsimp only
    rw [if_neg (hascii (Nat.le_trans (by decide) h.1)), if_neg (not_between_of_lt htwo),
      if_neg (not_between_of_lt hthree), if_pos (between_iff.2 hfour), if_pos h₁, if_pos h₂]

/-- A character of which some bytes are taken, but not all, is unfinished. -/
lemma unfinished_take (hpos : 0 < n) (hlt : n < (utf8EncodeChar c).length) :
    Unfinished ((utf8EncodeChar c).take n) := by
  have hn : c.val.toNat = c.toNat := rfl
  have hv : c.toNat < 0xd800 ∨ 0xdfff < c.toNat ∧ c.toNat < 0x110000 := c.valid
  have hb : ∀ n, n < 256 → (UInt8.ofNat n).toNat = n := by
    intro n hn
    rw [UInt8.toNat_ofNat', Nat.mod_eq_of_lt hn]
  simp only [utf8EncodeChar, hn] at hlt ⊢
  split_ifs at hlt ⊢ with h1 h2 h3
  -- one case for each number of bytes, and in it one for each number of bytes that are taken
  · change n < 1 at hlt
    omega
  · change n < 2 at hlt
    have e0 := hb (c.toNat / 64 % 32 + 192) (by omega)
    interval_cases n
    exact .one (by omega)
  · change n < 3 at hlt
    have e0 := hb (c.toNat / 4096 % 16 + 224) (by omega)
    have e1 := hb (c.toNat / 64 % 64 + 128) (by omega)
    interval_cases n
    · exact .one (by omega)
    · exact .two (by omega) (by apply isSecondOf_of_toNat <;> omega)
  · change n < 4 at hlt
    have e0 := hb (c.toNat / 262144 % 8 + 240) (by omega)
    have e1 := hb (c.toNat / 4096 % 64 + 128) (by omega)
    have e2 := hb (c.toNat / 64 % 64 + 128) (by omega)
    interval_cases n
    · exact .one (by omega)
    · exact .two (by omega) (by apply isSecondOf_of_toNat <;> omega)
    · refine .three (by omega) (by apply isSecondOf_of_toNat <;> omega) ?_
      rw [isContinuation_iff]
      omega

lemma Unfinished.length_le (h : Unfinished tail) : tail.length ≤ 3 := by
  cases h <;> simp

lemma Unfinished.length_pos (h : Unfinished tail) : 0 < tail.length := by
  cases h <;> simp

/-! ## Pieces of texts -/

/-- Some bytes are what is left of one character, all bytes of others, and what is there of the next one. -/
structure Piece (bytes lead : List UInt8) (whole : List Char) (tail : List UInt8) : Prop where
  eq : bytes = lead ++ whole.flatMap utf8EncodeChar ++ tail
  continues : ∀ b ∈ lead, startsChar b = false
  lead_le : lead.length ≤ 3
  ends : tail = [] ∨ Unfinished tail

/-- The number of bytes by which decoding makes what is there of a character longer. -/
def tailExcess (tail : List UInt8) : Nat := if tail = [] then 0 else 3 - tail.length

namespace Piece

lemma decodeChars_eq (h : Piece bytes lead whole tail) :
    decodeChars bytes = List.replicate lead.length replacementChar ++ whole ++
      (if tail = [] then [] else [replacementChar]) := by
  have hwhole := decodeChars_utf8Bytes_append (String.ofList whole) tail
  rw [utf8Bytes_ofList, String.toList_ofList] at hwhole
  rw [h.eq, List.append_assoc, decodeChars_continuations h.continues, hwhole, List.append_assoc]
  congr 2
  rcases h.ends with rfl | htail
  · rw [decodeChars, if_pos rfl]
  · rw [htail.decodeChars_eq, if_neg (List.ne_nil_of_length_pos htail.length_pos)]

/-- Each byte that is left of the first character takes two bytes more, and the last one is filled up to three. -/
lemma byteLength_eq (h : Piece bytes lead whole tail) :
    byteLength (decodeUtf8 bytes) = bytes.length + 2 * lead.length + tailExcess tail := by
  have hlead : ∀ n, utf8Len (List.replicate n replacementChar) = 3 * n := by
    intro n
    induction n with
    | zero => rfl
    | succ n ih =>
      have hsize : replacementChar.utf8Size = 3 := rfl
      rw [List.replicate_succ, String.utf8Len_cons, ih, hsize]
      omega
  have hlength := congrArg List.length h.eq
  rw [List.length_append, List.length_append, length_flatMap_utf8EncodeChar] at hlength
  rw [byteLength, decodeUtf8, String.utf8ByteSize_ofList, h.decodeChars_eq, String.utf8Len_append,
    String.utf8Len_append, hlead, tailExcess]
  rcases h.ends with rfl | htail
  · rw [if_pos rfl, if_pos rfl]
    simp only [List.length_nil] at hlength
    simp only [String.utf8Len_nil]
    omega
  · have hne : tail ≠ [] := List.ne_nil_of_length_pos htail.length_pos
    have hthree : utf8Len [replacementChar] = 3 := rfl
    have hle := htail.length_le
    rw [if_neg hne, if_neg hne, hthree]
    omega

end Piece

/-- A text is cut within a character, or behind one. -/
lemma exists_piece_take (cs : List Char) (n : Nat) :
    ∃ whole tail, Piece ((cs.flatMap utf8EncodeChar).take n) [] whole tail ∧ whole <+: cs := by
  induction cs generalizing n with
  | nil => exact ⟨[], [], ⟨List.take_nil, nofun, Nat.zero_le _, .inl rfl⟩, List.nil_prefix⟩
  | cons c cs ih =>
    rw [List.flatMap_cons, List.take_append]
    obtain hlt | hle := Nat.lt_or_ge n (utf8EncodeChar c).length
    · refine ⟨[], (utf8EncodeChar c).take n, ⟨?_, nofun, Nat.zero_le _, ?_⟩, List.nil_prefix⟩
      · rw [Nat.sub_eq_zero_of_le hlt.le, List.take_zero, List.append_nil]
        rfl
      · rcases Nat.eq_zero_or_pos n with rfl | hpos
        · exact .inl List.take_zero
        · exact .inr (unfinished_take hpos hlt)
    · obtain ⟨whole, tail, h, hprefix⟩ := ih (n - (utf8EncodeChar c).length)
      refine ⟨c :: whole, tail, ⟨?_, nofun, Nat.zero_le _, h.ends⟩, List.cons_prefix_cons.2 ⟨rfl, hprefix⟩⟩
      rw [List.take_of_length_le hle, h.eq, List.flatMap_cons]
      simp only [List.nil_append, List.append_assoc]

/-- What follows some bytes of a text begins within a character, or with one. -/
lemma exists_drop_eq_append (cs : List Char) (n : Nat) :
    ∃ (lead : List UInt8) (ds : List Char), (cs.flatMap utf8EncodeChar).drop n = lead ++ ds.flatMap utf8EncodeChar ∧
      (∀ b ∈ lead, startsChar b = false) ∧ lead.length ≤ 3 := by
  induction cs generalizing n with
  | nil => exact ⟨[], [], List.drop_nil, nofun, Nat.zero_le _⟩
  | cons c cs ih =>
    obtain hlt | hle := Nat.lt_or_ge n (utf8EncodeChar c).length
    · cases n with
      | zero => exact ⟨[], c :: cs, rfl, nofun, Nat.zero_le _⟩
      | succ n =>
        obtain ⟨b, bs, hc, -, hbs, -⟩ := exists_utf8EncodeChar_eq c
        have hlength := String.length_utf8EncodeChar c
        have hfour := c.utf8Size_le_four
        rw [hc, List.length_cons] at hlength
        rw [hc, List.length_cons] at hlt
        refine ⟨bs.drop n, cs, ?_, fun d hd => hbs d (List.mem_of_mem_drop hd), ?_⟩
        · rw [List.flatMap_cons, hc, List.cons_append, List.drop_succ_cons,
            List.drop_append_of_le_length (by omega)]
        · rw [List.length_drop]
          omega
    · obtain ⟨lead, ds, hdrop, hlead⟩ := ih (n - (utf8EncodeChar c).length)
      refine ⟨lead, ds, ?_, hlead⟩
      rw [List.flatMap_cons, List.drop_append, List.drop_of_length_le hle, List.nil_append, hdrop]

/-- Bytes that follow each other in a text are a piece of it. -/
lemma exists_piece_of_infix (h : bytes <:+: cs.flatMap utf8EncodeChar) :
    ∃ lead whole tail, Piece bytes lead whole tail := by
  obtain ⟨before, after, h⟩ := h
  obtain ⟨lead, ds, hdrop, hlead, hle⟩ := exists_drop_eq_append cs before.length
  have hbytes : bytes = (lead ++ ds.flatMap utf8EncodeChar).take bytes.length := by
    rw [← hdrop, ← h, List.append_assoc, List.drop_left, List.take_left]
  rw [List.take_append] at hbytes
  obtain ⟨whole, tail, hpiece, -⟩ := exists_piece_take ds (bytes.length - lead.length)
  refine ⟨lead.take bytes.length, whole, tail, ?_, fun b hb => hlead b (List.mem_of_mem_take hb), ?_, hpiece.ends⟩
  · rw [List.append_assoc]
    conv_lhs => rw [hbytes, hpiece.eq, List.nil_append]
  · rw [List.length_take]
    omega

/-! ## Bytes of texts -/

/-- Some bytes are those of a text. -/
def IsText (bytes : List UInt8) : Prop := ∃ cs : List Char, bytes = cs.flatMap utf8EncodeChar

namespace IsText

lemma nil : IsText [] := ⟨[], rfl⟩

lemma char (c : Char) : IsText (utf8EncodeChar c) := ⟨[c], (List.flatMap_singleton ..).symm⟩

lemma ascii (hb : b.toNat < 0x80) : IsText [b] := by
  have hall : ∀ n < 0x80, utf8EncodeChar (Char.ofNat n) = [UInt8.ofNat n] := by decide
  refine ⟨[Char.ofNat b.toNat], ?_⟩
  rw [List.flatMap_singleton, hall b.toNat hb, UInt8.ofNat_toNat]

lemma append (h : IsText bytes) (h' : IsText rest) : IsText (bytes ++ rest) := by
  obtain ⟨cs, rfl⟩ := h
  obtain ⟨ds, rfl⟩ := h'
  exact ⟨cs ++ ds, List.flatMap_append.symm⟩

lemma of_append (h : IsText bytes) (happend : IsText (bytes ++ rest)) : IsText rest := by
  obtain ⟨cs, rfl⟩ := h
  obtain ⟨ds, hds⟩ := happend
  have hdecode := decodeChars_utf8Bytes_append (String.ofList cs) rest
  have hall := decodeChars_utf8Bytes_append (String.ofList ds) []
  rw [List.append_nil, decodeChars, List.append_nil, utf8Bytes_ofList, ← hds, ← utf8Bytes_ofList cs,
    hdecode, String.toList_ofList, String.toList_ofList] at hall
  rw [← hall, List.flatMap_append] at hds
  exact ⟨_, List.append_cancel_left hds⟩

lemma take (h : IsText bytes) (hn : isBoundary bytes.toArray n = true) : IsText (bytes.take n) := by
  obtain ⟨cs, rfl⟩ := h
  obtain ⟨before, after, rfl, rfl⟩ := exists_append_of_isBoundary hn
  exact ⟨before, by rw [List.flatMap_append, List.take_left]⟩

lemma drop (h : IsText bytes) (hn : isBoundary bytes.toArray n = true) : IsText (bytes.drop n) :=
  (h.take hn).of_append (by rwa [List.take_append_drop])

/-- A text is cut between two characters in front of a byte that starts one. -/
lemma take_of_startsChar (h : IsText bytes) (hn : bytes[n]? = some b) (hb : startsChar b = true) :
    IsText (bytes.take n) := by
  refine h.take (isBoundary_iff.2 ⟨(List.getElem?_eq_some_iff.1 hn).1.le, fun d hd => ?_⟩)
  rw [hn] at hd
  cases hd
  exact hb

lemma take_of_ascii (h : IsText bytes) (hn : bytes[n]? = some b) (hb : b.toNat < 0x80) :
    IsText (bytes.take n) :=
  h.take_of_startsChar hn (startsChar_of_lt hb)

lemma startsChar_head (h : IsText (b :: bytes)) : startsChar b = true := by
  obtain ⟨cs, hcs⟩ := h
  have hzero := isBoundary_zero cs
  rw [← hcs] at hzero
  exact (isBoundary_iff.1 hzero).2 b rfl

end IsText

/-! ## Where a piece is not cut -/

lemma Unfinished.exists_startsChar (h : Unfinished tail) : ∃ b rest, tail = b :: rest ∧ startsChar b = true := by
  have hlead : ∀ {b : UInt8}, 0xc2 ≤ b.toNat → startsChar b = true := by
    intro b hb
    rw [startsChar, Bool.not_eq_true', ← Bool.not_eq_true, isContinuation_iff]
    omega
  cases h with
  | one h => exact ⟨_, _, rfl, hlead h.1⟩
  | two h => exact ⟨_, _, rfl, hlead (Nat.le_trans (by decide) h.1)⟩
  | three h => exact ⟨_, _, rfl, hlead (Nat.le_trans (by decide) h.1)⟩

/-- No text consists of the beginning of a character, which would be decoded as a replacement. -/
lemma Unfinished.not_isText (h : Unfinished tail) : ¬ IsText tail := by
  rintro ⟨cs, rfl⟩
  have hdecode := decodeChars_utf8Bytes_append (String.ofList cs) []
  rw [utf8Bytes_ofList, String.toList_ofList, List.append_nil, h.decodeChars_eq, decodeChars, List.append_nil]
    at hdecode
  rw [← hdecode] at h
  have hbytes : [replacementChar].flatMap utf8EncodeChar = [0xef, 0xbf, 0xbd] := by decide
  rw [hbytes] at h
  cases h with
  | three h => exact absurd h.1 (by decide)

/-- A piece with which a text begins does not begin within a character. -/
lemma Piece.lead_eq_nil (h : Piece bytes lead whole tail) (htext : IsText (bytes ++ rest)) : lead = [] := by
  cases hlead : lead with
  | nil => rfl
  | cons b lead =>
    subst hlead
    rw [h.eq] at htext
    have hcontinues := h.continues b List.mem_cons_self
    rw [htext.startsChar_head] at hcontinues
    cases hcontinues

/-- A piece with which a text ends does not end within a character. -/
lemma Piece.tail_eq_nil (h : Piece bytes lead whole tail) (htext : IsText (rest ++ bytes)) : tail = [] := by
  refine h.ends.resolve_right fun htail => htail.not_isText ?_
  obtain ⟨b, more, hb, hstart⟩ := htail.exists_startsChar
  -- the character that is not finished starts where the text can be cut
  have hsplit : rest ++ bytes = (rest ++ lead ++ whole.flatMap utf8EncodeChar) ++ tail := by
    rw [h.eq]
    simp only [List.append_assoc]
  rw [hsplit] at htext
  have hget : (rest ++ lead ++ whole.flatMap utf8EncodeChar ++ tail)[
      (rest ++ lead ++ whole.flatMap utf8EncodeChar).length]? = some b := by
    rw [hb, List.getElem?_append_right le_rfl, Nat.sub_self, List.getElem?_cons_zero]
  have hbefore := htext.take_of_startsChar hget hstart
  rw [List.take_left] at hbefore
  exact hbefore.of_append htext

/-- Two pieces that meet between two characters are one piece. -/
lemma Piece.append {bytes' tail' : List UInt8} {whole' : List Char} (h : Piece bytes lead whole [])
    (h' : Piece bytes' [] whole' tail') : Piece (bytes ++ bytes') lead (whole ++ whole') tail' := by
  refine ⟨?_, h.continues, h.lead_le, h'.ends⟩
  rw [h.eq, h'.eq, List.flatMap_append]
  simp only [List.append_nil, List.nil_append, List.append_assoc]

/-! ## Any bytes -/

/-- No byte turns into more than three. -/
lemma utf8Len_decodeChars_le (bytes : List UInt8) : utf8Len (decodeChars bytes) ≤ 3 * bytes.length := by
  have hreplacement : replacementChar.utf8Size = 3 := rfl
  have hascii : ∀ n < 0x80, (Char.ofNat n).utf8Size ≤ 3 := by decide
  have hfour : ∀ n, (Char.ofNat n).utf8Size ≤ 4 := fun n => Char.utf8Size_le_four _
  fun_induction decodeChars bytes
  case case1 => exact Nat.zero_le _
  case case2 b rest hb ih =>
    have hone := hascii b.toNat (UInt8.lt_iff_toNat_lt.1 hb)
    rw [String.utf8Len_cons, List.length_cons]
    omega
  -- a replacement takes three bytes for one at least, and any other character four for two at least
  all_goals
    simp only [String.utf8Len_cons, String.utf8Len_nil, List.length_cons, hreplacement] at *
    grind

end Semdoc.Text
