import Mathlib.Algebra.Group.Nat.Defs
import Semdoc.Json.Printer
import Semdoc.Literal.Quoted
import Semdoc.Proofs.Literal.Moves
import Semdoc.Proofs.Text.Utf8

/-!
# Quoted strings

A string that is written with JSON escapes reads back as the same string.
-/

namespace Semdoc

namespace Numeral

/-- Reading one more digit of a number with a fixed number of digits. -/
lemma moves_readFixedFrom {length base value count d : Nat} {c : UInt8} {t : List UInt8}
    {a : Option Nat} {q : Spot} (hc : CharReader.isBreak c = false)
    (hd : digitOf? base c = some d) (hv : value * base + d < 2 ^ 32)
    (h : Moves (readFixedFrom length base count (value * base + d)) (t, t) a q) :
    Moves (readFixedFrom length base (count + 1) value) (c :: t, c :: t) a q := by
  rw [readFixedFrom]
  apply Moves.offset_bind
  intro start
  refine (Moves.peek_cons hc _ t).bind ?_
  simp only [Option.bind_some, hd]
  refine (Moves.consumePeek _ _).bind ?_
  rw [if_pos hv]
  exact h

end Numeral

namespace Literal

open CharReader (isBreak)

/-- The bytes with which a character is written inside a string. -/
def escaped (c : Char) : List UInt8 := (Json.escapeChar c).flatMap String.utf8EncodeChar

lemma utf8Bytes_quote (s : String) :
    Text.utf8Bytes (Json.quote s) = doubleQuote :: (s.toList.flatMap escaped ++ [doubleQuote]) := by
  have hq : String.utf8EncodeChar '"' = [doubleQuote] := rfl
  rw [Json.quote, Text.utf8Bytes_ofList, List.flatMap_append, List.flatMap_cons, hq,
    List.flatMap_assoc]
  simp only [List.flatMap_cons, List.flatMap_nil, hq, List.append_nil, List.cons_append,
    List.nil_append]
  rfl

/-- A byte that stands for itself inside a string. -/
def Plain (c : UInt8) : Prop := isBreak c = false ∧ c ≠ doubleQuote ∧ c ≠ backslash

/-- The byte of the hexadecimal digit of a number below sixteen. -/
def hexByte (n : Nat) : UInt8 := UInt8.ofNat (Json.hexDigit n).toNat

lemma hexByte_spec : ∀ n < 16, String.utf8EncodeChar (Json.hexDigit n) = [hexByte n] ∧
    isBreak (hexByte n) = false ∧ Numeral.digitOf? 16 (hexByte n) = some n := by
  decide

/-- The ways to write a character inside a string: with a letter, with its number, or as it is. -/
inductive Escapes (c : Char) : List UInt8 → Prop
  | letter {e b : UInt8} (hbytes : String.utf8EncodeChar c = [b]) (he : isBreak e = false)
    (hb : simpleEscape? e = some b) : Escapes c [backslash, e]
  | unicode (hlow : c.toNat < 32) :
    Escapes c [backslash, 117, 48, 48, hexByte (c.toNat / 16), hexByte (c.toNat % 16)]
  | plain (hplain : ∀ b ∈ String.utf8EncodeChar c, Plain b) : Escapes c (String.utf8EncodeChar c)

/-- The bytes of a character that is written as it is stand for themselves. -/
lemma plain_of_mem_utf8EncodeChar {c : Char} (hlow : 32 ≤ c.toNat) (hq : c ≠ '"') (hs : c ≠ '\\')
    {b : UInt8} (hb : b ∈ String.utf8EncodeChar c) : Plain b := by
  have hplain : ∀ {b : UInt8}, 14 ≤ b.toNat → b.toNat ≠ 34 → b.toNat ≠ 92 → Plain b := by
    intro b h14 h34 h92
    have hne : ∀ n : UInt8, b.toNat ≠ n.toNat → (b == n) = false := by
      intro n hn
      exact beq_eq_false_iff_ne.2 fun e => hn (congrArg UInt8.toNat e)
    have h10 : (b == CharReader.lineFeed) = false :=
      hne 10 (Nat.ne_of_gt (Nat.lt_of_lt_of_le (by decide) h14))
    have h13 : (b == CharReader.carriageReturn) = false :=
      hne 13 (Nat.ne_of_gt (Nat.lt_of_lt_of_le (by decide) h14))
    refine ⟨?_, ne_of_beq_false (hne 34 h34), ne_of_beq_false (hne 92 h92)⟩
    rw [isBreak, h10, h13, Bool.or_false]
  -- the bytes of other characters than ASCII ones are all above these
  rcases Nat.lt_or_ge 0x7f c.toNat with hbig | hsmall
  · have h80 := Text.le_of_mem_utf8EncodeChar hbig hb
    exact hplain (by omega) (by omega) (by omega)
  · rw [Text.utf8EncodeChar_of_ascii hsmall, List.mem_singleton] at hb
    have hn : b.toNat = c.toNat := by
      rw [hb, UInt8.toNat_ofNat', Nat.mod_eq_of_lt (by omega)]
    have hq' : c.toNat ≠ 34 := fun e => hq (Char.toNat_inj.1 e)
    have hs' : c.toNat ≠ 92 := fun e => hs (Char.toNat_inj.1 e)
    exact hplain (by omega) (by omega) (by omega)

/-- Every character is written in one of these ways. -/
lemma escapes_escaped (c : Char) : Escapes c (escaped c) := by
  by_cases h1 : c = '"'
  · rw [h1]
    exact @Escapes.letter _ 34 34 rfl rfl rfl
  by_cases h2 : c = '\\'
  · rw [h2]
    exact @Escapes.letter _ 92 92 rfl rfl rfl
  by_cases h3 : c = '\x08'
  · rw [h3]
    exact @Escapes.letter _ 98 8 rfl rfl rfl
  by_cases h4 : c = '\t'
  · rw [h4]
    exact @Escapes.letter _ 116 9 rfl rfl rfl
  by_cases h5 : c = '\n'
  · rw [h5]
    exact @Escapes.letter _ 110 10 rfl rfl rfl
  by_cases h6 : c = '\x0c'
  · rw [h6]
    exact @Escapes.letter _ 102 12 rfl rfl rfl
  by_cases h7 : c = '\r'
  · rw [h7]
    exact @Escapes.letter _ 114 13 rfl rfl rfl
  -- no letter is left for the other control characters
  have hchar : Json.escapeChar c = if c.toNat < 0x20 then
      ['\\', 'u', '0', '0', Json.hexDigit (c.toNat / 16), Json.hexDigit (c.toNat % 16)]
      else [c] := by
    simp only [Json.escapeChar, h1, h2, h3, h4, h5, h6, h7, if_false]
  by_cases h8 : c.toNat < 0x20
  · obtain ⟨he1, -, -⟩ := hexByte_spec (c.toNat / 16) (by omega)
    obtain ⟨he2, -, -⟩ := hexByte_spec (c.toNat % 16) (by omega)
    have hesc : escaped c = [backslash, 117, 48, 48, hexByte (c.toNat / 16),
        hexByte (c.toNat % 16)] := by
      rw [escaped, hchar, if_pos h8]
      simp only [List.flatMap_cons, List.flatMap_nil, he1, he2]
      rfl
    rw [hesc]
    exact .unicode h8
  · have hesc : escaped c = String.utf8EncodeChar c := by
      rw [escaped, hchar, if_neg h8, List.flatMap_cons, List.flatMap_nil, List.append_nil]
    rw [hesc]
    exact .plain fun b hb => plain_of_mem_utf8EncodeChar (Nat.not_lt.1 h8) h1 h2 hb

section Rest

variable {limit : UInt64} {start n : Nat} {out : Array UInt8} {t : List UInt8}
  {o : Outcome String} {q : Spot}

/-- A round that takes a byte as it is. -/
lemma moves_readQuotedRest_plain {c : UInt8} (hlen : out.size ≤ limit.toNat) (hc : Plain c)
    (h : Moves (readQuotedRest limit doubleQuote start n (out.push c) true) (t, t) o q) :
    Moves (readQuotedRest limit doubleQuote start (n + 1) out true) (c :: t, c :: t) o q := by
  obtain ⟨hb, hq, hs⟩ := hc
  have hl : (c == lineFeed) = false := by
    rw [isBreak, Bool.or_eq_false_iff] at hb
    exact hb.1
  simp only [readQuotedRest, Nat.not_lt.2 hlen, decide_false, Bool.false_eq_true,
    if_false, Bool.not_false, Bool.and_true]
  refine (Moves.read_cons hb t).bind ?_
  simp only [hl, beq_eq_false_iff_ne.2 hq, beq_eq_false_iff_ne.2 hs, Bool.false_eq_true, if_false]
  exact h

/-- A round that takes a whole escape sequence. -/
lemma moves_readQuotedRest_escape {e : UInt8} {t' : List UInt8} {bytes : List UInt8}
    (hlen : out.size ≤ limit.toNat) (he : isBreak e = false)
    (hescape : ∀ n, Moves (readEscape n e) (t', t') (.good bytes) (t, t))
    (h : Moves (readQuotedRest limit doubleQuote start n (out ++ bytes) true) (t, t) o q) :
    Moves (readQuotedRest limit doubleQuote start (n + 1) out true)
      (backslash :: e :: t', backslash :: e :: t') o q := by
  have hb : isBreak backslash = false := rfl
  simp only [readQuotedRest, Nat.not_lt.2 hlen, decide_false, Bool.false_eq_true,
    if_false, Bool.not_false, Bool.and_true]
  refine (Moves.read_cons hb _).bind ?_
  show Moves (Reading.offset >>= _) _ _ _
  refine Moves.offset_bind fun m => (Moves.read_cons he t').bind ((hescape (m - 1)).bind h)

/-- The round that takes the closing quote. -/
lemma moves_readQuotedRest_close (hlen : out.size ≤ limit.toNat) :
    Moves (readQuotedRest limit doubleQuote start (n + 1) out true)
      (doubleQuote :: t, doubleQuote :: t) (.good (textOf out)) (t, t) := by
  have hb : isBreak doubleQuote = false := rfl
  simp only [readQuotedRest, Nat.not_lt.2 hlen, decide_false, Bool.false_eq_true,
    if_false, Bool.not_false, Bool.and_true]
  exact (Moves.read_cons hb t).bind (Moves.pure _ _)

/-- Rounds that take bytes as they are. -/
lemma moves_readQuotedRest_append {bytes : List UInt8}
    (hlen : out.size + bytes.length ≤ limit.toNat) (hb : ∀ c ∈ bytes, Plain c)
    (h : Moves (readQuotedRest limit doubleQuote start n (out ++ bytes) true) (t, t) o q) :
    Moves (readQuotedRest limit doubleQuote start (bytes.length + n) out true)
      (bytes ++ t, bytes ++ t) o q := by
  induction bytes generalizing out with
  | nil =>
    rw [List.length_nil, Nat.zero_add]
    simpa using h
  | cons c bytes ih =>
    rw [List.length_cons] at hlen
    rw [List.length_cons, Nat.add_right_comm]
    apply moves_readQuotedRest_plain (Nat.le_of_add_right_le hlen) (hb c List.mem_cons_self)
    apply ih
    · rw [Array.size_push]
      omega
    · exact fun d hd => hb d (List.mem_cons_of_mem c hd)
    · simpa using h

/-- A round that takes the escape sequence of one letter. -/
lemma moves_readQuotedRest_letter {e b : UInt8} (hlen : out.size ≤ limit.toNat)
    (he : isBreak e = false) (hb : simpleEscape? e = some b)
    (h : Moves (readQuotedRest limit doubleQuote start n (out ++ [b]) true) (t, t) o q) :
    Moves (readQuotedRest limit doubleQuote start (n + 1) out true)
      (backslash :: e :: t, backslash :: e :: t) o q := by
  apply moves_readQuotedRest_escape hlen he _ h
  intro m
  rw [readEscape, hb]
  exact Moves.pure _ _

/-- The escape sequence of a control character, after the letter. -/
lemma moves_readEscape_unicode {c : Char} (hc : c.toNat < 32) (m : Nat) (t : List UInt8) :
    Moves (readEscape m 117) (48 :: 48 :: hexByte (c.toNat / 16) :: hexByte (c.toNat % 16) :: t,
      48 :: 48 :: hexByte (c.toNat / 16) :: hexByte (c.toNat % 16) :: t)
      (.good (String.utf8EncodeChar c)) (t, t) := by
  obtain ⟨-, hbx, hdx⟩ := hexByte_spec (c.toNat / 16) (by omega)
  obtain ⟨-, hby, hdy⟩ := hexByte_spec (c.toNat % 16) (by omega)
  have hz : Numeral.digitOf? 16 48 = some 0 := rfl
  have hb : isBreak 48 = false := rfl
  generalize hexByte (c.toNat / 16) = x at hbx hdx ⊢
  generalize hexByte (c.toNat % 16) = y at hby hdy ⊢
  have hfixed : Moves (Numeral.readFixed 4 16) (48 :: 48 :: x :: y :: t, 48 :: 48 :: x :: y :: t)
      (some c.toNat) (t, t) := by
    apply Numeral.moves_readFixedFrom hb hz (by decide)
    apply Numeral.moves_readFixedFrom hb hz (by decide)
    apply Numeral.moves_readFixedFrom hbx hdx (by omega)
    apply Numeral.moves_readFixedFrom hby hdy (by omega)
    have hv : (((0 * 16 + 0) * 16 + 0) * 16 + c.toNat / 16) * 16 + c.toNat % 16 = c.toNat := by
      omega
    rw [hv]
    exact Moves.pure _ _
  have hescape : readEscape m 117 = readUnicodeEscape m := rfl
  rw [hescape, readUnicodeEscape]
  refine hfixed.bind ?_
  have hcode : codePoint? c.toNat = some c := by
    rw [codePoint?, if_pos (.inl (by omega)), Char.ofNat_toNat]
  simp only [hcode]
  exact Moves.pure _ _

/-- The rounds that take one character. -/
lemma moves_readQuotedRest_char {c : Char} {rounds : Nat}
    (hlen : out.size + (String.utf8EncodeChar c).length ≤ limit.toNat)
    (hr : (escaped c).length ≤ rounds)
    (h : ∀ n, rounds ≤ (escaped c).length + n →
      Moves (readQuotedRest limit doubleQuote start n (out ++ String.utf8EncodeChar c) true) (t, t)
        o q) :
    Moves (readQuotedRest limit doubleQuote start rounds out true)
      (escaped c ++ t, escaped c ++ t) o q := by
  have hle : out.size ≤ limit.toNat := Nat.le_of_add_right_le hlen
  have hescapes := escapes_escaped c
  generalize escaped c = bytes at hr h hescapes ⊢
  cases hescapes with
  | letter hbytes he hb =>
    obtain ⟨n, rfl⟩ := Nat.exists_eq_add_of_le' (Nat.le_of_add_right_le hr : 1 ≤ rounds)
    apply moves_readQuotedRest_letter hle he hb
    rw [← hbytes]
    exact h n (by rw [List.length_cons, List.length_singleton]; omega)
  | unicode hlow =>
    obtain ⟨n, rfl⟩ := Nat.exists_eq_add_of_le' (Nat.le_trans (by simp) hr : 1 ≤ rounds)
    apply moves_readQuotedRest_escape hle rfl fun m => moves_readEscape_unicode hlow m t
    exact h n (by simp only [List.length_cons, List.length_nil]; omega)
  | plain hplain =>
    obtain ⟨n, rfl⟩ := Nat.exists_eq_add_of_le hr
    exact moves_readQuotedRest_append hlen hplain (h n le_rfl)

/-- The rounds that take all characters and the closing quote. -/
lemma moves_readQuotedRest {cs : List Char} {rounds : Nat}
    (hlen : out.size + (cs.flatMap String.utf8EncodeChar).length ≤ limit.toNat)
    (hr : (cs.flatMap escaped).length < rounds) :
    Moves (readQuotedRest limit doubleQuote start rounds out true)
      (cs.flatMap escaped ++ doubleQuote :: t, cs.flatMap escaped ++ doubleQuote :: t)
      (.good (textOf (out ++ cs.flatMap String.utf8EncodeChar))) (t, t) := by
  induction cs generalizing out rounds with
  | nil =>
    obtain ⟨n, rfl⟩ := Nat.exists_eq_add_of_le' hr
    rw [List.flatMap_nil, List.flatMap_nil, List.nil_append, Array.appendList_nil]
    exact moves_readQuotedRest_close (Nat.le_of_add_right_le hlen)
  | cons c cs ih =>
    rw [List.flatMap_cons, List.length_append] at hlen hr
    rw [List.flatMap_cons, List.flatMap_cons, List.append_assoc]
    apply moves_readQuotedRest_char (by omega) (by omega)
    intro n hn
    have hassoc : out ++ (String.utf8EncodeChar c ++ cs.flatMap String.utf8EncodeChar) =
        out ++ String.utf8EncodeChar c ++ cs.flatMap String.utf8EncodeChar :=
      Array.ext' (by simp)
    have hsize : (out ++ String.utf8EncodeChar c).size =
        out.size + (String.utf8EncodeChar c).length := by
      simp [← Array.length_toList]
    rw [hassoc]
    apply ih
    · omega
    · omega

end Rest

/-- A string in quotes is read as the string. -/
theorem moves_readQuoted {limit : UInt64} {s : String} (hlen : Text.byteLength s ≤ limit.toNat)
    (t : List UInt8) :
    Moves (readQuoted limit)
      (Text.utf8Bytes (Json.quote s) ++ t, Text.utf8Bytes (Json.quote s) ++ t) (.good s)
      (t, t) := by
  have hbytes := Text.utf8Bytes_eq s
  have hquote : isBreak doubleQuote = false := rfl
  rw [utf8Bytes_quote, List.cons_append, List.append_assoc, List.singleton_append]
  refine (Moves.resetPeek _ _).bind (Moves.offset_bind fun start => ?_)
  refine (Moves.read_cons hquote _).bind ?_
  show Moves (Reading.rounds >>= _) _ _ _
  apply Moves.rounds_bind
  intro rounds hr
  -- the bytes that are gathered are those of the string
  have hs : textOf ((#[] : Array UInt8) ++ s.toList.flatMap String.utf8EncodeChar) = s := by
    rw [← hbytes, textOf, Array.toList_appendList]
    exact Text.decodeUtf8_utf8Bytes s
  rw [← Text.length_utf8Bytes, hbytes] at hlen
  have hread : Moves (readQuotedRest limit doubleQuote start rounds #[] true)
      (s.toList.flatMap escaped ++ doubleQuote :: t, s.toList.flatMap escaped ++ doubleQuote :: t)
      (.good (textOf ((#[] : Array UInt8) ++ s.toList.flatMap String.utf8EncodeChar))) (t, t) := by
    apply moves_readQuotedRest
    · rw [Array.size_empty, Nat.zero_add]
      exact hlen
    · rw [List.length_append] at hr
      omega
  rw [hs] at hread
  exact hread

end Literal

end Semdoc
