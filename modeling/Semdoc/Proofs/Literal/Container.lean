import Mathlib.Data.List.DropRight
import Semdoc.Proofs.Literal.Digits
import Semdoc.Proofs.Literal.Number
import Semdoc.Proofs.Literal.Quoted
import Semdoc.Proofs.Text.Utf8

/-!
# Reading values one level at a time

Text without quotes is read up to a delimiter, and the blanks after it are dropped.  Then what a reader does for a
value without items, for what stands between two entries, and for one entry of a container.  Blanks in front do not
matter.
-/

/-! ## Words -/

namespace Semdoc

open CharReader (isBreak next? afterNext afterBreak skipped)

namespace Text

/-- Blanks at the end are trimmed. -/
lemma trimEndChars_append {p : Char → Bool} {cs ds : List Char} (hds : ∀ c ∈ ds, p c = true) :
    trimEndChars p (cs ++ ds) = trimEndChars p cs := by
  rw [trimEndChars, trimEndChars, List.reverse_append,
    List.dropWhile_append_of_pos fun c hc => hds c (List.mem_reverse.1 hc)]

/-- A blank byte is an ASCII character that counts as blank. -/
lemma isBlankByte_spec {b : UInt8} (h : isBlankByte b = true) :
    b.toNat < 0x80 ∧ isBlank (Char.ofNat b.toNat) = true := by
  revert b
  apply forall_byte
  decide +kernel

/-- Blanks behind a text are trimmed after decoding. -/
lemma trimBlankEnd_decodeUtf8 {s : String} {blanks : List UInt8}
    (hb : ∀ b ∈ blanks, isBlankByte b = true) :
    trimBlankEnd (decodeUtf8 (utf8Bytes s ++ blanks)) = trimBlankEnd s := by
  rw [decodeUtf8, decodeChars_utf8Bytes_append,
    decodeChars_of_ascii fun b h => (isBlankByte_spec (hb b h)).1, trimBlankEnd, trimBlankEnd,
    String.toList_ofList, trimEndChars_append]
  intro c hc
  obtain ⟨b, hmem, rfl⟩ := List.mem_map.1 hc
  exact (isBlankByte_spec (hb b hmem)).2

end Text

namespace Literal

variable {delims t : List UInt8} {rounds : Nat}

lemma contains_of_isBlankByte (hd : delims ⊆ marks) {c : UInt8} (hc : Text.isBlankByte c = true) :
    delims.contains c = false := by
  have hall : (marks.all fun c => !Text.isBlankByte c) = true := rfl
  rw [← Bool.not_eq_true, List.contains_iff_mem]
  intro hmem
  have hc' := List.all_eq_true.1 hall c (hd hmem)
  rw [hc] at hc'
  cases hc'

/-- Collecting stops before what closes a word, behind the blanks. -/
lemma moves_collectUntil_blanks (out : Array UInt8) (ht : Closes delims t)
    (hr : t.length < rounds) :
    ∃ blanks : List UInt8, (∀ b ∈ blanks, Text.isBlankByte b = true) ∧
      Moves (collectUntil delims rounds out) (t, t) (out ++ blanks) (skipped t, skipped t) := by
  induction rounds generalizing t out with
  | zero => exact absurd hr (Nat.not_lt_zero _)
  | succ rounds ih =>
    cases t with
    | nil =>
      refine ⟨[], fun b hb => absurd hb List.not_mem_nil, ?_⟩
      rw [collectUntil, Array.appendList_nil]
      exact (Moves.peek_nil []).bind ((Moves.resetPeek _ _).bind (Moves.pure _ _))
    | cons c r =>
      cases hc : Text.isBlankByte c with
      | true =>
        -- a line break is seen as a line feed, which is blank too
        have hpeek : ∃ b, (next? (c :: r)).map (·.1) = some b ∧ Text.isBlankByte b = true := by
          rw [next?]
          cases hb : isBreak c with
          | true => exact ⟨CharReader.lineFeed, rfl, rfl⟩
          | false => exact ⟨c, rfl, hc⟩
        obtain ⟨b, hb, hblank⟩ := hpeek
        have hskip : skipped (c :: r) = skipped (afterNext (c :: r)) := by
          rw [CharReader.skipped_cons, hc, if_pos rfl]
        have hshort := CharReader.afterNext_length_le c r
        rw [List.length_cons] at hr
        obtain ⟨blanks, hblanks, h⟩ := @ih (afterNext (c :: r)) (out.push b)
          ⟨ht.1, fun d s hd => ht.2 d s (hskip ▸ hd)⟩ (by omega)
        refine ⟨b :: blanks, List.forall_mem_cons.2 ⟨hblank, hblanks⟩, ?_⟩
        rw [collectUntil]
        refine (Moves.peek _ _).bind ?_
        rw [hb]
        simp only [contains_of_isBlankByte ht.1 hblank, Bool.false_eq_true, if_false]
        refine (Moves.consumePeek _ _).bind ?_
        rw [hskip, Array.appendList_cons]
        exact h
      | false =>
        -- the first byte that is not blank is a delimiter, where collecting stops
        have hmem : c ∈ delims := ht.cons.resolve_left (by rw [hc]; decide)
        refine ⟨[], fun b hb => absurd hb List.not_mem_nil, ?_⟩
        rw [collectUntil, Array.appendList_nil, CharReader.skipped_cons, hc]
        refine (Moves.peek_cons (not_isBreak_of_not_isBlankByte hc) _ r).bind ?_
        simp only [List.contains_iff_mem.2 hmem, if_true]
        exact (Moves.resetPeek _ _).bind (Moves.pure _ _)

/-- Collecting takes the bytes of a word. -/
lemma moves_collectUntil (out : Array UInt8) {word : List UInt8}
    (hword : ∀ c ∈ word, isBreak c = false ∧ c ∉ delims) (ht : Closes delims t)
    (hr : (word ++ t).length < rounds) :
    ∃ blanks : List UInt8, (∀ b ∈ blanks, Text.isBlankByte b = true) ∧
      Moves (collectUntil delims rounds out) (word ++ t, word ++ t) (out ++ (word ++ blanks))
        (skipped t, skipped t) := by
  induction word generalizing out rounds with
  | nil => exact moves_collectUntil_blanks out ht hr
  | cons c word ih =>
    obtain ⟨hc, hword⟩ := List.forall_mem_cons.1 hword
    rw [List.cons_append, List.length_cons] at hr
    obtain ⟨n, rfl⟩ := Nat.exists_eq_add_of_le' (Nat.lt_of_le_of_lt (Nat.zero_le _) hr)
    obtain ⟨blanks, hblanks, h⟩ := @ih n (out.push c) hword (by omega)
    refine ⟨blanks, hblanks, ?_⟩
    have hmem : delims.contains c = false := by
      rw [← Bool.not_eq_true, List.contains_iff_mem]
      exact hc.2
    rw [collectUntil]
    refine (Moves.peek_cons hc.1 _ _).bind ?_
    simp only [hmem, Bool.false_eq_true, if_false]
    refine (Moves.consumePeek _ _).bind ?_
    rw [List.cons_append, Array.appendList_cons]
    exact h

/-- A word without blanks and delimiters in it is read as what it stands for. -/
theorem moves_readWord {word : String} (hne : word ≠ "")
    (hword : ∀ c ∈ Text.utf8Bytes word, ¬ Ends c) (htrim : Text.trimBlankEnd word = word)
    (ht : Closes delims t) (start : Nat) :
    Moves (readWord delims start) (Text.utf8Bytes word ++ t, Text.utf8Bytes word ++ t)
      (.good (wordValue word)) (skipped t, skipped t) := by
  have hblank : ∀ c ∈ Text.utf8Bytes word, Text.isBlankByte c = false := fun c hc =>
    Bool.eq_false_iff.2 fun h => hword c hc (.inl h)
  have hskip : skipped (Text.utf8Bytes word ++ t) = Text.utf8Bytes word ++ t := by
    cases hbytes : Text.utf8Bytes word with
    | nil =>
      have hdecode := Text.decodeUtf8_utf8Bytes word
      rw [hbytes, Text.decodeUtf8, Text.decodeChars] at hdecode
      exact absurd hdecode.symm hne
    | cons c r =>
      rw [hbytes] at hblank
      rw [List.cons_append, CharReader.skipped_cons, hblank c List.mem_cons_self]
      rfl
  have hunquoted : Moves (readUnquoted delims) (Text.utf8Bytes word ++ t, Text.utf8Bytes word ++ t)
      word (skipped t, skipped t) := by
    rw [readUnquoted]
    refine (Moves.skipWhitespace _ _).bind ?_
    rw [hskip]
    refine Moves.rounds_bind fun rounds hr => ?_
    obtain ⟨blanks, hblanks, h⟩ := moves_collectUntil #[]
      (fun c hc => ⟨not_isBreak_of_not_isBlankByte (hblank c hc),
        fun hd => hword c hc (.inr (ht.1 hd))⟩) ht hr
    refine h.bind ?_
    -- blanks behind the word are collected with it and trimmed away
    have htext : Text.trimBlankEnd
        (textOf ((#[] : Array UInt8) ++ (Text.utf8Bytes word ++ blanks))) = word := by
      rw [textOf, Array.toList_appendList]
      exact (Text.trimBlankEnd_decodeUtf8 hblanks).trans htrim
    rw [htext]
    exact Moves.pure _ _
  rw [readWord]
  refine hunquoted.bind ?_
  simp only [beq_eq_false_iff_ne.2 hne, Bool.false_eq_true, if_false]
  exact Moves.pure _ _

end Literal

end Semdoc

/-! ## Values and entries -/

namespace Semdoc

open CharReader (isBreak next? skipped)

namespace CharReader

/-- Blanks in front are skipped. -/
lemma skipped_append {blanks : List UInt8} (hb : ∀ b ∈ blanks, Text.isBlankByte b = true)
    (t : List UInt8) : skipped (blanks ++ t) = skipped t :=
  List.dropWhile_append_of_pos hb

lemma skipped_cons_of_not_blank {c : UInt8} (hc : Text.isBlankByte c = false) (t : List UInt8) :
    skipped (c :: t) = c :: t := by
  rw [skipped_cons, hc]
  rfl

lemma skipped_skipped (t : List UInt8) : skipped (skipped t) = skipped t :=
  List.dropWhile_idempotent _ _

/-- What is left after blanks starts with no blank. -/
lemma not_isBlankByte_of_skipped {p r : List UInt8} {c : UInt8} (hp : skipped p = c :: r) :
    Text.isBlankByte c = false := by
  have h := List.head?_dropWhile_not Text.isBlankByte p
  rw [← skipped, hp] at h
  exact h

end CharReader

namespace Literal

variable {limits : Limits} {delims p t : List UInt8} {fuel depth : Nat} {c : UInt8}
  {r : List UInt8} {o : Outcome Value} {q : Spot}

/-! ## Values -/

/-- Reading a value goes by its first character. -/
lemma moves_readValueAt (hp : skipped p = c :: r)
    (h : ∀ start, Moves (if isQuote c then do
          return (← readQuoted limits.stringLength).map .string
        else if c == openBracket || c == openBrace then readContainerAt limits fuel depth
        else if startsNumber c then do
          match ← readNumber? delims with
          | some v => return .good v
          | none => readWord delims start
        else readWord delims start) (c :: r, c :: r) o q) :
    Moves (readValueAt limits delims (fuel + 1) depth) (p, p) o q := by
  have hc := not_isBreak_of_not_isBlankByte (CharReader.not_isBlankByte_of_skipped hp)
  rw [readValueAt]
  refine (Moves.skipWhitespace p p).bind ?_
  rw [hp]
  exact Moves.offset_bind fun start => (Moves.lookahead_cons hc r).bind (h start)

/-- A quoted string is read. -/
lemma moves_readValueAt_string {s : String} (hp : skipped p = Text.utf8Bytes (Json.quote s) ++ t)
    (hlen : Text.byteLength s ≤ limits.stringLength.toNat) :
    Moves (readValueAt limits delims (fuel + 1) depth) (p, p) (.good (.string s)) (t, t) := by
  have hread := moves_readQuoted hlen t
  rw [utf8Bytes_quote, List.cons_append] at hp hread
  apply moves_readValueAt hp
  have hquote : isQuote doubleQuote = true := rfl
  intro start
  rw [if_pos hquote]
  exact hread.bind (Moves.pure _ _)

/-- A container is read. -/
lemma moves_readValueAt_container (hp : skipped p = c :: r) (hc : c = openBracket ∨ c = openBrace)
    (h : Moves (readContainerAt limits fuel depth) (c :: r, c :: r) o q) :
    Moves (readValueAt limits delims (fuel + 1) depth) (p, p) o q := by
  apply moves_readValueAt hp
  intro start
  rcases hc with rfl | rfl <;> exact h

/-- A byte that starts a number starts nothing else. -/
lemma startsNumber_spec (hc : startsNumber c = true) :
    isQuote c = false ∧ (c == openBracket || c == openBrace) = false := by
  revert c
  apply Text.forall_byte
  decide +kernel

/-- The bytes of a numeral are read as a number. -/
lemma moves_readValueAt_numeral {bytes : List UInt8} {s : Numeral.Scan} {n : Numeral}
    (hp : skipped p = bytes ++ t) (hs : bytes.foldlM Numeral.Scan.step {} = some s)
    (hfinish : s.finish = some n) (hrange : n.inRange = true) (ht : Closes delims t) :
    Moves (readValueAt limits delims (fuel + 1) depth) (p, p) (.good n.toValue)
      (skipped t, skipped t) := by
  have hread := moves_readNumber? hs hfinish hrange ht
  cases bytes with
  | nil =>
    cases hs
    cases hfinish
  | cons c r =>
    rw [List.cons_append] at hp hread
    obtain ⟨s', hstep, -⟩ := Option.bind_eq_some_iff.1 hs
    have hstart := Numeral.Scan.startsNumber_of_step hstep
    obtain ⟨hquote, hbracket⟩ := startsNumber_spec hstart
    apply moves_readValueAt hp
    intro start
    simp only [hquote, hbracket, hstart, Bool.false_eq_true, if_false, if_true]
    exact hread.bind (Moves.pure _ _)

/-- A number is read. -/
lemma moves_readValueAt_number {text : String} {n : Numeral}
    (hp : skipped p = Text.utf8Bytes text ++ t) (hn : Numeral.Spells text.toList n)
    (hrange : n.inRange = true) (ht : Closes delims t) :
    Moves (readValueAt limits delims (fuel + 1) depth) (p, p) (.good n.toValue)
      (skipped t, skipped t) := by
  obtain ⟨s, hs, hfinish⟩ := hn
  rw [Numeral.Scan.run, ← Text.utf8Bytes_eq] at hs
  exact moves_readValueAt_numeral hp hs hfinish hrange ht

/-- A word is read. -/
lemma moves_readValueAt_word {word : String} {rest : List UInt8}
    (hp : skipped p = Text.utf8Bytes word ++ t) (hbytes : Text.utf8Bytes word = c :: rest)
    (hc : isQuote c = false ∧ (c == openBracket || c == openBrace) = false ∧ startsNumber c = false)
    (hword : ∀ b ∈ c :: rest, ¬ Ends b) (htrim : Text.trimBlankEnd word = word)
    (ht : Closes delims t) :
    Moves (readValueAt limits delims (fuel + 1) depth) (p, p) (.good (wordValue word))
      (skipped t, skipped t) := by
  obtain ⟨hquote, hbracket, hstart⟩ := hc
  have hne : word ≠ "" := by
    rintro rfl
    rw [Text.utf8Bytes_eq] at hbytes
    cases hbytes
  have hread := moves_readWord hne (hbytes ▸ hword) htrim ht
  rw [hbytes, List.cons_append] at hp hread
  apply moves_readValueAt hp
  intro start
  simp only [hquote, hbracket, hstart, Bool.false_eq_true, if_false]
  exact hread start

/-! ## Between entries -/

variable {close : UInt8}

/-- A comma after an entry is read. -/
lemma moves_readSeparator_comma (hp : skipped p = comma :: r) :
    Moves (readSeparator close) (p, p) true (r, r) := by
  have hc : isBreak comma = false := rfl
  rw [readSeparator]
  refine (Moves.skipWhitespace p p).bind ?_
  rw [hp]
  exact (Moves.peek_cons hc _ r).bind ((Moves.consumePeek _ _).bind (Moves.pure _ _))

/-- The closing character after an entry stays. -/
lemma moves_readSeparator_close (hp : skipped p = close :: r) (hclose : (close == comma) = false) :
    Moves (readSeparator close) (p, p) true (close :: r, close :: r) := by
  have hc := not_isBreak_of_not_isBlankByte (CharReader.not_isBlankByte_of_skipped hp)
  rw [readSeparator]
  refine (Moves.skipWhitespace p p).bind ?_
  rw [hp]
  refine (Moves.peek_cons hc _ r).bind ?_
  simp only [hclose, Bool.false_eq_true, if_false, beq_self_eq_true, if_true]
  exact (Moves.resetPeek _ _).bind (Moves.pure _ _)

/-! ## Entries -/

variable {start : Nat} {e e' : Container} {u w : List UInt8} {v : Value}

/-- The closing character ends the entries. -/
lemma moves_readEntries_close (hp : skipped p = close :: r) :
    Moves (readEntries limits close start (fuel + 1) depth e) (p, p) e (r, r) := by
  have hc := not_isBreak_of_not_isBlankByte (CharReader.not_isBlankByte_of_skipped hp)
  rw [readEntries]
  refine (Moves.skipWhitespace p p).bind ?_
  rw [hp]
  refine (Moves.peek_cons hc _ r).bind ?_
  simp only [beq_self_eq_true, if_true]
  exact (Moves.consumePeek _ _).bind (Moves.pure _ _)

/-- Nothing is reported while there are no items beside entries. -/
lemma moves_checkMixture {s : Spot} (h : e.entries = [] ∨ e.items = []) :
    Moves (checkMixture start e) s e s := by
  rw [checkMixture]
  rcases h with h | h
  · simp only [h, List.isEmpty_nil, Bool.not_true, Bool.false_and, Bool.false_eq_true, if_false]
    exact Moves.pure _ _
  · simp only [h, List.isEmpty_nil, Bool.not_true, Bool.and_false, Bool.false_and,
      Bool.false_eq_true, if_false]
    exact Moves.pure _ _

/-- One round takes an item and what separates it from the next one. -/
lemma moves_readEntries_item {m : UInt8} {s : List UInt8} (hp : skipped p = c :: r)
    (hclose : (c == close) = false)
    (hvalue : Moves (readValueAt limits [comma, close, equalsSign, colon] fuel (depth + 1))
      (c :: r, c :: r) (.good v) (u, u))
    (hu : skipped u = m :: s) (hm : (m == equalsSign) = false ∧ (m == colon) = false)
    (hsep : Moves (readSeparator close) (m :: s, m :: s) true (w, w)) (hentries : e.entries = [])
    (h : Moves (readEntries limits close start fuel depth { e with items := v :: e.items }) (w, w)
      e' q) :
    Moves (readEntries limits close start (fuel + 1) depth e) (p, p) e' q := by
  have hc := not_isBreak_of_not_isBlankByte (CharReader.not_isBlankByte_of_skipped hp)
  have hc' := not_isBreak_of_not_isBlankByte (CharReader.not_isBlankByte_of_skipped hu)
  rw [readEntries]
  refine (Moves.skipWhitespace p p).bind ?_
  rw [hp]
  refine (Moves.peek_cons hc _ r).bind ?_
  simp only [Option.some_beq_some, hclose, Bool.false_eq_true, if_false]
  refine (Moves.resetPeek _ _).bind (hvalue.bind ((Moves.skipWhitespace u u).bind ?_))
  rw [hu]
  refine (Moves.peek_cons hc' _ s).bind ?_
  simp only [Option.some_beq_some, hm, Bool.or_false, Bool.false_eq_true, if_false, Outcome.good,
    Bool.and_true]
  have hmix : Moves (checkMixture start { e with items := v :: e.items }) (m :: s, m :: s)
      { e with items := v :: e.items } (m :: s, m :: s) := moves_checkMixture (.inl hentries)
  refine (Moves.resetPeek _ _).bind ((Moves.pure _ _).bind (hmix.bind (hsep.bind ?_)))
  simpa only [Bool.and_true] using h

/-- One round takes an entry and what separates it from the next one. -/
lemma moves_readEntries_entry {u' : List UInt8} {k : String}
    (hp : skipped p = c :: r) (hclose : (c == close) = false)
    (hkey : Moves (readValueAt limits [comma, close, equalsSign, colon] fuel (depth + 1))
      (c :: r, c :: r) (.good (.string k)) (u, u))
    (hu : skipped u = colon :: u')
    (hvalue : Moves (readValueAt limits [comma, close] fuel (depth + 1)) (u', u') (.good v) (t, t))
    (hsep : Moves (readSeparator close) (t, t) true (w, w))
    (hfresh : Entries.hasKey k e.entries = false) (hitems : e.items = [])
    (h : Moves (readEntries limits close start fuel depth
      { e with entries := Entries.insert k v e.entries }) (w, w) e' q) :
    Moves (readEntries limits close start (fuel + 1) depth e) (p, p) e' q := by
  have hc := not_isBreak_of_not_isBlankByte (CharReader.not_isBlankByte_of_skipped hp)
  have hcolon : isBreak colon = false := rfl
  rw [readEntries]
  refine (Moves.skipWhitespace p p).bind ?_
  rw [hp]
  refine (Moves.peek_cons hc _ r).bind ?_
  simp only [Option.some_beq_some, hclose, Bool.false_eq_true, if_false]
  refine (Moves.resetPeek _ _).bind (hkey.bind ((Moves.skipWhitespace u u).bind ?_))
  rw [hu]
  have hmark : (some colon == some equalsSign || some colon == some colon) = true := rfl
  refine (Moves.peek_cons hcolon _ u').bind ?_
  rw [if_pos hmark]
  refine (Moves.consumePeek _ _).bind (Moves.location_bind fun place => ?_)
  have hkeyOf : Moves (keyOf (.string k) place) (u', u') (.good k) (u', u') := Moves.pure _ _
  refine hkeyOf.bind (hvalue.bind ?_)
  have hfresh' : Entries.hasKey (Outcome.good k).value e.entries = false := hfresh
  have hok : (e.ok && true && true && true && true) = e.ok := by simp only [Bool.and_true]
  have hmix : Moves (checkMixture start { e with
      ok := e.ok && true && true && true, entries := Entries.insert k v e.entries }) (t, t)
      { e with ok := e.ok && true && true && true, entries := Entries.insert k v e.entries }
      (t, t) := moves_checkMixture (.inr hitems)
  rw [hfresh', if_neg Bool.false_ne_true]
  refine (Moves.pure _ _).bind (hmix.bind (hsep.bind ?_))
  rw [← hok] at h
  exact h

/-- A container is what its entries make it. -/
lemma moves_readContainerAt (hc : closerOf? c = some close) (hbreak : isBreak c = false)
    (hdepth : depth < limits.complexDepth.toNat)
    (h : ∀ start, Moves (readEntries limits close start fuel depth {}) (r, r) e' q)
    (hok : e'.ok = true) :
    Moves (readContainerAt limits (fuel + 1) depth) (c :: r, c :: r) (.good (e'.value close)) q := by
  rw [readContainerAt]
  refine (Moves.resetPeek _ _).bind (Moves.offset_bind fun start => ?_)
  refine (Moves.read_cons hbreak r).bind ?_
  simp only [Option.bind_some, hc, Nat.not_le.2 hdepth, if_false]
  refine (h start).bind ?_
  rw [hok]
  exact Moves.pure _ _

/-- The fuel of a reader is enough for what needs no more than three steps a byte. -/
lemma moves_readValue (h : ∀ fuel, 3 * p.length ≤ fuel →
    Moves (readValueAt limits delims fuel 0) (p, p) o q) :
    Moves (readValue limits delims) (p, p) o q := by
  have hrounds : Moves (Reading.rounds >>= fun n => readValueAt limits delims (4 * n) 0) (p, p)
      o q := by
    apply Moves.rounds_bind
    intro n hn
    apply h
    have hn' : p.length < n := hn
    omega
  exact hrounds

end Literal

end Semdoc
