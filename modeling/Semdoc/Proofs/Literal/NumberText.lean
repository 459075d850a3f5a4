import Semdoc.Proofs.Literal.Grammar
import Semdoc.Proofs.Log.Computations
import Semdoc.Proofs.Text.Whitespace

/-!
# Texts that are numbers

A text is read as a number if it is one by the grammar, blanks around it apart, and if the number can be
represented.  Of a number that is too large this is reported, and nothing else.
-/

namespace Semdoc

open CharReader (At next? skipped)

/-! ## Readings that may go wrong -/

/-- Every reader at a spot finds that something holds of what a reading does. -/
def Meets {α : Type} (x : Reading α) (p : Spot) (P : Logged (α × CharReader) → Prop) : Prop :=
  ∀ d r, At d p.1 p.2 r → P (x r)

/-- No reader at a spot gets a result, and something holds of what is reported. -/
def Refuses {α : Type} (x : Reading (Option α)) (p : Spot) (Q : List LogEvent → Prop) : Prop :=
  Meets x p fun y => y.value.1 = none ∧ Q y.events

/-- One event that is an error. -/
def IsOneError (events : List LogEvent) : Prop := ∃ e, events = [e] ∧ e.isError = true

section Meets

variable {α β : Type} {p q : Spot} {a : α}

lemma Moves.meets_bind {x : Reading α} {f : α → Reading β} {P : Logged (β × CharReader) → Prop}
    (hx : Moves x p a q) (hf : Meets (f a) q P) : Meets (x >>= f) p P := by
  intro d r h
  obtain ⟨r', hx, h'⟩ := hx d r h
  rw [Logged.run_bind, hx]
  exact hf d r' h'

/-- What happens for every number of rounds that is enough. -/
lemma Meets.rounds_bind {f : Nat → Reading β} {P : Logged (β × CharReader) → Prop}
    (hf : ∀ n, p.1.length < n → Meets (f n) p P) : Meets (Reading.rounds >>= f) p P := by
  intro d r h
  have hlen := h.suffix.length_le
  have hn : p.1.length < r.buffer.extent + 2 := by
    rw [h.holds.extent]
    omega
  exact hf _ hn d r h

/-- What happens wherever the reader stands. -/
lemma Meets.offset_bind {f : Nat → Reading β} {P : Logged (β × CharReader) → Prop}
    (hf : ∀ n, Meets (f n) p P) : Meets (Reading.offset >>= f) p P :=
  fun d r h => hf _ d r h

/-- Without a result there is none later. -/
lemma Refuses.bind {x : Reading (Option α)} {f : Option α → Reading (Option β)}
    {Q : List LogEvent → Prop} (hx : Refuses x p Q) (hf : f none = pure none) :
    Refuses (x >>= f) p Q := by
  intro d r h
  obtain ⟨hnone, hQ⟩ := hx d r h
  rw [Logged.run_bind, hnone, hf]
  exact ⟨rfl, (List.append_nil (x r).events).symm ▸ hQ⟩

/-- What is tried without a result is not reported. -/
lemma Refuses.attempt {x : Reading (Option α)} {Q : List LogEvent → Prop} (hx : Refuses x p Q) :
    Refuses (Reading.attempt x) p (· = []) := by
  intro d r h
  have hnone : (x r.fork).value.1 = none := (hx _ _ h.fork).1
  unfold Reading.attempt
  dsimp only
  split
  · next e =>
    rw [e] at hnone
    cases hnone
  · exact ⟨rfl, rfl⟩

end Meets

namespace Text

variable {cs : List Char}

lemma not_isBlankByte_of_mem_getLast? (hcs : ∀ c ∈ cs.getLast?, isBlankAscii c = false) {b : UInt8}
    (hb : b ∈ (cs.flatMap String.utf8EncodeChar).getLast?) : isBlankByte b = false := by
  rcases List.eq_nil_or_concat' cs with rfl | ⟨cs, c, rfl⟩
  · cases hb
  · rw [List.flatMap_append, List.flatMap_singleton,
      List.getLast?_append_of_ne_nil _ String.utf8EncodeChar_ne_nil] at hb
    rw [isBlankByte_of_mem_utf8EncodeChar (List.mem_of_mem_getLast? hb),
      hcs c List.getLast?_concat]

/-- Blank bytes are skipped with the blank characters that they are. -/
lemma skipped_flatMap (cs : List Char) : skipped (cs.flatMap String.utf8EncodeChar) =
    (cs.dropWhile isBlankAscii).flatMap String.utf8EncodeChar := by
  induction cs with
  | nil => rfl
  | cons c cs ih =>
    rw [List.flatMap_cons, List.dropWhile_cons]
    cases hc : isBlankAscii c with
    | true =>
      rw [if_pos rfl, ← ih]
      refine List.dropWhile_append_of_pos fun b hb => ?_
      rw [isBlankByte_of_mem_utf8EncodeChar hb, hc]
    | false =>
      obtain ⟨b, bytes, hbytes⟩ := List.exists_cons_of_ne_nil (String.utf8EncodeChar_ne_nil (c := c))
      have hb : isBlankByte b = false := by
        rw [isBlankByte_of_mem_utf8EncodeChar (hbytes ▸ List.mem_cons_self), hc]
      rw [if_neg Bool.false_ne_true, List.flatMap_cons, hbytes, List.cons_append, skipped,
        List.dropWhile_cons, hb, if_neg Bool.false_ne_true]

/-- What is left of a text behind its first blanks is the text without the blanks around it, and blanks. -/
lemma exists_skipped_utf8Bytes (s : String) : ∃ blanks : List UInt8,
    skipped (utf8Bytes s) =
        (trimChars isBlankAscii s.toList).flatMap String.utf8EncodeChar ++ blanks ∧
      (∀ b ∈ blanks, isBlankByte b = true) ∧
      ∀ b ∈ ((trimChars isBlankAscii s.toList).flatMap String.utf8EncodeChar).getLast?,
        isBlankByte b = false := by
  obtain ⟨after, htext, hafter, hlast⟩ := exists_dropWhile_eq_trimChars_append isBlankAscii s.toList
  refine ⟨after.flatMap String.utf8EncodeChar, ?_, fun b hb => isBlankByte_of_mem_flatMap hafter hb,
    fun b hb => not_isBlankByte_of_mem_getLast? hlast hb⟩
  rw [utf8Bytes_eq, skipped_flatMap, htext, List.flatMap_append]

end Text

namespace Numeral

open Literal

/-! ## Words -/

/-- The numeral that some bytes are. -/
def ofBytes? (bytes : List UInt8) : Option Numeral := (bytes.foldlM Scan.step {}).bind Scan.finish

/-- The report of a number that is too large. -/
def IsTooLarge (events : List LogEvent) : Prop :=
  ∃ l, events = [.message { severity := .error, text := tooLargeText, location := l }]

variable {bytes t : List UInt8} {n : Numeral}

/-- There is no blank in a numeral. -/
lemma not_isBlankByte_of_step {s s' : Scan} (h : bytes.foldlM Scan.step s = some s') :
    ∀ c ∈ bytes, Text.isBlankByte c = false := by
  induction bytes generalizing s with
  | nil => nofun
  | cons c bytes ih =>
    obtain ⟨s₁, hstep, h⟩ := Option.bind_eq_some_iff.1 h
    refine List.forall_mem_cons.2 ⟨Bool.eq_false_iff.2 fun hc => ?_, ih h⟩
    rw [Scan.step_of_ends (.inl hc)] at hstep
    cases hstep

lemma refuses_scanWith {s : Scan} {rounds : Nat}
    (hblank : ∀ c ∈ bytes, Text.isBlankByte c = false) (hs : bytes.foldlM Scan.step s = none)
    (hr : bytes.length < rounds) :
    Refuses (scanWith [] rounds s) (bytes ++ t, bytes ++ t) IsOneError := by
  induction bytes generalizing s rounds with
  | nil => cases hs
  | cons c bytes ih =>
    obtain ⟨hc, hblank⟩ := List.forall_mem_cons.1 hblank
    obtain ⟨k, rfl⟩ := Nat.exists_eq_add_of_le' (Nat.lt_of_le_of_lt (Nat.zero_le _) hr)
    rw [scanWith]
    refine (Moves.peek_cons (not_isBreak_of_not_isBlankByte hc) _ (bytes ++ t)).meets_bind ?_
    simp only [hc, List.contains_nil, Bool.or_false, Bool.false_eq_true, if_false]
    rw [List.foldlM_cons] at hs
    cases hstep : s.step c with
    | none => exact fun _ _ _ => ⟨rfl, _, rfl, rfl⟩
    | some s' =>
      rw [hstep] at hs
      rw [List.length_cons] at hr
      exact (Moves.consumePeek _ _).meets_bind (ih hblank hs (by omega))

section Word

variable (hblank : ∀ c ∈ bytes, Text.isBlankByte c = false) (ht : Stops [] t)
include ht

/-- A number in range is read. -/
lemma moves_read_of_inRange (hn : ofBytes? bytes = some n) (hrange : n.inRange = true) :
    Moves (read []) (bytes ++ t, bytes ++ t) (some n) (t, t) := by
  obtain ⟨s, hs, hfinish⟩ := Option.bind_eq_some_iff.1 hn
  exact moves_read hs hfinish hrange ht

/-- A number that is too large is refused, and this is reported. -/
lemma refuses_read_of_not_inRange (hn : ofBytes? bytes = some n) (hrange : n.inRange = false) :
    Refuses (read []) (bytes ++ t, bytes ++ t) IsTooLarge := by
  obtain ⟨s, hs, hfinish⟩ := Option.bind_eq_some_iff.1 hn
  rw [read]
  refine (Moves.resetPeek _ _).meets_bind (.rounds_bind fun rounds hr => ?_)
  refine (moves_scanWith hs ht ?_).meets_bind ?_
  · rw [List.length_append] at hr
    omega
  · simp only [hfinish, hrange, Bool.false_eq_true, if_false]
    exact fun _ _ _ => ⟨rfl, _, rfl⟩

include hblank in
/-- What is no number is refused. -/
lemma refuses_read (hn : ofBytes? bytes = none) :
    Refuses (read []) (bytes ++ t, bytes ++ t) IsOneError := by
  rw [read]
  refine (Moves.resetPeek _ _).meets_bind (.rounds_bind fun rounds hr => ?_)
  have hlen : bytes.length < rounds := by
    rw [List.length_append] at hr
    omega
  cases hs : bytes.foldlM Scan.step {} with
  | none => exact (refuses_scanWith hblank hs hlen).bind rfl
  | some s =>
    rw [ofBytes?, hs, Option.bind_some] at hn
    refine (moves_scanWith hs ht hlen).meets_bind ?_
    simp only [hn]
    exact fun _ _ _ => ⟨rfl, _, rfl, rfl⟩

end Word

/-! ## Whole texts -/

/-- Behind a number there may be nothing but blanks. -/
def closing (text : String) (n : Numeral) : Reading (Option Numeral) := do
  if ← Reading.skipWhitespace then
    Reading.error s!"Unexpected characters after number in \"{text}\"" (← Reading.location)
    return none
  else return some n

/-- A number is read behind the blanks at the start of a text, and closed. -/
lemma ofText_of_meets {text : String} (P : Option Numeral → List LogEvent → Prop)
    (h : ∀ f, f none = pure none → (∀ n, f (some n) = closing text n) →
      Meets (read [] >>= f) (skipped (Text.utf8Bytes text), skipped (Text.utf8Bytes text))
        fun y => P y.value.1 y.events) : P (ofText text).value (ofText text).events := by
  have hrun : ∀ x : Reading (Option Numeral),
      (Meets x (Text.utf8Bytes text, Text.utf8Bytes text) fun y => P y.value.1 y.events) →
        P (x (.ofString text Location.unknownNumber) >>= fun y => pure y.1).value
          (x (.ofString text Location.unknownNumber) >>= fun y => pure y.1).events := by
    intro x hx
    rw [Logged.value_bind, Logged.events_bind, Logged.value_pure, Logged.events_pure,
      List.append_nil]
    exact hx _ _ (CharReader.at_ofString text _)
  unfold ofText
  dsimp only
  refine hrun _ ((Moves.skipWhitespace _ _).meets_bind (h _ ?_ ?_))
  · rfl
  · exact fun _ => rfl

/-- The bytes before the first blank are apart from what follows. -/
lemma exists_word (rest : List UInt8) : ∃ bytes t, rest = bytes ++ t ∧
    (∀ c ∈ bytes, Text.isBlankByte c = false) ∧ Stops [] t := by
  refine ⟨rest.takeWhile (!Text.isBlankByte ·), rest.dropWhile (!Text.isBlankByte ·),
    (List.takeWhile_append_dropWhile).symm, fun c hc => ?_, List.nil_subset _, fun c hc => ?_⟩
  · simpa using List.mem_takeWhile_imp hc
  · have hhead := List.head?_dropWhile_not (!Text.isBlankByte ·) rest
    rw [hc] at hhead
    exact .inl (by simpa using hhead)

section Word

variable {text : String} (hsplit : skipped (Text.utf8Bytes text) = bytes ++ t)
  (hblank : ∀ c ∈ bytes, Text.isBlankByte c = false) (ht : Stops [] t)
include hsplit ht

lemma ofText_of_inRange (hn : ofBytes? bytes = some n) (hrange : n.inRange = true)
    (hrest : skipped t = []) : ofText text = ⟨some n, []⟩ := by
  obtain ⟨hvalue, hevents⟩ := ofText_of_meets (fun value events => value = some n ∧ events = [])
    fun f _ hsome => by
      rw [hsplit]
      refine (moves_read_of_inRange ht hn hrange).meets_bind ?_
      rw [hsome]
      refine (Moves.skipWhitespace t t).meets_bind ?_
      rw [hrest]
      exact fun _ _ _ => ⟨rfl, rfl⟩
  exact Logged.ext hvalue hevents

lemma ofText_of_rest (hn : ofBytes? bytes = some n) (hrange : n.inRange = true)
    (hrest : skipped t ≠ []) : (ofText text).value = none ∧ IsOneError (ofText text).events := by
  refine ofText_of_meets (fun value events => value = none ∧ IsOneError events) fun f _ hsome => ?_
  rw [hsplit]
  refine (moves_read_of_inRange ht hn hrange).meets_bind ?_
  rw [hsome]
  refine (Moves.skipWhitespace t t).meets_bind ?_
  rw [List.isEmpty_eq_false_iff.2 hrest]
  exact fun _ _ _ => ⟨rfl, _, rfl, rfl⟩

lemma ofText_of_not_inRange (hn : ofBytes? bytes = some n) (hrange : n.inRange = false) :
    (ofText text).value = none ∧ IsTooLarge (ofText text).events := by
  refine ofText_of_meets (fun value events => value = none ∧ IsTooLarge events) fun f hnone _ => ?_
  rw [hsplit]
  exact (refuses_read_of_not_inRange ht hn hrange).bind hnone

include hblank in
lemma ofText_of_none (hn : ofBytes? bytes = none) :
    (ofText text).value = none ∧ IsOneError (ofText text).events := by
  refine ofText_of_meets (fun value events => value = none ∧ IsOneError events) fun f hnone _ => ?_
  rw [hsplit]
  exact (refuses_read hblank ht hn).bind hnone

include hblank in
/-- A text without the blanks around it is a numeral if and only if its first word is one, and there is nothing
but blanks behind that. -/
lemma spells_trimChars_iff : Spells (Text.trimChars Text.isBlankAscii text.toList) n ↔
    ofBytes? bytes = some n ∧ skipped t = [] := by
  obtain ⟨blanks, htext, hblanks, hlast⟩ := Text.exists_skipped_utf8Bytes text
  have hspells : Spells (Text.trimChars Text.isBlankAscii text.toList) n ↔
      ofBytes? ((Text.trimChars Text.isBlankAscii text.toList).flatMap String.utf8EncodeChar) =
        some n := Option.bind_eq_some_iff.symm
  rw [hspells]
  generalize (Text.trimChars Text.isBlankAscii text.toList).flatMap String.utf8EncodeChar = core
    at htext hlast
  have heq : core ++ blanks = bytes ++ t := htext.symm.trans hsplit
  constructor
  · intro h
    obtain ⟨s, hs, -⟩ := Option.bind_eq_some_iff.1 h
    have hcore := not_isBlankByte_of_step hs
    -- neither has a blank, and what follows starts with one
    have hword : core = bytes := by
      rw [← Text.takeWhile_append_eq_left (p := (!Text.isBlankByte ·)) (a := core) (b := blanks)
          (fun c hc => by simp [hcore c hc]) fun c hc => by simp [hblanks c (List.mem_of_mem_head? hc)],
        heq, Text.takeWhile_append_eq_left (fun c hc => by simp [hblank c hc]) fun c hc => by
          simp [(ht.2 c hc).resolve_right List.not_mem_nil]]
    subst hword
    rw [← List.append_cancel_left heq]
    exact ⟨h, List.dropWhile_eq_nil_iff.2 hblanks⟩
  · rintro ⟨h, hrest⟩
    have hrest := List.dropWhile_eq_nil_iff.1 hrest
    -- neither ends with a blank, and what follows is blank
    have hword : core = bytes := by
      rw [← Text.rdropWhile_append_eq_left hlast hblanks, heq,
        Text.rdropWhile_append_eq_left (fun c hc => hblank c (List.mem_of_mem_getLast? hc)) hrest]
    rw [hword]
    exact h

end Word

/-- The numbers that values can represent: integers of 64 bits, and finite doubles. -/
def Fits : Numeral → Prop
  | n@(integer _ _) => Int64.minValue.toInt ≤ n.toInt ∧ n.toInt ≤ Int64.maxValue.toInt
  | n@(decimal _ _ _) => n.toDouble.isFinite = true

lemma inRange_iff_fits (n : Numeral) : n.inRange = true ↔ n.Fits := by
  cases n with
  | integer negative magnitude =>
    rw [inRange, Fits, toInt, decide_eq_true_eq, Int64.toInt_minValue, Int64.toInt_maxValue]
    cases negative with
    | false =>
      simp only [Bool.false_eq_true, if_false]
      omega
    | true =>
      simp only [if_true]
      omega
  | decimal => exact Iff.rfl

lemma IsTooLarge.isOneError {events : List LogEvent} (h : IsTooLarge events) : IsOneError events := by
  obtain ⟨l, rfl⟩ := h
  exact ⟨_, rfl, rfl⟩

/-- The value of an integer that fits is this integer. -/
lemma toInt_toInt64 {n : Numeral} (hint : n.isInteger = true) (h : n.Fits) :
    n.toInt64.toInt = n.toInt := by
  cases n with
  | integer negative magnitude =>
    rw [Fits, Int64.toInt_minValue, Int64.toInt_maxValue] at h
    exact Int64.toInt_ofInt_of_le h.1 (Int.lt_of_le_sub_one h.2)
  | decimal => cases hint

/-- A text is read as a number if and only if it is one by the grammar, blanks around it apart, and the number
can be represented.  The value is then the integer that is written or the double nearest to the decimal that
is written, and nothing is reported.  Of a number that cannot be represented this is reported, and whatever is
refused, there is one error. -/
theorem ofText_exact (text : String) :
    (∀ n, (ofText text).value = some n ↔
      Written (Text.trimChars Text.isBlankAscii text.toList) n ∧ n.Fits) ∧
    (∀ n, (ofText text).value = some n → (ofText text).events = [] ∧
      match n with
      | integer _ _ => ∃ i : Int64, n.toValue = .int i ∧ i.toInt = n.toInt
      | decimal negative digits exponent =>
        n.toValue = .double (Double.ofDecimal negative digits exponent)) ∧
    (∀ n, Written (Text.trimChars Text.isBlankAscii text.toList) n → ¬ n.Fits →
      (ofText text).value = none ∧ IsTooLarge (ofText text).events) ∧
    ((ofText text).value = none → IsOneError (ofText text).events) := by
  obtain ⟨bytes, t, hsplit, hblank, ht⟩ := exists_word (skipped (Text.utf8Bytes text))
  have hwritten : ∀ n, Written (Text.trimChars Text.isBlankAscii text.toList) n ↔
      ofBytes? bytes = some n ∧ skipped t = [] := fun n =>
    spells_iff_written.symm.trans (spells_trimChars_iff hsplit hblank ht)
  simp only [hwritten]
  cases hn : ofBytes? bytes with
  | none =>
    obtain ⟨hvalue, herror⟩ := ofText_of_none hsplit hblank ht hn
    rw [hvalue]
    exact ⟨fun n => iff_of_false nofun nofun, nofun, nofun, fun _ => herror⟩
  | some m =>
    cases hrange : m.inRange with
    | false =>
      obtain ⟨hvalue, hlarge⟩ := ofText_of_not_inRange hsplit ht hn hrange
      have hfits : ¬ m.Fits := by
        rw [← inRange_iff_fits, hrange]
        exact Bool.false_ne_true
      rw [hvalue]
      refine ⟨fun n => iff_of_false nofun ?_, nofun, fun n _ _ => ⟨rfl, hlarge⟩,
        fun _ => hlarge.isOneError⟩
      rintro ⟨⟨⟨⟩, -⟩, h⟩
      exact hfits h
    | true =>
      have hfits := (inRange_iff_fits m).1 hrange
      by_cases hrest : skipped t = []
      · rw [ofText_of_inRange hsplit ht hn hrange hrest]
        refine ⟨fun n => ?_, ?_, ?_, nofun⟩
        · refine ⟨?_, fun h => h.1.1⟩
          rintro ⟨⟩
          exact ⟨⟨rfl, hrest⟩, hfits⟩
        · rintro _ ⟨⟩
          refine ⟨rfl, ?_⟩
          cases m with
          | integer negative magnitude => exact ⟨_, rfl, toInt_toInt64 rfl hfits⟩
          | decimal negative digits exponent => rfl
        · rintro _ ⟨⟨⟩, -⟩ h
          exact absurd hfits h
      · obtain ⟨hvalue, herror⟩ := ofText_of_rest hsplit ht hn hrange hrest
        rw [hvalue]
        exact ⟨fun n => iff_of_false nofun fun h => hrest h.1.2, nofun,
          fun n h => absurd h.2 hrest, fun _ => herror⟩

end Numeral

end Semdoc
