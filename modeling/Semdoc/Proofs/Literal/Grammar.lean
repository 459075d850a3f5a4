import Mathlib.Data.List.Basic
import Semdoc.Proofs.Literal.Number
import Semdoc.Proofs.Text.Utf8

/-!
# The grammar of numbers

A number is written as an optional sign and behind it hexadecimal digits after `0x`, or decimal digits, or
decimal digits with a point, an exponent or both.  The machine for numerals takes exactly the texts of this
grammar, and makes of them the numbers that they stand for.
-/

namespace Semdoc.Numeral

open Nat (ofDigitChars ofDigitChars_cons)

/-! ## Characters -/

/-- The byte of an ASCII character. -/
def asciiByte (c : Char) : UInt8 := UInt8.ofNat c.toNat

/-- Characters that are decimal digits. -/
def AreDigits (cs : List Char) : Prop := ∀ c ∈ cs, c.isDigit = true

lemma AreDigits.cons {c : Char} {cs : List Char} (hc : c.isDigit = true) (hcs : AreDigits cs) :
    AreDigits (c :: cs) := List.forall_mem_cons.2 ⟨hc, hcs⟩

/-- The value of a hexadecimal digit. -/
def hexDigit? (c : Char) : Option Nat :=
  if c.isDigit then some (c.toNat - 48)
  else if 'a' ≤ c ∧ c ≤ 'f' then some (c.toNat - 87)
  else if 'A' ≤ c ∧ c ≤ 'F' then some (c.toNat - 55)
  else none

/-- Characters that are hexadecimal digits. -/
def AreHexDigits (cs : List Char) : Prop := ∀ c ∈ cs, (hexDigit? c).isSome = true

/-- Hexadecimal digits behind a number. -/
def ofHexDigits (cs : List Char) (n : Nat) : Nat :=
  cs.foldl (fun n c => n * 16 + (hexDigit? c).getD 0) n

/-- The first digit is taken before the others. -/
lemma ofDigitChars_digit (c : Char) (cs : List Char) (n : Nat) :
    ofDigitChars 10 (c :: cs) n = ofDigitChars 10 cs (n * 10 + (c.toNat - 48)) := by
  rw [ofDigitChars_cons, Nat.mul_comm]
  rfl

lemma toNat_of_isDigit {c : Char} (hc : c.isDigit = true) : 48 ≤ c.toNat ∧ c.toNat ≤ 57 := by
  rw [Char.isDigit, Bool.and_eq_true, decide_eq_true_eq, decide_eq_true_eq] at hc
  exact ⟨hc.1, hc.2⟩

lemma ascii_of_isDigit {c : Char} (hc : c.isDigit = true) : c.toNat ≤ 0x7f :=
  Nat.le_trans (toNat_of_isDigit hc).2 (by decide)

lemma ascii_of_hexDigit? {c : Char} (hc : (hexDigit? c).isSome = true) : c.toNat ≤ 0x7f := by
  rw [hexDigit?] at hc
  split_ifs at hc with h1 h2 h3
  · exact ascii_of_isDigit h1
  · exact Nat.le_trans h2.2 (by decide)
  · exact Nat.le_trans h3.2 (by decide)
  · cases hc

/-- What the machine sees of an ASCII character. -/
lemma asciiByte_spec {c : Char} (hc : c.toNat ≤ 0x7f) :
    decimalDigit? (asciiByte c) = (if c.isDigit then some (c.toNat - 48) else none) ∧
      digitOf? 16 (asciiByte c) = hexDigit? c ∧
      isSign (asciiByte c) = decide (c = '+' ∨ c = '-') ∧
      (asciiByte c == minusSign) = decide (c = '-') ∧
      (asciiByte c == point) = decide (c = '.') ∧
      isExponentMark (asciiByte c) = decide (c = 'e' ∨ c = 'E') ∧
      isHexMark (asciiByte c) = decide (c = 'x' ∨ c = 'X') := by
  revert c
  apply Text.forall_ascii
  decide +kernel

/-- A decimal digit is nothing but a digit. -/
lemma isDigit_spec {c : Char} (hc : c.isDigit = true) :
    decimalDigit? (asciiByte c) = some (c.toNat - 48) ∧ isSign (asciiByte c) = false ∧
      (asciiByte c == point) = false ∧ isExponentMark (asciiByte c) = false ∧
      isHexMark (asciiByte c) = false := by
  have hascii := ascii_of_isDigit hc
  revert hc
  revert c
  apply Text.forall_ascii
  decide +kernel

lemma isDigit_of_decimalDigit? {c : Char} (hc : c.toNat ≤ 0x7f) {d : Nat}
    (hd : decimalDigit? (asciiByte c) = some d) : c.isDigit = true ∧ d = c.toNat - 48 := by
  rw [(asciiByte_spec hc).1] at hd
  split_ifs at hd with h
  exact ⟨h, (Option.some_inj.1 hd).symm⟩

/-! ## The grammar -/

/-- A sign, or none, and whether it is a minus. -/
inductive Sign : List Char → Bool → Prop
  | absent : Sign [] false
  | plus : Sign ['+'] false
  | minus : Sign ['-'] true

/-- A number with its sign. -/
def signed (negative : Bool) (n : Nat) : Int := if negative then -(n : Int) else n

/-- A letter with a signed number, and the number. -/
inductive Exponent : List Char → Int → Prop
  | mk {mark : Char} {sign ds : List Char} {negative : Bool} (hmark : mark = 'e' ∨ mark = 'E')
      (hsign : Sign sign negative) (hds : AreDigits ds) (hne : ds ≠ []) :
      Exponent (mark :: (sign ++ ds)) (signed negative (ofDigitChars 10 ds 0))

/-- An exponent, or none, which counts as zero. -/
inductive OptionalExponent : List Char → Int → Prop
  | absent : OptionalExponent [] 0
  | present {ex : List Char} {e : Int} (h : Exponent ex e) : OptionalExponent ex e

/-- A number behind its sign, and what it stands for.  The digits of a decimal are taken as one number, which
the places behind the point and the exponent scale. -/
inductive Unsigned (negative : Bool) : List Char → Numeral → Prop
  | hex {mark : Char} {ds : List Char} (hmark : mark = 'x' ∨ mark = 'X') (hds : AreHexDigits ds)
      (hne : ds ≠ []) : Unsigned negative ('0' :: mark :: ds) (integer negative (ofHexDigits ds 0))
  | whole {ds : List Char} (hds : AreDigits ds) (hne : ds ≠ []) :
      Unsigned negative ds (integer negative (ofDigitChars 10 ds 0))
  | point {ds ps ex : List Char} {e : Int} (hds : AreDigits ds) (hne : ds ≠ []) (hps : AreDigits ps)
      (hex : OptionalExponent ex e) : Unsigned negative (ds ++ '.' :: (ps ++ ex))
        (decimal negative (ofDigitChars 10 (ds ++ ps) 0) (e - ps.length))
  | exponent {ds ex : List Char} {e : Int} (hds : AreDigits ds) (hne : ds ≠ []) (hex : Exponent ex e) :
      Unsigned negative (ds ++ ex) (decimal negative (ofDigitChars 10 ds 0) e)
  | leadingPoint {ps ex : List Char} {e : Int} (hps : AreDigits ps) (hne : ps ≠ [])
      (hex : OptionalExponent ex e) : Unsigned negative ('.' :: (ps ++ ex))
        (decimal negative (ofDigitChars 10 ps 0) (e - ps.length))

/-- A number as it is written, and what it stands for. -/
inductive Written : List Char → Numeral → Prop
  | mk {sign cs : List Char} {negative : Bool} {n : Numeral} (hsign : Sign sign negative)
      (h : Unsigned negative cs n) : Written (sign ++ cs) n

/-! ## What the machine makes of the parts -/

namespace Scan

/-- The scan after some characters. -/
def run (s : Scan) (cs : List Char) : Option Scan :=
  (cs.flatMap String.utf8EncodeChar).foldlM step s

lemma run_append (s : Scan) (cs ds : List Char) :
    s.run (cs ++ ds) = (s.run cs).bind fun s => s.run ds := by
  rw [run, List.flatMap_append, List.foldlM_append]
  rfl

lemma run_cons (s : Scan) {c : Char} (hc : c.toNat ≤ 0x7f) (cs : List Char) :
    s.run (c :: cs) = (s.step (asciiByte c)).bind fun s => s.run cs := by
  rw [run, List.flatMap_cons, Text.utf8EncodeChar_of_ascii hc]
  rfl

/-- More digits before the point. -/
lemma run_whole {cs : List Char} (hcs : AreDigits cs) {s : Scan} (hs : s.phase = .whole) :
    s.run cs = some { s with phase := .whole, digits := ofDigitChars 10 cs s.digits } := by
  induction cs generalizing s with
  | nil =>
    rw [← hs]
    rfl
  | cons c cs ih =>
    have hc := hcs c List.mem_cons_self
    obtain ⟨hd, -, hp, he, -⟩ := isDigit_spec hc
    have hstep : s.step (asciiByte c) = some (s.takeWhole (c.toNat - 48)) := by
      simp [step, hs, hd, hp, he]
    have hrest := ih (fun d h => hcs d (List.mem_cons_of_mem c h))
      (s := s.takeWhole (c.toNat - 48)) rfl
    rw [run_cons _ (ascii_of_isDigit hc), hstep, Option.bind_some, hrest, ofDigitChars_digit]
    rfl

/-- The first digits of a numeral end with the phase of a lone zero or of any other digits. -/
lemma run_first {cs : List Char} (hcs : AreDigits cs) (hne : cs ≠ []) {s : Scan}
    (hs : s.phase = .start ∨ s.phase = .sign) (hzero : s.digits = 0) :
    ∃ p, (p = .leadingZero ∨ p = .whole) ∧
      s.run cs = some { s with phase := p, digits := ofDigitChars 10 cs s.digits } := by
  cases cs with
  | nil => exact absurd rfl hne
  | cons c cs =>
    have hc := hcs c List.mem_cons_self
    obtain ⟨hd, hsign, hp, -, -⟩ := isDigit_spec hc
    have hstep : s.step (asciiByte c) = some (if c.toNat - 48 = 0 then
        { s with phase := .leadingZero } else s.takeWhole (c.toNat - 48)) := by
      rcases hs with hs | hs <;> simp [step, hs, hd, hsign, hp]
    have hcs' : AreDigits cs := fun d h => hcs d (List.mem_cons_of_mem c h)
    rw [run_cons _ (ascii_of_isDigit hc), hstep, Option.bind_some]
    -- a zero is not taken as a digit by itself, since it may begin a hexadecimal numeral
    by_cases h0 : c.toNat - 48 = 0
    · have hdrop : ofDigitChars 10 (c :: cs) s.digits = ofDigitChars 10 cs s.digits := by
        rw [ofDigitChars_cons, hzero, Nat.mul_zero, Nat.zero_add]
        exact congrArg _ h0
      rw [if_pos h0, hdrop]
      cases cs with
      | nil => exact ⟨.leadingZero, .inl rfl, rfl⟩
      | cons d cs =>
        have hdigit := hcs' d List.mem_cons_self
        obtain ⟨hd', -, hp', he', hx'⟩ := isDigit_spec hdigit
        have hstep' : step { s with phase := .leadingZero } (asciiByte d) =
            some (s.takeWhole (d.toNat - 48)) := by
          simp [step, hd', hp', he', hx', takeWhole]
        refine ⟨.whole, .inr rfl, ?_⟩
        rw [run_cons _ (ascii_of_isDigit hdigit), hstep', Option.bind_some,
          run_whole (fun e h => hcs' e (List.mem_cons_of_mem d h)) rfl, ofDigitChars_digit]
        rfl
    · rw [if_neg h0]
      refine ⟨.whole, .inr rfl, ?_⟩
      rw [run_whole hcs' rfl, ofDigitChars_digit]
      rfl

/-- The digits after the point. -/
lemma run_places {cs : List Char} (hcs : AreDigits cs) {s : Scan} (hs : s.phase = .fraction) :
    s.run cs = some { s with
      phase := .fraction
      digits := ofDigitChars 10 cs s.digits
      places := s.places + cs.length } := by
  induction cs generalizing s with
  | nil =>
    rw [← hs]
    rfl
  | cons c cs ih =>
    have hc := hcs c List.mem_cons_self
    obtain ⟨hd, -, hp, he, -⟩ := isDigit_spec hc
    have hstep : s.step (asciiByte c) = some (s.takePlace (c.toNat - 48)) := by
      simp [step, hs, hd, he]
    have hrest := ih (fun d h => hcs d (List.mem_cons_of_mem c h))
      (s := s.takePlace (c.toNat - 48)) rfl
    have hplaces : s.places + 1 + cs.length = s.places + (cs.length + 1) := by omega
    rw [run_cons _ (ascii_of_isDigit hc), hstep, Option.bind_some, hrest, ofDigitChars_digit,
      List.length_cons, ← hplaces]
    rfl

/-- The point after the first digits. -/
lemma run_point {s : Scan} (hs : s.phase = .leadingZero ∨ s.phase = .whole) (cs : List Char) :
    s.run ('.' :: cs) = run { s with phase := .fraction } cs := by
  have hstep : s.step (asciiByte '.') = some { s with phase := .fraction } := by
    have hp : (asciiByte '.' == point) = true := rfl
    have hx : isHexMark (asciiByte '.') = false := rfl
    rcases hs with hs | hs <;> simp [step, hs, hp, hx]
  rw [run_cons s (by decide), hstep, Option.bind_some]

/-- A point before all digits. -/
lemma run_leadingPoint {cs : List Char} (hcs : AreDigits cs) (hne : cs ≠ []) {s : Scan}
    (hs : s.phase = .start ∨ s.phase = .sign) :
    s.run ('.' :: cs) = some { s with
      phase := .fraction
      digits := ofDigitChars 10 cs s.digits
      places := s.places + cs.length } := by
  cases cs with
  | nil => exact absurd rfl hne
  | cons c cs =>
    have hstep : s.step (asciiByte '.') = some { s with phase := .leadingPoint } := by
      have hp : (asciiByte '.' == point) = true := rfl
      have hsign : isSign (asciiByte '.') = false := rfl
      rcases hs with hs | hs <;> simp [step, hs, hp, hsign]
    have hc := hcs c List.mem_cons_self
    have hdigit : ∀ p, p = Phase.leadingPoint ∨ p = Phase.fraction →
        step { s with phase := p } (asciiByte c) =
          some (takePlace { s with phase := .fraction } (c.toNat - 48)) := by
      obtain ⟨hd, -, -, he, -⟩ := isDigit_spec hc
      rintro p (rfl | rfl) <;> simp [step, hd, he, takePlace]
    -- the first digit is taken as it is behind a point with digits before it
    have hplaces := run_places hcs (s := { s with phase := .fraction }) rfl
    rw [run_cons _ (ascii_of_isDigit hc), hdigit _ (.inr rfl)] at hplaces
    rw [run_cons s (by decide), hstep, Option.bind_some, run_cons _ (ascii_of_isDigit hc),
      hdigit _ (.inl rfl)]
    exact hplaces

/-- The letter of an exponent. -/
lemma run_exponentMark {s : Scan}
    (hs : s.phase = .leadingZero ∨ s.phase = .whole ∨ s.phase = .fraction) {mark : Char}
    (hmark : mark = 'e' ∨ mark = 'E') (cs : List Char) :
    s.run (mark :: cs) = run { s with phase := .exponentMark } cs := by
  have hascii : mark.toNat ≤ 0x7f := by rcases hmark with rfl | rfl <;> decide
  have hstep : s.step (asciiByte mark) = some { s with phase := .exponentMark } := by
    obtain ⟨-, -, -, -, hp, he, hx⟩ := asciiByte_spec hascii
    rcases hmark with rfl | rfl <;> rcases hs with hs | hs | hs <;> simp [step, hs, hp, he, hx]
  rw [run_cons s hascii, hstep, Option.bind_some]

/-- The digits of the exponent. -/
lemma run_exponent {cs : List Char} (hcs : AreDigits cs) (hne : cs ≠ []) {s : Scan}
    (hs : s.phase = .exponentMark ∨ s.phase = .exponentSign ∨ s.phase = .exponent) :
    s.run cs = some { s with phase := .exponent, exponent := ofDigitChars 10 cs s.exponent } := by
  induction cs generalizing s with
  | nil => exact absurd rfl hne
  | cons c cs ih =>
    have hc := hcs c List.mem_cons_self
    obtain ⟨hd, hsign, -, -, -⟩ := isDigit_spec hc
    have hstep : s.step (asciiByte c) = some (s.takeExponent (c.toNat - 48)) := by
      rcases hs with hs | hs | hs <;> simp [step, hs, hd, hsign]
    have hcs' : AreDigits cs := fun d h => hcs d (List.mem_cons_of_mem c h)
    rw [run_cons _ (ascii_of_isDigit hc), hstep, Option.bind_some, ofDigitChars_digit]
    cases cs with
    | nil => rfl
    | cons d cs =>
      rw [ih hcs' (List.cons_ne_nil d cs) (.inr (.inr rfl))]
      rfl

/-- A numeral ends with some characters. -/
def Accepts (s : Scan) (cs : List Char) (n : Numeral) : Prop :=
  ∃ s', s.run cs = some s' ∧ s'.finish = some n

lemma accepts_of_run {s s' : Scan} {ds : List Char} {n : Numeral} (cs : List Char)
    (h : s.run cs = some s') (hs : s'.Accepts ds n) : s.Accepts (cs ++ ds) n := by
  obtain ⟨t, ht, hn⟩ := hs
  refine ⟨t, ?_, hn⟩
  rw [run_append, h, Option.bind_some, ht]

variable {negative : Bool} {digits places : Nat} {cs : List Char} {n : Numeral}

/-- The sign and the digits of an exponent. -/
lemma run_signedExponent {sign ds : List Char} {exponentNegative : Bool}
    (hsign : Sign sign exponentNegative) (hds : AreDigits ds) (hne : ds ≠ []) :
    run { phase := .exponentMark, negative, digits, places } (sign ++ ds) = some
      { phase := .exponent, negative, digits, places, exponentNegative,
        exponent := ofDigitChars 10 ds 0 } := by
  cases hsign with
  | absent => exact run_exponent hds hne (.inl rfl)
  | plus =>
    exact run_exponent (s := { phase := .exponentSign, negative, digits, places }) hds hne
      (.inr (.inl rfl))
  | minus =>
    exact run_exponent
      (s := { phase := .exponentSign, negative, digits, places, exponentNegative := true }) hds hne
      (.inr (.inl rfl))

lemma accepts_exponent {p : Phase} (hp : p = .leadingZero ∨ p = .whole ∨ p = .fraction) {e : Int}
    (h : Exponent cs e) :
    Accepts { phase := p, negative, digits, places } cs (decimal negative digits (e - places)) := by
  obtain ⟨hmark, hsign, hds, hne⟩ := h
  exact ⟨_, (run_exponentMark hp hmark _).trans (run_signedExponent hsign hds hne), rfl⟩

lemma accepts_optionalExponent {e : Int} (h : OptionalExponent cs e) :
    Accepts { phase := .fraction, negative, digits, places } cs
      (decimal negative digits (e - places)) := by
  cases h with
  | absent => exact ⟨_, rfl, rfl⟩
  | present h => exact accepts_exponent (.inr (.inr rfl)) h

/-- Hexadecimal digits. -/
lemma run_hex (hcs : AreHexDigits cs) (b : Bool) :
    run { phase := .hex b, negative, digits } cs = some
      { phase := .hex (b || !cs.isEmpty), negative, digits := ofHexDigits cs digits } := by
  induction cs generalizing b digits with
  | nil =>
    rw [List.isEmpty_nil, Bool.not_true, Bool.or_false]
    rfl
  | cons c cs ih =>
    obtain ⟨hc, hcs⟩ := List.forall_mem_cons.1 hcs
    have hascii := ascii_of_hexDigit? hc
    obtain ⟨d, hd⟩ := Option.isSome_iff_exists.1 hc
    have hdigit := (asciiByte_spec hascii).2.1
    have hvalue : ofHexDigits (c :: cs) digits = ofHexDigits cs (digits * 16 + d) := by
      rw [ofHexDigits, List.foldl_cons, hd, Option.getD_some, ofHexDigits]
    rw [run_cons _ hascii, hvalue]
    simp only [step, hdigit, hd, Option.map_some, Option.bind_some]
    rw [ih hcs, Bool.true_or, List.isEmpty_cons, Bool.not_false, Bool.or_true]

/-- Everything that is written behind a sign is accepted there. -/
lemma accepts_of_unsigned {p : Phase} (hp : p = .start ∨ p = .sign) (h : Unsigned negative cs n) :
    Accepts { phase := p, negative } cs n := by
  cases h with
  | @hex mark ds hmark hds hne =>
    have hzero : run { phase := p, negative } ('0' :: mark :: ds) =
        run { phase := .leadingZero, negative } (mark :: ds) := by
      rcases hp with rfl | rfl <;> rfl
    have hhex : run { phase := .leadingZero, negative } (mark :: ds) =
        run { phase := .hex false, negative } ds := by
      rcases hmark with rfl | rfl <;> rfl
    refine ⟨_, (hzero.trans hhex).trans (run_hex hds false), ?_⟩
    rw [List.isEmpty_eq_false_iff.2 hne]
    rfl
  | whole hds hne =>
    obtain ⟨q, hq, h⟩ := run_first (s := { phase := p, negative }) hds hne hp rfl
    refine ⟨_, h, ?_⟩
    rcases hq with rfl | rfl <;> rfl
  | @point ds ps ex e hds hne hps hex =>
    obtain ⟨q, hq, h⟩ := run_first (s := { phase := p, negative }) hds hne hp rfl
    have hplaces := (run_point (s := { phase := q, negative, digits := ofDigitChars 10 ds 0 }) hq
      ps).trans (run_places hps rfl)
    dsimp only at hplaces
    rw [Nat.zero_add] at hplaces
    rw [Nat.ofDigitChars_append]
    exact accepts_of_run ds h (accepts_of_run ('.' :: ps) hplaces (accepts_optionalExponent hex))
  | @exponent ds ex e hds hne hex =>
    obtain ⟨q, hq, h⟩ := run_first (s := { phase := p, negative }) hds hne hp rfl
    have h' : Accepts { phase := q, negative, digits := ofDigitChars 10 ds 0 } ex
        (decimal negative (ofDigitChars 10 ds 0) (e - (0 : Nat))) :=
      accepts_exponent (hq.imp_right .inl) hex
    rw [Int.natCast_zero, Int.sub_zero] at h'
    exact accepts_of_run ds h h'
  | @leadingPoint ps ex e hps hne hex =>
    have hplaces := run_leadingPoint (s := { phase := p, negative }) hps hne hp
    dsimp only at hplaces
    rw [Nat.zero_add] at hplaces
    exact accepts_of_run ('.' :: ps) hplaces (accepts_optionalExponent hex)

/-! ## What the machine has seen -/

/-- A numeral goes on with ASCII characters only, one step for each. -/
lemma Accepts.cons {s : Scan} {c : Char} (h : s.Accepts (c :: cs) n) :
    c.toNat ≤ 0x7f ∧ ∃ s', s.step (asciiByte c) = some s' ∧ s'.Accepts cs n := by
  obtain ⟨t, ht, hn⟩ := h
  rcases Nat.lt_or_ge 0x7f c.toNat with hc | hc
  · -- the first byte of any other character is taken in no phase
    obtain ⟨b, bytes, hb⟩ := List.exists_cons_of_ne_nil (String.utf8EncodeChar_ne_nil (c := c))
    have hforeign := foreign_of_beyond (Text.le_of_mem_utf8EncodeChar hc (hb ▸ List.mem_cons_self))
    rw [run, List.flatMap_cons, hb, List.cons_append, List.foldlM_cons,
      step_of_foreign hforeign] at ht
    cases ht
  · rw [run_cons _ hc] at ht
    obtain ⟨s', hs', ht⟩ := Option.bind_eq_some_iff.1 ht
    exact ⟨hc, s', hs', t, ht, hn⟩

/-- The first character may be taken by another scan in the same way. -/
lemma Accepts.of_step {s t : Scan} {c : Char} (h : s.Accepts (c :: cs) n)
    (hstep : ∀ s', s.step (asciiByte c) = some s' → t.step (asciiByte c) = some s') :
    t.Accepts (c :: cs) n := by
  obtain ⟨hc, s', hs, u, hu, hn⟩ := h.cons
  refine ⟨u, ?_, hn⟩
  rw [run_cons _ hc, hstep s' hs, Option.bind_some, hu]

/-- The digits of an exponent. -/
lemma Accepts.of_exponent {exponentNegative : Bool} {x : Nat}
    (h : Accepts { phase := .exponent, negative, digits, places, exponentNegative, exponent := x } cs n) :
    AreDigits cs ∧ n = decimal negative digits
      (signed exponentNegative (ofDigitChars 10 cs x) - places) := by
  induction cs generalizing x with
  | nil =>
    obtain ⟨_, ⟨⟩, hn⟩ := h
    exact ⟨nofun, (Option.some_inj.1 hn).symm⟩
  | cons c cs ih =>
    obtain ⟨hc, s', hs, h⟩ := h.cons
    obtain ⟨d, hd, rfl⟩ := Option.map_eq_some_iff.1 hs
    obtain ⟨hdigit, rfl⟩ := isDigit_of_decimalDigit? hc hd
    obtain ⟨hcs, rfl⟩ := ih h
    rw [ofDigitChars_digit]
    exact ⟨.cons hdigit hcs, rfl⟩

/-- The digits of an exponent, at least one of them. -/
lemma Accepts.of_exponentSign {exponentNegative : Bool}
    (h : Accepts { phase := .exponentSign, negative, digits, places, exponentNegative } cs n) :
    AreDigits cs ∧ cs ≠ [] ∧ n = decimal negative digits
      (signed exponentNegative (ofDigitChars 10 cs 0) - places) := by
  cases cs with
  | nil => obtain ⟨_, ⟨⟩, ⟨⟩⟩ := h
  | cons c cs =>
    have h' : Accepts { phase := .exponent, negative, digits, places, exponentNegative } (c :: cs) n :=
      h.of_step fun _ hs => hs
    obtain ⟨hcs, hn⟩ := h'.of_exponent
    exact ⟨hcs, List.cons_ne_nil c cs, hn⟩

lemma sign_of_isSign {c : Char} (hc : c.toNat ≤ 0x7f) (hs : isSign (asciiByte c) = true) :
    Sign [c] (asciiByte c == minusSign) := by
  obtain ⟨-, -, hsign, -⟩ := asciiByte_spec hc
  rw [hsign, decide_eq_true_eq] at hs
  rcases hs with rfl | rfl
  · exact .plus
  · exact .minus

/-- What follows the letter of an exponent. -/
lemma Accepts.of_exponentMark {mark : Char} (hmark : mark = 'e' ∨ mark = 'E')
    (h : Accepts { phase := .exponentMark, negative, digits, places } cs n) :
    ∃ e, Exponent (mark :: cs) e ∧ n = decimal negative digits (e - places) := by
  cases cs with
  | nil => obtain ⟨_, ⟨⟩, ⟨⟩⟩ := h
  | cons c cs =>
    obtain ⟨hc, s', hs, h'⟩ := h.cons
    simp only [step] at hs
    split at hs
    · next hsign =>
      obtain rfl := Option.some_inj.1 hs
      obtain ⟨hds, hne, hn⟩ := h'.of_exponentSign
      exact ⟨_, .mk hmark (sign_of_isSign hc hsign) hds hne, hn⟩
    · next hsign =>
      have h'' : Accepts { phase := .exponentSign, negative, digits, places } (c :: cs) n :=
        h.of_step fun t ht => by
          simp only [step, hsign] at ht
          exact ht
      obtain ⟨hds, hne, hn⟩ := h''.of_exponentSign
      exact ⟨_, .mk hmark .absent hds hne, hn⟩

lemma exponentMark_of_isExponentMark {c : Char} (hc : c.toNat ≤ 0x7f)
    (h : isExponentMark (asciiByte c) = true) : c = 'e' ∨ c = 'E' := by
  obtain ⟨-, -, -, -, -, hmark, -⟩ := asciiByte_spec hc
  simpa [hmark] using h

/-- What follows a point that has a digit before or behind it. -/
lemma Accepts.of_fraction (h : Accepts { phase := .fraction, negative, digits, places } cs n) :
    ∃ ps ex e, cs = ps ++ ex ∧ AreDigits ps ∧ OptionalExponent ex e ∧
      n = decimal negative (ofDigitChars 10 ps digits) (e - (places + ps.length : Nat)) := by
  induction cs generalizing digits places with
  | nil =>
    obtain ⟨_, ⟨⟩, hn⟩ := h
    exact ⟨[], [], 0, rfl, nofun, .absent, (Option.some_inj.1 hn).symm⟩
  | cons c cs ih =>
    obtain ⟨hc, s', hs, h⟩ := h.cons
    simp only [step] at hs
    split at hs
    · next hmark =>
      obtain rfl := Option.some_inj.1 hs
      obtain ⟨e, hex, hn⟩ := h.of_exponentMark (exponentMark_of_isExponentMark hc hmark)
      exact ⟨[], c :: cs, e, rfl, nofun, .present hex, hn⟩
    · obtain ⟨d, hd, rfl⟩ := Option.map_eq_some_iff.1 hs
      obtain ⟨hdigit, rfl⟩ := isDigit_of_decimalDigit? hc hd
      obtain ⟨ps, ex, e, rfl, hps, hex, rfl⟩ := ih h
      refine ⟨c :: ps, ex, e, rfl, .cons hdigit hps, hex, ?_⟩
      rw [ofDigitChars_digit, List.length_cons, Nat.add_comm ps.length, ← Nat.add_assoc]

/-- What follows a point without digits before it. -/
lemma Accepts.of_leadingPoint (h : Accepts { phase := .leadingPoint, negative } cs n) :
    Unsigned negative ('.' :: cs) n := by
  cases cs with
  | nil => obtain ⟨_, ⟨⟩, ⟨⟩⟩ := h
  | cons c cs =>
    obtain ⟨hc, s', hs, h⟩ := h.cons
    obtain ⟨d, hd, rfl⟩ := Option.map_eq_some_iff.1 hs
    obtain ⟨hdigit, rfl⟩ := isDigit_of_decimalDigit? hc hd
    obtain ⟨ps, ex, e, rfl, hps, hex, rfl⟩ := Accepts.of_fraction h
    have hpoint : Unsigned negative ('.' :: (c :: ps ++ ex))
        (decimal negative (ofDigitChars 10 (c :: ps) 0) (e - (c :: ps).length)) :=
      .leadingPoint (.cons hdigit hps) (List.cons_ne_nil c ps) hex
    rw [ofDigitChars_digit, List.length_cons, Nat.add_comm ps.length] at hpoint
    exact hpoint

/-- What may follow the digits before a point, which are taken as one number. -/
inductive AfterDigits (negative : Bool) (digits : Nat) : List Char → Numeral → Prop
  | nothing : AfterDigits negative digits [] (integer negative digits)
  | point {ps ex : List Char} {e : Int} (hps : AreDigits ps) (hex : OptionalExponent ex e) :
      AfterDigits negative digits ('.' :: (ps ++ ex))
        (decimal negative (ofDigitChars 10 ps digits) (e - ps.length))
  | exponent {ex : List Char} {e : Int} (hex : Exponent ex e) :
      AfterDigits negative digits ex (decimal negative digits e)

lemma AfterDigits.unsigned (ds : List Char) {rest : List Char} (hds : AreDigits ds) (hne : ds ≠ [])
    (h : AfterDigits negative (ofDigitChars 10 ds 0) rest n) : Unsigned negative (ds ++ rest) n := by
  cases h with
  | nothing =>
    rw [List.append_nil]
    exact .whole hds hne
  | point hps hex =>
    rw [← Nat.ofDigitChars_append]
    exact .point hds hne hps hex
  | exponent hex => exact .exponent hds hne hex

/-- What follows digits is a point or an exponent. -/
lemma Accepts.of_whole_cons {c : Char} (hd : decimalDigit? (asciiByte c) = none)
    (h : Accepts { phase := .whole, negative, digits } (c :: cs) n) :
    AfterDigits negative digits (c :: cs) n := by
  obtain ⟨hc, s', hs, h⟩ := h.cons
  simp only [step, hd, Option.map_none] at hs
  split_ifs at hs with hpoint hmark
  · obtain rfl := Option.some_inj.1 hs
    obtain ⟨ps, ex, e, rfl, hps, hex, rfl⟩ := h.of_fraction
    rw [(asciiByte_spec hc).2.2.2.2.1, decide_eq_true_eq] at hpoint
    rw [hpoint, Nat.zero_add]
    exact .point hps hex
  · obtain rfl := Option.some_inj.1 hs
    obtain ⟨e, hex, rfl⟩ := h.of_exponentMark (exponentMark_of_isExponentMark hc hmark)
    rw [Int.natCast_zero, Int.sub_zero]
    exact .exponent hex

/-- What follows the first digits. -/
lemma Accepts.of_whole (h : Accepts { phase := .whole, negative, digits } cs n) :
    ∃ ds rest, cs = ds ++ rest ∧ AreDigits ds ∧
      AfterDigits negative (ofDigitChars 10 ds digits) rest n := by
  induction cs generalizing digits with
  | nil =>
    obtain ⟨_, ⟨⟩, hn⟩ := h
    obtain rfl := Option.some_inj.1 hn
    exact ⟨[], [], rfl, nofun, .nothing⟩
  | cons c cs ih =>
    cases hd : decimalDigit? (asciiByte c) with
    | none => exact ⟨[], c :: cs, rfl, nofun, h.of_whole_cons hd⟩
    | some d =>
      obtain ⟨hc, s', hs, h⟩ := h.cons
      obtain ⟨hdigit, rfl⟩ := isDigit_of_decimalDigit? hc hd
      obtain ⟨-, -, hpoint, hmark, -⟩ := isDigit_spec hdigit
      simp only [step, hd, hpoint, hmark, Bool.false_eq_true, if_false, Option.map_some,
        Option.some_inj] at hs
      subst hs
      obtain ⟨ds, rest, rfl, hds, hrest⟩ := ih h
      rw [← ofDigitChars_digit] at hrest
      exact ⟨c :: ds, rest, rfl, .cons hdigit hds, hrest⟩

/-- The digits of a hexadecimal numeral. -/
lemma Accepts.of_hex {b : Bool} (h : Accepts { phase := .hex b, negative, digits } cs n) :
    AreHexDigits cs ∧ (b = true ∨ cs ≠ []) ∧ n = integer negative (ofHexDigits cs digits) := by
  induction cs generalizing b digits with
  | nil =>
    obtain ⟨_, ⟨⟩, hn⟩ := h
    cases b with
    | false => cases hn
    | true => exact ⟨nofun, .inl rfl, (Option.some_inj.1 hn).symm⟩
  | cons c cs ih =>
    obtain ⟨hc, s', hs, h⟩ := h.cons
    obtain ⟨d, hd, rfl⟩ := Option.map_eq_some_iff.1 hs
    rw [(asciiByte_spec hc).2.1] at hd
    obtain ⟨hcs, -, rfl⟩ := ih h
    refine ⟨List.forall_mem_cons.2 ⟨by rw [hd]; rfl, hcs⟩, .inr (List.cons_ne_nil c cs), ?_⟩
    rw [ofHexDigits, ofHexDigits, List.foldl_cons, hd]
    rfl

/-- What follows a zero. -/
lemma Accepts.of_leadingZero (h : Accepts { phase := .leadingZero, negative } cs n) :
    Unsigned negative ('0' :: cs) n := by
  have hzero : AreDigits ['0'] := List.forall_mem_singleton.2 rfl
  have hwhole : Accepts { phase := .whole, negative } cs n → Unsigned negative ('0' :: cs) n := by
    intro h
    obtain ⟨ds, rest, rfl, hds, hrest⟩ := h.of_whole
    exact AfterDigits.unsigned ('0' :: ds) (.cons rfl hds) (List.cons_ne_nil _ _) hrest
  cases cs with
  | nil =>
    obtain ⟨_, ⟨⟩, hn⟩ := h
    obtain rfl := Option.some_inj.1 hn
    exact .whole hzero (List.cons_ne_nil _ _)
  | cons c cs =>
    obtain ⟨hc, s', hs, h'⟩ := h.cons
    simp only [step] at hs
    split at hs
    · next hmark =>
      obtain rfl := Option.some_inj.1 hs
      obtain ⟨hcs, hne, rfl⟩ := h'.of_hex
      rw [(asciiByte_spec hc).2.2.2.2.2.2, decide_eq_true_eq] at hmark
      exact .hex hmark hcs (hne.resolve_left Bool.false_ne_true)
    · next hmark =>
      -- anything but the letter of a hexadecimal number may follow other digits too
      refine hwhole (h.of_step fun t ht => ?_)
      simp only [step, hmark] at ht
      exact ht

/-- What follows a sign. -/
lemma Accepts.of_sign (h : Accepts { phase := .sign, negative } cs n) : Unsigned negative cs n := by
  cases cs with
  | nil => obtain ⟨_, ⟨⟩, ⟨⟩⟩ := h
  | cons c cs =>
    obtain ⟨hc, s', hs, h'⟩ := h.cons
    simp only [step] at hs
    split at hs
    · next hpoint =>
      obtain rfl := Option.some_inj.1 hs
      rw [(asciiByte_spec hc).2.2.2.2.1, decide_eq_true_eq] at hpoint
      rw [hpoint]
      exact h'.of_leadingPoint
    · obtain ⟨d, hd, rfl⟩ := Option.map_eq_some_iff.1 hs
      obtain ⟨hdigit, rfl⟩ := isDigit_of_decimalDigit? hc hd
      split at h'
      · next hzero =>
        have hlow := (toNat_of_isDigit hdigit).1
        obtain rfl : c = '0' := Char.toNat_inj.1 (show c.toNat = 48 by omega)
        exact h'.of_leadingZero
      · obtain ⟨ds, rest, rfl, hds, hrest⟩ := Accepts.of_whole h'
        rw [← ofDigitChars_digit] at hrest
        exact AfterDigits.unsigned (c :: ds) (.cons hdigit hds) (List.cons_ne_nil c ds) hrest

end Scan

/-- Characters that are a whole numeral. -/
def Spells (cs : List Char) (n : Numeral) : Prop := ∃ s, Scan.run {} cs = some s ∧ s.finish = some n

/-- The machine takes exactly the texts of the grammar. -/
theorem spells_iff_written {cs : List Char} {n : Numeral} : Spells cs n ↔ Written cs n := by
  constructor
  · intro h
    cases cs with
    | nil => obtain ⟨_, ⟨⟩, ⟨⟩⟩ := h
    | cons c cs =>
      obtain ⟨hc, s, hs, h'⟩ := Scan.Accepts.cons h
      simp only [Scan.step] at hs
      split at hs
      · next hsign =>
        obtain rfl := Option.some_inj.1 hs
        exact .mk (Scan.sign_of_isSign hc hsign) (Scan.Accepts.of_sign h')
      · next hsign =>
        refine .mk .absent (Scan.Accepts.of_sign (Scan.Accepts.of_step h fun t ht => ?_))
        simp only [Scan.step, hsign] at ht
        exact ht
  · rintro ⟨hsign, h⟩
    cases hsign with
    | absent => exact Scan.accepts_of_unsigned (.inl rfl) h
    | plus => exact Scan.accepts_of_run ['+'] rfl (Scan.accepts_of_unsigned (.inr rfl) h)
    | minus => exact Scan.accepts_of_run ['-'] rfl (Scan.accepts_of_unsigned (.inr rfl) h)

end Semdoc.Numeral
