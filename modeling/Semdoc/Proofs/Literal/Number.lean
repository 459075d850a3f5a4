import Semdoc.Literal.Value
import Semdoc.Proofs.Literal.Moves
import Semdoc.Proofs.Text.Utf8

/-!
# Reading numbers

Bytes that the machine for numerals takes, and with which it ends well, are read as the number they
stand for, if what follows them ends a number.
-/

namespace Semdoc

open CharReader (isBreak next? skipped)

namespace Literal

/-- The bytes that end a number or a word inside a container. -/
def marks : List UInt8 := [comma, closeBracket, closeBrace, equalsSign, colon]

/-- What is left starts with a delimiter, or with nothing at all, after blanks. -/
def Closes (delims : List UInt8) (t : List UInt8) : Prop :=
  delims ⊆ marks ∧ ∀ c r, skipped t = c :: r → c ∈ delims

/-- What is left starts with a blank or a delimiter, or there is nothing. -/
def Stops (delims : List UInt8) (t : List UInt8) : Prop :=
  delims ⊆ marks ∧ ∀ c ∈ t.head?, Text.isBlankByte c = true ∨ c ∈ delims

/-- A blank or one of the bytes that end a number. -/
def Ends (c : UInt8) : Prop := Text.isBlankByte c = true ∨ c ∈ marks

instance : DecidablePred Ends := fun _ => inferInstanceAs (Decidable (_ ∨ _))

lemma not_isBreak_of_not_isBlankByte {c : UInt8} (hc : Text.isBlankByte c = false) :
    isBreak c = false := by
  cases hb : isBreak c with
  | false => rfl
  | true =>
    rw [CharReader.isBlankByte_of_isBreak hb] at hc
    cases hc

lemma not_isBreak_of_mem_marks {c : UInt8} (hc : c ∈ marks) : isBreak c = false := by
  have hall : (marks.all fun c => !isBreak c) = true := rfl
  simpa using List.all_eq_true.1 hall c hc

lemma Closes.cons {delims : List UInt8} {c : UInt8} {r : List UInt8}
    (h : Closes delims (c :: r)) : Text.isBlankByte c = true ∨ c ∈ delims := by
  cases hc : Text.isBlankByte c with
  | true => exact .inl rfl
  | false =>
    refine .inr (h.2 c r ?_)
    rw [skipped, List.dropWhile_cons, hc]
    rfl

lemma Closes.stops {delims t : List UInt8} (h : Closes delims t) : Stops delims t := by
  refine ⟨h.1, ?_⟩
  cases t with
  | nil => nofun
  | cons c r =>
    rintro _ ⟨⟩
    exact h.cons

end Literal

namespace Numeral

open Literal

/-- A byte that occurs in no number. -/
def Foreign (c : UInt8) : Prop :=
  decimalDigit? c = none ∧ digitOf? 16 c = none ∧ isSign c = false ∧ (c == point) = false ∧
    isExponentMark c = false ∧ isHexMark c = false

instance : DecidablePred Foreign := fun _ => inferInstanceAs (Decidable (_ ∧ _))

lemma foreign_of_ends {c : UInt8} (hc : Ends c) : Foreign c := by
  revert c
  apply Text.forall_byte
  decide +kernel

lemma foreign_of_beyond {c : UInt8} (hc : 0x80 ≤ c.toNat) : Foreign c := by
  revert c
  apply Text.forall_byte
  decide +kernel

namespace Scan

lemma step_of_foreign {c : UInt8} (hc : Foreign c) (s : Scan) : s.step c = none := by
  obtain ⟨hdigit, hhex, hsign, hpoint, hexp, hmark⟩ := hc
  rw [step]
  cases s.phase <;> simp [hdigit, hhex, hsign, hpoint, hexp, hmark]

/-- No numeral goes on with a byte that ends one. -/
lemma step_of_ends {c : UInt8} (hc : Ends c) (s : Scan) : s.step c = none :=
  step_of_foreign (foreign_of_ends hc) s

/-- A numeral starts with a digit, a sign or a point. -/
lemma startsNumber_of_step {c : UInt8} {s : Scan} (h : step {} c = some s) :
    startsNumber c = true := by
  rw [startsNumber]
  simp only [step] at h
  split_ifs at h with h1 h2
  · rw [h1, Bool.or_true, Bool.true_or]
  · rw [h2, Bool.or_true]
  · rw [decimalDigit?] at h
    split_ifs at h with h3
    · rw [h3, Bool.true_or, Bool.true_or]
    · cases h

end Scan

/-- Scanning stops before what ends a number. -/
lemma moves_scanWith_end {delims t : List UInt8} (ht : Stops delims t) (s : Scan) (n : Nat) :
    Moves (scanWith delims (n + 1) s) (t, t) (some s) (t, t) := by
  rw [scanWith]
  refine (Moves.peek t t).bind ?_
  cases t with
  | nil => exact (Moves.resetPeek _ _).bind (Moves.pure _ _)
  | cons c r =>
    have hstop : ∀ d, (next? (c :: r)).map (·.1) = some d →
        (Text.isBlankByte d || delims.contains d) = true := by
      intro d hd
      rw [next?, Option.map_some, Option.some_inj] at hd
      rw [Bool.or_eq_true, List.contains_iff_mem]
      cases hb : isBreak c with
      | true =>
        rw [hb] at hd
        rw [← hd]
        exact .inl rfl
      | false =>
        rw [hb] at hd
        rw [← hd]
        exact ht.2 c rfl
    cases hn : (next? (c :: r)).map (·.1) with
    | none => cases hn
    | some d =>
      simp only [hstop d hn, if_true]
      exact (Moves.resetPeek _ _).bind (Moves.pure _ _)

/-- Scanning takes all bytes of a numeral. -/
lemma moves_scanWith {delims t bytes : List UInt8} {s s' : Scan} {rounds : Nat}
    (hs : bytes.foldlM Scan.step s = some s') (ht : Stops delims t)
    (hr : bytes.length < rounds) :
    Moves (scanWith delims rounds s) (bytes ++ t, bytes ++ t) (some s') (t, t) := by
  induction bytes generalizing s rounds with
  | nil =>
    obtain ⟨n, rfl⟩ := Nat.exists_eq_add_of_le' hr
    cases hs
    exact moves_scanWith_end ht _ n
  | cons c bytes ih =>
    obtain ⟨n, rfl⟩ := Nat.exists_eq_add_of_le' (Nat.lt_of_le_of_lt (Nat.zero_le _) hr)
    obtain ⟨s₁, hstep, hs⟩ := Option.bind_eq_some_iff.1 hs
    have hends : ¬ Ends c := fun hc => by
      rw [Scan.step_of_ends hc] at hstep
      cases hstep
    have hblank : Text.isBlankByte c = false := Bool.eq_false_iff.2 fun hb => hends (.inl hb)
    have hdelim : delims.contains c = false := by
      rw [← Bool.not_eq_true, List.contains_iff_mem]
      exact fun hd => hends (.inr (ht.1 hd))
    rw [scanWith]
    refine (Moves.peek_cons (not_isBreak_of_not_isBlankByte hblank) _ (bytes ++ t)).bind ?_
    simp only [hblank, hdelim, Bool.or_false, Bool.false_eq_true, if_false, hstep]
    refine (Moves.consumePeek _ _).bind (ih hs ?_)
    rw [List.length_cons] at hr
    omega

/-- A numeral in range is read. -/
lemma moves_read {delims t bytes : List UInt8} {s : Scan} {n : Numeral}
    (hs : bytes.foldlM Scan.step {} = some s) (hn : s.finish = some n) (hrange : n.inRange = true)
    (ht : Stops delims t) :
    Moves (read delims) (bytes ++ t, bytes ++ t) (some n) (t, t) := by
  rw [read]
  refine (Moves.resetPeek _ _).bind (Moves.rounds_bind fun rounds hr => ?_)
  refine (moves_scanWith hs ht ?_).bind ?_
  · rw [List.length_append] at hr
    omega
  · simp only [hn, hrange, if_true]
    exact Moves.pure _ _

end Numeral

namespace Literal

/-- A number is read if it is followed by a delimiter or nothing, blanks apart. -/
theorem moves_readNumber? {delims t bytes : List UInt8} {s : Numeral.Scan} {n : Numeral}
    (hs : bytes.foldlM Numeral.Scan.step {} = some s) (hn : s.finish = some n)
    (hrange : n.inRange = true) (ht : Closes delims t) :
    Moves (readNumber? delims) (bytes ++ t, bytes ++ t) (some n.toValue) (skipped t, skipped t) := by
  refine Moves.attempt ((Numeral.moves_read hs hn hrange ht.stops).bind ?_)
  refine (Moves.skipWhitespace t t).bind ?_
  cases hrest : skipped t with
  | nil => exact (Moves.lookahead []).bind (Moves.pure _ _)
  | cons c r =>
    have hc := ht.2 c r hrest
    refine (Moves.lookahead_cons (not_isBreak_of_mem_marks (ht.1 hc)) r).bind ?_
    simp only [List.contains_iff_mem.2 hc, if_true]
    exact Moves.pure _ _

end Literal

end Semdoc
