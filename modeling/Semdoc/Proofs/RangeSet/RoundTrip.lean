import Semdoc.Proofs.RangeSet.Merging
import Semdoc.Proofs.Text.Characters

/-!
# Range sets in writing

Every range is read back from its written form, a single number, a number and a star, or two numbers; and
since the ranges of a set are in canonical form, merging them one after the other gives the set again.
-/

namespace Semdoc

namespace Text

variable {sep : Char} {piece : List Char}

/-- A text without the separator is one piece. -/
lemma splitChars_of_not_mem (h : sep ∉ piece) : splitChars sep piece = [piece] := by
  induction piece with
  | nil => rfl
  | cons c piece ih =>
    obtain ⟨hc, hpiece⟩ := not_or.1 (mt List.mem_cons.2 h)
    rw [splitChars, if_neg (by simpa using Ne.symm hc), ih hpiece]

/-- What stands before the first separator is a piece. -/
lemma splitChars_append (h : sep ∉ piece) (rest : List Char) :
    splitChars sep (piece ++ sep :: rest) = piece :: splitChars sep rest := by
  induction piece with
  | nil => rw [List.nil_append, splitChars, if_pos (by simp)]
  | cons c piece ih =>
    obtain ⟨hc, hpiece⟩ := not_or.1 (mt List.mem_cons.2 h)
    rw [List.cons_append, splitChars, if_neg (by simpa using Ne.symm hc), ih hpiece]

/-- Pieces that are joined by a separator which occurs in none of them are split again. -/
lemma splitChars_intercalate {pieces : List (List Char)} (hne : pieces ≠ [])
    (h : ∀ p ∈ pieces, sep ∉ p) : splitChars sep ([sep].intercalate pieces) = pieces := by
  induction pieces with
  | nil => exact absurd rfl hne
  | cons p pieces ih =>
    obtain ⟨hp, hpieces⟩ := List.forall_mem_cons.1 h
    cases pieces with
    | nil => simpa using splitChars_of_not_mem hp
    | cons q pieces =>
      rw [List.intercalate_cons_cons, List.append_assoc, List.singleton_append,
        splitChars_append hp, ih (List.cons_ne_nil q pieces) hpieces]

/-- No visible ASCII character is blank. -/
lemma isBlank_eq_false {c : Char} (h : 0x20 < c.toNat ∧ c.toNat < 0x85) : isBlank c = false := by
  simp only [isBlank, whiteSpaceRanges, List.any_cons, List.any_nil, Bool.or_eq_false_iff,
    Bool.and_eq_false_iff, decide_eq_false_iff_not, and_true]
  omega

end Text

namespace RangeSet

open NumberRange

/-! ## Ranges -/

/-- The digits of a number. -/
def digits (n : UInt64) : List Char := Nat.toDigits 10 n.toNat

lemma isDigit_of_mem_digits {n : UInt64} {c : Char} (hc : c ∈ digits n) : c.isDigit = true :=
  Nat.isDigit_of_mem_toDigits (by decide) (by decide) hc

/-- A number starts with a digit. -/
lemma exists_digits (n : UInt64) : ∃ c cs, digits n = c :: cs ∧ c.isDigit = true := by
  obtain ⟨c, cs, h⟩ := List.exists_cons_of_ne_nil (Nat.toDigits_ne_nil (b := 10) (n := n.toNat))
  exact ⟨c, cs, h, isDigit_of_mem_digits (h ▸ List.mem_cons_self)⟩

/-- The characters that ranges are written with. -/
def IsWritten (c : Char) : Prop := c.isDigit = true ∨ c = '-' ∨ c = '*'

lemma IsWritten.not_blank {c : Char} (h : IsWritten c) : Text.isBlank c = false := by
  rcases h with h | rfl | rfl
  · rw [Char.isDigit, Bool.and_eq_true, decide_eq_true_eq, decide_eq_true_eq] at h
    exact Text.isBlank_eq_false ⟨Nat.lt_of_lt_of_le (by decide) h.1, Nat.lt_of_le_of_lt h.2 (by decide)⟩
  · decide
  · decide

/-- Nothing is trimmed off what is written so. -/
lemma trimChars_of_isWritten {cs : List Char} (h : ∀ c ∈ cs, IsWritten c) :
    Text.trimChars Text.isBlank cs = cs :=
  Text.trimChars_eq_self (fun c hc => (h c (List.mem_of_mem_head? hc)).not_blank)
    fun c hc => (h c (List.mem_of_mem_getLast? hc)).not_blank

lemma readDigits_some {cs : List Char} (hcs : ∀ c ∈ cs, c.isDigit = true) (n : Nat) :
    readDigits (some n) cs = some (Nat.ofDigitChars 10 cs n) := by
  induction cs generalizing n with
  | nil => rfl
  | cons c cs ih =>
    obtain ⟨hc, hcs⟩ := List.forall_mem_cons.1 hcs
    have hdigit : Text.isDigit c = true := hc
    rw [readDigits, if_pos hdigit, ih hcs, Nat.ofDigitChars_cons, Nat.mul_comm 10]
    rfl

/-- A number is read back from its digits. -/
lemma readNumber_digits (n : UInt64) : readNumber (digits n) = .ok n := by
  have hsome := readDigits_some (fun c (hc : c ∈ digits n) => isDigit_of_mem_digits hc) 0
  rw [digits, Nat.ofDigitChars_ten_toDigits, ← digits] at hsome
  have htrim := trimChars_of_isWritten fun c (hc : c ∈ digits n) => .inl (isDigit_of_mem_digits hc)
  obtain ⟨c, cs, hcs, hc⟩ := exists_digits n
  have hread : readDigits none (c :: cs) = some n.toNat := by
    rw [← hsome, hcs]
    rfl
  have hplus : c ≠ '+' := by
    rintro rfl
    exact absurd hc (by decide)
  rw [readNumber, htrim, hcs]
  simp only [List.cons.injEq, hplus, false_and, imp_self, implies_true, hread, n.toNat_lt, if_true,
    UInt64.ofNat_toNat]

/-- A range is written as a number, a number and a star, or two numbers. -/
lemma toList_text (r : NumberRange) : r.text.toList =
    if r.start = r.stop then digits r.start
    else digits r.start ++ '-' :: if r.isUnbounded then ['*'] else digits r.stop := by
  have hnumber : ∀ n : UInt64, (toString n).toList = digits n := fun n => Nat.toList_repr
  unfold NumberRange.text
  split
  · exact hnumber _
  · split <;> simp [hnumber] <;> rfl

lemma isWritten_of_mem_text {r : NumberRange} {c : Char} (hc : c ∈ r.text.toList) : IsWritten c := by
  have hdigit : ∀ {n}, c ∈ digits n → IsWritten c := fun h => .inl (isDigit_of_mem_digits h)
  rw [toList_text] at hc
  split at hc
  · exact hdigit hc
  · rcases List.mem_append.1 hc with hc | hc
    · exact hdigit hc
    · rcases List.mem_cons.1 hc with rfl | hc
      · exact .inr (.inl rfl)
      · split at hc
        · exact .inr (.inr (List.mem_singleton.1 hc))
        · exact hdigit hc

/-- What starts with digits is no star. -/
lemma digits_append_ne (n : UInt64) (rest : List Char) : digits n ++ rest ≠ ['*'] := by
  obtain ⟨c, cs, hcs, hc⟩ := exists_digits n
  rw [hcs]
  rintro e
  obtain ⟨rfl, -⟩ := List.cons_eq_cons.1 e
  exact absurd hc (by decide)

lemma not_dash_of_mem_digits {n : UInt64} : ∀ c ∈ digits n, (c != '-') = true := by
  intro c hc
  rw [bne_iff_ne]
  rintro rfl
  exact absurd (isDigit_of_mem_digits hc) (by decide)

lemma readRange_digits (n : UInt64) : readRange (digits n) = .ok (.single n) := by
  have hne := digits_append_ne n []
  rw [List.append_nil] at hne
  rw [readRange, if_neg hne, List.dropWhile_eq_nil_iff.2 not_dash_of_mem_digits, readNumber_digits]
  rfl

lemma readRange_dash (n : UInt64) (stop : List Char) : readRange (digits n ++ '-' :: stop) =
    if Text.trimChars Text.isBlank stop = ['*'] then .ok (.atLeast n)
    else (readNumber stop).map (⟨n, ·⟩) := by
  rw [readRange, if_neg (digits_append_ne n _), List.dropWhile_append_of_pos not_dash_of_mem_digits,
    List.takeWhile_append_of_pos not_dash_of_mem_digits, List.dropWhile_cons_of_neg (by simp),
    List.takeWhile_cons_of_neg (by simp), List.append_nil, readNumber_digits]
  dsimp only [bind, Except.bind, pure, Except.pure]
  split
  · rfl
  · cases readNumber stop <;> rfl

/-- A range is read back from its written form. -/
lemma readRange_text (r : NumberRange) : readRange r.text.toList = .ok r := by
  obtain ⟨start, stop⟩ := r
  rw [toList_text]
  split
  · next e =>
    obtain rfl : start = stop := e
    exact readRange_digits start
  · rw [readRange_dash]
    split
    · next hu =>
      obtain rfl : stop = unbounded := eq_of_beq hu
      rfl
    · have hne := digits_append_ne stop []
      rw [List.append_nil] at hne
      rw [trimChars_of_isWritten fun c hc => .inl (isDigit_of_mem_digits hc), if_neg hne,
        readNumber_digits]
      rfl

/-! ## Sets -/

/-- Merging ranges in canonical form one after the other gives a set with just these ranges. -/
lemma foldl_merge_of_canonical {rs : List NumberRange} (h : Canonical rs) :
    rs.foldl merge {} = { ranges := rs } := by
  obtain ⟨hcanonical, hcovers, hinvalid⟩ := Canonical.foldl_merge (s := {}) .nil h.valid
  have hranges : (rs.foldl merge {}).ranges = rs :=
    hcanonical.eq_of_covers h fun n => by rw [hcovers, or_iff_right covers_nil]
  generalize rs.foldl merge {} = s at hranges hinvalid
  obtain ⟨ranges, invalid⟩ := s
  obtain rfl : ranges = rs := hranges
  obtain rfl : invalid = false := hinvalid
  rfl

lemma trimChars_text (r : NumberRange) :
    Text.trimChars Text.isBlank r.text.toList = r.text.toList :=
  trimChars_of_isWritten fun _ => isWritten_of_mem_text

lemma text_toList_ne_nil (r : NumberRange) : r.text.toList ≠ [] := by
  obtain ⟨c, cs, hcs, -⟩ := exists_digits r.start
  rw [toList_text, hcs]
  split <;> simp

/-- The written forms of some ranges are read as these ranges, which are merged in order. -/
lemma readParts_text (s : RangeSet) (blank : Bool) (rs : List NumberRange) :
    readParts blank s (rs.map fun r => r.text.toList) = .ok (rs.foldl merge s) := by
  induction rs generalizing s with
  | nil => rfl
  | cons r rs ih =>
    rw [List.map_cons, readParts, trimChars_text]
    split
    · next e => exact absurd e (text_toList_ne_nil r)
    · rw [readRange_text]
      exact ih (s.merge r)

/-- What a set has between its braces. -/
lemma unbraced_text (s : RangeSet) :
    unbraced s.text.toList = .ok ([','].intercalate (s.ranges.map fun r => r.text.toList)) := by
  have htext : s.text.toList =
      ('\x7b' :: [','].intercalate (s.ranges.map fun r => r.text.toList)) ++ ['\x7d'] := by
    rw [RangeSet.text, String.toList_append, String.toList_append, String.toList_intercalate,
      List.map_map]
    rfl
  have htrim : Text.trimChars Text.isBlank s.text.toList = s.text.toList := by
    rw [htext]
    refine Text.trimChars_eq_self (fun c hc => ?_) fun c hc => ?_
    · obtain rfl := Option.mem_some_iff.1 hc
      decide
    · rw [List.getLast?_concat] at hc
      obtain rfl := Option.mem_some_iff.1 hc
      decide
  rw [unbraced, htrim, htext, List.getLast?_concat]
  dsimp only [List.cons_append]
  simp

/-- A set whose ranges are in canonical form is read back, but for whether a reversed range was merged into
it, which is not written. -/
lemma parse_text_of_canonical {s : RangeSet} (h : Canonical s.ranges) :
    parse s.text = .ok { ranges := s.ranges } := by
  have hread : ∀ pieces, pieces = s.ranges.map (fun r => r.text.toList) →
      readParts (([','].intercalate pieces).all Text.isBlank) {}
        (Text.splitChars ',' ([','].intercalate pieces)) = .ok { ranges := s.ranges } := by
    rintro pieces hpieces
    cases pieces with
    | nil =>
      rw [List.map_eq_nil_iff.1 hpieces.symm]
      rfl
    | cons p rest =>
      rw [Text.splitChars_intercalate (List.cons_ne_nil p rest), hpieces, readParts_text,
        foldl_merge_of_canonical h]
      rintro q hq hcomma
      rw [hpieces] at hq
      obtain ⟨r, -, rfl⟩ := List.mem_map.1 hq
      rcases isWritten_of_mem_text hcomma with hc | hc | hc <;> exact absurd hc (by decide)
  rw [parse, readChars_eq, unbraced_text]
  exact congrArg (Except.mapError _) (hread _ rfl)

/-- The written form of a range set is read back as a set with the same ranges, also where there are none and
where a range is a single number or has no upper end.  It is the same set if and only if no reversed range was
merged into it. -/
theorem parse_text (p : Recipe) (s : RangeSet) (hs : p.make = .ok s) :
    parse s.text = .ok { s with invalid := false } ∧
      ∃ l, p.merged = .ok l ∧ (parse s.text = .ok s ↔ ∀ r ∈ l, r.isValid = true) := by
  rcases p.matches_make.cases_of with ⟨e, he, -⟩ | ⟨s', l, hs', hl, h⟩
  · rw [hs] at he
    cases he
  rw [hs] at hs'
  obtain rfl := Except.ok.inj hs'
  have hparse := parse_text_of_canonical h.canonical
  refine ⟨hparse, l, hl, ?_⟩
  have hinvalid : (∀ r ∈ l, r.isValid = true) ↔ s.invalid = false := by
    rw [← Bool.not_eq_true, h.invalid]
    simp
  rw [hparse, hinvalid, Except.ok.injEq]
  obtain ⟨ranges, invalid⟩ := s
  simp [eq_comm]

/-- Ranges that touch become one, the last of all numbers alone is written with its digits, and the set is
read back. -/
theorem parse_text_of_touching :
    (Recipe.merge (.merge (.merge (.single 7) ⟨1, 3⟩) ⟨4, 6⟩) (.single unbounded)).make =
        .ok { ranges := [⟨1, 7⟩, .single unbounded] } ∧
      parse (text { ranges := [⟨1, 7⟩, .single unbounded] }) =
        .ok { ranges := [⟨1, 7⟩, .single unbounded] } := by
  have hmake : (Recipe.merge (.merge (.merge (.single 7) ⟨1, 3⟩) ⟨4, 6⟩) (.single unbounded)).make =
      .ok { ranges := [⟨1, 7⟩, .single unbounded] } := by rfl
  exact ⟨hmake, (parse_text _ _ hmake).1⟩

end RangeSet

end Semdoc
