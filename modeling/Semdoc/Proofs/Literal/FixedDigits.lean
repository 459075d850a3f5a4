import Mathlib.Data.Nat.Digits.Defs
import Mathlib.Tactic.SplitIfs
import Semdoc.Proofs.Literal.Contents

/-!
# Numbers with so many digits

A number with a fixed number of digits is read if that many digits come next and fit into 32 bits.  If
something else comes before, an error is reported.  If the digits become too many for 32 bits, reading
ends without a result and without a report.
-/

namespace Semdoc.Numeral

open CharReader (step? isBreak toNat_lt_of_isBreak)

variable {base d value count length : Nat} {c : UInt8} {cs bytes : List UInt8} {ds : List Nat}

/-! ## Digits -/

/-- A byte is a digit of a base: a decimal digit, or one of the letters that count on from ten. -/
def IsDigit (base d : Nat) (c : UInt8) : Prop :=
  d < base ∧ (d < 10 ∧ c.toNat = '0'.toNat + d ∨
    10 ≤ d ∧ d < 36 ∧ (c.toNat = 'a'.toNat + (d - 10) ∨ c.toNat = 'A'.toNat + (d - 10)))

/-- Some bytes are the digits of a number, its first digit first. -/
def Denotes (base : Nat) (cs : List UInt8) (v : Nat) : Prop :=
  ∃ ds, List.Forall₂ (IsDigit base) ds cs ∧ v = Nat.ofDigits base ds.reverse

lemma digitOf?_eq_some_iff : digitOf? base c = some d ↔ IsDigit base d c := by
  have h0 : '0'.toNat = 48 := rfl
  have ha : 'a'.toNat = 97 := rfl
  have hA : 'A'.toNat = 65 := rfl
  rw [digitOf?, Option.filter_eq_some_iff, decide_eq_true_eq, IsDigit, and_comm, h0, ha, hA]
  refine and_congr_right fun _ => ?_
  simp only [Text.between_iff, UInt8.reduceToNat]
  split_ifs with h1 h2 h3
  · rw [Option.some.injEq]
    omega
  · rw [Option.some.injEq]
    omega
  · rw [Option.some.injEq]
    omega
  · refine ⟨nofun, fun h => ?_⟩
    omega

/-- The digits that some bytes begin with. -/
def leadingDigits (base : Nat) : List UInt8 → List Nat
  | [] => []
  | c :: cs =>
    match digitOf? base c with
    | some d => d :: leadingDigits base cs
    | none => []

/-- The number that some more digits make of a number. -/
def extend (base value : Nat) (ds : List Nat) : Nat := ds.foldl (fun v d => v * base + d) value

lemma leadingDigits_append (h : List.Forall₂ (IsDigit base) ds cs) (rest : List UInt8) :
    leadingDigits base (cs ++ rest) = ds ++ leadingDigits base rest := by
  induction h with
  | nil => rfl
  | cons hd _ ih => rw [List.cons_append, leadingDigits, digitOf?_eq_some_iff.2 hd, ih, List.cons_append]

lemma forall₂_leadingDigits (base : Nat) (cs : List UInt8) :
    List.Forall₂ (IsDigit base) (leadingDigits base cs) (cs.take (leadingDigits base cs).length) := by
  induction cs with
  | nil => exact .nil
  | cons c cs ih =>
    rw [leadingDigits]
    cases hd : digitOf? base c with
    | none => exact .nil
    | some d => exact .cons (digitOf?_eq_some_iff.1 hd) ih

lemma length_leadingDigits_le : (leadingDigits base cs).length ≤ cs.length := by
  have h := (forall₂_leadingDigits base cs).length_eq
  rw [List.length_take] at h
  omega

lemma extend_zero (base : Nat) (ds : List Nat) : extend base 0 ds = Nat.ofDigits base ds.reverse := by
  induction ds using List.reverseRecOn with
  | nil => rfl
  | append_singleton ds d ih =>
    have hlast : extend base 0 (ds ++ [d]) = extend base 0 ds * base + d := by
      rw [extend, List.foldl_append]
      rfl
    rw [hlast, ih, List.reverse_append, List.reverse_singleton, List.singleton_append,
      Nat.ofDigits_cons, Nat.mul_comm, Nat.add_comm]

/-- More digits make a number no smaller. -/
lemma le_extend (h : ∀ d ∈ ds, d < base) : value ≤ extend base value ds := by
  induction ds generalizing value with
  | nil => exact Nat.le_refl value
  | cons d ds ih =>
    obtain ⟨hd, hds⟩ := List.forall_mem_cons.1 h
    have hvalue : value ≤ value * base := Nat.le_mul_of_pos_right value (Nat.zero_lt_of_lt hd)
    exact (hvalue.trans (Nat.le_add_right _ d)).trans (ih hds)

lemma lt_of_mem_leadingDigits (h : d ∈ leadingDigits base cs) : d < base := by
  induction cs with
  | nil => cases h
  | cons c cs ih =>
    rw [leadingDigits] at h
    cases hd : digitOf? base c with
    | none =>
      rw [hd] at h
      cases h
    | some e =>
      rw [hd] at h
      rcases List.mem_cons.1 h with rfl | h
      · exact digit_lt hd
      · exact ih h

lemma denotes_iff : Denotes base cs value ↔
    (leadingDigits base cs).length = cs.length ∧ value = extend base 0 (leadingDigits base cs) := by
  constructor
  · rintro ⟨ds, hds, rfl⟩
    have hall := leadingDigits_append hds []
    rw [List.append_nil, leadingDigits, List.append_nil] at hall
    rw [hall, extend_zero]
    exact ⟨hds.length_eq, rfl⟩
  · rintro ⟨hlen, rfl⟩
    have hds := forall₂_leadingDigits base cs
    rw [hlen, List.take_length] at hds
    exact ⟨_, hds, extend_zero base _⟩

/-- The number of all digits that come first is the greatest that comes first. -/
lemma extend_leadingDigits_lt_iff (bound : Nat) : extend base 0 (leadingDigits base cs) < bound ↔
    ∀ front v, front <+: cs → Denotes base front v → v < bound := by
  constructor
  · rintro h front v ⟨rest, rfl⟩ ⟨ds, hds, rfl⟩
    rw [leadingDigits_append hds, extend, List.foldl_append] at h
    rw [← extend_zero]
    refine Nat.lt_of_le_of_lt (le_extend fun d hd => ?_) h
    exact lt_of_mem_leadingDigits hd
  · intro h
    exact h _ _ (List.take_prefix _ cs) ⟨_, forall₂_leadingDigits base cs, extend_zero base _⟩

/-! ## Reading -/

/-- What becomes of reading so many digits, of which some come next and make a number. -/
inductive FixedEnd (bytes : List UInt8) (p : Progress) (count : Nat) (ds : List Nat) (v : Nat)
    (done : Logged (Option Nat × CharReader)) : Prop
  | whole {q : Progress} (hlen : ds.length = count) (hv : v < 2 ^ 32) (hvalue : done.value.1 = some v)
      (hevents : done.events = []) (hq : done.value.2.On bytes q) (hpeek : q.peek = p.peek + count)
      (hread : count ≠ 0 ∨ p.peek = p.read → q.read = q.peek)
  | missing (hlen : ds.length < count) (hv : v < 2 ^ 32) (hvalue : done.value.1 = none)
      (herror : hasError done.events = true)
  | tooLarge (hv : 2 ^ 32 ≤ v) (hvalue : done.value.1 = none) (hevents : done.events = [])

variable {r : CharReader} {p : Progress}

lemma run_offset (r : CharReader) : Reading.offset r = ⟨(r.offset, r), []⟩ := rfl

lemma run_peek (r : CharReader) : Reading.peek r = ⟨r.peek, []⟩ := rfl

lemma run_consumePeek (r : CharReader) : Reading.consumePeek r = ⟨((), r.consumePeek), []⟩ := rfl

lemma readFixedFrom_digit (hd : r.peek.1.bind (digitOf? base) = some d) (hv : value * base + d < 2 ^ 32) :
    readFixedFrom length base (count + 1) value r =
      readFixedFrom length base count (value * base + d) r.peek.2.consumePeek := by
  rw [readFixedFrom]
  simp only [Logged.run_bind, run_offset, run_peek, hd, run_consumePeek, if_pos hv, List.nil_append]

lemma readFixedFrom_tooLarge (hd : r.peek.1.bind (digitOf? base) = some d)
    (hv : ¬ value * base + d < 2 ^ 32) :
    readFixedFrom length base (count + 1) value r = ⟨(none, r.peek.2.consumePeek), []⟩ := by
  rw [readFixedFrom]
  simp only [Logged.run_bind, run_offset, run_peek, hd, run_consumePeek, if_neg hv, Logged.run_pure,
    List.nil_append]

lemma readFixedFrom_missing (hd : r.peek.1.bind (digitOf? base) = none) :
    (readFixedFrom length base (count + 1) value r).value.1 = none ∧
      hasError (readFixedFrom length base (count + 1) value r).events = true := by
  rw [readFixedFrom]
  simp only [Logged.run_bind, run_offset, run_peek, hd]
  exact ⟨rfl, rfl⟩

lemma digitOf?_of_isBreak (hc : isBreak c = true) : digitOf? base c = none := by
  rcases Bool.or_eq_true_iff.1 hc with hc | hc
  · rw [eq_of_beq hc]
    rfl
  · rw [eq_of_beq hc]
    rfl

/-- A digit is a byte of the input, since the only other character is a line feed. -/
lemma bind_digitOf?_step? (bytes : List UInt8) (o : Nat) :
    ((step? bytes o).map (·.1)).bind (digitOf? base) = bytes[o]?.bind (digitOf? base) := by
  cases hst : step? bytes o with
  | none =>
    rw [List.getElem?_eq_none (CharReader.step?_eq_none_iff.1 hst)]
    rfl
  | some s =>
    obtain ⟨hc, -⟩ | ⟨hc, b, hb, hbreak, -⟩ := Literal.step?_cases hst
    · rw [hc]
      rfl
    · rw [hb, Option.map_some, hc, Option.bind_some, Option.bind_some, digitOf?_of_isBreak hbreak]
      exact digitOf?_of_isBreak rfl

lemma leadingDigits_take_drop (o : Nat) : leadingDigits base ((bytes.drop o).take (count + 1)) =
    match bytes[o]?.bind (digitOf? base) with
    | some d => d :: leadingDigits base ((bytes.drop (o + 1)).take count)
    | none => [] := by
  rcases Nat.lt_or_ge o bytes.length with ho | ho
  · rw [List.drop_eq_getElem_cons ho, List.take_succ_cons, leadingDigits, List.getElem?_eq_getElem ho]
    rfl
  · rw [List.drop_eq_nil_of_le ho, List.getElem?_eq_none ho]
    rfl

/-- Where a digit comes next, it is consumed and nothing else. -/
lemma on_consumePeek (hr : r.On bytes p) (hd : r.peek.1.bind (digitOf? base) = some d) :
    ∃ q, r.peek.2.consumePeek.On bytes q ∧ q.peek = p.peek + 1 ∧ q.read = q.peek := by
  obtain ⟨r', hpeek, hs, hb⟩ := hr.shows.peek_spec hr.window
  rw [hpeek] at hd ⊢
  obtain ⟨c, hc, hd⟩ := Option.bind_eq_some_iff.1 hd
  obtain ⟨s, hst, rfl⟩ := Option.map_eq_some_iff.1 hc
  obtain ⟨-, ho⟩ | ⟨hc, -⟩ := Literal.step?_cases hst
  · obtain ⟨cs, hcs⟩ := hs.ahead
    obtain ⟨hs', hb'⟩ := hs.consumePeek_spec hb.window hcs
    refine ⟨_, ⟨hb'.window, hs'⟩, ?_, rfl⟩
    rw [hst]
    exact ho
  · rw [hc, digitOf?_of_isBreak rfl] at hd
    cases hd

/-- Digit by digit, the number is made of what comes next. -/
lemma readFixedFrom_end (hr : r.On bytes p) (hv : value < 2 ^ 32) :
    FixedEnd bytes p count (leadingDigits base ((bytes.drop p.peek).take count))
      (extend base value (leadingDigits base ((bytes.drop p.peek).take count)))
      (readFixedFrom length base count value r) := by
  induction count generalizing p r value with
  | zero =>
    rw [List.take_zero]
    exact .whole rfl hv rfl rfl hr rfl fun h => (h.resolve_left fun h => h rfl).symm
  | succ count ih =>
    obtain ⟨r', hpeek, -⟩ := hr.shows.peek_spec hr.window
    have hnext : r.peek.1.bind (digitOf? base) = bytes[p.peek]?.bind (digitOf? base) := by
      rw [hpeek]
      exact bind_digitOf?_step? bytes p.peek
    rw [leadingDigits_take_drop, ← hnext]
    cases hd : r.peek.1.bind (digitOf? base) with
    | none =>
      obtain ⟨hvalue, herror⟩ := readFixedFrom_missing hd
      exact .missing (Nat.succ_pos count) hv hvalue herror
    | some d =>
      obtain ⟨q, hq, hqpeek, hqread⟩ := on_consumePeek hr hd
      dsimp only
      rw [← hqpeek]
      by_cases hfit : value * base + d < 2 ^ 32
      · rw [readFixedFrom_digit hd hfit]
        cases ih hq hfit with
        | whole hlen hv hvalue hevents hq' hpeek' hread' =>
          refine .whole (congrArg (· + 1) hlen) hv hvalue hevents hq' ?_ fun _ => hread' (.inr hqread.symm)
          omega
        | missing hlen hv hvalue herror => exact .missing (Nat.succ_lt_succ hlen) hv hvalue herror
        | tooLarge hv hvalue hevents => exact .tooLarge hv hvalue hevents
      · rw [readFixedFrom_tooLarge hd hfit]
        refine .tooLarge ((Nat.not_lt.1 hfit).trans ?_) rfl rfl
        exact le_extend fun _ => lt_of_mem_leadingDigits

/-- So many digits are read as a number, and consumed without a report, if and only if they come next and
fit into 32 bits.  Without a number there is an error if and only if all digits that come next fit; where
they do not, nothing is reported. -/
theorem readFixed_exact (length base : Nat) (hr : r.On bytes p) :
    (∀ v, (readFixed length base r).value.1 = some v ↔
      ((bytes.drop p.peek).take length).length = length ∧
        Denotes base ((bytes.drop p.peek).take length) v ∧ v < 2 ^ 32) ∧
    (∀ v, (readFixed length base r).value.1 = some v → (readFixed length base r).events = [] ∧
      ∃ q, (readFixed length base r).value.2.On bytes q ∧ q.peek = p.peek + length ∧
        (length ≠ 0 ∨ p.peek = p.read → q.read = q.peek)) ∧
    ((readFixed length base r).value.1 = none →
      (hasError (readFixed length base r).events = true ↔
        ∀ front v, front <+: (bytes.drop p.peek).take length → Denotes base front v → v < 2 ^ 32) ∧
      (hasError (readFixed length base r).events = false → (readFixed length base r).events = [])) := by
  have hend : FixedEnd bytes p length (leadingDigits base ((bytes.drop p.peek).take length))
      (extend base 0 (leadingDigits base ((bytes.drop p.peek).take length)))
      (readFixed length base r) := readFixedFrom_end hr (Nat.two_pow_pos 32)
  have hlength : ((bytes.drop p.peek).take length).length ≤ length := List.length_take_le _ _
  generalize readFixed length base r = done at hend ⊢
  generalize (bytes.drop p.peek).take length = ahead at hend hlength ⊢
  have hdigits : (leadingDigits base ahead).length ≤ ahead.length := length_leadingDigits_le
  cases hend with
  | whole hlen hv hvalue hevents hq hpeek hread =>
    refine ⟨fun v => ?_, fun _ _ => ⟨hevents, _, hq, hpeek, hread⟩, fun h => ?_⟩
    · rw [hvalue, Option.some.injEq, denotes_iff]
      constructor
      · rintro rfl
        exact ⟨by omega, ⟨by omega, rfl⟩, hv⟩
      · exact fun h => h.2.1.2.symm
    · rw [hvalue] at h
      cases h
  | missing hlen hv hvalue herror =>
    refine ⟨fun v => ?_, fun v h => ?_, fun _ => ⟨?_, fun h => ?_⟩⟩
    · rw [hvalue, denotes_iff]
      refine ⟨nofun, fun ⟨hnext, h, _⟩ => ?_⟩
      omega
    · rw [hvalue] at h
      cases h
    · exact ⟨fun _ => (extend_leadingDigits_lt_iff _).1 hv, fun _ => herror⟩
    · rw [herror] at h
      cases h
  | tooLarge hv hvalue hevents =>
    refine ⟨fun v => ?_, fun v h => ?_, fun _ => ⟨?_, fun _ => hevents⟩⟩
    · rw [hvalue, denotes_iff]
      refine ⟨nofun, fun ⟨_, h, hfits⟩ => ?_⟩
      rw [h.2] at hfits
      omega
    · rw [hvalue] at h
      cases h
    · rw [hevents, ← extend_leadingDigits_lt_iff]
      exact ⟨nofun, fun h => absurd hv (Nat.not_le.2 h)⟩

/-- Nine hexadecimal digits of more than 32 bits. -/
def nineDigits : CharReader := .ofBuffer (.ofBytes [49, 48, 48, 48, 48, 48, 48, 48, 48]) 0

/-- The first eight of the digits fit into 32 bits, all nine do not. -/
theorem readFixed_exact_nineDigits :
    nineDigits.On [49, 48, 48, 48, 48, 48, 48, 48, 48] {} ∧
      (readFixed 8 16 nineDigits).events = [] ∧
      (readFixed 9 16 nineDigits).value.1 = none ∧ (readFixed 9 16 nineDigits).events = [] := by
  have hr : nineDigits.On [49, 48, 48, 48, 48, 48, 48, 48, 48] {} := CharReader.on_ofBytes _ 0
  have hnone : (readFixed 9 16 nineDigits).value.1 = none := by decide +kernel
  obtain ⟨-, height, -⟩ := readFixed_exact 8 16 hr
  obtain ⟨-, -, hnine⟩ := readFixed_exact 9 16 hr
  exact ⟨hr, (height (2 ^ 28) (by decide +kernel)).1, hnone, (hnine hnone).2 (by decide +kernel)⟩

/-- Nothing at all is reported where nine digits are too many for 32 bits. -/
theorem readFixed_silent_nineDigits :
    (readFixed 9 16 nineDigits).value.1 = none ∧ hasError (readFixed 9 16 nineDigits).events = false := by
  decide +kernel

end Semdoc.Numeral
