import Semdoc.Proofs.RangeSet.Canonical
import Semdoc.Proofs.Value.Members

/-!
# What range sets are made of

A range set is made by a constructor and by merging ranges and other sets.  All that counts are the
ranges that are merged on the way: `Recipe.merged` collects them without merging any, and
`Represents` says what a set keeps of them.  The set of a recipe represents the ranges of the recipe,
and nothing else about the recipe shows in the set.
-/

namespace Semdoc.RangeSet

open NumberRange

variable {s t : RangeSet} {l m rs : List NumberRange} {ε : Type}

/-- A set represents the ranges that were merged into it if it is in canonical form, holds just their
numbers and knows whether one of them was reversed. -/
structure Represents (s : RangeSet) (l : List NumberRange) : Prop where
  canonical : Canonical s.ranges
  covers : ∀ n, Covers s.ranges n ↔ Covers l n
  invalid : s.invalid = true ↔ ∃ r ∈ l, r.isValid = false

lemma merge_of_invalid {r : NumberRange} (hr : r.isValid = false) :
    s.merge r = { s with invalid := true } := by
  rw [merge, hr, if_neg Bool.false_ne_true]

lemma invalid_merge {r : NumberRange} (hr : r.isValid = true) :
    (s.merge r).invalid = s.invalid := by
  rw [merge, if_pos hr]

/-- Merging valid ranges one after the other adds their numbers. -/
lemma Canonical.foldl_merge (h : Canonical s.ranges) (hrs : ∀ r ∈ rs, r.isValid = true) :
    Canonical (rs.foldl RangeSet.merge s).ranges ∧
      (∀ n, Covers (rs.foldl RangeSet.merge s).ranges n ↔ Covers s.ranges n ∨ Covers rs n) ∧
      (rs.foldl RangeSet.merge s).invalid = s.invalid := by
  induction rs generalizing s with
  | nil => exact ⟨h, fun n => by simp, rfl⟩
  | cons r rs ih =>
    obtain ⟨hr, hrs⟩ := List.forall_mem_cons.1 hrs
    obtain ⟨hcanonical, hcovers⟩ := h.merge hr
    obtain ⟨hcanonical', hcovers', hinvalid⟩ := ih hcanonical hrs
    refine ⟨hcanonical', fun n => ?_, hinvalid.trans (invalid_merge hr)⟩
    rw [List.foldl_cons, hcovers', hcovers, covers_cons, or_assoc]

namespace Represents

lemma empty : Represents {} [] := ⟨.nil, fun _ => .rfl, by simp⟩

/-- The set then represents one range more, reversed or not. -/
lemma merge (h : Represents s l) (r : NumberRange) : Represents (s.merge r) (l ++ [r]) := by
  obtain ⟨hcanonical, hcovers, hinvalid⟩ := h
  cases hr : r.isValid with
  | true =>
    obtain ⟨hcanonical', hcovers'⟩ := hcanonical.merge hr
    refine ⟨hcanonical', fun n => ?_, ?_⟩
    · rw [hcovers', hcovers, covers_append, covers_cons, or_iff_left covers_nil]
    · rw [invalid_merge hr, hinvalid]
      simp [or_and_right, exists_or, hr]
  | false =>
    rw [merge_of_invalid hr]
    refine ⟨hcanonical, fun n => ?_, ?_⟩
    · have hn : ¬ r.contains n = true := fun hn => by simp [isValid_of_contains hn] at hr
      rw [hcovers, covers_append, covers_cons, or_iff_right hn, or_iff_left covers_nil]
    · exact iff_of_true rfl ⟨r, List.mem_append_right l List.mem_cons_self, hr⟩

/-- Merging a set comes to merging the ranges that it represents, although it is done with those that
it has. -/
lemma mergeSet (h : Represents s l) (h' : Represents t m) :
    Represents (s.mergeSet t) (l ++ m) := by
  obtain ⟨hcanonical, hcovers, hinvalid⟩ := Canonical.foldl_merge
    (s := { s with invalid := s.invalid || t.invalid }) h.canonical h'.canonical.valid
  refine ⟨hcanonical, fun n => ?_, ?_⟩
  · rw [RangeSet.mergeSet, hcovers, h.covers, h'.covers, covers_append]
  · rw [RangeSet.mergeSet, hinvalid, Bool.or_eq_true, h.invalid, h'.invalid]
    simp only [List.mem_append, or_and_right, exists_or]

lemma ofRange (r : NumberRange) : Represents (ofRange r) [r] := empty.merge r

lemma contains_iff (h : Represents s l) (n : UInt64) : s.contains n = true ↔ Covers l n := by
  rw [h.canonical.contains_iff, h.covers]

lemma ranges_eq_nil_iff (h : Represents s l) : s.ranges = [] ↔ ∀ r ∈ l, r.isValid = false := by
  rw [h.canonical.eq_nil_iff]
  constructor
  · intro hn r hr
    refine Bool.eq_false_iff.2 fun hv => hn r.start ((h.covers _).2 ⟨r, hr, ?_⟩)
    exact NumberRange.contains_iff.2 ⟨Nat.le_refl _, NumberRange.isValid_iff.1 hv⟩
  · rintro hv n hn
    obtain ⟨r, hr, hn⟩ := (h.covers n).1 hn
    exact absurd (isValid_of_contains hn) (Bool.eq_false_iff.1 (hv r hr))

lemma isValid_iff (h : Represents s l) :
    s.isValid = true ↔ (∃ r ∈ l, r.isValid = true) ∧ ∀ r ∈ l, r.isValid = true := by
  have hinvalid : s.invalid = false ↔ ∀ r ∈ l, r.isValid = true := by
    rw [← Bool.not_eq_true, h.invalid]
    simp
  have hnil : s.ranges ≠ [] ↔ ∃ r ∈ l, r.isValid = true := by
    rw [ne_eq, h.ranges_eq_nil_iff]
    simp
  rw [RangeSet.isValid, Bool.and_eq_true, Bool.not_eq_true', Bool.not_eq_true',
    List.isEmpty_eq_false_iff, hinvalid, hnil, and_comm]

/-- Ranges with the same numbers, some reversed here and there or none in both, give the same set. -/
lemma unique (h : Represents s l) (h' : Represents t m) (hcovers : ∀ n, Covers l n ↔ Covers m n)
    (hinvalid : (∃ r ∈ l, r.isValid = false) ↔ ∃ r ∈ m, r.isValid = false) : s = t := by
  have hranges : s.ranges = t.ranges := h.canonical.eq_of_covers h'.canonical fun n => by
    rw [h.covers, hcovers, h'.covers]
  have hflag : s.invalid = t.invalid := by
    rw [Bool.eq_iff_iff, h.invalid, hinvalid, h'.invalid]
  cases s; cases t
  congr

end Represents

/-! ## Ranges of texts and values -/

/-- What a text has between its braces, if it has braces. -/
def unbraced (cs : List Char) : Except Fault (List Char) :=
  let cs := Text.trimChars Text.isBlank cs
  match cs, cs.getLast? == some '\x7d' with
  | '\x7b' :: r, true => .ok r.dropLast
  | '\x7b' :: _, false => .error .unbalancedBraces
  | _, true => .error .unbalancedBraces
  | r, false => .ok r

/-- The ranges of a list of written ranges. -/
def writtenParts (blank : Bool) : List (List Char) → Except Fault (List NumberRange)
  | [] => .ok []
  | part :: rest =>
    match Text.trimChars Text.isBlank part with
    | [] => if blank then writtenParts blank rest else .error .emptyRange
    | trimmed => do return (← readRange trimmed) :: (← writtenParts blank rest)

/-- The ranges that are written in a text. -/
def written (text : String) : Except Failure (List NumberRange) :=
  (do
    let inner ← unbraced text.toList
    writtenParts (inner.all Text.isBlank) (Text.splitChars ',' inner)).mapError (Fault.failure text)

mutual

/-- The ranges of a value: a number, those of a text, or those of all items of an array. -/
def rangesOf : Value → Except Failure (List NumberRange)
  | .int i =>
    if 0 ≤ i.toInt then .ok [.single (UInt64.ofNat i.toInt.toNat)]
    else .error (Failure.mismatch "integer" "cardinality")
  | .string text => written text
  | .magic text => written text
  | .array items => rangesOfItems items
  | v => .error (Failure.mismatch v.kindName "cardinality")

/-- The ranges of all items, in order. -/
def rangesOfItems : List Value → Except Failure (List NumberRange)
  | [] => .ok []
  | v :: rest => do return (← rangesOf v) ++ (← rangesOfItems rest)

end

/-- The making of a set and the listing of its ranges fail in the same way, or the set represents the
ranges. -/
inductive Matches : Except ε RangeSet → Except ε (List NumberRange) → Prop where
  | done {s : RangeSet} {l : List NumberRange} (h : Represents s l) : Matches (.ok s) (.ok l)
  | failed (e : ε) : Matches (.error e) (.error e)

namespace Matches

variable {x y : Except ε RangeSet} {u v : Except ε (List NumberRange)}

lemma mapError {δ : Type} (f : ε → δ) (h : Matches x u) : Matches (x.mapError f) (u.mapError f) := by
  cases h with
  | done h => exact .done h
  | failed e => exact .failed (f e)

/-- Two programs that go on from a set and from its ranges. -/
lemma bind {f : RangeSet → Except ε RangeSet}
    {g : List NumberRange → Except ε (List NumberRange)} (h : Matches x u)
    (hfg : ∀ s l, Represents s l → Matches (f s) (g l)) : Matches (x >>= f) (u >>= g) := by
  cases h with
  | done h => exact hfg _ _ h
  | failed e => exact .failed e

lemma cases_of (h : Matches x u) :
    (∃ e, x = .error e ∧ u = .error e) ∨ ∃ s l, x = .ok s ∧ u = .ok l ∧ Represents s l := by
  cases h with
  | done h => exact .inr ⟨_, _, rfl, rfl, h⟩
  | failed e => exact .inl ⟨e, rfl, rfl⟩

end Matches

lemma readChars_eq (cs : List Char) :
    readChars cs = unbraced cs >>= fun inner =>
      readParts (inner.all Text.isBlank) {} (Text.splitChars ',' inner) := by
  rw [readChars, unbraced]
  generalize Text.trimChars Text.isBlank cs = ds
  dsimp only
  generalize (ds.getLast? == some '\x7d') = closed
  cases ds with
  | nil => cases closed <;> rfl
  | cons c r =>
    by_cases hc : c = '\x7b'
    · subst hc
      cases closed <;> rfl
    · cases closed <;> simp only [List.cons.injEq, hc, false_and, imp_self, implies_true] <;> rfl

/-- Reading on from a set comes to listing on from the ranges that it represents. -/
lemma matches_readParts (blank : Bool) (parts : List (List Char)) (h : Represents s l) :
    Matches (readParts blank s parts) (do return l ++ (← writtenParts blank parts)) := by
  induction parts generalizing s l with
  | nil => exact .done (by simpa using h)
  | cons part rest ih =>
    rw [readParts, writtenParts]
    cases Text.trimChars Text.isBlank part with
    | nil =>
      cases blank with
      | true => exact ih h
      | false => exact .failed _
    | cons c cs =>
      dsimp only
      cases readRange (c :: cs) with
      | error e => exact .failed e
      | ok r =>
        change Matches (readParts blank (s.merge r) rest)
          ((writtenParts blank rest >>= fun m => pure (r :: m)) >>= fun m => pure (l ++ m))
        simpa using ih (h.merge r)

lemma matches_parse (text : String) : Matches (parse text) (written text) := by
  rw [parse, written, readChars_eq]
  refine Matches.mapError _ ?_
  cases unbraced text.toList with
  | error e => exact .failed e
  | ok inner =>
    have h := matches_readParts (inner.all Text.isBlank) (Text.splitChars ',' inner) .empty
    simp only [List.nil_append, bind_pure] at h
    exact h

/-- The items of an array are merged into one set, which then represents the ranges of all. -/
lemma matches_ofItems {items : List Value}
    (ih : ∀ v ∈ items, Matches (ofValue v) (rangesOf v)) (h : Represents s l) :
    Matches (ofItems s items) (do return l ++ (← rangesOfItems items)) := by
  induction items generalizing s l with
  | nil => exact .done (by simpa using h)
  | cons v rest ihr =>
    obtain ⟨hv, hrest⟩ := List.forall_mem_cons.1 ih
    rw [ofItems, rangesOfItems]
    simp only [bind_assoc, pure_bind]
    exact hv.bind fun t m ht => by simpa using ihr hrest (h.mergeSet ht)

lemma matches_ofValue (v : Value) : Matches (ofValue v) (rangesOf v) := by
  induction v using Value.induction_members with
  | h v ih =>
    cases v with
    | int i =>
      rw [ofValue, rangesOf]
      split
      · exact .done (.ofRange _)
      · exact .failed _
    | string text => rw [ofValue, rangesOf]; exact matches_parse text
    | magic text => rw [ofValue, rangesOf]; exact matches_parse text
    | array items =>
      rw [ofValue, rangesOf]
      have hitems : ∀ v ∈ items, Matches (ofValue v) (rangesOf v) := ih
      simpa using matches_ofItems hitems .empty
    | _ => rw [ofValue, rangesOf] <;> first | exact .failed _ | nofun

/-! ## Recipes -/

/-- A way to make a set: a constructor, or a set with a range or with another set merged into it. -/
inductive Recipe where
  | empty
  | any
  | single (n : UInt64)
  | ofRange (r : NumberRange)
  | parse (text : String)
  | ofValue (v : Value)
  | merge (p : Recipe) (r : NumberRange)
  | mergeSet (p q : Recipe)

namespace Recipe

/-- The set that is made. -/
def make : Recipe → Except Failure RangeSet
  | empty => .ok {}
  | any => .ok RangeSet.any
  | single n => .ok (RangeSet.single n)
  | ofRange r => .ok (RangeSet.ofRange r)
  | parse text => RangeSet.parse text
  | ofValue v => RangeSet.ofValue v
  | merge p r => do return (← p.make).merge r
  | mergeSet p q => do return (← p.make).mergeSet (← q.make)

/-- The ranges that are merged on the way, in the order in which they are met. -/
def merged : Recipe → Except Failure (List NumberRange)
  | empty => .ok []
  | any => .ok [.atLeast 0]
  | single n => .ok [.single n]
  | ofRange r => .ok [r]
  | parse text => written text
  | ofValue v => rangesOf v
  | merge p r => do return (← p.merged) ++ [r]
  | mergeSet p q => do return (← p.merged) ++ (← q.merged)

lemma matches_make (p : Recipe) : Matches p.make p.merged := by
  induction p with
  | empty => exact .done .empty
  | any => exact .done (.ofRange _)
  | single n => exact .done (.ofRange _)
  | ofRange r => exact .done (.ofRange r)
  | parse text => exact matches_parse text
  | ofValue v => exact matches_ofValue v
  | merge p r ih => exact ih.bind fun s l h => .done (h.merge r)
  | mergeSet p q ihp ihq => exact ihp.bind fun s l h => ihq.bind fun t m h' => .done (h.mergeSet h')

lemma make_of_merged {p : Recipe} (hl : p.merged = .ok l) :
    ∃ s, p.make = .ok s ∧ Represents s l := by
  rcases p.matches_make.cases_of with ⟨e, -, hm⟩ | ⟨s, m, hs, hm, h⟩
  · rw [hm] at hl
    cases hl
  · rw [hm] at hl
    cases hl
    exact ⟨s, hs, h⟩

/-- The set that a recipe makes has ranges that are not reversed and ascend with gaps between them.  It
holds the numbers of the ranges that were merged, and knows the least and the greatest of them.  It is
valid if ranges were merged and none was reversed.  And it is the set of every recipe that merges the
same ranges, in any order and any number of times, or, if none is reversed, ranges with the same
numbers. -/
theorem make_canonical (p : Recipe) :
    (∀ e, p.make = .error e ↔ p.merged = .error e) ∧
      ∀ s, p.make = .ok s → ∃ l, p.merged = .ok l ∧
        (∀ r ∈ s.ranges, r.start ≤ r.stop) ∧
        s.ranges.Pairwise (fun r t => r.stop.toNat + 1 < t.start.toNat) ∧
        (∀ n, s.contains n = true ↔ ∃ r ∈ l, r.isValid = true ∧ r.contains n = true) ∧
        (∀ n, s.min? = some n ↔ s.contains n = true ∧ ∀ k, s.contains k = true → n ≤ k) ∧
        (∀ n, s.max? = some n ↔ s.contains n = true ∧ ∀ k, s.contains k = true → k ≤ n) ∧
        (s.min? = none ↔ ∀ n, s.contains n = false) ∧
        (s.max? = none ↔ ∀ n, s.contains n = false) ∧
        (s.isValid = true ↔ (∃ r ∈ l, r.isValid = true) ∧ ∀ r ∈ l, r.isValid = true) ∧
        ∀ (q : Recipe) (m : List NumberRange), q.merged = .ok m →
          ((∀ r, r ∈ l ↔ r ∈ m) → q.make = .ok s) ∧
          ((∀ r ∈ l, r.isValid = true) → (∀ r ∈ m, r.isValid = true) →
            (∀ n, (∃ r ∈ l, r.contains n = true) ↔ ∃ r ∈ m, r.contains n = true) →
            q.make = .ok s) := by
  rcases p.matches_make.cases_of with ⟨e, he, hm⟩ | ⟨s, l, hs, hl, h⟩
  · rw [he, hm]
    exact ⟨fun e' => by simp only [Except.error.injEq], nofun⟩
  rw [hs, hl]
  refine ⟨fun e => iff_of_false nofun nofun, ?_⟩
  rintro _ ⟨rfl⟩
  have hnone : s.ranges = [] ↔ ∀ n, s.contains n = false := by
    rw [h.canonical.eq_nil_iff]
    simp only [← h.canonical.contains_iff, Bool.not_eq_true]
  refine ⟨l, rfl, fun r hr => of_decide_eq_true (h.canonical.valid r hr), h.canonical.ascends,
    fun n => ?_, fun n => ?_, fun n => ?_, ?_, ?_, h.isValid_iff, fun q m hm => ?_⟩
  · rw [h.contains_iff]
    exact exists_congr fun r => and_congr_right fun _ =>
      (and_iff_right_of_imp isValid_of_contains).symm
  · simp only [h.canonical.min?_eq_some_iff, h.canonical.contains_iff]
  · simp only [h.canonical.max?_eq_some_iff, h.canonical.contains_iff]
  · rw [← hnone, RangeSet.min?, Option.map_eq_none_iff, List.head?_eq_none_iff]
  · rw [← hnone, RangeSet.max?, Option.map_eq_none_iff, List.getLast?_eq_none_iff]
  · obtain ⟨t, ht, h'⟩ := make_of_merged hm
    rw [ht]
    refine ⟨fun hlm => congrArg _ (h'.unique h ?_ ?_), fun hlv hmv hlm =>
      congrArg _ (h'.unique h (fun n => (hlm n).symm) ?_)⟩
    · simp only [Covers, hlm, implies_true]
    · simp only [hlm]
    · refine iff_of_false ?_ ?_
      · rintro ⟨r, hr, hv⟩
        simp [hmv r hr] at hv
      · rintro ⟨r, hr, hv⟩
        simp [hlv r hr] at hv

end Recipe

end Semdoc.RangeSet
