import Mathlib.Tactic.Lemma
import Semdoc.RangeSet

/-!
# Canonical range sets

The ranges of a set are in canonical form if they are not reversed, ascend, and leave a gap between each
two of them.  Merging a range keeps the form and adds just the numbers of the range.  In canonical form
the numbers of a set determine its ranges.
-/

namespace Semdoc

namespace NumberRange

variable {r s t : NumberRange} {n : UInt64}

lemma isValid_iff : r.isValid = true ↔ r.start.toNat ≤ r.stop.toNat := by
  rw [isValid, decide_eq_true_eq, UInt64.le_iff_toNat_le]

lemma contains_iff :
    r.contains n = true ↔ r.start.toNat ≤ n.toNat ∧ n.toNat ≤ r.stop.toNat := by
  rw [contains, Bool.and_eq_true, decide_eq_true_eq, decide_eq_true_eq, UInt64.le_iff_toNat_le,
    UInt64.le_iff_toNat_le]

lemma joins_iff :
    r.joins s = true ↔
      r.start.toNat ≤ s.stop.toNat + 1 ∧ s.start.toNat ≤ r.stop.toNat + 1 := by
  rw [joins, Bool.and_eq_true, decide_eq_true_eq, decide_eq_true_eq]

lemma isValid_of_contains (h : r.contains n = true) : r.isValid = true := by
  rw [contains_iff] at h
  rw [isValid_iff]
  omega

lemma toNat_start_hull : (r.hull s).start.toNat = min r.start.toNat s.start.toNat := by
  change (if r.start ≤ s.start then r.start else s.start).toNat = _
  simp only [Nat.min_def, UInt64.le_iff_toNat_le, apply_ite UInt64.toNat]

lemma toNat_stop_hull : (r.hull s).stop.toNat = max r.stop.toNat s.stop.toNat := by
  change (if r.stop ≤ s.stop then s.stop else r.stop).toNat = _
  simp only [Nat.max_def, UInt64.le_iff_toNat_le, apply_ite UInt64.toNat]

/-- One range ends before another one begins, and there is a number between them. -/
def Before (r s : NumberRange) : Prop := r.stop.toNat + 1 < s.start.toNat

/-- Valid ranges that do not join lie one before the other. -/
lemma before_or_before (h : r.joins s = false) : r.Before s ∨ s.Before r := by
  rw [Bool.eq_false_iff, ne_eq, joins_iff] at h
  unfold Before
  omega

lemma not_joins_of_before (h : r.Before s) : s.joins r = false := by
  unfold Before at h
  rw [Bool.eq_false_iff, ne_eq, joins_iff]
  omega

lemma Before.trans (h : r.Before s) (hs : s.isValid = true) (h' : s.Before t) : r.Before t := by
  unfold Before at *
  rw [isValid_iff] at hs
  omega

lemma Before.hull (h : r.Before s) (h' : r.Before t) : r.Before (s.hull t) := by
  unfold Before at *
  rw [toNat_start_hull]
  omega

lemma isValid_hull (hr : r.isValid = true) : (r.hull s).isValid = true := by
  rw [isValid_iff] at *
  rw [toNat_start_hull, toNat_stop_hull]
  omega

/-- Between two ranges that join there is nothing, so that the least range which covers both has no
other numbers. -/
lemma contains_hull (h : r.joins s = true) :
    (r.hull s).contains n = true ↔ r.contains n = true ∨ s.contains n = true := by
  rw [joins_iff] at h
  rw [contains_iff, contains_iff, contains_iff, toNat_start_hull, toNat_stop_hull]
  omega

end NumberRange

namespace RangeSet

open NumberRange

variable {rs ss : List NumberRange} {r g : NumberRange} {n : UInt64}

/-- No range is reversed, and each lies before all that follow it. -/
structure Canonical (rs : List NumberRange) : Prop where
  valid : ∀ r ∈ rs, r.isValid = true
  ascends : rs.Pairwise Before

/-- A number is in one of some ranges. -/
def Covers (rs : List NumberRange) (n : UInt64) : Prop := ∃ r ∈ rs, r.contains n = true

@[simp] lemma covers_nil : ¬ Covers [] n := nofun

@[simp] lemma covers_cons : Covers (r :: rs) n ↔ r.contains n = true ∨ Covers rs n := by
  simp [Covers]

@[simp] lemma covers_append : Covers (rs ++ ss) n ↔ Covers rs n ∨ Covers ss n := by
  simp only [Covers, List.mem_append, or_and_right, exists_or]

namespace Canonical

lemma nil : Canonical [] := ⟨nofun, .nil⟩

lemma of_cons (h : Canonical (r :: rs)) : Canonical rs :=
  ⟨fun s hs => h.valid s (List.mem_cons_of_mem r hs), h.ascends.of_cons⟩

lemma before (h : Canonical (r :: rs)) : ∀ s ∈ rs, r.Before s :=
  fun _ hs => List.rel_of_pairwise_cons h.ascends hs

lemma cons (h : Canonical rs) (hr : r.isValid = true) (hb : ∀ s ∈ rs, r.Before s) :
    Canonical (r :: rs) :=
  ⟨List.forall_mem_cons.2 ⟨hr, h.valid⟩, List.pairwise_cons.2 ⟨hb, h.ascends⟩⟩

/-- What lies before the first range lies before all ranges. -/
lemma before_all (h : Canonical (r :: rs)) (hg : g.Before r) : ∀ s ∈ r :: rs, g.Before s := by
  rintro s (_ | ⟨_, hs⟩)
  · exact hg
  · exact hg.trans (h.valid r List.mem_cons_self) (h.before s hs)

lemma start_le_of_covers (h : Canonical (r :: rs)) (hn : Covers (r :: rs) n) :
    r.start.toNat ≤ n.toNat := by
  have hr := isValid_iff.1 (h.valid r List.mem_cons_self)
  rcases covers_cons.1 hn with hn | ⟨s, hs, hn⟩
  · exact (contains_iff.1 hn).1
  · have hb := h.before s hs
    have hn := contains_iff.1 hn
    unfold Before at hb
    omega

end Canonical

/-! ## Merging a range -/

lemma absorb_of_before (h : ∀ s ∈ rs, r.Before s) : absorb r rs = (r, rs) := by
  induction rs with
  | nil => rfl
  | cons s rs ih =>
    obtain ⟨hs, hrs⟩ := List.forall_mem_cons.1 h
    rw [absorb, not_joins_of_before hs, ih hrs]
    rfl

/-- What a range that grows comes to, with the ranges that stay apart: these are some of the ranges, each
lies before or behind the grown range, and nothing is lost or added. -/
structure Absorbed (r : NumberRange) (rs : List NumberRange) (g : NumberRange)
    (apart : List NumberRange) : Prop where
  valid : g.isValid = true
  sublist : apart.Sublist rs
  asunder : ∀ s ∈ apart, s.Before g ∨ g.Before s
  covers : ∀ n, Covers (g :: apart) n ↔ Covers (r :: rs) n
  /-- What lies before everything lies before the grown range. -/
  before : ∀ t : NumberRange, t.Before r → (∀ s ∈ rs, t.Before s) → t.Before g

lemma absorbed_absorb (h : Canonical rs) (hr : r.isValid = true) :
    Absorbed r rs (absorb r rs).1 (absorb r rs).2 := by
  induction rs generalizing r with
  | nil => exact ⟨hr, .refl _, nofun, fun _ => .rfl, fun _ ht _ => ht⟩
  | cons s rs ih =>
    have hs := h.valid s List.mem_cons_self
    cases hj : s.joins r with
    | true =>
      obtain ⟨hvalid, hsub, hasunder, hcovers, hbefore⟩ := ih h.of_cons (isValid_hull (s := r) hs)
      rw [absorb, hj, if_pos rfl]
      refine ⟨hvalid, hsub.cons s, hasunder, fun n => ?_, fun t ht hts => ?_⟩
      · rw [hcovers, covers_cons, contains_hull hj, covers_cons, covers_cons, or_assoc,
          or_left_comm]
      · obtain ⟨hs', hrs⟩ := List.forall_mem_cons.1 hts
        exact hbefore t (hs'.hull ht) hrs
    | false =>
      obtain ⟨hvalid, hsub, hasunder, hcovers, hbefore⟩ := ih h.of_cons hr
      rw [absorb, hj, if_neg Bool.false_ne_true]
      refine ⟨hvalid, hsub.cons_cons s, List.forall_mem_cons.2 ⟨?_, hasunder⟩, fun n => ?_,
        fun t ht hts => hbefore t ht (List.forall_mem_cons.1 hts).2⟩
      · rcases before_or_before hj with hsr | hrs
        · exact .inl (hbefore s hsr h.before)
        · -- behind a range that lies behind there is nothing to absorb
          have hall := (List.forall_mem_cons.1 (h.before_all hrs)).2
          rw [absorb_of_before hall]
          exact .inr hrs
      · have hn := hcovers n
        rw [covers_cons, covers_cons] at hn
        rw [covers_cons, covers_cons, or_left_comm, hn, covers_cons, covers_cons, or_left_comm]

lemma mem_place {s : NumberRange} : s ∈ place g rs ↔ s = g ∨ s ∈ rs := by
  induction rs with
  | nil => simp [place]
  | cons t rs ih =>
    rw [place]
    split
    · rw [List.mem_cons, ih, List.mem_cons, or_left_comm]
    · rw [List.mem_cons]

lemma covers_place : Covers (place g rs) n ↔ Covers (g :: rs) n := by
  simp only [Covers, mem_place, List.mem_cons]

/-- A range that lies before or behind each of some others has one place among them. -/
lemma Canonical.place (h : Canonical rs) (hg : g.isValid = true)
    (ha : ∀ s ∈ rs, s.Before g ∨ g.Before s) : Canonical (place g rs) := by
  induction rs with
  | nil => exact .cons .nil hg nofun
  | cons s rs ih =>
    obtain ⟨hs, hrs⟩ := List.forall_mem_cons.1 ha
    have hsv := h.valid s List.mem_cons_self
    rw [isValid_iff] at hsv
    rw [RangeSet.place]
    split
    · next hlt =>
      rw [UInt64.lt_iff_toNat_lt] at hlt
      have hsg : s.Before g := hs.resolve_right fun hgs => by
        have hgv := isValid_iff.1 hg
        unfold Before at hgs
        omega
      refine .cons (ih h.of_cons hrs) (h.valid s List.mem_cons_self) fun t ht => ?_
      rcases mem_place.1 ht with rfl | ht
      · exact hsg
      · exact h.before t ht
    · next hlt =>
      rw [UInt64.lt_iff_toNat_lt] at hlt
      have hgs : g.Before s := hs.resolve_left fun hsg => by
        unfold Before at hsg
        omega
      exact h.cons hg (h.before_all hgs)

lemma Canonical.sublist (h : Canonical rs) (hs : ss.Sublist rs) : Canonical ss :=
  ⟨fun r hr => h.valid r (hs.subset hr), h.ascends.sublist hs⟩

/-- Merging a valid range keeps the canonical form and adds the numbers of the range. -/
lemma Canonical.merge {s : RangeSet} (h : Canonical s.ranges) (hr : r.isValid = true) :
    Canonical (s.merge r).ranges ∧
      ∀ n, Covers (s.merge r).ranges n ↔ Covers s.ranges n ∨ r.contains n = true := by
  obtain ⟨hvalid, hsub, hasunder, hcovers, -⟩ := absorbed_absorb h hr
  have e : (s.merge r).ranges = RangeSet.place (absorb r s.ranges).1 (absorb r s.ranges).2 := by
    rw [RangeSet.merge, if_pos hr]
  rw [e]
  refine ⟨(h.sublist hsub).place hvalid hasunder, fun n => ?_⟩
  rw [covers_place, hcovers, covers_cons, or_comm]

/-! ## Questions in canonical form -/

/-- The first range that does not end before a number is the only one that can contain it. -/
lemma Canonical.contains_iff {s : RangeSet} (h : Canonical s.ranges) (n : UInt64) :
    s.contains n = true ↔ Covers s.ranges n := by
  rw [RangeSet.contains]
  generalize s.ranges = rs at h
  induction rs with
  | nil => simp
  | cons r rs ih =>
    by_cases hn : r.stop < n
    · rw [List.dropWhile_cons_of_pos (by simpa using hn), ih h.of_cons, covers_cons, or_iff_right]
      rw [NumberRange.contains_iff]
      rw [UInt64.lt_iff_toNat_lt] at hn
      omega
    · rw [List.dropWhile_cons_of_neg (by simpa using hn), covers_cons]
      refine ⟨.inl, fun hc => hc.resolve_right ?_⟩
      rintro ⟨s, hs, hc⟩
      have hb := h.before s hs
      rw [NumberRange.contains_iff] at hc
      rw [UInt64.lt_iff_toNat_lt] at hn
      unfold Before at hb
      omega

/-- The least number of a set that has some. -/
lemma Canonical.min?_eq_some_iff {s : RangeSet} (h : Canonical s.ranges) (n : UInt64) :
    s.min? = some n ↔ Covers s.ranges n ∧ ∀ m, Covers s.ranges m → n ≤ m := by
  rw [RangeSet.min?]
  cases hrs : s.ranges with
  | nil => simp
  | cons r rs =>
    rw [hrs] at h
    have hr := isValid_iff.1 (h.valid r List.mem_cons_self)
    have hstart : Covers (r :: rs) r.start :=
      covers_cons.2 (.inl (NumberRange.contains_iff.2 ⟨Nat.le_refl _, hr⟩))
    rw [List.head?_cons, Option.map_some, Option.some.injEq]
    constructor
    · rintro rfl
      exact ⟨hstart, fun m hm => UInt64.le_iff_toNat_le.2 (h.start_le_of_covers hm)⟩
    · rintro ⟨hn, hle⟩
      have h1 := h.start_le_of_covers hn
      have h2 := UInt64.le_iff_toNat_le.1 (hle _ hstart)
      exact UInt64.toNat_inj.1 (by omega)

/-- The greatest number of a set that has some. -/
lemma Canonical.max?_eq_some_iff {s : RangeSet} (h : Canonical s.ranges) (n : UInt64) :
    s.max? = some n ↔ Covers s.ranges n ∧ ∀ m, Covers s.ranges m → m ≤ n := by
  rw [RangeSet.max?]
  rcases List.eq_nil_or_concat s.ranges with hrs | ⟨rs, r, hrs⟩
  · simp [hrs]
  · rw [List.concat_eq_append] at hrs
    rw [hrs] at h ⊢
    have hr := isValid_iff.1 (h.valid r List.mem_concat_self)
    have hstop : Covers (rs ++ [r]) r.stop :=
      covers_append.2 (.inr (covers_cons.2 (.inl (NumberRange.contains_iff.2 ⟨hr, Nat.le_refl _⟩))))
    have hle : ∀ m, Covers (rs ++ [r]) m → m.toNat ≤ r.stop.toNat := by
      rintro m ⟨s, hs, hm⟩
      rw [NumberRange.contains_iff] at hm
      rcases List.mem_append.1 hs with hs | hs
      · have hb := (List.pairwise_append.1 h.ascends).2.2 s hs r List.mem_cons_self
        unfold Before at hb
        omega
      · rw [List.mem_singleton.1 hs] at hm
        exact hm.2
    rw [List.getLast?_concat, Option.map_some, Option.some.injEq]
    constructor
    · rintro rfl
      exact ⟨hstop, fun m hm => UInt64.le_iff_toNat_le.2 (hle m hm)⟩
    · rintro ⟨hn, hmax⟩
      have h1 := hle n hn
      have h2 := UInt64.le_iff_toNat_le.1 (hmax _ hstop)
      exact UInt64.toNat_inj.1 (by omega)

lemma Canonical.eq_nil_iff (h : Canonical rs) : rs = [] ↔ ∀ n, ¬ Covers rs n := by
  constructor
  · rintro rfl n
    exact covers_nil
  · intro hn
    cases rs with
    | nil => rfl
    | cons r rs =>
      have hr := isValid_iff.1 (h.valid r List.mem_cons_self)
      exact absurd (covers_cons.2 (.inl (NumberRange.contains_iff.2 ⟨Nat.le_refl _, hr⟩))) (hn r.start)

/-! ## The numbers determine the ranges -/

/-- Of two first ranges, the one goes as far as the other. -/
lemma Canonical.stop_le (h : Canonical (r :: rs))
    (hstart : r.start = g.start) (hcovers : ∀ n, Covers (g :: ss) n → Covers (r :: rs) n) :
    g.stop.toNat ≤ r.stop.toNat := by
  refine Nat.le_of_not_lt fun hlt => ?_
  -- the number behind the shorter range is in the longer one, but nothing of the others is adjacent
  have hg := g.stop.toNat_lt
  have hn : (UInt64.ofNat (r.stop.toNat + 1)).toNat = r.stop.toNat + 1 :=
    UInt64.toNat_ofNat_of_lt' (Nat.lt_of_le_of_lt hlt hg)
  have hr := isValid_iff.1 (h.valid r List.mem_cons_self)
  have hin : Covers (g :: ss) (UInt64.ofNat (r.stop.toNat + 1)) := by
    rw [covers_cons, NumberRange.contains_iff, hn, ← hstart]
    exact .inl (by omega)
  rcases covers_cons.1 (hcovers _ hin) with hc | ⟨s, hs, hc⟩
  · rw [NumberRange.contains_iff, hn] at hc
    omega
  · have hb := h.before s hs
    rw [NumberRange.contains_iff, hn] at hc
    unfold Before at hb
    omega

/-- Two canonical lists of ranges that have the same numbers are the same. -/
theorem Canonical.eq_of_covers (h : Canonical rs) (h' : Canonical ss)
    (hcovers : ∀ n, Covers rs n ↔ Covers ss n) : rs = ss := by
  induction rs generalizing ss with
  | nil => exact (h'.eq_nil_iff.2 fun n hn => covers_nil ((hcovers n).2 hn)).symm
  | cons r rs ih =>
    cases ss with
    | nil => exact h.eq_nil_iff.2 fun n hn => covers_nil ((hcovers n).1 hn)
    | cons g ss =>
      have hin : ∀ {t : NumberRange} {ts}, Canonical (t :: ts) → Covers (t :: ts) t.start :=
        fun ht => covers_cons.2 (.inl (NumberRange.contains_iff.2
          ⟨Nat.le_refl _, isValid_iff.1 (ht.valid _ List.mem_cons_self)⟩))
      have hstart : r.start = g.start := by
        have h1 := h.start_le_of_covers ((hcovers _).2 (hin h'))
        have h2 := h'.start_le_of_covers ((hcovers _).1 (hin h))
        exact UInt64.toNat_inj.1 (by omega)
      have hstop : r.stop = g.stop := by
        have h1 := h.stop_le hstart fun n => (hcovers n).2
        have h2 := h'.stop_le hstart.symm fun n => (hcovers n).1
        exact UInt64.toNat_inj.1 (by omega)
      obtain rfl : r = g := by
        cases r; cases g
        simp_all
      have htail : ∀ {ts : List NumberRange}, Canonical (r :: ts) →
          ∀ n, Covers ts n ↔ Covers (r :: ts) n ∧ ¬ r.contains n = true := by
        intro ts ht n
        rw [covers_cons, or_and_right, and_not_self_iff, false_or, iff_self_and]
        rintro ⟨s, hs, hn⟩ hc
        have hb := ht.before s hs
        rw [NumberRange.contains_iff] at hn hc
        unfold Before at hb
        omega
      rw [ih h.of_cons h'.of_cons fun n => by rw [htail h, htail h', hcovers]]

end RangeSet

end Semdoc
