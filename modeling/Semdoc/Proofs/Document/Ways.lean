import Semdoc.Proofs.Document.Places

/-!
# Ways through documents

As long as owners and owned nodes agree, a node is reached from any node above it by one way only.  So it makes
no difference from where the ways to two nodes are compared, and that no node is met twice on a way bounds its
length.
-/

namespace Semdoc

open Relation

/-! ## Comparing ways -/

instance : Std.TransCmp Step.compareSteps :=
  inferInstanceAs (Std.TransCmp (compareLex (compareOn Step.field) (compareOn Step.position)))

instance : Std.LawfulEqCmp Step.compareSteps where
  eq_of_compare {a b} h := by
    rw [Step.compareSteps, Ordering.then_eq_eq, Nat.compare_eq_eq, Nat.compare_eq_eq] at h
    cases a
    cases b
    cases h.1
    cases h.2
    rfl

lemma Step.compareSteps_of_field {f g : Nat} (h : f < g) (i j : Nat) :
    Step.compareSteps ⟨f, i⟩ ⟨g, j⟩ = .lt := by
  rw [compareSteps, Nat.compare_eq_lt.2 h]
  rfl

lemma Step.compareSteps_of_position {i j : Nat} (f : Nat) (h : i < j) :
    Step.compareSteps ⟨f, i⟩ ⟨f, j⟩ = .lt := by
  rw [compareSteps, Nat.compare_eq_eq.2 rfl, Nat.compare_eq_lt.2 h]
  rfl

namespace Place

variable {p q w : List Step}

lemma compareWays_eq_compareLex : compareWays = List.compareLex Step.compareSteps := by
  funext p q
  induction p generalizing q with
  | nil => cases q <;> rfl
  | cons a p ih =>
    cases q with
    | nil => rfl
    | cons b q =>
      rw [compareWays, ih, List.compareLex_cons_cons]

instance : Std.TransCmp compareWays := by
  rw [compareWays_eq_compareLex]
  infer_instance

instance : Std.LawfulEqCmp compareWays := by
  rw [compareWays_eq_compareLex]
  infer_instance

/-- Ways that begin alike are compared by what comes after. -/
lemma compareWays_append_left (w p q : List Step) :
    compareWays (w ++ p) (w ++ q) = compareWays p q := by
  induction w with
  | nil => rfl
  | cons a w ih =>
    have ha : a.compareSteps a = .eq := Std.ReflCmp.compare_self
    rw [List.cons_append, List.cons_append, compareWays, ha, ih]
    rfl

/-- A way comes before those that lead on. -/
lemma compareWays_append_right (p : List Step) (hq : q ≠ []) : compareWays p (p ++ q) = .lt := by
  have h := compareWays_append_left p [] q
  rw [List.append_nil] at h
  rw [h]
  cases q with
  | nil => exact absurd rfl hq
  | cons b q => rfl

lemma compareWays_cons_of_lt {a b : Step} (h : a.compareSteps b = .lt) (p q : List Step) :
    compareWays (a :: p) (b :: q) = .lt := by
  rw [compareWays, h]
  rfl

end Place

namespace Store

variable {s : Store} {a b c top : NodeHandle} {p q w : List Step}

/-! ## Ways -/

lemma Way.append (h : s.Way a p b) (h' : s.Way b q c) : s.Way a (p ++ q) c := by
  induction h with
  | here => exact h'
  | down hc _ ih => exact .down hc (ih h')

/-- A way leads to one node. -/
lemma Way.target_unique (h : s.Way a p b) (h' : s.Way a p c) : b = c := by
  induction h with
  | here => cases h'; rfl
  | down hc _ ih =>
    cases h' with
    | down hc' h' =>
      cases hc.symm.trans hc'
      exact ih h'

/-- A way ends where it begins, or with a last step. -/
lemma Way.cases_tail (h : s.Way a w b) :
    (w = [] ∧ a = b) ∨ ∃ k field position v, w = v ++ [⟨field, position⟩] ∧ s.Way a v k ∧
      (s.fieldContent k field)[position]? = some b := by
  induction h with
  | here => exact .inl ⟨rfl, rfl⟩
  | @down h c t field position steps hc _ ih =>
    right
    obtain ⟨rfl, rfl⟩ | ⟨k, f, i, v, rfl, hv, hb⟩ := ih
    · exact ⟨h, field, position, [], rfl, .here h, hc⟩
    · exact ⟨k, f, i, ⟨field, position⟩ :: v, rfl, .down hc hv, hb⟩

section Sound

variable (hs : s.Sound)
include hs

lemma Sound.home_of_fieldContent {number : Nat} (hc : c ∈ s.fieldContent a number) :
    s.home? c = some ⟨a, .entityField number⟩ := by
  rw [fieldContent, listed_eq_held a rfl] at hc
  exact hs.home_of_held rfl hc

lemma Sound.nodup_fieldContent (a : NodeHandle) (number : Nat) : (s.fieldContent a number).Nodup := by
  rw [fieldContent, listed_eq_held a rfl]
  exact hs.nodup a rfl

/-- A node is in one place of one field at most. -/
lemma Sound.eq_of_getElem? {f g i j : Nat} (h : (s.fieldContent a f)[i]? = some c)
    (h' : (s.fieldContent b g)[j]? = some c) : a = b ∧ f = g ∧ i = j := by
  have hhome := (hs.home_of_fieldContent (List.mem_of_getElem? h)).symm.trans
    (hs.home_of_fieldContent (List.mem_of_getElem? h'))
  cases hhome
  refine ⟨rfl, rfl, ?_⟩
  exact (List.getElem?_inj (List.getElem?_eq_some_iff.1 h).1 (hs.nodup_fieldContent a f)).1
    (h.trans h'.symm)

/-- The first place of a node in a field is its only one. -/
lemma Sound.findIdx?_fieldContent {f i : Nat} (h : (s.fieldContent a f)[i]? = some c) :
    (s.fieldContent a f).findIdx? (· == c) = some i := by
  obtain ⟨hlt, he⟩ := List.getElem?_eq_some_iff.1 h
  refine List.findIdx?_eq_some_iff_getElem.2 ⟨hlt, beq_iff_eq.2 he, fun j hj => ?_⟩
  rw [beq_iff_eq, ← he, (hs.nodup_fieldContent a f).getElem_inj_iff]
  exact Nat.ne_of_lt hj

lemma Sound.isParent_of_getElem? {f i : Nat} (h : (s.fieldContent a f)[i]? = some c) :
    s.IsParent a c :=
  isParent_of_home? (hs.home_of_fieldContent (List.mem_of_getElem? h))

lemma Sound.reflTransGen_of_way (h : s.Way a w b) : ReflTransGen s.IsParent a b := by
  induction h with
  | here => exact .refl
  | down hc _ ih => exact .head (hs.isParent_of_getElem? hc) ih

lemma Sound.transGen_of_way (h : s.Way a w b) (hw : w ≠ []) : TransGen s.IsParent a b := by
  cases h with
  | here => exact absurd rfl hw
  | down hc h => exact .head' (hs.isParent_of_getElem? hc) (hs.reflTransGen_of_way h)

/-- One does not come back. -/
lemma Sound.way_eq_nil (h : s.Way a w a) : w = [] := by
  by_contra hw
  exact not_transGen_self hs.acyclic a (hs.transGen_of_way h hw)

/-- The nodes that are met on a way are passed on the way back. -/
lemma Sound.exists_passed_of_way (h : s.Way a w b) :
    ∃ met : List NodeHandle, met.length = w.length ∧ s.Passed met a := by
  induction h with
  | here h => exact ⟨[], rfl, .nil s h⟩
  | @down h c t field position steps hc _ ih =>
    obtain ⟨met, hlen, hmet⟩ := ih
    exact ⟨c :: met, congrArg (· + 1) hlen, hmet.up hs.acyclic (hs.isParent_of_getElem? hc)⟩

/-- Ways are shorter than there are places for nodes. -/
lemma Sound.length_way_lt (h : s.Way a w b) : w.length < s.bound := by
  obtain ⟨met, hlen, hmet⟩ := hs.exists_passed_of_way h
  rw [← hlen]
  exact Nat.lt_succ_of_le hmet.length_le

/-- Of two nodes above a third one, one is above the other. -/
lemma Sound.way_above (h : s.Way a p c) (h' : s.Way b q c) :
    (∃ w, p = w ++ q ∧ s.Way a w b) ∨ ∃ w, q = w ++ p ∧ s.Way b w a := by
  induction p using List.reverseRecOn generalizing c q with
  | nil =>
    cases h
    exact .inr ⟨q, (List.append_nil q).symm, h'⟩
  | append_singleton p x ih =>
    rcases h'.cases_tail with ⟨rfl, rfl⟩ | ⟨k', f', i', q, rfl, hq, hc'⟩
    · exact .inl ⟨p ++ [x], (List.append_nil _).symm, h⟩
    · rcases h.cases_tail with ⟨hnil, -⟩ | ⟨k, f, i, v, hv, hp, hc⟩
      · simp at hnil
      · -- both ways make the same last step
        obtain ⟨rfl, hx⟩ := List.append_inj' hv rfl
        cases hx
        obtain ⟨rfl, rfl, rfl⟩ := hs.eq_of_getElem? hc hc'
        rcases ih hp hq with ⟨w, rfl, hw⟩ | ⟨w, rfl, hw⟩
        · exact .inl ⟨w, List.append_assoc _ _ _, hw⟩
        · exact .inr ⟨w, List.append_assoc _ _ _, hw⟩

/-- From one node to another there is one way at most. -/
lemma Sound.way_unique (h : s.Way a p b) (h' : s.Way a q b) : p = q := by
  rcases hs.way_above h h' with ⟨w, rfl, hw⟩ | ⟨w, rfl, hw⟩
  · rw [hs.way_eq_nil hw, List.nil_append]
  · rw [hs.way_eq_nil hw, List.nil_append]

/-- Two nodes may be compared from any node above both. -/
lemma Sound.compareWays_eq {b' : NodeHandle} {p' q' : List Step} (ha : s.Way top p a)
    (hb : s.Way top q b) (ha' : s.Way b' p' a) (hb' : s.Way b' q' b) :
    Place.compareWays p q = Place.compareWays p' q' := by
  rcases hs.way_above ha ha' with ⟨w, rfl, hw⟩ | ⟨w, rfl, hw⟩
  · rw [hs.way_unique hb (hw.append hb'), Place.compareWays_append_left]
  · rw [hs.way_unique hb' (hw.append hb), Place.compareWays_append_left]

end Sound

/-! ## The order below a node -/

/-- A node comes before another one in the order of what is below some node. -/
def Precedes (s : Store) (a b : NodeHandle) : Prop :=
  ∃ top p q, s.Way top p a ∧ s.Way top q b ∧ Place.compareWays p q = .lt

lemma Sound.precedes_asymm (hs : s.Sound) (h : s.Precedes a b) : ¬ s.Precedes b a := by
  obtain ⟨top, p, q, hp, hq, hlt⟩ := h
  rintro ⟨top', q', p', hq', hp', hgt⟩
  have hswap : Place.compareWays p' q' = (Place.compareWays q' p').swap := Std.OrientedCmp.eq_swap
  rw [hs.compareWays_eq hp hq hp' hq', hswap, hgt] at hlt
  cases hlt

end Store

end Semdoc
