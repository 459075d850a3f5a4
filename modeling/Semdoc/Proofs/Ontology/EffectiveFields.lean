import Semdoc.Proofs.Ontology.ClassLine
import Semdoc.Proofs.Ontology.OwnFields
import Semdoc.Proofs.Session.Circles

/-!
# Effective fields

The fields of a class and its superclasses are met one after another, from the class outwards.  A field hides all
later ones with its name, also if it is left out itself.  Of what is not hidden, all additional fields and the
first tree field are effective.
-/

namespace Semdoc

open Relation

/-! ## What comes first -/

namespace Walk

variable {α κ : Type*} {l l' : List α} {x y z : α}

lemma pair_sublist_cons : [x, y].Sublist (z :: l) ↔ [x, y].Sublist l ∨ x = z ∧ y ∈ l := by
  constructor
  · intro h
    cases h with
    | cons _ h => exact .inl h
    | cons_cons _ h => exact .inr ⟨rfl, List.singleton_sublist.1 h⟩
  · rintro (h | ⟨rfl, h⟩)
    · exact h.cons z
    · exact (List.singleton_sublist.2 h).cons_cons x

lemma mem_of_pair_sublist (h : [x, y].Sublist l) : x ∈ l ∧ y ∈ l :=
  ⟨h.subset List.mem_cons_self, h.subset (List.mem_cons_of_mem x List.mem_cons_self)⟩

lemma pair_sublist_append_iff {l₁ l₂ : List α} (hd : (l₁ ++ l₂).Nodup) (hy : y ∈ l₂) :
    [x, y].Sublist (l₁ ++ l₂) ↔ x ∈ l₁ ∨ [x, y].Sublist l₂ := by
  induction l₁ with
  | nil => simp
  | cons z l₁ ih =>
    rw [List.cons_append, pair_sublist_cons, ih (List.nodup_cons.1 hd).2, List.mem_cons]
    have hy' : y ∈ l₁ ++ l₂ := List.mem_append_right l₁ hy
    tauto

/-- Two things of a part of a list stand in it in the same order. -/
lemma pair_sublist_iff (h : l'.Sublist l) (hd : l.Nodup) :
    [x, y].Sublist l' ↔ x ∈ l' ∧ y ∈ l' ∧ [x, y].Sublist l := by
  induction h with
  | slnil => simp
  | @cons l' l z h ih =>
    obtain ⟨hz, hd⟩ := List.nodup_cons.1 hd
    rw [ih hd, pair_sublist_cons]
    refine and_congr_right fun hx => and_congr_right fun _ => (or_iff_left ?_).symm
    rintro ⟨rfl, -⟩
    exact hz (h.subset hx)
  | @cons_cons l' l z h ih =>
    obtain ⟨hz, hd⟩ := List.nodup_cons.1 hd
    rw [pair_sublist_cons, pair_sublist_cons, ih hd, List.mem_cons, List.mem_cons]
    constructor
    · rintro (⟨hx, hy, hxy⟩ | ⟨rfl, hy⟩)
      · exact ⟨.inr hx, .inr hy, .inl hxy⟩
      · exact ⟨.inl rfl, .inr hy, .inr ⟨rfl, h.subset hy⟩⟩
    · rintro ⟨hx, hy, hxy | ⟨rfl, hyl⟩⟩
      · obtain ⟨hxl, hyl⟩ := mem_of_pair_sublist hxy
        refine .inl ⟨hx.resolve_left ?_, hy.resolve_left ?_, hxy⟩
        · rintro rfl
          exact hz hxl
        · rintro rfl
          exact hz hyl
      · refine .inr ⟨rfl, hy.resolve_left ?_⟩
        rintro rfl
        exact hz hyl

/-- The first of things with the same key are those that no other one with their key comes before. -/
lemma mem_firstByKey_iff [BEq κ] [LawfulBEq κ] {key : α → κ} {seen : List κ} (hd : l.Nodup) :
    x ∈ firstByKey key seen l ↔
      x ∈ l ∧ key x ∉ seen ∧ ∀ y, [y, x].Sublist l → key y ≠ key x := by
  induction l generalizing seen with
  | nil => simp [firstByKey]
  | cons z l ih =>
    obtain ⟨hz, hd⟩ := List.nodup_cons.1 hd
    simp only [pair_sublist_cons, List.mem_cons]
    rw [firstByKey]
    split
    · next hseen =>
      have hkey : key z ∈ seen := by simpa using hseen
      rw [ih hd]
      constructor
      · rintro ⟨hx, hnew, hfirst⟩
        refine ⟨.inr hx, hnew, ?_⟩
        rintro y (hyx | ⟨rfl, -⟩)
        · exact hfirst y hyx
        · exact fun e => hnew (e ▸ hkey)
      · rintro ⟨rfl | hx, hnew, hfirst⟩
        · exact (hnew hkey).elim
        · exact ⟨hx, hnew, fun y hyx => hfirst y (.inl hyx)⟩
    · next hseen =>
      have hkey : key z ∉ seen := by simpa using hseen
      rw [List.mem_cons, ih hd, List.mem_cons, not_or]
      constructor
      · rintro (rfl | ⟨hx, ⟨hne, hnew⟩, hfirst⟩)
        · refine ⟨.inl rfl, hkey, ?_⟩
          rintro y (hyx | ⟨-, hx⟩)
          · exact (hz (mem_of_pair_sublist hyx).2).elim
          · exact (hz hx).elim
        · refine ⟨.inr hx, hnew, ?_⟩
          rintro y (hyx | ⟨rfl, -⟩)
          · exact hfirst y hyx
          · exact fun e => hne e.symm
      · rintro ⟨rfl | hx, hnew, hfirst⟩
        · exact .inl rfl
        · exact .inr ⟨hx, ⟨fun e => hfirst z (.inr ⟨rfl, hx⟩) e.symm, hnew⟩,
            fun y hyx => hfirst y (.inl hyx)⟩

/-- The first thing with a property is the one that no other with it comes before. -/
lemma find?_eq_some_iff_pair {q : α → Bool} (hd : l.Nodup) :
    l.find? q = some x ↔ x ∈ l ∧ q x = true ∧ ∀ y, [y, x].Sublist l → q y = false := by
  induction l with
  | nil => simp
  | cons z l ih =>
    obtain ⟨hz, hd⟩ := List.nodup_cons.1 hd
    simp only [pair_sublist_cons, List.mem_cons]
    rw [List.find?_cons]
    cases hq : q z with
    | true =>
      rw [Option.some.injEq]
      constructor
      · rintro rfl
        refine ⟨.inl rfl, hq, ?_⟩
        rintro y (hyx | ⟨-, hx⟩)
        · exact (hz (mem_of_pair_sublist hyx).2).elim
        · exact (hz hx).elim
      · rintro ⟨rfl | hx, -, hfirst⟩
        · rfl
        · rw [hfirst z (.inr ⟨rfl, hx⟩)] at hq
          cases hq
    | false =>
      rw [ih hd]
      constructor
      · rintro ⟨hx, hqx, hfirst⟩
        refine ⟨.inr hx, hqx, ?_⟩
        rintro y (hyx | ⟨rfl, -⟩)
        · exact hfirst y hyx
        · exact hq
      · rintro ⟨rfl | hx, hqx, hfirst⟩
        · rw [hqx] at hq
          cases hq
        · exact ⟨hx, hqx, fun y hyx => hfirst y (.inl hyx)⟩

lemma firstByKey_sublist [BEq κ] (key : α → κ) (seen : List κ) (l : List α) :
    (firstByKey key seen l).Sublist l := by
  induction l generalizing seen with
  | nil => exact .slnil
  | cons z l ih =>
    rw [firstByKey]
    split
    · exact (ih seen).cons z
    · exact (ih _).cons_cons z

/-- The order in which keys have been seen does not matter. -/
lemma firstByKey_congr [BEq κ] [LawfulBEq κ] (key : α → κ) {seen seen' : List κ}
    (h : ∀ k, k ∈ seen ↔ k ∈ seen') (l : List α) :
    firstByKey key seen l = firstByKey key seen' l := by
  induction l generalizing seen seen' with
  | nil => rfl
  | cons z l ih =>
    have hcontains : seen.contains (key z) = seen'.contains (key z) := by simp [h]
    have hcons : ∀ k, k ∈ key z :: seen ↔ k ∈ key z :: seen' := fun k => by
      rw [List.mem_cons, List.mem_cons, h]
    rw [firstByKey, firstByKey, hcontains, ih h, ih hcons]

end Walk

namespace Store

variable {s : Store} {c f g p : NodeHandle}

/-! ## What is not hidden -/

/-- The own fields of a class and of its superclasses, from the class outwards. -/
def lineFields (s : Store) (c : NodeHandle) : List NodeHandle := (s.classLine c).flatMap s.ownFields

/-- Going from a class outwards, one field is met before another: it is a field of a nearer class, or comes
earlier in the same one. -/
def MetBefore (s : Store) (c g f : NodeHandle) : Prop := [g, f].Sublist (s.lineFields c)

/-- A class or a superclass of it has a field, and no field that is met before has its name. -/
def Visible (s : Store) (c f : NodeHandle) : Prop :=
  f ∈ s.lineFields c ∧ ∀ g, s.MetBefore c g f → s.name g ≠ s.name f

lemma nodup_lineFields (hs : s.Sound) (c : NodeHandle) : (s.lineFields c).Nodup :=
  nodup_flatMap_ownFields hs (nodup_classLine c)

/-- The fields that are not hidden, from a class outwards. -/
def visibleFrom (s : Store) (c : NodeHandle) : List NodeHandle :=
  Walk.firstByKey s.name [] (s.lineFields c)

lemma flatten_visibleFields (seen : List String) (line : List NodeHandle) :
    (s.visibleFields seen line).flatten = Walk.firstByKey s.name seen (line.flatMap s.ownFields) := by
  induction line generalizing seen with
  | nil => rfl
  | cons c line ih =>
    rw [visibleFields, List.flatten_cons, ih, List.flatMap_cons, Walk.firstByKey_append]
    congr 1
    exact Walk.firstByKey_congr _ (fun k => by simp) _

lemma mem_visibleFrom_iff (hs : s.Sound) : f ∈ s.visibleFrom c ↔ s.Visible c f := by
  rw [visibleFrom, Walk.mem_firstByKey_iff (nodup_lineFields hs c)]
  simp [Visible, MetBefore]

lemma nodup_map_name_visibleFrom (c : NodeHandle) : ((s.visibleFrom c).map s.name).Nodup :=
  (Walk.nodup_map_firstByKey ..).1

lemma nodup_visibleFrom (c : NodeHandle) : (s.visibleFrom c).Nodup :=
  (nodup_map_name_visibleFrom c).of_map

/-! ## Effective fields -/

/-- The effective additional fields, those of the farthest class first. -/
def additionalFields (s : Store) (c : NodeHandle) : List NodeHandle :=
  ((s.visibleFields [] (s.classLine c)).map fun fields =>
    fields.filter fun f => !s.isTreeField f).reverse.flatten

lemma effectiveFields_eq (hc : s.isA c .structuredClass = true) :
    s.effectiveFields c =
      s.additionalFields c ++ ((s.visibleFrom c).find? s.isTreeField).toList := by
  have hclass : (s.class? c).isNone = false := by
    rw [← Option.not_isSome, isSome_class?_iff.2 hc]
    rfl
  rw [effectiveFields, if_neg (by simp [hclass]), visibleFrom, lineFields, ← flatten_visibleFields]
  rfl

/-- What is no structured class has no superclass to inherit from. -/
lemma effectiveFields_of_not_class (hc : ¬ s.isA c .structuredClass = true) :
    s.effectiveFields c = s.ownFields c := by
  rw [effectiveFields, if_pos (by simpa [← isSome_class?_iff] using hc)]

lemma contains_of_mem_effectiveFields (h : f ∈ s.effectiveFields c) : s.contains c = true := by
  by_cases hc : s.isA c .structuredClass = true
  · exact contains_of_isA hc
  · rw [effectiveFields_of_not_class hc, ownFields_eq] at h
    exact contains_of_mem_held h

lemma additionalFields_perm (c : NodeHandle) :
    (s.additionalFields c).Perm ((s.visibleFrom c).filter fun f => !s.isTreeField f) := by
  rw [visibleFrom, lineFields, ← flatten_visibleFields, List.filter_flatten]
  exact (List.reverse_perm _).flatten

/-- Additional fields of outer classes come first, and those of each class in their own order. -/
lemma additionalFields_sublist (c : NodeHandle) :
    (s.additionalFields c).Sublist ((s.classLine c).reverse.flatMap s.ownFields) := by
  have hline : ∀ (line : List NodeHandle) (seen : List String),
      ((s.visibleFields seen line).map fun fields =>
        fields.filter fun f => !s.isTreeField f).reverse.flatten.Sublist
      (line.reverse.flatMap s.ownFields) := by
    intro line
    induction line with
    | nil => exact fun _ => .slnil
    | cons c line ih =>
      intro seen
      rw [visibleFields, List.map_cons, List.reverse_cons, List.flatten_append, List.reverse_cons,
        List.flatMap_append, List.flatten_singleton, List.flatMap_singleton]
      exact (ih _).append (List.filter_sublist.trans (Walk.firstByKey_sublist ..))
  exact hline _ _

lemma mem_additionalFields_iff (hs : s.Sound) :
    f ∈ s.additionalFields c ↔ s.Visible c f ∧ s.isTreeField f = false := by
  rw [(additionalFields_perm c).mem_iff, List.mem_filter, mem_visibleFrom_iff hs, Bool.not_eq_true']

/-- The effective tree field is the first that is not hidden. -/
lemma find?_isTreeField_iff (hs : s.Sound) :
    (s.visibleFrom c).find? s.isTreeField = some f ↔
      s.Visible c f ∧ s.isTreeField f = true ∧
        ∀ g, s.Visible c g → s.MetBefore c g f → s.isTreeField g = false := by
  have hsub : (s.visibleFrom c).Sublist (s.lineFields c) := Walk.firstByKey_sublist ..
  rw [Walk.find?_eq_some_iff_pair (nodup_visibleFrom c), mem_visibleFrom_iff hs]
  refine and_congr_right fun hf => and_congr_right fun _ => forall_congr' fun g => ?_
  rw [Walk.pair_sublist_iff hsub (nodup_lineFields hs c), mem_visibleFrom_iff hs,
    mem_visibleFrom_iff hs, MetBefore]
  exact ⟨fun h hg hgf => h ⟨hg, hf, hgf⟩, fun h hgf => h hgf.1 hgf.2.2⟩

lemma mem_effectiveFields_iff (hs : s.Sound) (hc : s.isA c .structuredClass = true) :
    f ∈ s.effectiveFields c ↔ s.Visible c f ∧ (s.isTreeField f = true →
      ∀ g, s.Visible c g → s.MetBefore c g f → s.isTreeField g = false) := by
  rw [effectiveFields_eq hc, List.mem_append, mem_additionalFields_iff hs, Option.mem_toList,
    find?_isTreeField_iff hs]
  cases s.isTreeField f <;> simp

lemma nodup_map_name_effectiveFields (hs : s.Sound) (hc : s.isA c .structuredClass = true) :
    ((s.effectiveFields c).map s.name).Nodup := by
  have hvisible : ∀ f ∈ s.effectiveFields c, f ∈ s.visibleFrom c := fun f hf =>
    (mem_visibleFrom_iff hs).2 ((mem_effectiveFields_iff hs hc).1 hf).1
  have hnodup : (s.effectiveFields c).Nodup := by
    rw [effectiveFields_eq hc, List.nodup_append']
    refine ⟨(additionalFields_perm c).nodup_iff.2 ((nodup_visibleFrom c).filter _),
      by cases (s.visibleFrom c).find? s.isTreeField <;> simp, fun f hf ht => ?_⟩
    have htree := List.find?_some (Option.mem_toList.1 ht)
    rw [((mem_additionalFields_iff hs).1 hf).2] at htree
    cases htree
  refine List.Nodup.map_on (fun f hf g hg e => ?_) hnodup
  exact List.inj_on_of_nodup_map (nodup_map_name_visibleFrom c) (hvisible f hf) (hvisible g hg) e

/-! ## Fields of the superclass -/

section Inherited

variable (hs : s.Sound) (hc : s.contains c = true) (hp : s.Ascends c p)
  (hcircle : ¬ TransGen s.Ascends c c)
include hs hc hp hcircle

omit hs in
lemma lineFields_eq_append : s.lineFields c = s.ownFields c ++ s.lineFields p := by
  rw [lineFields, classLine_eq_cons hc hp hcircle, List.flatMap_cons, lineFields]

/-- The own fields of a class are met before all fields of its superclass. -/
lemma metBefore_iff_of_mem (hf : f ∈ s.lineFields p) :
    s.MetBefore c g f ↔ g ∈ s.ownFields c ∨ s.MetBefore p g f := by
  have hnodup := nodup_lineFields hs c
  have heq := lineFields_eq_append hc hp hcircle
  rw [heq] at hnodup
  rw [MetBefore, heq, Walk.pair_sublist_append_iff hnodup hf, MetBefore]

lemma visible_iff_of_mem (hf : f ∈ s.lineFields p) :
    s.Visible c f ↔ (∀ g ∈ s.ownFields c, s.name g ≠ s.name f) ∧ s.Visible p f := by
  have hmem : f ∈ s.lineFields c := by
    rw [lineFields_eq_append hc hp hcircle]
    exact List.mem_append_right _ hf
  simp only [Visible, metBefore_iff_of_mem hs hc hp hcircle hf, hmem, hf, true_and, or_imp,
    forall_and]

/-- If an own field could be the tree field, then one is. -/
lemma exists_own_effective_tree (hclass : s.isA c .structuredClass = true) (hg : g ∈ s.ownFields c)
    (hvisible : s.Visible c g) (htree : s.isTreeField g = true) :
    ∃ t ∈ s.ownFields c, t ∈ s.effectiveFields c ∧ s.isTreeField t = true := by
  obtain ⟨t, ht⟩ := Option.isSome_iff_exists.1
    (List.find?_isSome.2 ⟨g, (mem_visibleFrom_iff hs).2 hvisible, htree⟩)
  obtain ⟨htv, htt, hfirst⟩ := (find?_isTreeField_iff hs).1 ht
  refine ⟨t, ?_, (mem_effectiveFields_iff hs hclass).2 ⟨htv, fun _ => hfirst⟩, htt⟩
  have hmem := htv.1
  rw [lineFields_eq_append hc hp hcircle] at hmem
  refine (List.mem_append.1 hmem).resolve_right fun hout => ?_
  -- a field of the superclass comes after the own one
  have hgt := (metBefore_iff_of_mem hs hc hp hcircle hout).2 (.inl hg)
  rw [hfirst g hvisible hgt] at htree
  cases htree

/-- An effective field of the superclass is effective in the class unless an own field has its name, or it is the
tree field and there is an own one. -/
lemma mem_effectiveFields_iff_of_superclass (hclass : s.isA c .structuredClass = true)
    (hsuper : s.isA p .structuredClass = true) (hf : f ∈ s.effectiveFields p) :
    f ∈ s.effectiveFields c ↔ (∀ g ∈ s.ownFields c, s.name g ≠ s.name f) ∧
      (s.isTreeField f = true → ∀ g ∈ s.ownFields c, g ∈ s.effectiveFields c →
        s.isTreeField g = false) := by
  obtain ⟨hvisible, hfirst⟩ := (mem_effectiveFields_iff hs hsuper).1 hf
  have hmet : ∀ {g}, s.MetBefore c g f ↔ g ∈ s.ownFields c ∨ s.MetBefore p g f :=
    metBefore_iff_of_mem hs hc hp hcircle hvisible.1
  rw [mem_effectiveFields_iff hs hclass, visible_iff_of_mem hs hc hp hcircle hvisible.1,
    and_iff_left hvisible]
  refine and_congr_right fun _ => forall_congr' fun htree => ?_
  constructor
  · exact fun h g hg heff => h g ((mem_effectiveFields_iff hs hclass).1 heff).1 (hmet.2 (.inl hg))
  · intro h g hg hgf
    rcases hmet.1 hgf with hown | hgf
    · by_contra hgtree
      obtain ⟨t, ht, heff, htt⟩ := exists_own_effective_tree hs hc hp hcircle hclass hown hg
        (by simpa using hgtree)
      rw [h t ht heff] at htt
      cases htt
    · have hgp : g ∈ s.lineFields p := (Walk.mem_of_pair_sublist hgf).1
      exact hfirst htree g ((visible_iff_of_mem hs hc hp hcircle hgp).1 hg).2 hgf

end Inherited

/-! ## In a session -/

/-- The effective fields of a class are additional ones, those of outer superclasses first and those of each class
in their own order, and then at most one tree field.  Their names are different.  A field is effective if none that
is met before has its name and it is additional or the first such tree field.  Where no superclass is met twice, an
effective field of the superclass is effective unless an own field has its name, or it is the tree field and an own
one is effective in its place. -/
theorem effectiveFields_override (steps : List SessionStep) (c : NodeHandle)
    (hclass : (after steps).isA c .structuredClass = true) :
    (∃ additional tree?, (after steps).effectiveFields c = additional ++ Option.toList tree? ∧
      additional.Sublist ((after steps).classLine c |>.reverse.flatMap (after steps).ownFields) ∧
      ((after steps).classLine c |>.reverse.flatMap (after steps).ownFields).Nodup ∧
      (∀ f ∈ additional, (after steps).fieldType? f = some .subtree) ∧
      ∀ f ∈ tree?, (after steps).fieldType? f = some .tree) ∧
    (((after steps).effectiveFields c).map (after steps).name).Nodup ∧
    (∀ f, f ∈ (after steps).effectiveFields c ↔ (after steps).Visible c f ∧
      ((after steps).fieldType? f = some .subtree ∨ (after steps).fieldType? f = some .tree ∧
        ∀ g, (after steps).Visible c g → (after steps).MetBefore c g f →
          (after steps).fieldType? g ≠ some .tree)) ∧
    ((after steps).hasInheritanceCycle c = false → ∀ p, (after steps).superclass? c = some p →
      ∀ f ∈ (after steps).effectiveFields p, f ∈ (after steps).effectiveFields c ↔
        (∀ g ∈ (after steps).ownFields c, (after steps).name g ≠ (after steps).name f) ∧
        ((after steps).fieldType? f = some .tree → ∀ g ∈ (after steps).ownFields c,
          g ∈ (after steps).effectiveFields c → (after steps).fieldType? g ≠ some .tree)) := by
  have hs := sound_after steps
  have ho := sorted_after steps
  have hn := named_after steps
  generalize after steps = s at hclass hs ho hn ⊢
  have htype : ∀ {f}, f ∈ s.lineFields c →
      (s.fieldType? f = some .subtree ↔ s.isTreeField f = false) := by
    intro f hf
    obtain ⟨d, -, hd⟩ := List.mem_flatMap.1 hf
    exact subtree_iff_of_mem_ownFields hs ho hd
  simp only [ne_eq, ← isTreeField_iff, Bool.not_eq_true]
  refine ⟨⟨_, _, effectiveFields_eq hclass, additionalFields_sublist c, ?_, fun f hf => ?_,
    fun f hf => List.find?_some hf⟩, nodup_map_name_effectiveFields hs hclass, fun f => ?_,
    fun hacyclic p hp f hf => ?_⟩
  · exact nodup_flatMap_ownFields hs (List.nodup_reverse.2 (nodup_classLine c))
  · obtain ⟨hv, ht⟩ := (mem_additionalFields_iff hs).1 hf
    exact (htype hv.1).2 ht
  · rw [mem_effectiveFields_iff hs hclass]
    refine and_congr_right fun hv => ?_
    rw [htype hv.1]
    cases s.isTreeField f <;> simp
  · rcases hn c p hp with hsuper | hspent
    · exact mem_effectiveFields_iff_of_superclass hs (contains_of_isA hclass)
        ⟨hp, contains_of_isA hsuper⟩ (not_transGen_of_hasInheritanceCycle hacyclic) hclass hsuper hf
    · exact absurd (contains_of_mem_effectiveFields hf) (by simp [hspent.dead])

/-- A session in which a class inherits three fields.  The first of its two own tree fields replaces the inherited
one, and the second one is left out but hides another one with its name. -/
def overridingSession : List SessionStep :=
  [.operate (.createOntology "o"), .operate (.createClass ⟨1, 1⟩ "a" .any none false false),
    .operate (.createClass ⟨1, 1⟩ "b" .any (some ⟨2, 1⟩) false false),
    .operate (.createField ⟨2, 1⟩ .subtree "x" false none),
    .operate (.createField ⟨2, 1⟩ .subtree "y" false none),
    .operate (.createField ⟨2, 1⟩ .tree "z" false none),
    .operate (.createField ⟨4, 1⟩ .tree "u" false none),
    .operate (.createField ⟨4, 1⟩ .tree "y" false none)]

theorem effectiveFields_override_overridingSession :
    (after overridingSession).isA ⟨4, 1⟩ .structuredClass = true ∧
      (after overridingSession).effectiveFields ⟨2, 1⟩ = [⟨6, 1⟩, ⟨7, 1⟩, ⟨8, 1⟩] ∧
      (after overridingSession).ownFields ⟨4, 1⟩ = [⟨9, 1⟩, ⟨10, 1⟩] ∧
      ((after overridingSession).effectiveFields ⟨4, 1⟩).map (after overridingSession).name =
        ["x", "u"] ∧
      ⟨6, 1⟩ ∈ (after overridingSession).effectiveFields ⟨4, 1⟩ ∧
      ⟨7, 1⟩ ∉ (after overridingSession).effectiveFields ⟨4, 1⟩ ∧
      ⟨8, 1⟩ ∉ (after overridingSession).effectiveFields ⟨4, 1⟩ := by
  have hclass : (after overridingSession).isA ⟨4, 1⟩ .structuredClass = true := by decide +kernel
  have hup : (after overridingSession).effectiveFields ⟨2, 1⟩ = [⟨6, 1⟩, ⟨7, 1⟩, ⟨8, 1⟩] := by
    decide +kernel
  have hown : (after overridingSession).ownFields ⟨4, 1⟩ = [⟨9, 1⟩, ⟨10, 1⟩] := by decide +kernel
  have hall : (after overridingSession).effectiveFields ⟨4, 1⟩ = [⟨6, 1⟩, ⟨9, 1⟩] := by
    decide +kernel
  obtain ⟨-, -, -, hinherits⟩ := effectiveFields_override overridingSession ⟨4, 1⟩ hclass
  have hinherits := hinherits (by decide +kernel) ⟨2, 1⟩ (by decide +kernel)
  rw [hup, hown] at hinherits
  refine ⟨hclass, hup, hown, by decide +kernel, ?_, fun hy => ?_, fun hz => ?_⟩
  · refine (hinherits ⟨6, 1⟩ (by simp)).2 ⟨by decide +kernel, fun htree => ?_⟩
    revert htree
    decide +kernel
  · exact ((hinherits ⟨7, 1⟩ (by simp)).1 hy).1 ⟨10, 1⟩ (by simp) (by decide +kernel)
  · exact ((hinherits ⟨8, 1⟩ (by simp)).1 hz).2 (by decide +kernel) ⟨9, 1⟩ (by simp)
      (by simp [hall]) (by decide +kernel)

end Store

end Semdoc
