import Mathlib.Data.Set.Card
import Semdoc.Proofs.Levels
import Semdoc.Proofs.Ontology.EffectiveFields

/-!
# Default fields

Default fields are collected from classes: from one to start with, and from the transparent classes behind its
tree fields, each class once and the nearest first.  What comes out are fields, and a class has those of its
superclasses too.  So a field is listed as often as there are classes that have it, and for the first time where the
nearest of them is.
-/

namespace Semdoc

namespace Walk

variable {α β : Type*} {l : List (α × Nat)} {parts : α → List β} {x y : β} {n : Nat}

/-- What belongs to something before a level comes before what belongs only to things from there on. -/
lemma idxOf_flatMap_lt [BEq β] [LawfulBEq β] (hl : l.Pairwise fun a b => a.2 ≤ b.2)
    (hx : ∃ e ∈ l, x ∈ parts e.1 ∧ e.2 < n) (hy : ∀ e ∈ l, y ∈ parts e.1 → n ≤ e.2) :
    (l.flatMap fun e => parts e.1).idxOf x < (l.flatMap fun e => parts e.1).idxOf y := by
  induction l with
  | nil =>
    obtain ⟨e, he, -⟩ := hx
    cases he
  | cons e l ih =>
    obtain ⟨hhead, hl⟩ := List.pairwise_cons.1 hl
    obtain ⟨e', he', hxe, hlt⟩ := hx
    have hbefore : e.2 < n := by
      rcases List.mem_cons.1 he' with rfl | he'
      · exact hlt
      · exact Nat.lt_of_le_of_lt (hhead e' he') hlt
    have hye : y ∉ parts e.1 := fun h =>
      Nat.not_le_of_lt hbefore (hy e List.mem_cons_self h)
    rw [List.flatMap_cons, List.idxOf_append_of_notMem hye]
    by_cases hxhead : x ∈ parts e.1
    · rw [List.idxOf_append_of_mem hxhead]
      exact Nat.lt_add_right _ (List.idxOf_lt_length_of_mem hxhead)
    · rw [List.idxOf_append_of_notMem hxhead]
      have htail : e' ∈ l := (List.mem_cons.1 he').resolve_left fun h => hxhead (h ▸ hxe)
      exact Nat.add_lt_add_left
        (ih hl ⟨e', htail, hxe, hlt⟩ fun e he => hy e (List.mem_cons_of_mem _ he)) _

/-- What no single thing has twice is counted once for each thing that has it. -/
lemma count_flatMap_of_nodup [DecidableEq β] {l : List α} (hparts : ∀ a, (parts a).Nodup) (x : β) :
    (l.flatMap parts).count x = (l.filter fun a => decide (x ∈ parts a)).length := by
  induction l with
  | nil => rfl
  | cons a l ih =>
    rw [List.flatMap_cons, List.count_append, ih, (hparts a).count, List.filter_cons]
    by_cases hx : x ∈ parts a
    · simp [hx, Nat.add_comm]
    · simp [hx]

end Walk

namespace Store

variable {s : Store} {d c f g : NodeHandle} {m n : Nat}

/-! ## Where default fields come from -/

/-- The tree fields of a class that hold values. -/
def primitiveTrees (s : Store) (c : NodeHandle) : List NodeHandle :=
  (s.treeFields c).filter s.isPrimitiveField

/-- Classes that one comes to through a number of transparent ones, counting the last: the class to start with, and
the transparent classes that a tree field may hold.  A field that holds a value leads nowhere. -/
inductive ClassAt (s : Store) (d : NodeHandle) : Nat → NodeHandle → Prop where
  | start : ClassAt s d 0 d
  | through {n : Nat} {b f c : NodeHandle} (h : ClassAt s d n b) (hf : f ∈ s.treeFields b)
      (hp : s.isPrimitiveField f = false) (hc : s.Permits f c) (ht : s.isTransparent c = true) :
      ClassAt s d (n + 1) c

/-- Tree fields that hold values, with a number of transparent classes in between. -/
def DefaultAt (s : Store) (d : NodeHandle) (n : Nat) (f : NodeHandle) : Prop :=
  ∃ c, s.ClassAt d n c ∧ f ∈ s.primitiveTrees c

/-- A class that one comes to has a tree field that holds a value. -/
def Supplies (s : Store) (d c f : NodeHandle) : Prop :=
  (∃ n, s.ClassAt d n c) ∧ f ∈ s.primitiveTrees c

/-- The transparent classes behind the tree fields of a class. -/
def nextClasses (s : Store) (c : NodeHandle) : List NodeHandle :=
  ((s.treeFields c).filter fun f => !s.isPrimitiveField f).flatMap s.transparentChildren

/-- The classes that are met, with the number of transparent ones that one comes through. -/
def classesMet (s : Store) (d : NodeHandle) : List (NodeHandle × Nat) :=
  Walk.levels s.nextClasses [d] (s.extent + 1)

lemma defaultFields_eq (s : Store) (d : NodeHandle) :
    s.defaultFields d = (s.classesMet d).flatMap fun e => s.primitiveTrees e.1 := by
  rw [← List.flatMap_map Prod.fst, classesMet, Walk.map_fst_levels]
  rfl

lemma mem_nextClasses_iff {b : NodeHandle} : c ∈ s.nextClasses b ↔
    ∃ f ∈ s.treeFields b, s.isPrimitiveField f = false ∧ s.Permits f c ∧ s.isTransparent c = true := by
  simp only [nextClasses, List.mem_flatMap, List.mem_filter, Bool.not_eq_true',
    mem_transparentChildren_iff, and_assoc]

lemma classAt_iff_levelAt : s.ClassAt d n c ↔ Walk.LevelAt s.nextClasses [d] n c := by
  constructor
  · intro h
    induction h with
    | start => exact .entry List.mem_cons_self
    | through _ hf hp hc ht ih => exact ih.next (mem_nextClasses_iff.2 ⟨_, hf, hp, hc, ht⟩)
  · intro h
    induction h with
    | entry hx =>
      obtain rfl := List.mem_singleton.1 hx
      exact .start
    | next _ hy ih =>
      obtain ⟨f, hf, hp, hc, ht⟩ := mem_nextClasses_iff.1 hy
      exact ih.through hf hp hc ht

lemma nextClasses_subset (s : Store) (d c : NodeHandle) : s.nextClasses c ⊆ d :: s.linked := by
  intro b hb
  obtain ⟨f, -, -, hp, -⟩ := mem_nextClasses_iff.1 hb
  exact List.mem_cons_of_mem d
    (permittedChildren_subset_linked f (mem_permittedChildren_iff.2 hp))

/-- A class is met with the least number of transparent classes through which one comes to it. -/
lemma mem_classesMet_iff : (c, n) ∈ s.classesMet d ↔ IsLeast {n | s.ClassAt d n c} n := by
  simp only [classAt_iff_levelAt]
  exact Walk.mem_levels_iff (fun c _ => s.nextClasses_subset d c)
    (List.cons_subset_cons d (List.nil_subset _)) (s.length_cons_linked_lt d)

lemma ClassAt.near (h : s.ClassAt d n c) : Walk.Near (s.classesMet d) c n :=
  (classAt_iff_levelAt.1 h).near (fun c _ => s.nextClasses_subset d c)
    (List.cons_subset_cons d (List.nil_subset _)) (s.length_cons_linked_lt d)

lemma nodup_classesMet (s : Store) (d : NodeHandle) : ((s.classesMet d).map Prod.fst).Nodup :=
  Walk.nodup_map_fst_levels ..

lemma pairwise_classesMet (s : Store) (d : NodeHandle) :
    (s.classesMet d).Pairwise fun a b => a.2 ≤ b.2 := Walk.pairwise_levels ..

lemma mem_map_fst_classesMet_iff : c ∈ (s.classesMet d).map Prod.fst ↔ ∃ n, s.ClassAt d n c := by
  rw [List.mem_map]
  constructor
  · rintro ⟨⟨_, n⟩, he, rfl⟩
    exact ⟨n, (mem_classesMet_iff.1 he).1⟩
  · rintro ⟨n, h⟩
    obtain ⟨m, hm, -⟩ := h.near
    exact ⟨(c, m), hm, rfl⟩

/-! ## Levels of fields -/

/-- The level of a field is that of the first class that is met with it. -/
lemma isLeast_defaultAt_iff : IsLeast {n | s.DefaultAt d n f} n ↔
    (∃ e ∈ s.classesMet d, f ∈ s.primitiveTrees e.1 ∧ e.2 = n) ∧
      ∀ e ∈ s.classesMet d, f ∈ s.primitiveTrees e.1 → n ≤ e.2 := by
  have hmet : ∀ e ∈ s.classesMet d, f ∈ s.primitiveTrees e.1 → s.DefaultAt d e.2 f :=
    fun e he hf => ⟨e.1, (mem_classesMet_iff.1 he).1, hf⟩
  constructor
  · rintro ⟨⟨c, hc, hf⟩, hleast⟩
    obtain ⟨m, hm, hle⟩ := hc.near
    have hnm : n ≤ m := hleast (hmet _ hm hf)
    exact ⟨⟨(c, m), hm, hf, Nat.le_antisymm hle hnm⟩, fun e he hf => hleast (hmet e he hf)⟩
  · rintro ⟨⟨e, he, hf, rfl⟩, hleast⟩
    refine ⟨hmet e he hf, ?_⟩
    rintro k ⟨c, hc, hf⟩
    obtain ⟨m, hm, hle⟩ := hc.near
    exact Nat.le_trans (hleast _ hm hf) hle

lemma mem_defaultFields_iff : f ∈ s.defaultFields d ↔ ∃ n, s.DefaultAt d n f := by
  rw [defaultFields_eq, List.mem_flatMap]
  constructor
  · rintro ⟨e, he, hf⟩
    exact ⟨e.2, e.1, (mem_classesMet_iff.1 he).1, hf⟩
  · rintro ⟨n, c, hc, hf⟩
    obtain ⟨m, hm, -⟩ := hc.near
    exact ⟨(c, m), hm, hf⟩

lemma idxOf_defaultFields_lt (hf : IsLeast {n | s.DefaultAt d n f} m)
    (hg : IsLeast {n | s.DefaultAt d n g} n) (hlt : m < n) :
    (s.defaultFields d).idxOf f < (s.defaultFields d).idxOf g := by
  obtain ⟨e, he, hfe, rfl⟩ := (isLeast_defaultAt_iff.1 hf).1
  rw [defaultFields_eq]
  exact Walk.idxOf_flatMap_lt (s.pairwise_classesMet d) ⟨e, he, hfe, hlt⟩
    (isLeast_defaultAt_iff.1 hg).2

/-! ## How often a field is listed -/

lemma nodup_primitiveTrees (hs : s.Sound) (c : NodeHandle) : (s.primitiveTrees c).Nodup := by
  refine List.Nodup.filter _ (List.Nodup.filter _ ?_)
  by_cases hc : s.isA c .structuredClass = true
  · exact (nodup_map_name_effectiveFields hs hc).of_map
  · rw [effectiveFields_of_not_class hc, ownFields_eq]
    exact hs.nodup c rfl

/-- A field is listed once for each class that supplies it. -/
lemma encard_supplies (hs : s.Sound) (d f : NodeHandle) :
    {c | s.Supplies d c f}.encard = (s.defaultFields d).count f := by
  have hset : {c | s.Supplies d c f} = ↑(((s.classesMet d).map Prod.fst).filter fun c =>
      decide (f ∈ s.primitiveTrees c)).toFinset := by
    ext c
    simp only [Set.mem_ofPred_eq, List.coe_toFinset, List.mem_filter, mem_map_fst_classesMet_iff,
      decide_eq_true_eq, Supplies]
  rw [hset, Set.encard_coe_eq_coe_finsetCard,
    List.toFinset_card_of_nodup ((s.nodup_classesMet d).filter _), defaultFields_eq,
    ← List.flatMap_map Prod.fst, Walk.count_flatMap_of_nodup (nodup_primitiveTrees hs)]

/-- Fields are listed once each where no two classes supply the same one. -/
lemma nodup_defaultFields_iff (hs : s.Sound) : (s.defaultFields d).Nodup ↔
    ∀ f c c', s.Supplies d c f → s.Supplies d c' f → c = c' := by
  rw [List.nodup_iff_count_le_one]
  refine forall_congr' fun f => ?_
  have hone : (s.defaultFields d).count f ≤ 1 ↔ {c | s.Supplies d c f}.encard ≤ 1 := by
    rw [encard_supplies hs, Nat.cast_le_one]
  rw [hone, Set.encard_le_one_iff]
  rfl

/-- Where fields are listed once each, they are listed by their levels. -/
lemma pairwise_defaultFields (hd : (s.defaultFields d).Nodup) :
    (s.defaultFields d).Pairwise fun f g => ∀ m n, IsLeast {n | s.DefaultAt d n f} m →
      IsLeast {n | s.DefaultAt d n g} n → m ≤ n := by
  rw [List.pairwise_iff_getElem]
  intro i j hi hj hij m n hm hn
  by_contra hle
  have hlt := idxOf_defaultFields_lt hn hm (Nat.lt_of_not_le hle)
  rw [hd.idxOf_getElem, hd.idxOf_getElem] at hlt
  exact Nat.lt_asymm hij hlt

/-- A field of a class is its own or that of a superclass. -/
lemma exists_owner (hs : s.Sound) (hf : f ∈ s.effectiveFields c) :
    ∃ p ∈ s.classLine c, f ∈ s.ownFields p := by
  by_cases hc : s.isA c .structuredClass = true
  · exact List.mem_flatMap.1 ((mem_effectiveFields_iff hs hc).1 hf).1.1
  · refine ⟨c, mem_classLine_iff.2 ⟨contains_of_mem_effectiveFields hf, .refl⟩, ?_⟩
    rwa [effectiveFields_of_not_class hc] at hf

/-- What two classes supply is a field of a class from which both inherit. -/
lemma exists_common_superclass (hs : s.Sound) {c' : NodeHandle} (hf : f ∈ s.primitiveTrees c)
    (hf' : f ∈ s.primitiveTrees c') :
    ∃ p, f ∈ s.ownFields p ∧ s.isSubclassOf c p = true ∧ s.isSubclassOf c' p = true := by
  have heffective : ∀ {c}, f ∈ s.primitiveTrees c → f ∈ s.effectiveFields c := fun h =>
    (List.mem_filter.1 (List.mem_filter.1 h).1).1
  obtain ⟨p, hp, hown⟩ := exists_owner hs (heffective hf)
  obtain ⟨p', hp', hown'⟩ := exists_owner hs (heffective hf')
  rw [ownFields_eq] at hown hown'
  obtain rfl := (hs.eq_of_held rfl rfl hown hown').1
  refine ⟨p, ?_, List.contains_iff_mem.2 hp, List.contains_iff_mem.2 hp'⟩
  rwa [ownFields_eq]

/-! ## In a session -/

/-- The default fields of a class are the tree fields with values of all classes that one comes to, class by class,
each class once and in the order of how many transparent classes one comes through.  A field is listed for the
first time before all fields that are farther away.  It is listed as often as there are classes that supply it, so
that fields are listed once each, and then in their order, exactly if no two of these classes have one in common.
If they have, both inherit it from one class, which may be one of them. -/
theorem defaultFields_by_class (steps : List SessionStep) (d : NodeHandle) :
    (∃ met : List (NodeHandle × Nat), (met.map Prod.fst).Nodup ∧
      met.Pairwise (fun a b => a.2 ≤ b.2) ∧
      (∀ c n, (c, n) ∈ met ↔ IsLeast {n | (after steps).ClassAt d n c} n) ∧
      (after steps).defaultFields d = met.flatMap fun e => (after steps).primitiveTrees e.1) ∧
    (∀ f, f ∈ (after steps).defaultFields d ↔ ∃ n, (after steps).DefaultAt d n f) ∧
    (∀ f g m n, IsLeast {n | (after steps).DefaultAt d n f} m →
      IsLeast {n | (after steps).DefaultAt d n g} n → m < n →
      ((after steps).defaultFields d).idxOf f < ((after steps).defaultFields d).idxOf g) ∧
    (∀ f, {c | (after steps).Supplies d c f}.encard = ((after steps).defaultFields d).count f) ∧
    (((after steps).defaultFields d).Nodup ↔
      ∀ f c c', (after steps).Supplies d c f → (after steps).Supplies d c' f → c = c') ∧
    (((after steps).defaultFields d).Nodup →
      ((after steps).defaultFields d).Pairwise fun f g => ∀ m n,
        IsLeast {n | (after steps).DefaultAt d n f} m →
        IsLeast {n | (after steps).DefaultAt d n g} n → m ≤ n) ∧
    ∀ f c c', (after steps).Supplies d c f → (after steps).Supplies d c' f →
      ∃ p, f ∈ (after steps).ownFields p ∧ (after steps).isSubclassOf c p = true ∧
        (after steps).isSubclassOf c' p = true := by
  have hs := sound_after steps
  generalize after steps = s at hs ⊢
  exact ⟨⟨s.classesMet d, s.nodup_classesMet d, s.pairwise_classesMet d,
      fun c n => mem_classesMet_iff, s.defaultFields_eq d⟩,
    fun f => mem_defaultFields_iff, fun f g m n => idxOf_defaultFields_lt,
    fun f => encard_supplies hs d f, nodup_defaultFields_iff hs, pairwise_defaultFields,
    fun f c c' hc hc' => exists_common_superclass hs hc.2 hc'.2⟩

/-- A session in which one class inherits the field of another one, and one comes to both. -/
def sharedFieldSession : List SessionStep :=
  [.operate .createSystemTypesystem,
    .operate (.createOntology "o"),
    .operate (.createClass ⟨6, 1⟩ "start" .any none false true),
    .operate (.createClass ⟨6, 1⟩ "a" .any none true false),
    .operate (.createClass ⟨6, 1⟩ "b" .any (some ⟨9, 1⟩) true false),
    .operate (.createClass ⟨6, 1⟩ "w" .any none true false),
    .operate (.createClass ⟨6, 1⟩ "c" .any none true false),
    .operate (.createClass ⟨6, 1⟩ "v" .any none true false),
    .operate (.createField ⟨7, 1⟩ .tree "" false none),
    .operate (.createField ⟨9, 1⟩ .tree "" false (some ⟨2, 1⟩)),
    .operate (.createField ⟨13, 1⟩ .tree "" false none),
    .operate (.createField ⟨15, 1⟩ .tree "" false (some ⟨2, 1⟩)),
    .operate (.createField ⟨17, 1⟩ .tree "" false none),
    .operate (.addChildClass ⟨19, 1⟩ ⟨11, 1⟩), .operate (.addChildClass ⟨19, 1⟩ ⟨13, 1⟩),
    .operate (.addChildClass ⟨21, 1⟩ ⟨15, 1⟩), .operate (.addChildClass ⟨21, 1⟩ ⟨17, 1⟩),
    .operate (.addChildClass ⟨23, 1⟩ ⟨9, 1⟩)]

/-- The inherited field is listed twice, and the second time it comes after a field that is farther away, although
the ontology is valid. -/
theorem defaultFields_sharedFieldSession :
    ((after sharedFieldSession).isValid ⟨6, 1⟩).1 = true ∧
    (after sharedFieldSession).defaultFields ⟨7, 1⟩ = [⟨20, 1⟩, ⟨22, 1⟩, ⟨20, 1⟩] ∧
    IsLeast {n | (after sharedFieldSession).DefaultAt ⟨7, 1⟩ n ⟨20, 1⟩} 1 ∧
    IsLeast {n | (after sharedFieldSession).DefaultAt ⟨7, 1⟩ n ⟨22, 1⟩} 2 := by
  refine ⟨by decide +kernel, by decide +kernel, isLeast_defaultAt_iff.2 ?_, isLeast_defaultAt_iff.2 ?_⟩
  · decide +kernel
  · decide +kernel

end Store

end Semdoc
