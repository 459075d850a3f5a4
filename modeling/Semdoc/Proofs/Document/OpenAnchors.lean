import Semdoc.Document.Anchors
import Semdoc.Proofs.Document.Order

/-!
# The nearest open anchor

The search for the start of an annotation meets the anchors that can be seen from the end of a field in the
opposite order of that in which they stand.  So the first one that will do is the last one of all.
-/

namespace Semdoc.Store

variable {s : Store} {top entity owner a b c x : NodeHandle} {number outer position depth : Nat}
  {content : List NodeHandle} {v w : List Step}

/-! ## What can be seen -/

/-- Some content exposes the anchors in it, and those that the tree fields of the entities in it expose. -/
inductive Exposes (s : Store) : List NodeHandle → NodeHandle → Prop where
  | anchor {content : List NodeHandle} {a : NodeHandle} (ha : a ∈ content)
      (hk : s.isA a .anchor = true) : Exposes s content a
  | within {content : List NodeHandle} {entity a : NodeHandle} {number : Nat} (he : entity ∈ content)
      (hk : s.isA entity .structuredEntity = true) (hn : s.entityFieldNumber entity "" = .ok number)
      (hs : Exposes s (s.fieldContent entity number) a) : Exposes s content a

/-- A field of an entity is a tree field of its class. -/
def InTreeField (s : Store) (entity : NodeHandle) (number : Nat) : Prop :=
  ∃ e field, s.entity? entity = some e ∧ (s.effectiveFields e.descriptor)[number]? = some field ∧
    s.isTreeField field = true

/-- Through a tree field one sees what is before the entity in the field that it is in, and what can be seen
from there. -/
inductive Outside (s : Store) : NodeHandle → Nat → NodeHandle → Prop where
  | before {entity owner a : NodeHandle} {number outer position : Nat}
      (ht : s.InTreeField entity number)
      (he : (s.fieldContent owner outer)[position]? = some entity)
      (hs : s.Exposes ((s.fieldContent owner outer).take position) a) : Outside s entity number a
  | beyond {entity owner a : NodeHandle} {number outer position : Nat}
      (ht : s.InTreeField entity number)
      (he : (s.fieldContent owner outer)[position]? = some entity)
      (ho : Outside s owner outer a) : Outside s entity number a

/-- The anchors that can be seen from the end of a field. -/
def InSight (s : Store) (entity : NodeHandle) (number : Nat) (a : NodeHandle) : Prop :=
  s.Exposes (s.fieldContent entity number) a ∨ s.Outside entity number a

/-- An anchor belongs to nothing, or starts an annotation without end that is of a class and has a name, if
these are given. -/
def OpenStart (s : Store) (descriptor : Option NodeHandle) (name : String) (a : NodeHandle) : Prop :=
  s.anchorAnnotation? a = none ∨
    ∃ h mark, s.anchorAnnotation? a = some h ∧ s.annotation? h = some mark ∧ mark.start = some a ∧
      mark.stop = none ∧ (name = "" ∨ s.name h = name) ∧
        ∀ class', descriptor = some class' → mark.entity.descriptor = class'

lemma isOpenStart_iff {descriptor : Option NodeHandle} {name : String} :
    s.isOpenStart descriptor name a = true ↔ s.OpenStart descriptor name a := by
  unfold isOpenStart OpenStart
  cases s.anchorAnnotation? a with
  | none => simp
  | some h =>
    cases hm : s.annotation? h with
    | none => simp [hm]
    | some mark => cases descriptor <;> simp [hm, and_assoc]

/-! ## Looking backwards -/

lemma not_isA_anchor (hc : s.isA c .structuredEntity = true) : s.isA c .anchor = false := by
  rw [isA_eq] at hc ⊢
  cases hd : s.content? c with
  | none => rfl
  | some d =>
    rw [hd] at hc
    have htag : d.tag = .structuredEntity := (TypeTag.isA_iff_eq (by decide)).1 hc
    show d.tag.isA .anchor = false
    rw [htag]
    decide +kernel

/-- What some content exposes is below the node whose content it is, past one of the nodes in it. -/
lemma Exposes.exists_way (h : s.Exposes content a) (hc : content <+: s.fieldContent c number) :
    ∃ i v, i < content.length ∧ s.Way c (⟨number, i⟩ :: v) a := by
  induction h generalizing c number with
  | anchor ha _ =>
    obtain ⟨i, hi, rfl⟩ := List.mem_iff_getElem.1 ha
    exact ⟨i, [], hi, .down (List.prefix_iff_getElem?.1 hc i hi) (.here _)⟩
  | within he _ _ _ ih =>
    obtain ⟨i, hi, rfl⟩ := List.mem_iff_getElem.1 he
    obtain ⟨j, v, -, hv⟩ := ih (List.prefix_refl _)
    exact ⟨i, _, hi, .down (List.prefix_iff_getElem?.1 hc i hi) hv⟩

/-- What one node of some content adds to what is seen in it, the last first. -/
def anchorsIn (s : Store) (depth : Nat) (c : NodeHandle) : List NodeHandle :=
  if s.isA c .anchor then [c]
  else if s.isA c .structuredEntity then
    match s.entityFieldNumber c "" with
    | .ok number => s.anchorsBackwards depth (s.fieldContent c number)
    | .error _ => []
  else []

lemma anchorsBackwards_succ (s : Store) (depth : Nat) (content : List NodeHandle) :
    s.anchorsBackwards (depth + 1) content = content.reverse.flatMap (s.anchorsIn depth) := rfl

/-- One node exposes itself or what is in its tree field. -/
lemma mem_anchorsIn_iff (hin : ∀ number, s.entityFieldNumber c "" = .ok number →
      ∀ a, a ∈ s.anchorsBackwards depth (s.fieldContent c number) ↔
        s.Exposes (s.fieldContent c number) a) :
    a ∈ s.anchorsIn depth c ↔ s.Exposes [c] a := by
  unfold anchorsIn
  constructor
  · intro ha
    split at ha
    · next hk =>
      obtain rfl := List.mem_singleton.1 ha
      exact .anchor (List.mem_singleton_self a) hk
    · split at ha
      · next hk =>
        split at ha
        · next number hn => exact .within (List.mem_singleton_self c) hk hn ((hin number hn a).1 ha)
        · cases ha
      · cases ha
  · intro h
    cases h with
    | anchor ha hk =>
      obtain rfl := List.mem_singleton.1 ha
      rw [if_pos hk]
      exact ha
    | within he hk hn hs =>
      obtain rfl := List.mem_singleton.1 he
      rw [not_isA_anchor hk, if_neg Bool.false_ne_true, if_pos hk, hn]
      exact (hin _ hn a).2 hs

lemma exposes_iff : s.Exposes content a ↔ ∃ c ∈ content, s.Exposes [c] a := by
  constructor
  · intro h
    cases h with
    | anchor ha hk => exact ⟨a, ha, .anchor (List.mem_singleton_self a) hk⟩
    | within he hk hn hs => exact ⟨_, he, .within (List.mem_singleton_self _) hk hn hs⟩
  · rintro ⟨c, hc, h⟩
    cases h with
    | anchor ha hk => exact .anchor (List.mem_singleton.1 ha ▸ hc) hk
    | within he hk hn hs => exact .within (List.mem_singleton.1 he ▸ hc) hk hn hs

/-- What a node exposes is not above it. -/
lemma Exposes.exists_way_self (h : s.Exposes [c] a) : ∃ v, s.Way c v a := by
  cases h with
  | anchor ha _ =>
    obtain rfl := List.mem_singleton.1 ha
    exact ⟨[], .here a⟩
  | within he _ _ hs =>
    obtain rfl := List.mem_singleton.1 he
    obtain ⟨i, v, -, hv⟩ := hs.exists_way (List.prefix_refl _)
    exact ⟨_, hv⟩

section Sound

variable (hs : s.Sound)
include hs

/-- Looking backwards one meets the anchors that are exposed, those that come later first. -/
lemma Sound.anchorsBackwards_spec (hc : content <+: s.fieldContent c number) (hw : s.Way top w c)
    (hdepth : s.bound ≤ w.length + depth) :
    (∀ a, a ∈ s.anchorsBackwards depth content ↔ s.Exposes content a) ∧
      (s.anchorsBackwards depth content).Pairwise fun a b => s.Precedes b a := by
  induction depth generalizing content c number w with
  | zero => exact absurd (hs.length_way_lt hw) (Nat.not_lt_of_le hdepth)
  | succ depth ih =>
    have hchild : ∀ {i : Nat} {c' : NodeHandle}, content[i]? = some c' → ∀ n,
        (∀ a, a ∈ s.anchorsBackwards depth (s.fieldContent c' n) ↔
          s.Exposes (s.fieldContent c' n) a) ∧
        (s.anchorsBackwards depth (s.fieldContent c' n)).Pairwise fun a b => s.Precedes b a := by
      intro i c' hi n
      obtain ⟨hlt, rfl⟩ := List.getElem?_eq_some_iff.1 hi
      refine ih (List.prefix_refl _) (hw.snoc (List.prefix_iff_getElem?.1 hc i hlt)) ?_
      rw [List.length_append, List.length_singleton]
      omega
    have hmem : ∀ {i : Nat} {c' : NodeHandle}, content[i]? = some c' → ∀ a,
        a ∈ s.anchorsIn depth c' ↔ s.Exposes [c'] a :=
      fun hi a => mem_anchorsIn_iff fun n _ => (hchild hi n).1
    rw [anchorsBackwards_succ]
    refine ⟨fun a => ?_, List.pairwise_flatMap.2 ⟨fun c' hc' => ?_, List.pairwise_reverse.2
      (List.pairwise_iff_getElem.2 fun i j hi hj hij a ha b hb => ?_)⟩⟩
    · rw [exposes_iff, List.mem_flatMap]
      refine exists_congr fun c' => ?_
      rw [List.mem_reverse]
      refine and_congr_right fun hc' => ?_
      obtain ⟨i, hi⟩ := List.mem_iff_getElem?.1 hc'
      exact hmem hi a
    · obtain ⟨i, hi⟩ := List.mem_iff_getElem?.1 (List.mem_reverse.1 hc')
      unfold anchorsIn
      split
      · exact List.pairwise_singleton _ _
      · split
        · split
          · next n _ => exact (hchild hi n).2
          · exact .nil
        · exact .nil
    · obtain ⟨v, hv⟩ := ((hmem (List.getElem?_eq_getElem hj) a).1 ha).exists_way_self
      obtain ⟨v', hv'⟩ := ((hmem (List.getElem?_eq_getElem hi) b).1 hb).exists_way_self
      exact ⟨c, ⟨number, i⟩ :: v', ⟨number, j⟩ :: v, .down (List.prefix_iff_getElem?.1 hc i hi) hv',
        .down (List.prefix_iff_getElem?.1 hc j hj) hv,
        Place.compareWays_cons_of_lt (Step.compareSteps_of_position number hij) v' v⟩

/-! ## Looking outwards -/

omit hs in
/-- What can be seen outside of an entity comes before everything that is below it. -/
lemma Outside.precedes (h : s.Outside entity number a) (hx : s.Way entity v x) : s.Precedes a x := by
  induction h generalizing v with
  | @before entity owner a number outer position _ he hshow =>
    obtain ⟨i, w, hi, hw⟩ := hshow.exists_way (List.take_prefix _ _)
    have hlt := Nat.lt_of_lt_of_le hi (List.length_take_le _ _)
    exact ⟨owner, ⟨outer, i⟩ :: w, ⟨outer, position⟩ :: v, hw, .down he hx,
      Place.compareWays_cons_of_lt (Step.compareSteps_of_position outer hlt) w v⟩
  | beyond _ he _ ih => exact ih (.down he hx)

omit hs in
lemma inTreeField_iff : (((s.entity? entity).bind fun e =>
    (s.effectiveFields e.descriptor)[number]?).map s.isTreeField).getD false = true ↔
      s.InTreeField entity number := by
  unfold InTreeField
  cases s.entity? entity with
  | none => simp
  | some e => cases hf : (s.effectiveFields e.descriptor)[number]? <;> simp [hf]

lemma Sound.anchorsOutside_succ (ht : s.InTreeField entity number)
    (he : (s.fieldContent owner outer)[position]? = some entity) :
    s.anchorsOutside (depth + 1) entity number =
      s.anchorsBackwards s.bound ((s.fieldContent owner outer).take position) ++
        s.anchorsOutside depth owner outer := by
  rw [anchorsOutside, if_pos (inTreeField_iff.2 ht), hs.home_of_fieldContent (List.mem_of_getElem? he)]
  simp only [hs.findIdx?_fieldContent he]

omit hs in
lemma anchorsOutside_eq_nil (h : ¬ (s.InTreeField entity number ∧
    ∃ owner outer, entity ∈ s.fieldContent owner outer)) :
    s.anchorsOutside (depth + 1) entity number = [] := by
  by_cases ht : s.InTreeField entity number
  · rw [anchorsOutside, if_pos (inTreeField_iff.2 ht)]
    split
    · next owner outer _ =>
      dsimp only
      split
      · next position hp =>
        obtain ⟨hlt, he, -⟩ := List.findIdx?_eq_some_iff_getElem.1 hp
        exact absurd ⟨ht, owner, outer, beq_iff_eq.1 he ▸ List.getElem_mem hlt⟩ h
      · rfl
    · rfl
  · rw [anchorsOutside, if_neg (mt inTreeField_iff.1 ht)]

/-- Looking outwards one meets the anchors that can be seen there, those that come later first.  The way is
one from the entity down, so that it gets longer with every step outwards. -/
lemma Sound.anchorsOutside_spec (number : Nat) (hw : s.Way entity w x)
    (hdepth : s.bound ≤ w.length + depth) :
    (∀ a, a ∈ s.anchorsOutside depth entity number ↔ s.Outside entity number a) ∧
      (s.anchorsOutside depth entity number).Pairwise fun a b => s.Precedes b a := by
  induction depth generalizing entity number w with
  | zero => exact absurd (hs.length_way_lt hw) (Nat.not_lt_of_le hdepth)
  | succ depth ih =>
    by_cases h : s.InTreeField entity number ∧ ∃ owner outer, entity ∈ s.fieldContent owner outer
    · obtain ⟨ht, owner, outer, hmem⟩ := h
      obtain ⟨position, he⟩ := List.mem_iff_getElem?.1 hmem
      obtain ⟨hback, hbackPair⟩ := hs.anchorsBackwards_spec (List.take_prefix position _) (.here owner)
        (Nat.le_add_left s.bound _)
      obtain ⟨hout, houtPair⟩ := ih outer (.down he hw) (by rw [List.length_cons]; omega)
      rw [hs.anchorsOutside_succ ht he]
      refine ⟨fun a => ?_, List.pairwise_append.2 ⟨hbackPair, houtPair, fun x hx y hy => ?_⟩⟩
      · rw [List.mem_append, hback, hout]
        constructor
        · rintro (ha | ha)
          · exact .before ht he ha
          · exact .beyond ht he ha
        · intro ha
          cases ha with
          | before _ he' ha =>
            obtain ⟨rfl, rfl, rfl⟩ := hs.eq_of_getElem? he he'
            exact .inl ha
          | beyond _ he' ha =>
            obtain ⟨rfl, rfl, -⟩ := hs.eq_of_getElem? he he'
            exact .inr ha
      · obtain ⟨i, v, -, hv⟩ := ((hback x).1 hx).exists_way (List.take_prefix _ _)
        exact ((hout y).1 hy).precedes hv
    · rw [anchorsOutside_eq_nil h]
      refine ⟨fun a => ⟨fun ha => (by cases ha), fun ha => absurd ?_ h⟩, .nil⟩
      cases ha with
      | before ht he _ => exact ⟨ht, _, _, List.mem_of_getElem? he⟩
      | beyond ht he _ => exact ⟨ht, _, _, List.mem_of_getElem? he⟩

/-- The anchors that can be seen are listed in the opposite order of that in which they stand. -/
lemma Sound.visibleAnchors_spec (entity : NodeHandle) (number : Nat) :
    (∀ a, a ∈ s.visibleAnchors entity number ↔ s.InSight entity number a) ∧
      (s.visibleAnchors entity number).Pairwise fun a b => s.Precedes b a := by
  obtain ⟨hin, hinPair⟩ := hs.anchorsBackwards_spec (List.prefix_refl (s.fieldContent entity number))
    (.here entity) (Nat.le_add_left s.bound _)
  obtain ⟨hout, houtPair⟩ := hs.anchorsOutside_spec number (.here entity)
    (Nat.le_add_left s.bound _)
  refine ⟨fun a => ?_, List.pairwise_append.2 ⟨hinPair, houtPair, fun x hx y hy => ?_⟩⟩
  · rw [visibleAnchors, List.mem_append, hin, hout]
    rfl
  · obtain ⟨i, v, -, hv⟩ := ((hin x).1 hx).exists_way (List.prefix_refl _)
    exact ((hout y).1 hy).precedes hv

/-- What has the root of a document above it has it above its owner too. -/
lemma Sound.reaches_owner {d root : NodeHandle} (hroot : s.home? root = some ⟨d, .documentRoot⟩)
    (hh : s.Reaches root entity) (he : (s.fieldContent owner outer)[position]? = some entity) :
    s.Reaches root owner := by
  obtain ⟨w, hw⟩ := hh
  rcases hw.cases_tail with ⟨-, rfl⟩ | ⟨k, f, i, v, -, hv, hk⟩
  · rw [hs.home_of_fieldContent (List.mem_of_getElem? he)] at hroot
    cases hroot
  · obtain ⟨rfl, -, -⟩ := hs.eq_of_getElem? hk he
    exact ⟨v, hv⟩

omit hs in
lemma Exposes.reaches {root : NodeHandle} (h : s.Exposes content a)
    (hc : content <+: s.fieldContent c number) (hh : s.Reaches root c) : s.Reaches root a := by
  obtain ⟨i, v, -, hv⟩ := h.exists_way hc
  obtain ⟨w, hw⟩ := hh
  exact ⟨_, hw.append hv⟩

/-- What can be seen in a document is in the document. -/
lemma Sound.reaches_of_inSight {d root : NodeHandle} (hroot : s.home? root = some ⟨d, .documentRoot⟩)
    (hh : s.Reaches root entity) (ha : s.InSight entity number a) : s.Reaches root a := by
  rcases ha with ha | ha
  · exact ha.reaches (List.prefix_refl _) hh
  · induction ha with
    | before _ he hshow => exact hshow.reaches (List.take_prefix _ _) (hs.reaches_owner hroot hh he)
    | beyond _ he _ ih => exact ih (hs.reaches_owner hroot hh he)

end Sound

/-! ## The search -/

/-- In a list with the last first, what is found first is the last. -/
lemma find?_eq_some_iff_of_pairwise {α : Type} {R : α → α → Prop} (hR : ∀ a b, R a b → ¬ R b a)
    {l : List α} (hl : l.Pairwise fun a b => R b a) {p : α → Bool} {a : α} :
    l.find? p = some a ↔ a ∈ l ∧ p a = true ∧ ∀ b ∈ l, p b = true → b = a ∨ R b a := by
  have hfirst : ∀ {a}, l.find? p = some a → ∀ b ∈ l, p b = true → b = a ∨ R b a := by
    intro a ha b hb hpb
    obtain ⟨-, before, after, rfl, hbefore⟩ := List.find?_eq_some_iff_append.1 ha
    rcases List.mem_append.1 hb with hb | hb
    · have := hbefore b hb
      rw [hpb] at this
      cases this
    · rcases List.mem_cons.1 hb with rfl | hb
      · exact .inl rfl
      · exact .inr ((List.pairwise_cons.1 (List.pairwise_append.1 hl).2.1).1 b hb)
  constructor
  · intro ha
    exact ⟨List.mem_of_find?_eq_some ha, List.find?_some ha, hfirst ha⟩
  · rintro ⟨ha, hpa, hlast⟩
    cases hfind : l.find? p with
    | none => exact absurd hpa (List.find?_eq_none.1 hfind a ha)
    | some b =>
      have hb := hlast b (List.mem_of_find?_eq_some hfind) (List.find?_some hfind)
      rcases hfirst hfind a ha hpa with rfl | hab
      · rfl
      · rcases hb with rfl | hba
        · rfl
        · exact absurd hba (hR a b hab)

/-- After any session, the search for the start of an annotation that ends in a field finds the last one of
the anchors that can be seen from the end of the field and are open for it, and nothing if there is none.  In
a document, that is the last one in the order of the document. -/
theorem searchStartAnchor_finds_last (steps : List SessionStep) (entity : NodeHandle) (number : Nat)
    (descriptor : Option NodeHandle) (name : String) :
    (∀ a, (after steps).searchStartAnchor entity number descriptor name = some a ↔
      (after steps).InSight entity number a ∧ (after steps).OpenStart descriptor name a ∧
        ∀ b, (after steps).InSight entity number b → (after steps).OpenStart descriptor name b →
          b = a ∨ (after steps).Precedes b a) ∧
    ((after steps).searchStartAnchor entity number descriptor name = none ↔
      ∀ a, (after steps).InSight entity number a → ¬ (after steps).OpenStart descriptor name a) ∧
    (∀ d root, TreeOf steps d root → (after steps).Reaches root entity →
      ∀ a b, (after steps).InSight entity number a → (after steps).InSight entity number b →
        ((after steps).Precedes a b ↔ (after steps).compareInDocument a b = some .lt)) := by
  have hs := sound_after steps
  obtain ⟨hmem, hpair⟩ := hs.visibleAnchors_spec entity number
  refine ⟨fun a => ?_, ?_, fun d root ht hh a b ha hb => ?_⟩
  · rw [searchStartAnchor, find?_eq_some_iff_of_pairwise (fun _ _ => hs.precedes_asymm) hpair, hmem,
      isOpenStart_iff]
    refine and_congr_right fun _ => and_congr_right fun _ => forall_congr' fun b => ?_
    rw [hmem, isOpenStart_iff]
  · rw [searchStartAnchor, List.find?_eq_none]
    refine forall_congr' fun a => ?_
    rw [hmem, isOpenStart_iff]
  · have hroot := treeOf_iff.1 ht
    exact (ht.compareInDocument_eq_lt_iff (hs.reaches_of_inSight hroot hh ha)
      (hs.reaches_of_inSight hroot hh hb)).symm

end Semdoc.Store
