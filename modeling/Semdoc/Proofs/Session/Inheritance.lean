import Mathlib.Tactic.IntervalCases
import Semdoc.Proofs.Session.Superclasses

/-!
# Inheritance between classes

The superclasses that classes name and the subclasses that classes list are one relation, and the attributes of a
class inherit from those of its superclass.
-/

namespace Semdoc

namespace Store

open Edit

variable {s t : Store}

/-! ## The invariant -/

/-- Classes and their attributes inherit as the superclasses say. -/
structure Lineal (s : Store) : Prop where
  named : ∀ {c p : NodeHandle}, s.superclass? c = some p → s.isA p .structuredClass = true
  listed : ∀ c p, (s.subclasses p).count c = if s.superclass? c = some p then 1 else 0
  inherits : ∀ {c a : NodeHandle}, s.isA c .structuredClass = true → s.attributesOf? c = some a →
    s.structParent? a = (s.superclass? c).bind s.attributesOf?

/-- The classes of ontologies have attributes. -/
def Equipped (s : Store) : Prop :=
  ∀ o c, c ∈ s.held o .ontologyClasses → ∃ a, s.attributesOf? c = some a

lemma lineal_empty : Lineal {} := by
  have hnone : ∀ k, superclass? {} k = none := by
    intro k
    rw [superclass?_eq, content?, get?_empty]
    rfl
  refine ⟨fun hp => ?_, fun c p => ?_, fun {c a} hc => ?_⟩
  · rw [hnone] at hp
    cases hp
  · rw [hnone, subclasses_eq, held, get?_empty]
    rfl
  · rw [isA, get?_empty] at hc
    cases hc

lemma equipped_empty : Equipped {} := by
  intro o c hc
  rw [held, get?_empty] at hc
  cases hc

/-- What is done within a scope without attributes and subclasses leaves classes as they are related. -/
lemma Lineal.within (hl : s.Lineal) (hcl : s.Closed) {slots : Slot → Prop}
    (h : Within (kinScope slots) s t) (hsub : ¬ slots .classSubclasses)
    (hattr : ¬ slots .descriptorAttributes) : t.Lineal := by
  have hattrs : ∀ k, t.attributesOf? k = s.attributesOf? k :=
    fun k => attributesOf?_congr (h.held hattr k)
  refine ⟨fun {c p} hp => ?_, fun c p => ?_, fun {c a} hc ha => ?_⟩
  · rw [h.superclass?] at hp
    have hclass := hl.named hp
    rwa [h.isA (contains_of_isA hclass)]
  · rw [h.superclass?, ← hl.listed, subclasses_eq, h.held hsub, subclasses_eq]
  · rw [hattrs] at ha
    have hm := mem_held_of_attributesOf? ha
    rw [h.isA (contains_of_mem_held hm)] at hc
    rw [h.structParent? (hcl.of_held hm), hl.inherits hc ha, h.superclass?]
    congr 1
    exact (funext hattrs).symm

lemma Equipped.of_held (he : s.Equipped)
    (hclasses : ∀ o, t.held o .ontologyClasses = s.held o .ontologyClasses)
    (hattr : ∀ k, t.held k .descriptorAttributes = s.held k .descriptorAttributes) : t.Equipped := by
  intro o c hc
  rw [hclasses] at hc
  rw [attributesOf?_congr (hattr c)]
  exact he o c hc

/-- A class without superclass, of which nothing is a subclass, gets its attributes. -/
lemma Lineal.equip (hl : s.Lineal) (hs : s.Sound) (hcl : s.Closed) {h : NodeHandle}
    (ha : s.Accepts h .descriptorAttributes) (hsup : s.superclass? h = none)
    (hsub : ∀ c, s.superclass? c ≠ some h) :
    (s.grown h .descriptorAttributes "" (.type (.struct none))).Lineal := by
  have hw : Within (kinScope (· = .descriptorAttributes)) s
      (s.grown h .descriptorAttributes "" (.type (.struct none))) := by
    have hadds : (kinScope (· = .descriptorAttributes)).adds (.type (.struct none)) := rfl
    have hc := Within.createIn hs h rfl "" hadds
    rwa [Edit.createIn_of_accepts hs rfl ha] at hc
  have hattr := attributesOf?_grown hs ha "" (.type (.struct none))
  refine ⟨fun {c p} hp => ?_, fun c p => ?_, fun {c a} hc hca => ?_⟩
  · rw [hw.superclass?] at hp
    have hclass := hl.named hp
    rwa [hw.isA (contains_of_isA hclass)]
  · rw [hw.superclass?, ← hl.listed, subclasses_eq, hw.held (by simp [kinScope]), subclasses_eq]
  · rw [hattr] at hca
    split at hca
    · next e =>
      -- the new attributes inherit from nothing, as the class has no superclass
      cases hca
      rw [hw.superclass?, e, hsup, structParent?_eq, content?_grown hs.intact, if_pos rfl]
      rfl
    · have hm := mem_held_of_attributesOf? hca
      rw [hw.isA (contains_of_mem_held hm)] at hc
      rw [hw.structParent? (hcl.of_held hm), hl.inherits hc hca, hw.superclass?]
      cases hp : s.superclass? c with
      | none => rfl
      | some p =>
        have hne : p ≠ h := by
          rintro rfl
          exact hsub c hp
        rw [Option.bind_some, Option.bind_some, hattr, if_neg hne]

/-! ## Operations -/

/-- What is done elsewhere leaves classes as they are related, and with their attributes. -/
lemma lineal_equipped_within (hl : s.Lineal) (he : s.Equipped) (hcl : s.Closed)
    (h : Within sparingKin s t) : t.Lineal ∧ t.Equipped :=
  ⟨hl.within hcl h nofun nofun, he.of_held (h.held nofun) (h.held nofun)⟩

/-- A class with another superclass is listed there and nowhere else, and its attributes follow. -/
lemma Lineal.reclass (hl : s.Lineal) (hs : s.Sound) {h : NodeHandle} {superclass : Option NodeHandle}
    (hr : Reclassed s t h superclass)
    (hsup : ∀ sup, superclass = some sup → s.isA sup .structuredClass = true) : t.Lineal := by
  have hattr : t.attributesOf? = s.attributesOf? :=
    funext fun k => attributesOf?_congr (hr.held (by decide) k)
  refine ⟨fun {c p} hp => ?_, fun c p => ?_, fun {c a} hc ha => ?_⟩
  · rw [hr.superclass?] at hp
    rw [hr.isA]
    split at hp
    · exact hsup p hp
    · exact hl.named hp
  · exact Enlisted.reclass hl.listed hr c p
  · rw [hr.isA] at hc
    rw [hattr] at ha ⊢
    rw [hr.structParent?, hr.superclass?]
    by_cases hah : s.attributesOf? h = some a
    · obtain ⟨rfl, -⟩ := hs.eq_of_held rfl rfl (mem_held_of_attributesOf? hah)
        (mem_held_of_attributesOf? ha)
      rw [if_pos hah, if_pos rfl]
    · have hch : c ≠ h := by
        rintro rfl
        exact hah ha
      rw [if_neg hah, if_neg hch]
      exact hl.inherits hc ha

lemma lineal_setSuperclass (hl : s.Lineal) (he : s.Equipped) (hs : s.Sound) (ho : s.Sorted)
    (h : NodeHandle) (superclass : Option NodeHandle) :
    ((setSuperclass h superclass).apply s).2.Lineal ∧
      ((setSuperclass h superclass).apply s).2.Equipped := by
  rcases setSuperclass_cases h superclass s with ⟨fault, e⟩ | ⟨c, hc, hsup, e⟩
  · rw [e]
    exact ⟨hl, he⟩
  · rw [e]
    split
    · exact ⟨hl, he⟩
    · obtain ⟨t, e', hr⟩ := changeSuperclass_reclasses hs ho hc hsup
      rw [e']
      exact ⟨hl.reclass hs hr hsup, he.of_held (hr.held (by decide)) (hr.held (by decide))⟩

/-- A struct type that is not for the attributes of a class gets another parent. -/
lemma lineal_setStructParent (hl : s.Lineal) (he : s.Equipped) (hcl : s.Closed) {type : NodeHandle}
    (parent : Option NodeHandle)
    (hno : ∀ c, s.isA c .structuredClass = true → s.attributesOf? c ≠ some type) :
    ((setStructParent type parent).apply s).2.Lineal ∧
      ((setStructParent type parent).apply s).2.Equipped := by
  by_cases hc : ∃ p, s.content? type = some (.type (.struct p))
  · obtain ⟨p, hc⟩ := hc
    obtain ⟨t, e, hct, hht⟩ := setStructParent_views hc parent
    rw [e]
    have hsup : ∀ k, t.superclass? k = s.superclass? k := by
      intro k
      rw [superclass?_eq, hct, superclass?_eq]
      split
      · next hk => rw [hk, hc]; rfl
      · rfl
    have hisA : ∀ k tag, t.isA k tag = s.isA k tag := by
      intro k tag
      rw [isA_eq, hct, isA_eq]
      split
      · next hk => rw [hk, hc]; rfl
      · rfl
    have hattr : t.attributesOf? = s.attributesOf? := funext fun k => attributesOf?_congr (hht k _)
    refine ⟨⟨fun {k p} hp => ?_, fun k p => ?_, fun {k a} hk ha => ?_⟩,
      he.of_held (fun o => hht o _) fun k => hht k _⟩
    · rw [hsup] at hp
      rw [hisA]
      exact hl.named hp
    · rw [hsup, ← hl.listed, subclasses_eq, hht, subclasses_eq]
    · rw [hisA] at hk
      rw [hattr] at ha ⊢
      have hne : a ≠ type := by
        rintro rfl
        exact hno k hk ha
      rw [structParent?_eq, hct, if_neg hne, ← structParent?_eq, hsup]
      exact hl.inherits hk ha
  · have e : ((setStructParent type parent).apply s).2 = s.invalidate type := by
      rw [setStructParent, revise_apply, (SameContents.invalidate s type).content?]
      split
      · next d hd =>
        obtain ⟨c, hc', hcd⟩ := Option.bind_eq_some_iff.1 hd
        split at hcd
        · exact (hc ⟨_, hc'⟩).elim
        · cases hcd
      · rfl
    rw [e]
    exact lineal_equipped_within hl he hcl (.invalidate s type)

/-- A class is created with attributes that inherit from nothing. -/
lemma lineal_grown (hl : s.Lineal) (he : s.Equipped) (hs : s.Sound) (hcl : s.Closed) {o : NodeHandle}
    {slot : Slot} (ha : s.Accepts o slot) (hcomp : slot.isComposition = true)
    (hslot : slot ≠ .descriptorAttributes) (name : String) (content : Content)
    (hends : content.endpoints = []) (hkind : content.tag.isA slot.kind = true)
    (hsingle : content.singleSlot? = some .descriptorAttributes)
    (hsup : content.superclass? = none) :
    ((s.grown o slot name content).grown s.nextHandle .descriptorAttributes ""
      (.type (.struct none))).Lineal ∧
    ((s.grown o slot name content).grown s.nextHandle .descriptorAttributes ""
      (.type (.struct none))).Equipped := by
  have hnew := content?_grown hs.intact o slot name content s.nextHandle
  rw [if_pos rfl] at hnew
  have hacc := accepts_descriptorAttributes hnew hsingle
  have hgrown := hs.grown hcomp ha name content
  have hw : Within (kinScope (· = slot)) s (s.grown o slot name content) := by
    have hc := Within.createIn (S := kinScope (· = slot)) hs o rfl name hsup
    rwa [createIn_of_accepts hs hcomp ha] at hc
  have hcl' : (s.grown o slot name content).Closed := by
    have hmakes : (createIn o slot name content).Makes := makes_createIn hends hkind
    have hch := hmakes s hs
    rw [createIn_of_accepts hs hcomp ha] at hch
    exact (hch.keep (fun _ _ hs hc h => hc.change hs h) hs hcl).2
  have hl' := hl.within hcl hw (by rintro rfl; cases hcomp) (Ne.symm hslot)
  refine ⟨hl'.equip hgrown hcl' hacc ?_ fun c hc => ?_, fun p c hc => ?_⟩
  · rw [superclass?_eq, hnew]
    exact hsup
  · rw [hw.superclass?] at hc
    exact ne_nextHandle hs.intact (contains_of_isA (hl.named hc)) rfl
  · rw [attributesOf?_grown hgrown hacc]
    split
    · exact ⟨_, rfl⟩
    · next hne =>
      -- any other class was there before
      rw [held_grown hgrown hacc rfl, if_neg (fun e => by cases e.2), held_grown hs ha hcomp] at hc
      have hc' : c ∈ s.held p .ontologyClasses := by
        split at hc
        · next e =>
          obtain ⟨rfl, rfl⟩ := e
          rw [if_neg (by decide)] at hc
          rcases List.mem_append.1 hc with hc | hc
          · exact hc
          · exact (hne (List.mem_singleton.1 hc)).elim
        · exact hc
      rw [attributesOf?_congr (hw.held (Ne.symm hslot) c)]
      exact he p c hc'

/-- The rest of the creation of a structured class. -/
lemma lineal_createClass (hl : s.Lineal) (he : s.Equipped) (hs : s.Sound) (ho : s.Sorted)
    (hcl : s.Closed) (o : NodeHandle) (name : String) (cardinality : RangeSet)
    (superclass : Option NodeHandle) (transparent root : Bool) :
    ((createClass o name cardinality superclass transparent root).apply s).2.Lineal ∧
      ((createClass o name cardinality superclass transparent root).apply s).2.Equipped := by
  have hmakes : (createIn o .ontologyClasses name
      (.structuredClass { cardinality, transparent, root })).Makes :=
    makes_createIn rfl (TypeTag.isA_self _)
  have hch := hmakes s hs
  unfold createClass
  rw [apply_bind]
  rcases createIn_cases hs o .ontologyClasses rfl name
    (.structuredClass { cardinality, transparent, root }) with ⟨ha, e⟩ | ⟨-, x, e⟩
  · rw [e] at hch ⊢
    dsimp only at hch ⊢
    have hnew := content?_grown hs.intact o .ontologyClasses name
      (.structuredClass { cardinality, transparent, root }) s.nextHandle
    rw [if_pos rfl] at hnew
    have hmakes' := makes_createAttributes s.nextHandle _ (hs.changes hch)
    have happly := createAttributes_apply (hs.changes hch) hnew rfl
    obtain ⟨hl', he'⟩ := lineal_grown hl he hs hcl ha rfl (by decide) name
      (.structuredClass { cardinality, transparent, root }) rfl (TypeTag.isA_self _) rfl rfl
    rw [happly] at hmakes'
    rw [apply_bind_of_ok happly]
    split
    · rw [snd_apply_bind_pure]
      exact lineal_setSuperclass hl' he' (hs.changes (hch.trans hmakes'))
        (ho.changes hs (hch.trans hmakes')) s.nextHandle superclass
    · exact ⟨hl', he'⟩
  · rw [e]
    exact lineal_equipped_within hl he hcl (.create hs.intact name rfl)

lemma lineal_createAnnotationClass (hl : s.Lineal) (he : s.Equipped) (hs : s.Sound)
    (hcl : s.Closed) (o : NodeHandle) (name : String) :
    ((createAnnotationClass o name).apply s).2.Lineal ∧
      ((createAnnotationClass o name).apply s).2.Equipped := by
  unfold createAnnotationClass
  rw [apply_bind]
  rcases createIn_cases hs o .ontologyAnnotationClasses rfl name (.annotationClass {}) with
    ⟨ha, e⟩ | ⟨-, x, e⟩
  · rw [e]
    dsimp only
    have hnew := content?_grown hs.intact o .ontologyAnnotationClasses name (.annotationClass {})
      s.nextHandle
    rw [if_pos rfl] at hnew
    rw [apply_bind_of_ok (createAttributes_apply (hs.grown rfl ha _ _) hnew rfl)]
    exact lineal_grown hl he hs hcl ha rfl (by decide) name _ rfl (TypeTag.isA_self _) rfl rfl
  · rw [e]
    exact lineal_equipped_within hl he hcl (.create hs.intact name rfl)

/-- No struct type for the attributes of a structured class gets another parent but with its class. -/
def LeavesAttributes (steps : List SessionStep) : Prop :=
  ∀ before type parent since, steps = before ++ .operate (.setStructParent type parent) :: since →
    ∀ c, (after before).isA c .structuredClass = true → (after before).attributesOf? c ≠ some type

/-- Every operation leaves classes related as their superclasses say. -/
lemma lineal_operation (hl : s.Lineal) (he : s.Equipped) (hs : s.Sound) (ho : s.Sorted)
    (hcl : s.Closed) (op : Operation)
    (hop : ∀ type parent, op = .setStructParent type parent →
      ∀ c, s.isA c .structuredClass = true → s.attributesOf? c ≠ some type) :
    (op.run s).Lineal ∧ (op.run s).Equipped := by
  cases hkin : op.sparesKin with
  | true => exact lineal_equipped_within hl he hcl (Operation.within_sparingKin hs ho hkin)
  | false =>
    cases op with
    | createClass o name cardinality superclass transparent root =>
      exact lineal_createClass hl he hs ho hcl o name cardinality superclass transparent root
    | createAnnotationClass o name => exact lineal_createAnnotationClass hl he hs hcl o name
    | setSuperclass h superclass => exact lineal_setSuperclass hl he hs ho h superclass
    | setStructParent type parent =>
      exact lineal_setStructParent hl he hcl parent (hop type parent rfl)
    | _ => cases hkin

lemma lineal_equipped_after (steps : List SessionStep) (hsteps : SessionStep.collect ∉ steps)
    (hparents : LeavesAttributes steps) : (after steps).Lineal ∧ (after steps).Equipped := by
  induction steps using List.reverseRecOn with
  | nil => exact ⟨lineal_empty, equipped_empty⟩
  | append_singleton steps step ih =>
    rw [List.mem_append, not_or] at hsteps
    obtain ⟨hs, hcl⟩ := sound_closed_after hsteps.1
    obtain ⟨hl, he⟩ := ih hsteps.1 fun before type parent since e =>
      hparents before type parent (since ++ [step]) (by rw [e]; simp)
    rw [after_append]
    cases step with
    | operate op =>
      refine lineal_operation hl he hs (sorted_after steps) hcl op fun type parent e => ?_
      exact hparents steps type parent [] (by rw [e])
    | validate h =>
      exact lineal_equipped_within hl he hcl (.of_sameNodes (sameNodes_validate (after steps) h))
    | collect => exact (hsteps.2 (by simp)).elim

/-- A class is listed among the subclasses of another one exactly once if that is its superclass, and not at all
otherwise.  Its attributes inherit from those of its superclass, or from nothing if it has none; and the classes
of an ontology do have attributes. -/
theorem subclasses_and_attributes_follow_superclass (steps : List SessionStep)
    (hsteps : SessionStep.collect ∉ steps) (hparents : LeavesAttributes steps) :
    (∀ c p, ((after steps).subclasses p).count c =
      if (after steps).superclass? c = some p then 1 else 0) ∧
    (∀ c a, (after steps).isA c .structuredClass = true → (after steps).attributesOf? c = some a →
      (after steps).structParent? a =
        ((after steps).superclass? c).bind (after steps).attributesOf?) ∧
    ∀ o c, c ∈ (after steps).listed o .ontologyClasses →
      ∃ a, (after steps).attributesOf? c = some a := by
  obtain ⟨hl, he⟩ := lineal_equipped_after steps hsteps hparents
  refine ⟨hl.listed, fun c a hc ha => hl.inherits hc ha, fun o c hc => he o c ?_⟩
  rwa [← listed_eq_held o rfl]

/-- A session in which a class inherits from a subclass of its own, another one from itself, and a third one from
nothing any more. -/
def crossedSession : List SessionStep :=
  [.operate (.createOntology "o"), .operate (.createClass ⟨1, 1⟩ "a" .any none false false),
    .operate (.createClass ⟨1, 1⟩ "b" .any (some ⟨2, 1⟩) false false),
    .operate (.createClass ⟨1, 1⟩ "c" .any (some ⟨4, 1⟩) false false),
    .operate (.setSuperclass ⟨2, 1⟩ (some ⟨6, 1⟩)), .operate (.setSuperclass ⟨4, 1⟩ (some ⟨4, 1⟩)),
    .operate (.setSuperclass ⟨4, 1⟩ (some ⟨4, 1⟩)), .operate (.setSuperclass ⟨6, 1⟩ none),
    .operate (.createTypesystem "t"), .operate (.createStructType ⟨8, 1⟩ "s"),
    .operate (.setStructParent ⟨9, 1⟩ (some ⟨3, 1⟩)), .validate ⟨2, 1⟩]

/-- The only struct type that gets a parent by itself is one of a typesystem. -/
lemma leavesAttributes_crossedSession : LeavesAttributes crossedSession := by
  intro before type parent since e c _ ha
  have hat : crossedSession[before.length]? = some (.operate (.setStructParent type parent)) := by
    rw [e]
    simp
  have hbefore : before = crossedSession.take before.length := by
    rw [e]
    simp
  have hlt : before.length < 12 := by
    have hlen : 12 = before.length + (since.length + 1) := by
      simpa [crossedSession] using congrArg List.length e
    omega
  generalize before.length = i at hat hbefore hlt
  interval_cases i <;> simp [crossedSession] at hat
  -- the struct type is at home in the typesystem, and so it is in no slot for attributes
  have hhome := (sound_after before).home_of_held rfl (mem_held_of_attributesOf? ha)
  have htypes : (after before).home? ⟨9, 1⟩ = some ⟨⟨8, 1⟩, .typesystemTypes⟩ := by
    rw [hbefore]
    decide +kernel
  rw [← hat.1, htypes] at hhome
  cases hhome

theorem subclasses_and_attributes_follow_superclass_crossedSession :
    (after crossedSession).superclass? ⟨2, 1⟩ = some ⟨6, 1⟩ ∧
      (after crossedSession).superclass? ⟨4, 1⟩ = some ⟨4, 1⟩ ∧
      ((after crossedSession).subclasses ⟨6, 1⟩).count ⟨2, 1⟩ = 1 ∧
      ((after crossedSession).subclasses ⟨4, 1⟩).count ⟨4, 1⟩ = 1 ∧
      ((after crossedSession).subclasses ⟨4, 1⟩).count ⟨6, 1⟩ = 0 ∧
      (after crossedSession).structParent? ⟨3, 1⟩ = some ⟨7, 1⟩ ∧
      (after crossedSession).structParent? ⟨5, 1⟩ = some ⟨5, 1⟩ ∧
      (after crossedSession).structParent? ⟨7, 1⟩ = none := by
  obtain ⟨hcount, hparent, -⟩ := subclasses_and_attributes_follow_superclass crossedSession
    (by simp [crossedSession]) leavesAttributes_crossedSession
  have ha : (after crossedSession).superclass? ⟨2, 1⟩ = some ⟨6, 1⟩ := by decide +kernel
  have hb : (after crossedSession).superclass? ⟨4, 1⟩ = some ⟨4, 1⟩ := by decide +kernel
  have hc : (after crossedSession).superclass? ⟨6, 1⟩ = none := by decide +kernel
  refine ⟨ha, hb, ?_, ?_, ?_, ?_, ?_, ?_⟩
  · rw [hcount, ha]
    rfl
  · rw [hcount, hb]
    rfl
  · rw [hcount, hc]
    rfl
  · rw [hparent ⟨2, 1⟩ _ (by decide +kernel) (by decide +kernel), ha]
    decide +kernel
  · rw [hparent ⟨4, 1⟩ _ (by decide +kernel) (by decide +kernel), hb]
    decide +kernel
  · rw [hparent ⟨6, 1⟩ _ (by decide +kernel) (by decide +kernel), hc]
    rfl

end Store

end Semdoc
