import Semdoc.Proofs.Ontology.ClassLine
import Semdoc.Proofs.Session.Superclasses
import Semdoc.Proofs.Validation.Documents

/-!
# What a field may hold

From the classes that a field declares one goes down to all that inherit from them, and from a class up to all that
it inherits from.  Both ways meet, since a class names another one as its superclass if and only if it is listed
among the subclasses of that.
-/

namespace Semdoc

open Relation

/-! ## Superclasses and subclasses -/

namespace Store

variable {s t : Store} {c f p : NodeHandle}

/-- Everything but which class is a subclass of which. -/
def sparingSubclasses : Scope where
  slots slot := slot ≠ .classSubclasses
  adds c := c.superclass? = none
  revises c d := d.superclass? = c.superclass?

lemma Enlisted.within (hl : s.Enlisted) (h : Within sparingSubclasses s t) : t.Enlisted := by
  intro c p
  have hsuper : Within sparingSuperclasses s t :=
    h.mono (fun _ _ => trivial) (fun _ => id) fun _ _ => id
  rw [hsuper.superclass?_of_sparing, ← hl, subclasses_eq, h.held (by simp [sparingSubclasses]), subclasses_eq]

lemma enlisted_empty : Enlisted {} := by
  intro c p
  rw [superclass?_eq, content?, get?_empty, subclasses_eq, held, get?_empty]
  rfl

end Store

namespace Edit

open Store

variable {α : Type}

lemma keepsEnlisted_of_within {e : Edit α} (he : e.Within sparingSubclasses) : e.Keeps Enlisted :=
  fun s hs ho hl => hl.within (he s hs ho)

lemma keepsEnlisted_setSuperclass (h : NodeHandle) (superclass : Option NodeHandle) :
    (setSuperclass h superclass).Keeps Enlisted := by
  intro s hs ho hl
  rcases setSuperclass_cases h superclass s with ⟨fault, e⟩ | ⟨c, hc, hsup, e⟩
  · rwa [e]
  · rw [e]
    split
    · exact hl
    · obtain ⟨t, e', hr⟩ := changeSuperclass_reclasses hs ho hc hsup
      rw [e']
      exact hl.reclass hr

lemma keepsEnlisted_createClass (o : NodeHandle) (name : String) (cardinality : RangeSet)
    (superclass : Option NodeHandle) (transparent root : Bool) :
    (createClass o name cardinality superclass transparent root).Keeps Enlisted := by
  refine keeps_createClass o name cardinality superclass transparent root ?_ (fun h => ?_)
    fun h => keepsEnlisted_setSuperclass h superclass
  · exact keepsEnlisted_of_within (within_createIn o (by simp [sparingSubclasses]) name rfl)
  · exact keepsEnlisted_of_within (within_createAttributes h (by simp [sparingSubclasses]) rfl)

end Edit

namespace Store

variable {s t : Store} {c f p : NodeHandle}

lemma Enlisted.operation (hl : s.Enlisted) (hs : s.Sound) (ho : s.Sorted) (op : Operation) :
    (op.run s).Enlisted := by
  cases hkin : op.sparesKin with
  | true =>
    refine hl.within ((Operation.within_sparingKin hs ho hkin).mono (fun slot hslot => ?_)
      (fun _ => id) fun _ _ h => h.superclass?)
    rintro rfl
    cases hslot
  | false =>
    cases op with
    | createClass o name cardinality superclass transparent root =>
      exact Edit.keepsEnlisted_createClass o name cardinality superclass transparent root s hs ho hl
    | createAnnotationClass o name =>
      refine hl.within (Edit.within_createAnnotationClass o name ?_ ?_ rfl rfl s hs ho) <;>
        simp [sparingSubclasses]
    | setSuperclass h superclass => exact Edit.keepsEnlisted_setSuperclass h superclass s hs ho hl
    | setStructParent type parent =>
      exact hl.within (Edit.within_setStructParent type parent (fun _ => rfl) s hs ho)
    | _ => cases hkin

/-! ## Declared children -/

lemma declaredChildren_eq (s : Store) (f : NodeHandle) :
    s.declaredChildren f = s.held f .fieldChildren := listed_eq_held f rfl

/-- No field declares a class twice. -/
def DeclaresOnce (s : Store) : Prop := ∀ f, (s.declaredChildren f).Nodup

lemma DeclaresOnce.within (hd : s.DeclaresOnce) {S : Scope} (h : Within S s t)
    (hslot : ¬ S.slots .fieldChildren) : t.DeclaresOnce := by
  intro f
  rw [declaredChildren_eq, h.held hslot, ← declaredChildren_eq]
  exact hd f

lemma declaresOnce_empty : DeclaresOnce {} := by
  intro f
  rw [declaredChildren_eq, held, get?_empty]
  exact List.nodup_nil

/-- A class is declared only if it has not been declared before. -/
lemma addChildClass_cases (f h : NodeHandle) (s : Store) :
    (∃ answer, (Edit.addChildClass f h).apply s = (answer, s)) ∨
      h ∉ s.declaredChildren f ∧
        (Edit.addChildClass f h).apply s = (Edit.attach f .fieldChildren h).apply s := by
  unfold Edit.addChildClass
  rw [Edit.get_bind_apply]
  dsimp only
  by_cases hin : h ∈ s.declaredChildren f
  · left
    rw [show (s.declaredChildren f).contains h = true by simpa using hin]
    cases s.isA h .structuredClass <;> exact ⟨_, rfl⟩
  · rw [show (s.declaredChildren f).contains h = false by simpa using hin]
    cases s.isA h .structuredClass
    · exact .inl ⟨_, rfl⟩
    · exact .inr ⟨hin, rfl⟩

lemma DeclaresOnce.addChildClass (hd : s.DeclaresOnce) (hs : s.Sound) (f h : NodeHandle) :
    ((Edit.addChildClass f h).apply s).2.DeclaresOnce := by
  rcases addChildClass_cases f h s with ⟨answer, e⟩ | ⟨hnew, e⟩
  · rwa [e]
  · rw [e, Edit.attach_apply]
    split
    · exact hd
    · next hf =>
      obtain ⟨ha, -, -⟩ := hs.of_attachFault? hf
      intro k
      rw [declaredChildren_eq, held_place_of_reference hs.shaped rfl ha, ← declaredChildren_eq,
        ← declaredChildren_eq]
      split
      · exact List.nodup_append'.2 ⟨hd f, List.nodup_singleton h, by simpa using hnew⟩
      · exact hd k

lemma DeclaresOnce.operation (hd : s.DeclaresOnce) (hs : s.Sound) (ho : s.Sorted) (op : Operation) :
    (op.run s).DeclaresOnce := by
  cases hfields : op.sparesFields with
  | true => exact hd.within (Operation.within_sparingFields hs ho hfields) fun h => h.2 rfl
  | false =>
    -- fields come and go, but their children stay
    let S : Scope := ⟨(· = .descriptorFields), fun _ => True, fun _ _ => True⟩
    have hslot : ¬ S.slots .fieldChildren := nofun
    cases op with
    | addChildClass f h => exact hd.addChildClass hs f h
    | createField d type name optional primitiveType =>
      exact hd.within (Edit.within_createField (S := S) d _ rfl trivial s hs ho) hslot
    | addField d f => exact hd.within (Edit.within_addField (S := S) d f rfl s hs ho) hslot
    | moveField d f => exact hd.within (Edit.within_moveField (S := S) d f rfl s hs ho) hslot
    | setFieldType f type =>
      exact hd.within (Edit.within_setFieldType (S := S) f rfl (fun _ => trivial) s hs ho) hslot
    | _ => cases hfields

lemma enlisted_declaresOnce_after (steps : List SessionStep) (hsteps : SessionStep.collect ∉ steps) :
    (after steps).Enlisted ∧ (after steps).DeclaresOnce := by
  induction steps using List.reverseRecOn with
  | nil => exact ⟨enlisted_empty, declaresOnce_empty⟩
  | append_singleton steps step ih =>
    rw [List.mem_append, not_or] at hsteps
    obtain ⟨hl, hd⟩ := ih hsteps.1
    have hs := sound_after steps
    have ho := sorted_after steps
    rw [after_append]
    cases step with
    | operate op => exact ⟨hl.operation hs ho op, hd.operation hs ho op⟩
    | validate h =>
      have hm := sameNodes_validate (after steps) h
      exact ⟨hl.within (.of_sameNodes hm), hd.within (S := sparingFields) (.of_sameNodes hm) fun h => h.2 rfl⟩
    | collect => exact (hsteps.2 (by simp)).elim

/-! ## Down and up -/

lemma isSubclassOf_iff : s.isSubclassOf c p = true ↔
    s.contains c = true ∧ ReflTransGen s.Ascends c p := by
  rw [isSubclassOf, List.contains_iff_mem, mem_classLine_iff]

lemma Enlisted.ascends_iff (hl : s.Enlisted) : s.Ascends c p ↔ c ∈ s.subclasses p := by
  have hmem : c ∈ s.subclasses p ↔ s.superclass? c = some p := by
    rw [← List.count_pos_iff, hl]
    split <;> simp_all
  rw [hmem]
  refine ⟨fun h => h.1, fun h => ⟨h, ?_⟩⟩
  rw [← hmem, subclasses_eq] at h
  exact contains_of_mem_held h

/-- Whatever one comes down to from a declared class leads up to it. -/
lemma permits_iff_isSubclassOf (hl : s.Enlisted) (hcl : s.Closed) :
    s.Permits f c ↔ ∃ a ∈ s.declaredChildren f, s.isSubclassOf c a = true := by
  have hdown : (fun a b => b ∈ s.subclasses a) = Function.swap s.Ascends := by
    funext a b
    exact propext hl.ascends_iff.symm
  unfold Permits
  refine exists_congr fun a => and_congr_right fun ha => ?_
  rw [isSubclassOf_iff, hdown, reflTransGen_swap, iff_and_self]
  intro h
  rcases ReflTransGen.cases_head h with rfl | ⟨b, hb, -⟩
  · rw [declaredChildren_eq] at ha
    exact hcl.of_held ha
  · rw [hl.ascends_iff, subclasses_eq] at hb
    exact hcl.of_held hb

lemma drains_permittedChildren (s : Store) (f : NodeHandle) :
    Walk.Drains s.subclasses (s.declaredChildren f) [] (s.permittedChildren f) :=
  Walk.drains_breadthFirst (fun h _ => s.listed_subset_linked h .classSubclasses)
    (s.listed_subset_linked f .fieldChildren) (List.nil_subset _) List.nodup_nil
    (by simpa using s.length_linked_lt)

/-- A member of a field is accepted if its class inherits from a declared one. -/
lemma value_checkMember (name : String) (d : NodeHandle) (declared : List NodeHandle)
    {child : NodeHandle} {e : EntityContent} (he : s.entity? child = some e) :
    (s.checkMember name d declared child).value = declared.any (s.isSubclassOf e.descriptor) := by
  have hprimitive : s.isA child .documentPrimitive = false := by
    rw [isA_eq]
    unfold entity? at he
    split at he
    · next h =>
      rw [h]
      exact (by decide +kernel : TypeTag.structuredEntity.isA .documentPrimitive = false)
    · next h =>
      rw [h]
      exact (by decide +kernel : TypeTag.annotationEntity.isA .documentPrimitive = false)
    · cases he
  rw [checkMember, hprimitive, if_neg Bool.false_ne_true, he, Check.value_demand]

/-- A field may hold the classes that it declares and all that inherit from them: going down from the declared
classes one comes to a class if and only if going up from it one comes to one of them.  The classes come once each,
the declared ones first and in order, and the queue of classes is worked off however they inherit from each other.
They are just those of which instances are accepted in the field when a document is validated. -/
theorem permittedChildren_agree (steps : List SessionStep) (hsteps : SessionStep.collect ∉ steps)
    (f : NodeHandle) :
    (∀ c, c ∈ (after steps).permittedChildren f ↔
      ∃ a ∈ (after steps).declaredChildren f, (after steps).isSubclassOf c a = true) ∧
    ((after steps).permittedChildren f).Nodup ∧
    (after steps).declaredChildren f <+: (after steps).permittedChildren f ∧
    (∀ met, Walk.Drains (after steps).subclasses ((after steps).declaredChildren f) [] met ↔
      (after steps).permittedChildren f = met) ∧
    ∀ name d child e, (after steps).entity? child = some e →
      (((after steps).checkMember name d ((after steps).declaredChildren f) child).value = true ↔
        e.descriptor ∈ (after steps).permittedChildren f) := by
  obtain ⟨-, hcl⟩ := sound_closed_after hsteps
  obtain ⟨hl, hd⟩ := enlisted_declaresOnce_after steps hsteps
  generalize after steps = s at hcl hl hd ⊢
  have hdrains := drains_permittedChildren s f
  have hmem : ∀ c, c ∈ s.permittedChildren f ↔
      ∃ a ∈ s.declaredChildren f, s.isSubclassOf c a = true := fun c => by
    rw [mem_permittedChildren_iff, permits_iff_isSubclassOf hl hcl]
  refine ⟨hmem, Walk.nodup_breadthFirst List.nodup_nil, ?_, fun met => ?_, fun name d child e he => ?_⟩
  · have hqueue : Walk.Drains s.subclasses (s.declaredChildren f ++ []) [] (s.permittedChildren f) := by
      rwa [List.append_nil]
    exact hqueue.starts_with (hd f)
  · exact ⟨hdrains.unique, fun h => h ▸ hdrains⟩
  · rw [value_checkMember name d _ he, List.any_eq_true, hmem]

/-- A session in which three classes inherit from each other in a circle, and a field declares one of them after
another class. -/
def circularSession : List SessionStep :=
  [.operate (.createOntology "o"), .operate (.createClass ⟨1, 1⟩ "a" .any none false false),
    .operate (.createClass ⟨1, 1⟩ "b" .any (some ⟨2, 1⟩) false false),
    .operate (.createClass ⟨1, 1⟩ "c" .any (some ⟨4, 1⟩) false false),
    .operate (.setSuperclass ⟨2, 1⟩ (some ⟨6, 1⟩)),
    .operate (.createClass ⟨1, 1⟩ "d" .any none false false),
    .operate (.createField ⟨8, 1⟩ .tree "x" false none),
    .operate (.addChildClass ⟨10, 1⟩ ⟨8, 1⟩), .operate (.addChildClass ⟨10, 1⟩ ⟨4, 1⟩)]

theorem permittedChildren_agree_circularSession :
    SessionStep.collect ∉ circularSession ∧
      (after circularSession).declaredChildren ⟨10, 1⟩ = [⟨8, 1⟩, ⟨4, 1⟩] ∧
      (after circularSession).hasInheritanceCycle ⟨4, 1⟩ = true ∧
      Walk.Drains (after circularSession).subclasses [⟨8, 1⟩, ⟨4, 1⟩] []
        [⟨8, 1⟩, ⟨4, 1⟩, ⟨6, 1⟩, ⟨2, 1⟩] ∧
      (∃ a ∈ [⟨8, 1⟩, ⟨4, 1⟩], (after circularSession).isSubclassOf ⟨2, 1⟩ a = true) ∧
      ¬ ∃ a ∈ [⟨8, 1⟩, ⟨4, 1⟩], (after circularSession).isSubclassOf ⟨1, 1⟩ a = true := by
  have hsteps : SessionStep.collect ∉ circularSession := by simp [circularSession]
  have hdeclared : (after circularSession).declaredChildren ⟨10, 1⟩ = [⟨8, 1⟩, ⟨4, 1⟩] := by
    decide +kernel
  have hpermitted : (after circularSession).permittedChildren ⟨10, 1⟩ =
      [⟨8, 1⟩, ⟨4, 1⟩, ⟨6, 1⟩, ⟨2, 1⟩] := by
    decide +kernel
  obtain ⟨hmem, -, -, hdrains, -⟩ := permittedChildren_agree circularSession hsteps ⟨10, 1⟩
  rw [hdeclared] at hmem hdrains
  refine ⟨hsteps, hdeclared, by decide +kernel, (hdrains _).2 hpermitted, ?_, ?_⟩
  · rw [← hmem, hpermitted]
    simp
  · rw [← hmem, hpermitted]
    simp

end Store

end Semdoc
