import Semdoc.Proofs.Session.Ties
import Semdoc.Proofs.Store.Scope

/-!
# What edits may touch

An edit stays within a scope, whether it succeeds or is refused, as soon as the scope has the slots into which it
puts nodes, the contents that it gives to new ones, and the changes of content that it makes.
-/

namespace Semdoc

/-- Ontologies, classes and fields are owned through one slot each. -/
lemma Slot.eq_of_kind {sole slot : Slot}
    (hsole : sole ∈ [Slot.projectOntologies, .ontologyClasses, .descriptorFields])
    (hkind : sole.kind.isA slot.kind = true) : slot = sole := by
  simp only [List.mem_cons, List.not_mem_nil, or_false] at hsole
  rcases hsole with rfl | rfl | rfl <;> cases slot <;> dsimp only [kind] at hkind <;>
    first | rfl | exact absurd hkind (by decide +kernel)

namespace Store

variable {S : Scope} {s : Store}

/-- The slot where a node is at home asks for nodes of its kind. -/
lemma Sorted.kind_of_home (ho : s.Sorted) (hs : s.Sound) {c : NodeHandle} {home : Home} {d : Content}
    (hh : s.home? c = some home) (hl : s.contains home.owner = true) (hd : s.content? c = some d) :
    d.tag.isA home.slot.kind = true := by
  have hkind := ho.fits hh (hs.held_of_home hh hl).1
  rwa [isA_eq, hd, Option.map_some, Option.getD_some] at hkind

/-- A new node is put into a slot. -/
lemma Within.createIn (hs : s.Sound) (o : NodeHandle) {slot : Slot} (hslot : S.slots slot)
    (name : String) {content : Content} (hc : S.adds content) :
    Within S s ((Edit.createIn o slot name content).apply s).2 := by
  have hcreate : Within S s (s.create name content).2 := .create hs.intact name hc
  rw [Edit.createIn_apply]
  split
  · exact hcreate
  · next hf =>
    refine hcreate.trans (.place (hs.create name content) hslot hf fun _ home hh _ => ?_)
    rw [home?, hs.intact.get?_create, if_pos rfl] at hh
    cases hh

end Store

namespace Edit

open Store

variable {α β : Type} {S : Store.Scope}

/-- An edit stays within a scope. -/
def Within (S : Store.Scope) (e : Edit α) : Prop :=
  ∀ s : Store, s.Sound → s.Sorted → Store.Within S s (e.apply s).2

lemma within_bind {e : Edit α} {f : α → Edit β} {s : Store} (hs : s.Sound) (ho : s.Sorted)
    (hm : e.Makes) (he : Store.Within S s (e.apply s).2)
    (hf : ∀ a t, t.Sound → t.Sorted → e.apply s = (.ok a, t) → Store.Within S t ((f a).apply t).2) :
    Store.Within S s ((e >>= f).apply s).2 := by
  have hc := hm s hs
  rw [apply_bind]
  split
  · next a t h =>
    rw [h] at he hc
    exact he.trans (hf a t (hs.changes hc) (hc.keep (fun _ _ hs ho h => ho.change hs h) hs ho).2 h)
  · next x t h =>
    rw [h] at he
    exact he

namespace Within

lemma pure (a : α) : Within S (Pure.pure a : Edit α) := fun s _ _ => .refl S s

lemma throw (f : EditFault) : Within S (throw f : Edit α) := fun s _ _ => .refl S s

lemma get_bind {f : Store → Edit β} (hf : ∀ s, Within S (f s)) :
    Within S ((get : Edit Store) >>= f) :=
  fun s hs ho => hf s s hs ho

lemma bind {e : Edit α} {f : α → Edit β} (hm : e.Makes) (he : Within S e)
    (hf : ∀ a, Within S (f a)) : Within S (e >>= f) :=
  fun s hs ho => within_bind hs ho hm (he s hs ho) fun a t ht hot _ => hf a t ht hot

/-- A demand before the rest of an edit. -/
lemma guard {c : Prop} [Decidable c] {f : EditFault} {rest : Edit β} (h : Within S rest) :
    Within S (if c then (do MonadExcept.throw f; rest) else rest) := by
  split
  · exact throw f
  · exact h

lemma modify {f : Store → Store} (hf : ∀ s : Store, s.Sound → Store.Within S s (f s)) :
    Within S (modify f : Edit PUnit) :=
  fun s hs _ => hf s hs

end Within

/-- What holds of a store holds after an edit as well. -/
def Keeps (P : Store → Prop) (e : Edit α) : Prop :=
  ∀ s : Store, s.Sound → s.Sorted → P s → P (e.apply s).2

namespace Keeps

variable {P : Store → Prop}

lemma pure (a : α) : Keeps P (Pure.pure a : Edit α) := fun _ _ _ => id

lemma bind {e : Edit α} {f : α → Edit β} (hm : e.Makes) (he : Keeps P e)
    (hf : ∀ a, Keeps P (f a)) : Keeps P (e >>= f) := by
  intro s hs ho hp
  have hc := hm s hs
  have hp' := he s hs ho hp
  rw [apply_bind]
  split
  · next a t h =>
    rw [h] at hc hp'
    exact hf a t (hs.changes hc) (hc.keep (fun _ _ hs ho h => ho.change hs h) hs ho).2 hp'
  · next x t h =>
    rw [h] at hp'
    exact hp'

end Keeps

lemma within_create (name : String) {content : Content} (hc : S.adds content) :
    (create name content).Within S :=
  fun _ hs _ => .create hs.intact name hc

lemma within_createIn (o : NodeHandle) {slot : Slot} (hslot : S.slots slot) (name : String)
    {content : Content} (hc : S.adds content) : (createIn o slot name content).Within S :=
  fun _ hs _ => .createIn hs o hslot name hc

/-- A node that is put into a slot leaves the slot where it was. -/
lemma within_attach_of_home {s : Store} (hs : s.Sound) {o c : NodeHandle} {slot : Slot}
    (hslot : S.slots slot)
    (hc : slot.isComposition = true →
      ∀ home, s.home? c = some home → s.contains home.owner = true → S.slots home.slot) :
    Store.Within S s ((attach o slot c).apply s).2 := by
  rw [attach_apply]
  split
  · exact .refl S s
  · next hf => exact .place hs hslot hf hc

/-- A node of any kind can be referred to. -/
lemma within_attach (o : NodeHandle) {slot : Slot} (c : NodeHandle) (hslot : S.slots slot)
    (hc : slot.isComposition = false) : (attach o slot c).Within S :=
  fun _ hs _ => within_attach_of_home hs hslot fun h => by rw [hc] at h; cases h

lemma within_revise {h : NodeHandle} {fault : EditFault} {f : Content → Option Content}
    (hf : ∀ c d, f c = some d → c.SameSlots d ∧ S.revises c d) : (revise h fault f).Within S := by
  intro s hs _
  have hi : Store.Within S s (s.invalidate h) := .invalidate s h
  rw [revise_apply]
  split
  · next d hd =>
    refine hi.trans (.modify (f := fun _ => d) fun c hc => ?_)
    rw [hc, Option.bind_some] at hd
    exact hf c d hd
  · exact hi

lemma within_removeFrom (o : NodeHandle) {slot : Slot} (c : NodeHandle) (hslot : S.slots slot) :
    Within S (modify fun s => (s.removeFrom o slot c).2 : Edit PUnit) :=
  .modify fun _ hs => .removeFrom hs.shaped hslot c

lemma within_demand (f : Store → Except EditFault α) : (demand f).Within S := by
  intro s _ _
  rw [demand_apply]
  exact .refl S s

/-! ## Typesystems -/

lemma within_setStructParent (type : NodeHandle) (parent : Option NodeHandle)
    (hr : ∀ p, S.revises (.type (.struct p)) (.type (.struct parent))) :
    (setStructParent type parent).Within S := by
  apply within_revise
  intro c d e
  split at e
  · cases e
    exact ⟨⟨rfl, rfl, rfl⟩, hr _⟩
  · cases e

/-! ## Classes and fields -/

lemma within_reviseClass (h : NodeHandle) {f : ClassContent → ClassContent}
    (hr : ∀ c, S.revises (.structuredClass c) (.structuredClass (f c))) :
    (reviseClass h f).Within S := by
  apply within_revise
  intro c d e
  split at e
  · cases e
    exact ⟨⟨rfl, rfl, rfl⟩, hr _⟩
  · cases e

lemma within_reviseField (h : NodeHandle) {f : FieldContent → FieldContent}
    (hr : ∀ c, S.revises (.fieldDescriptor c) (.fieldDescriptor (f c))) :
    (reviseField h f).Within S := by
  apply within_revise
  intro c d e
  split at e
  · cases e
    exact ⟨⟨rfl, rfl, rfl⟩, hr _⟩
  · cases e

lemma within_sortFields (descriptor : NodeHandle) (hslot : S.slots .descriptorFields) :
    Within S (modify (·.sortFields descriptor) : Edit PUnit) :=
  .modify fun s _ => .editRoster s descriptor hslot _

lemma within_addField (descriptor field : NodeHandle) (hslot : S.slots .descriptorFields) :
    (addField descriptor field).Within S := by
  intro s hs ho
  rcases addField_apply descriptor field s with ⟨fault, e⟩ | ⟨hfit, hf, e⟩
  · rw [e]
    exact .refl S s
  · rw [e]
    refine .trans (.place hs hslot hf fun _ home hh hl => ?_) (.editRoster _ _ hslot _)
    have hleaf : TypeTag.fieldDescriptor ∈ TypeTag.leaves := by decide
    obtain ⟨c, hc, htag⟩ := (isA_iff_content? hleaf).1 (hfit rfl)
    have hkind := ho.kind_of_home hs hh hl hc
    rw [htag] at hkind
    have e : home.slot = .descriptorFields := Slot.eq_of_kind (by simp) hkind
    rw [e]
    exact hslot

lemma within_createField (descriptor : NodeHandle) {type : FieldType} (name : String)
    {optional : Bool} {primitiveType : Option NodeHandle} (hslot : S.slots .descriptorFields)
    (hc : S.adds (.fieldDescriptor { type, optional, primitiveType })) :
    (createField descriptor type name optional primitiveType).Within S :=
  .bind (makes_create _ _ rfl) (within_create _ hc) fun h =>
    .bind (makes_addField descriptor h) (within_addField descriptor h hslot) fun _ => .pure h

lemma within_moveField (descriptor field : NodeHandle) (hslot : S.slots .descriptorFields) :
    (moveField descriptor field).Within S := by
  refine .get_bind fun s => ?_
  refine .bind (makes_addField _ _) (within_addField _ _ hslot) fun _ => ?_
  split
  · exact within_sortFields _ hslot
  · exact .pure _

lemma within_setFieldType (field : NodeHandle) {type : FieldType}
    (hslot : S.slots .descriptorFields)
    (hr : ∀ c, S.revises (.fieldDescriptor c) (.fieldDescriptor { c with type })) :
    (setFieldType field type).Within S := by
  refine .bind (makes_reviseField _ _) (within_reviseField _ hr) fun _ => .get_bind fun s => ?_
  split
  · exact within_sortFields _ hslot
  · exact .pure _

lemma within_addChildClass (field h : NodeHandle) (hslot : S.slots .fieldChildren) :
    (addChildClass field h).Within S := by
  refine .get_bind fun s => ?_
  refine .guard ?_
  split
  · exact within_attach _ _ hslot rfl
  · exact .pure _

/-! ## Superclasses -/

/-- The change of a class from one superclass to another. -/
def changeSuperclass (h : NodeHandle) (previous superclass : Option NodeHandle) : Edit Unit := do
  if let some p := previous then modify fun s => (s.removeFrom p .classSubclasses h).2
  reviseClass h fun c => { c with superclass }
  if let some sup := superclass then attach sup .classSubclasses h
  inheritAttributes h superclass

section Superclass

variable (h : NodeHandle) (superclass : Option NodeHandle)

/-- A change of superclass is refused at once, or it is between classes; and nothing is to be done unless the
superclass is another one. -/
lemma setSuperclass_cases (s : Store) :
    (∃ fault, (setSuperclass h superclass).apply s = (.error fault, s)) ∨
      ∃ c, s.class? h = some c ∧
        (∀ sup, superclass = some sup → s.isA sup .structuredClass = true) ∧
        (setSuperclass h superclass).apply s =
          if c.superclass = superclass then (.ok (), s)
          else (changeSuperclass h c.superclass superclass).apply s := by
  unfold setSuperclass
  rw [get_bind_apply]
  cases superclass with
  | none =>
    dsimp only
    cases hc : s.class? h with
    | none => exact .inl ⟨_, rfl⟩
    | some c =>
      refine .inr ⟨c, rfl, nofun, ?_⟩
      by_cases e : c.superclass = none
      · simp only [e, ne_eq, not_true, if_false, if_true]
        rfl
      · simp only [e, ne_eq, not_false_iff, if_true, if_false]
        unfold changeSuperclass
        cases c.superclass <;> rfl
  | some sup =>
    dsimp only
    cases hsup : s.isA sup .structuredClass with
    | false => exact .inl ⟨_, rfl⟩
    | true =>
      cases hc : s.class? h with
      | none => exact .inl ⟨_, rfl⟩
      | some c =>
        refine .inr ⟨c, rfl, fun k hk => by cases hk; exact hsup, ?_⟩
        by_cases e : c.superclass = some sup
        · simp only [e, ne_eq, not_true, if_false, if_true]
          rfl
        · simp only [e, ne_eq, not_false_iff, if_true, if_false]
          unfold changeSuperclass
          cases c.superclass <;> rfl

/-- The attributes of a class get another struct type as their parent. -/
lemma within_inheritAttributes (hr : ∀ p q, S.revises (.type (.struct p)) (.type (.struct q))) :
    (inheritAttributes h superclass).Within S := by
  refine .get_bind fun s => ?_
  split
  · exact within_setStructParent _ _ fun p => hr p _
  · exact .pure _

lemma within_changeSuperclass (previous : Option NodeHandle) (hslot : S.slots .classSubclasses)
    (hc : ∀ c, S.revises (.structuredClass c) (.structuredClass { c with superclass }))
    (hr : ∀ p q, S.revises (.type (.struct p)) (.type (.struct q))) :
    (changeSuperclass h previous superclass).Within S := by
  have hinherit := within_inheritAttributes h superclass hr
  have hrevise := within_reviseClass h (f := fun c => { c with superclass }) hc
  have hmakes := makes_reviseClass h fun c => { c with superclass }
  unfold changeSuperclass
  cases previous <;> cases superclass
  · exact .bind hmakes hrevise fun _ => hinherit
  · exact .bind hmakes hrevise fun _ =>
      .bind (makes_attach rfl) (within_attach _ _ hslot rfl) fun _ => hinherit
  · exact .bind (makes_removeFrom _ _ _) (within_removeFrom _ _ hslot) fun _ =>
      .bind hmakes hrevise fun _ => hinherit
  · exact .bind (makes_removeFrom _ _ _) (within_removeFrom _ _ hslot) fun _ =>
      .bind hmakes hrevise fun _ =>
        .bind (makes_attach rfl) (within_attach _ _ hslot rfl) fun _ => hinherit

lemma within_setSuperclass (hslot : S.slots .classSubclasses)
    (hc : ∀ c, S.revises (.structuredClass c) (.structuredClass { c with superclass }))
    (hr : ∀ p q, S.revises (.type (.struct p)) (.type (.struct q))) :
    (setSuperclass h superclass).Within S := by
  intro s hs ho
  rcases setSuperclass_cases h superclass s with ⟨fault, e⟩ | ⟨c, -, -, e⟩
  · rw [e]
    exact .refl S s
  · rw [e]
    split
    · exact .refl S s
    · exact within_changeSuperclass h superclass _ hslot hc hr s hs ho

end Superclass

lemma within_createAttributes (h : NodeHandle) (hslot : S.slots .descriptorAttributes)
    (hc : S.adds (.type (.struct none))) : (createAttributes h).Within S :=
  within_createIn h hslot _ hc

lemma within_createAnnotationClass (o : NodeHandle) (name : String)
    (hslot : S.slots .ontologyAnnotationClasses) (hattr : S.slots .descriptorAttributes)
    (hc : S.adds (.annotationClass {})) (ha : S.adds (.type (.struct none))) :
    (createAnnotationClass o name).Within S :=
  .bind (makes_createIn rfl (TypeTag.isA_self _)) (within_createIn o hslot name hc) fun h =>
    .bind (makes_createAttributes h) (within_createAttributes h hattr ha) fun _ => .pure h

lemma within_createClass (o : NodeHandle) (name : String) {cardinality : RangeSet}
    (superclass : Option NodeHandle) {transparent root : Bool} (hslot : S.slots .ontologyClasses)
    (hattr : S.slots .descriptorAttributes) (hsub : S.slots .classSubclasses)
    (hc : S.adds (.structuredClass { cardinality, transparent, root }))
    (ha : S.adds (.type (.struct none)))
    (hsup : ∀ c, S.revises (.structuredClass c) (.structuredClass { c with superclass }))
    (hr : ∀ p q, S.revises (.type (.struct p)) (.type (.struct q))) :
    (createClass o name cardinality superclass transparent root).Within S := by
  unfold createClass
  refine .bind (makes_createIn rfl (TypeTag.isA_self _)) (within_createIn o hslot name hc) fun h => ?_
  refine .bind (makes_createAttributes h) (within_createAttributes h hattr ha) fun _ => ?_
  dsimp only
  split
  · exact .bind (makes_setSuperclass h superclass) (within_setSuperclass h superclass hsub hsup hr)
      fun _ => .pure h
  · exact .pure h

/-- A class is created, gets its attributes, and then its superclass. -/
lemma keeps_createClass {P : Store → Prop} (o : NodeHandle) (name : String) (cardinality : RangeSet)
    (superclass : Option NodeHandle) (transparent root : Bool)
    (hin : (createIn o .ontologyClasses name
      (.structuredClass { cardinality, transparent, root })).Keeps P)
    (hattr : ∀ h, (createAttributes h).Keeps P) (hsup : ∀ h, (setSuperclass h superclass).Keeps P) :
    (createClass o name cardinality superclass transparent root).Keeps P := by
  unfold createClass
  refine .bind (makes_createIn rfl (TypeTag.isA_self _)) hin fun h => ?_
  refine .bind (makes_createAttributes h) (hattr h) fun _ => ?_
  dsimp only
  split
  · exact .bind (makes_setSuperclass h superclass) (hsup h) fun _ => .pure h
  · exact .pure h

end Edit

end Semdoc
