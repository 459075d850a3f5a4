import Semdoc.Proofs.Session.Caution
import Semdoc.Proofs.Session.Scope

/-!
# What classes inherit from

A class names its superclass, is listed among the subclasses of it, and has a struct type for its attributes that
inherits from that of the superclass.  Few edits touch any of this, or the fields of classes; all others are within
one scope.
-/

namespace Semdoc

open Relation Store

/-- The slots that tell which classes there are, what attributes they have and which subclasses. -/
def Slot.relatesClasses : Slot → Bool
  | ontologyClasses | descriptorAttributes | classSubclasses => true
  | _ => false

/-- The slots that tell which classes there are, how they are related and what their fields are. -/
def Slot.relatesSchema : Slot → Bool
  | descriptorFields | fieldChildren => true
  | slot => slot.relatesClasses

namespace Content

/-- The superclass of a class. -/
def superclass? : Content → Option NodeHandle
  | structuredClass c => c.superclass
  | _ => none

/-- The parent of a struct type. -/
def structParent? : Content → Option NodeHandle
  | type (.struct parent) => parent
  | _ => none

/-- The type of a field. -/
def fieldType? : Content → Option FieldType
  | fieldDescriptor f => some f.type
  | _ => none

/-- A content of the same kind that inherits from the same. -/
structure SameKin (c d : Content) : Prop where
  tag : d.tag = c.tag
  superclass? : d.superclass? = c.superclass?
  structParent? : d.structParent? = c.structParent?

lemma SameKin.of_reflTransGen {c d : Content} (h : ReflTransGen SameKin c d) : SameKin c d := by
  induction h with
  | refl => exact ⟨rfl, rfl, rfl⟩
  | tail _ h ih =>
    exact ⟨h.tag.trans ih.tag, h.superclass?.trans ih.superclass?,
      h.structParent?.trans ih.structParent?⟩

/-- A content that says the same of classes and fields. -/
structure SameSchema (c d : Content) : Prop extends SameKin c d where
  fieldType? : d.fieldType? = c.fieldType?

end Content

namespace TypeTag

lemma not_isA_of_structureNode {t : TypeTag} (h : t.isA .structureNode = true) :
    t.isA .structType = false ∧ t.isA .structuredClass = false ∧ t.isA .fieldDescriptor = false := by
  cases t <;> first | decide +kernel | exact absurd h (by decide +kernel)

end TypeTag

namespace Store

variable {s : Store}

/-- Some slots, and all contents that leave it open what their nodes inherit from. -/
def kinScope (slots : Slot → Prop) : Scope where
  slots := slots
  adds c := c.superclass? = none
  revises := Content.SameKin

/-- Everything but what classes inherit from. -/
def sparingKin : Scope := kinScope fun slot => slot.relatesClasses = false

/-- Everything but classes, what they inherit from, and their fields. -/
def sparingSchema : Scope where
  slots slot := slot.relatesSchema = false
  adds c := c.superclass? = none
  revises := Content.SameSchema

/-- Everything but the fields of classes, their types and what they declare as their children. -/
def sparingFields : Scope where
  slots slot := slot ≠ .descriptorFields ∧ slot ≠ .fieldChildren
  adds _ := True
  revises c d := d.fieldType? = c.fieldType?

lemma Within.of_sparingSchema {s t : Store} {S : Scope} (h : Within sparingSchema s t)
    (hslots : ∀ slot : Slot, slot.relatesSchema = false → S.slots slot)
    (hadds : ∀ c : Content, c.superclass? = none → S.adds c)
    (hrevises : ∀ c d : Content, c.SameSchema d → S.revises c d) : Within S s t :=
  h.mono hslots hadds hrevises

/-- Everything but the superclasses of classes. -/
def sparingSuperclasses : Scope where
  slots _ := True
  adds c := c.superclass? = none
  revises c d := d.superclass? = c.superclass?

/-- A node of one kind is not of another one. -/
lemma isA_eq_false {c : NodeHandle} {type type' : TypeTag} (h : s.isA c type = true)
    (ht : type ∈ TypeTag.leaves) (ht' : type' ∈ TypeTag.leaves) (hne : type ≠ type') :
    s.isA c type' = false := by
  by_contra h'
  rw [Bool.not_eq_false, isA_iff_content? ht'] at h'
  obtain ⟨d, hd, rfl⟩ := (isA_iff_content? ht).1 h
  obtain ⟨e, he, rfl⟩ := h'
  rw [hd] at he
  cases he
  exact hne rfl

/-- A node in a field is neither a class nor a field nor a struct type. -/
lemma not_isA_of_structureNode {c : NodeHandle} (h : s.isA c .structureNode = true) :
    s.isA c .structType = false ∧ s.isA c .structuredClass = false ∧
      s.isA c .fieldDescriptor = false := by
  unfold isA at h ⊢
  cases hn : s.get? c with
  | none => exact ⟨rfl, rfl, rfl⟩
  | some n =>
    rw [hn] at h
    exact TypeTag.not_isA_of_structureNode h

end Store

namespace Edit

variable {α β : Type}

/-- What comes after an edit only answers. -/
lemma snd_apply_bind_pure (e : Edit α) (f : α → β) (s : Store) :
    ((e >>= fun a => pure (f a)).apply s).2 = (e.apply s).2 := by
  rw [apply_bind]
  split
  · next h => rw [h]; rfl
  · next h => rw [h]

lemma createIn_bind (o : NodeHandle) (slot : Slot) (name : String) (content : Content)
    (f : NodeHandle → Edit β) :
    createIn o slot name content >>= f = (do
      let h ← create name content
      attach o slot h
      f h) := by
  simp [createIn]

/-- A node that is neither a class nor a field nor a struct type is at home in a slot without these. -/
lemma spares_attach {s : Store} (hs : s.Sound) (ho : s.Sorted) {o c : NodeHandle} {slot : Slot}
    (hslot : slot.relatesSchema = false)
    (hc : s.isA c .structType = false ∧ s.isA c .structuredClass = false ∧
      s.isA c .fieldDescriptor = false) :
    Store.Within sparingSchema s ((attach o slot c).apply s).2 := by
  refine within_attach_of_home hs hslot fun _ home hh hl => ?_
  have hcomp := (hs.held_of_home hh hl).1
  have hkind := ho.fits hh hcomp
  obtain ⟨owner, sl⟩ := home
  cases sl with
  | ontologyClasses => exact absurd hkind (by simp [Slot.kind, hc.2.1])
  | descriptorAttributes => exact absurd hkind (by simp [Slot.kind, hc.1])
  | descriptorFields => exact absurd hkind (by simp [Slot.kind, hc.2.2])
  | classSubclasses | fieldChildren => cases hcomp
  | _ => rfl

lemma spares_create (name : String) {content : Content} (hc : content.superclass? = none) :
    (create name content).Within sparingSchema := within_create name hc

lemma spares_createIn (o : NodeHandle) {slot : Slot} (hslot : slot.relatesSchema = false)
    (name : String) {content : Content} (hc : content.superclass? = none) :
    (createIn o slot name content).Within sparingSchema := within_createIn o hslot name hc

/-! ## Typesystems and projects -/

lemma spares_createType (ts : NodeHandle) (name : String) (shape : TypeShape) :
    (createType ts name shape).Within sparingSchema := spares_createIn ts rfl name rfl

lemma spares_createSystemTypesystem : createSystemTypesystem.Within sparingSchema := by
  refine .bind (makes_create _ _ rfl) (spares_create _ rfl) fun ts => ?_
  refine .bind (makes_createType _ _ _) (spares_createType _ _ _) fun _ => ?_
  refine .bind (makes_createType _ _ _) (spares_createType _ _ _) fun _ => ?_
  refine .bind (makes_createType _ _ _) (spares_createType _ _ _) fun _ => ?_
  exact .bind (makes_createType _ _ _) (spares_createType _ _ _) fun _ => .pure ts

lemma spares_createArrayType (ts inner : NodeHandle) :
    (createArrayType ts inner).Within sparingSchema := by
  refine .get_bind fun s => ?_
  dsimp only
  split
  · exact .pure _
  · exact spares_createType _ _ _

lemma spares_createProject : createProject.Within sparingSchema := by
  refine .bind makes_createSystemTypesystem spares_createSystemTypesystem fun system => ?_
  refine .bind (makes_create _ _ rfl) (spares_create _ rfl) fun project => ?_
  refine .bind (.modify fun s _ => ?_) (.modify fun s _ => ?_) fun _ => .pure project
  · exact .tail (.single (.root system)) (.root project)
  · exact (Store.Within.addRoot s system).trans (.addRoot _ project)

lemma spares_createProjectOntology (project : NodeHandle) (name : String) :
    (createProjectOntology project name).Within sparingSchema := by
  unfold createProjectOntology createOntology
  rw [← createIn_bind]
  refine .bind (makes_createIn rfl (TypeTag.isA_self _)) (spares_createIn _ rfl _ rfl) fun h => ?_
  refine .get_bind fun s => ?_
  dsimp only
  split
  · exact .bind (makes_attach rfl) (within_attach _ _ rfl rfl) fun _ => .pure h
  · exact .pure h

lemma spares_createProjectTypesystem (project : NodeHandle) (name : String) :
    (createProjectTypesystem project name).Within sparingSchema := by
  unfold createProjectTypesystem createTypesystem
  rw [← createIn_bind]
  refine .bind (makes_createIn rfl (TypeTag.isA_self _)) (spares_createIn _ rfl _ rfl) fun h => ?_
  refine .get_bind fun s => ?_
  dsimp only
  split
  · exact .bind (makes_attach rfl) (within_attach _ _ rfl rfl) fun _ => .pure h
  · exact .pure h

/-! ## Ontologies -/

lemma spares_reviseClass (h : NodeHandle) (f : ClassContent → ClassContent)
    (hf : ∀ c, (f c).superclass = c.superclass) : (reviseClass h f).Within sparingSchema :=
  within_reviseClass h fun c => ⟨⟨rfl, hf c, rfl⟩, rfl⟩

lemma spares_reviseField (h : NodeHandle) (f : FieldContent → FieldContent)
    (hf : ∀ c, (f c).type = c.type) : (reviseField h f).Within sparingSchema :=
  within_reviseField h fun c => ⟨⟨rfl, rfl, rfl⟩, congrArg some (hf c)⟩

lemma spares_reviseTokens (h : NodeHandle) (f : TokenPair → TokenPair) :
    (reviseTokens h f).Within sparingSchema := by
  apply within_revise
  intro c d e
  split at e <;> cases e <;> exact ⟨⟨rfl, rfl, rfl⟩, ⟨rfl, rfl, rfl⟩, rfl⟩

/-! ## Documents -/

lemma spares_createEntity (descriptor : NodeHandle) (attributes : Option Value) (name : String) :
    (createEntity descriptor attributes name).Within sparingSchema :=
  .get_bind fun _ => .guard (spares_create _ rfl)

lemma spares_createRoot (document descriptor : NodeHandle) (attributes : Option Value)
    (name : String) : (createRoot document descriptor attributes name).Within sparingSchema := by
  intro s hs ho
  refine within_bind hs ho (makes_createEntity _ _ _) (spares_createEntity _ _ _ s hs ho)
    fun h t ht hot hc => ?_
  have hentity := isA_createEntity hs hc
  rw [snd_apply_bind_pure]
  exact spares_attach ht hot rfl
    ⟨isA_eq_false hentity (by decide) (by decide) (by decide),
      isA_eq_false hentity (by decide) (by decide) (by decide),
      isA_eq_false hentity (by decide) (by decide) (by decide)⟩

lemma spares_addStructureNode (entity h : NodeHandle) (number : Nat) :
    (addStructureNode entity h number).Within sparingSchema := by
  intro s hs ho
  unfold addStructureNode
  rw [get_bind_apply]
  split
  · exact .refl _ s
  · next hh =>
    have hkind := not_isA_of_structureNode (s := s) (c := h) (by simpa using hh)
    refine within_bind hs ho (makes_demand _) (within_demand _ s hs ho) fun descriptor t ht hot hd => ?_
    -- the question leaves the store as it is
    rw [demand_apply] at hd
    obtain rfl : s = t := (Prod.mk.inj hd).2
    dsimp only
    split
    · exact .refl _ s
    · exact spares_attach hs ho rfl hkind

lemma spares_createChild (parent descriptor : NodeHandle) (attributes : Option Value)
    (field name : String) :
    (createChild parent descriptor attributes field name).Within sparingSchema := by
  refine .bind (makes_demand _) (within_demand _) fun number => ?_
  refine .bind (makes_createEntity _ _ _) (spares_createEntity _ _ _) fun h => ?_
  exact .bind (makes_addStructureNode _ _ _) (spares_addStructureNode _ _ _) fun _ => .pure h

lemma spares_createPrimitive (parent : NodeHandle) (v : Value) (field : String) :
    (createPrimitive parent v field).Within sparingSchema := by
  refine .bind (makes_demand _) (within_demand _) fun number => ?_
  refine .bind (makes_create _ _ rfl) (spares_create _ rfl) fun h => ?_
  exact .bind (makes_addStructureNode _ _ _) (spares_addStructureNode _ _ _) fun _ => .pure h

lemma spares_createAnchor (parent : NodeHandle) (field : String) :
    (createAnchor parent field).Within sparingSchema := by
  refine .bind (makes_demand _) (within_demand _) fun number => ?_
  refine .bind (makes_create _ _ rfl) (spares_create _ rfl) fun h => ?_
  exact .bind (makes_addStructureNode _ _ _) (spares_addStructureNode _ _ _) fun _ => .pure h

lemma sameSchema_anchored (mark : Option NodeHandle) (c : Content) : c.SameSchema (anchored mark c) := by
  cases c <;> exact ⟨⟨rfl, rfl, rfl⟩, rfl⟩

lemma sameSchema_repointed (which : Endpoint) (anchor : NodeHandle) (c : Content) :
    c.SameSchema (c.repointed which anchor) := by
  refine ⟨⟨c.tag_repointed which anchor, ?_, ?_⟩, ?_⟩ <;>
    cases c <;> first | rfl | (cases which <;> rfl)

lemma spares_reanchored (s : Store) (x : NodeHandle) (mark : Option NodeHandle) :
    Store.Within sparingSchema s (s.reanchored x mark) :=
  (Store.Within.invalidate s x).trans
    (.modify fun c _ => ⟨(revisable_anchored s mark c).toSameSlots, sameSchema_anchored mark c⟩)

lemma spares_repointed (s : Store) (b : Binding) : Store.Within sparingSchema s (s.repointed b) := by
  refine (Store.Within.invalidate s b.mark).trans (.modify fun c _ => ⟨?_, sameSchema_repointed _ _ c⟩)
  cases c <;> first | exact ⟨rfl, rfl, rfl⟩ | (cases b.which <;> exact ⟨rfl, rfl, rfl⟩)

lemma spares_tied (s : Store) (b : Binding) : Store.Within sparingSchema s (s.tied b) := by
  unfold tied
  cases (s.endpoint? b.mark b.which).filter (· ≠ b.anchor) with
  | none => exact (spares_repointed s b).trans (spares_reanchored _ _ _)
  | some p =>
    exact ((spares_repointed s b).trans (spares_reanchored _ p none)).trans (spares_reanchored _ _ _)

lemma spares_bindAnchor (mark anchor : NodeHandle) (which : Endpoint) :
    (bindAnchor mark anchor which).Within sparingSchema := by
  intro s _ _
  rw [bindAnchor_apply]
  split
  · split
    · exact spares_tied s ⟨mark, anchor, which⟩
    · exact .invalidate s mark
  · exact .refl _ s

lemma spares_createAnnotation (document descriptor : NodeHandle) (attributes : Option Value)
    (start stop : Option NodeHandle) (name : String) :
    ( createAnnotation document descriptor attributes start stop name).Within sparingSchema := by
  refine .get_bind fun s => ?_
  refine .guard ?_
  refine .bind (makes_createIn rfl (TypeTag.isA_self _)) (spares_createIn _ rfl _ rfl) fun h => ?_
  have hbind := spares_bindAnchor h
  have hmakes := makes_bindAnchor h
  cases start <;> cases stop <;> dsimp only
  · exact .pure h
  · exact .bind (hmakes _ _) (hbind _ _) fun _ => .pure h
  · exact .bind (hmakes _ _) (hbind _ _) fun _ => .pure h
  · exact .bind (hmakes _ _) (hbind _ _) fun _ => .bind (hmakes _ _) (hbind _ _) fun _ => .pure h

lemma spares_setAttributes (entity : NodeHandle) (attributes : Value) :
    (setAttributes entity attributes).Within sparingSchema := by
  apply within_revise
  intro c d e
  split at e <;> cases e <;> exact ⟨⟨rfl, rfl, rfl⟩, ⟨rfl, rfl, rfl⟩, rfl⟩

end Edit

namespace Store

variable {s : Store}

lemma spares_registerTokensOf (s : Store) (h : NodeHandle) (r : TokenRegistry) :
    Within sparingSchema s (s.registerTokensOf h r).2.2 := by
  unfold registerTokensOf
  split
  · exact .refl _ s
  · next c hc =>
    refine (Within.invalidate s h).trans (.modify (f := fun _ => (c.registerTokens r).2.1) fun d hd => ?_)
    rw [(SameContents.invalidate s h).content?, hc] at hd
    cases hd
    cases c <;> exact ⟨⟨rfl, rfl, rfl⟩, ⟨rfl, rfl, rfl⟩, rfl⟩

lemma spares_registerOntologyTokens (s : Store) (o : NodeHandle) (r : TokenRegistry) :
    Within sparingSchema s (s.registerOntologyTokens o r).2.2 := by
  refine Within.foldl (fun p : List TokenId × TokenRegistry × Store => p.2.2) ?_ ([], r, s) _
  exact fun p h => spares_registerTokensOf p.2.2 h p.2.1

lemma spares_removeStructureNode (hs : s.Sound) (h : NodeHandle) :
    Within sparingSchema s (s.removeStructureNode h).2 := by
  unfold Store.removeStructureNode
  split
  · exact .removeFrom hs.shaped rfl h
  · exact .refl _ s

lemma spares_prepareAttributesOf (hs : s.Sound) (ho : s.Sorted) (h : NodeHandle) :
    Within sparingSchema s (s.prepareAttributesOf h).value.2 := by
  unfold Store.prepareAttributesOf
  split
  · exact .refl _ s
  · split
    · exact .refl _ s
    · rw [Logged.value_bind]
      split
      · exact Edit.spares_setAttributes _ _ s hs ho
      · exact .refl _ s

end Store

namespace Operation

/-- Operations that neither make classes nor change what they inherit from. -/
def sparesKin : Operation → Bool
  | createClass .. | createAnnotationClass .. | setSuperclass .. | setStructParent .. => false
  | _ => true

/-- Operations that leave fields as they are. -/
def sparesFields : Operation → Bool
  | createField .. | addField .. | moveField .. | setFieldType .. | addChildClass .. => false
  | _ => true

/-- Operations that leave classes and fields as they are. -/
def sparesSchema (op : Operation) : Bool := op.sparesKin && op.sparesFields

section

variable {s : Store} (hs : s.Sound) (ho : s.Sorted)
include hs ho

/-- All operations but a few are within the scope. -/
theorem within_sparingSchema {op : Operation} (hop : op.sparesSchema = true) :
    Within sparingSchema s (op.run s) := by
  cases op with
  | createProject => exact Edit.spares_createProject s hs ho
  | createProjectDocument p name => exact Edit.spares_createIn p rfl name rfl s hs ho
  | createProjectOntology p name => exact Edit.spares_createProjectOntology p name s hs ho
  | createProjectTypesystem p name => exact Edit.spares_createProjectTypesystem p name s hs ho
  | createTypesystem name => exact Edit.spares_create name rfl s hs ho
  | createSystemTypesystem => exact Edit.spares_createSystemTypesystem s hs ho
  | createType ts name shape => exact Edit.spares_createType ts name shape s hs ho
  | createEnumerationType ts name constants => exact Edit.spares_createType ts name _ s hs ho
  | createArrayType ts inner => exact Edit.spares_createArrayType ts inner s hs ho
  | createStructType ts name => exact Edit.spares_createType ts name _ s hs ho
  | createAttribute struct name type substitute => exact Edit.spares_createIn struct rfl name rfl s hs ho
  | addTypesystemInclude ts included => exact Edit.within_attach ts included rfl rfl s hs ho
  | createOntology name => exact Edit.spares_create name rfl s hs ho
  | setCardinality h _ => exact Edit.spares_reviseClass h _ (by intro; rfl) s hs ho
  | setTransparent h _ => exact Edit.spares_reviseClass h _ (by intro; rfl) s hs ho
  | setRoot h _ => exact Edit.spares_reviseClass h _ (by intro; rfl) s hs ho
  | setShortToken h _ => exact Edit.spares_reviseClass h _ (by intro; rfl) s hs ho
  | setStartToken h _ => exact Edit.spares_reviseTokens h _ s hs ho
  | setStopToken h _ => exact Edit.spares_reviseTokens h _ s hs ho
  | setFieldOptional field _ => exact Edit.spares_reviseField field _ (by intro; rfl) s hs ho
  | setFieldWhitespace field _ => exact Edit.spares_reviseField field _ (by intro; rfl) s hs ho
  | addOntologyDependency o dependency => exact Edit.within_attach o dependency rfl rfl s hs ho
  | addOntologyTypesystem o ts => exact Edit.within_attach o ts rfl rfl s hs ho
  | registerOntologyTokens o r => exact spares_registerOntologyTokens s o r
  | createDocument name => exact Edit.spares_create name rfl s hs ho
  | addDocumentOntology d o => exact Edit.within_attach d o rfl rfl s hs ho
  | addDocumentTypesystem d ts => exact Edit.within_attach d ts rfl rfl s hs ho
  | createRoot d descriptor attributes name => exact Edit.spares_createRoot d _ _ name s hs ho
  | createChild parent descriptor attributes field name =>
    exact Edit.spares_createChild parent _ _ field name s hs ho
  | createPrimitive parent v field => exact Edit.spares_createPrimitive parent v field s hs ho
  | createAnchor parent field => exact Edit.spares_createAnchor parent field s hs ho
  | createAnnotation d descriptor attributes start stop name =>
    exact Edit.spares_createAnnotation d _ _ start stop name s hs ho
  | bindAnchor mark anchor which => exact Edit.spares_bindAnchor mark anchor which s hs ho
  | addStructureNode entity h number => exact Edit.spares_addStructureNode entity h number s hs ho
  | removeStructureNode h => exact spares_removeStructureNode hs h
  | setAttributes entity attributes => exact Edit.spares_setAttributes entity attributes s hs ho
  | prepareAttributesOf entity => exact spares_prepareAttributesOf hs ho entity
  | setName h name => exact .setName s h name
  | setLocation h l => exact .modify_aside s h fun _ => ⟨rfl, fun _ => rfl⟩
  | addWatcher h => exact .addWatcher s h
  | removeWatcher number => exact .removeWatcher s number
  | addRoot h => exact .addRoot s h
  | removeRoot h => exact .removeRoot s h
  | invalidate h => exact .invalidate s h
  | _ => cases hop

/-- The operations on fields spare what classes inherit from, too. -/
theorem within_sparingKin {op : Operation} (hop : op.sparesKin = true) :
    Within sparingKin s (op.run s) := by
  cases hfields : op.sparesFields with
  | true =>
    have hschema : op.sparesSchema = true := by rw [sparesSchema, hop, hfields]; rfl
    refine (within_sparingSchema hs ho hschema).of_sparingSchema (fun slot hslot => ?_)
      (fun _ => id) fun _ _ h => h.toSameKin
    cases slot <;> first | rfl | cases hslot
  | false =>
    cases op with
    | createField d type name optional primitiveType =>
      exact Edit.within_createField d _ rfl rfl s hs ho
    | addField d field => exact Edit.within_addField d field rfl s hs ho
    | moveField d field => exact Edit.within_moveField d field rfl s hs ho
    | addChildClass field h => exact Edit.within_addChildClass field h rfl s hs ho
    | setFieldType field type =>
      exact Edit.within_setFieldType (S := sparingKin) field rfl (fun _ => ⟨rfl, rfl, rfl⟩) s hs ho
    | _ => cases hfields

/-- The operations on classes spare fields. -/
theorem within_sparingFields {op : Operation} (hop : op.sparesFields = true) :
    Within sparingFields s (op.run s) := by
  have hslots : ∀ slot : Slot, slot ≠ .descriptorFields → slot ≠ .fieldChildren →
      sparingFields.slots slot := fun _ h h' => ⟨h, h'⟩
  cases hkin : op.sparesKin with
  | true =>
    have hschema : op.sparesSchema = true := by rw [sparesSchema, hop, hkin]; rfl
    refine (within_sparingSchema hs ho hschema).of_sparingSchema (fun slot hslot => ?_)
      (fun _ _ => trivial) fun _ _ h => h.fieldType?
    constructor <;> rintro rfl <;> cases hslot
  | false =>
    cases op with
    | createClass o name cardinality superclass transparent root =>
      exact Edit.within_createClass o name superclass (hslots _ nofun nofun) (hslots _ nofun nofun)
        (hslots _ nofun nofun) trivial trivial (fun _ => rfl) (fun _ _ => rfl) s hs ho
    | createAnnotationClass o name =>
      exact Edit.within_createAnnotationClass o name (hslots _ nofun nofun) (hslots _ nofun nofun)
        trivial trivial s hs ho
    | setSuperclass h superclass =>
      exact Edit.within_setSuperclass h superclass (hslots _ nofun nofun) (fun _ => rfl)
        (fun _ _ => rfl) s hs ho
    | setStructParent type parent =>
      exact Edit.within_setStructParent type parent (fun _ => rfl) s hs ho
    | _ => cases hkin

end

end Operation

end Semdoc
