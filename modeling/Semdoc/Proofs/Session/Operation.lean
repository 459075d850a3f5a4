import Semdoc.Ontology.Syntax
import Semdoc.Proofs.Session.Edits
import Semdoc.Validation

/-!
# Sessions

A session begins with the empty store.  Each step is one of the operations that build or change it, a
validation, or the dropping of all nodes that no root owns.  Handles are not checked in any way before
they are passed to an operation: they may reach no node, or never have been given out.
-/

namespace Semdoc

open Store

/-- The operations that build or change a store. -/
inductive Operation where
  | createProject
  | createProjectDocument (project : NodeHandle) (name : String)
  | createProjectOntology (project : NodeHandle) (name : String)
  | createProjectTypesystem (project : NodeHandle) (name : String)
  | createTypesystem (name : String)
  | createSystemTypesystem
  | createType (typesystem : NodeHandle) (name : String) (shape : TypeShape)
  | createEnumerationType (typesystem : NodeHandle) (name : String) (constants : List String)
  | createArrayType (typesystem inner : NodeHandle)
  | createStructType (typesystem : NodeHandle) (name : String)
  | createAttribute (struct : NodeHandle) (name : String) (type : Option NodeHandle)
      (substitute : Option Value)
  | setStructParent (type : NodeHandle) (parent : Option NodeHandle)
  | addTypesystemInclude (typesystem included : NodeHandle)
  | createOntology (name : String)
  | createClass (ontology : NodeHandle) (name : String) (cardinality : RangeSet)
      (superclass : Option NodeHandle) (transparent root : Bool)
  | createAnnotationClass (ontology : NodeHandle) (name : String)
  | createField (descriptor : NodeHandle) (type : FieldType) (name : String) (optional : Bool)
      (primitiveType : Option NodeHandle)
  | addField (descriptor field : NodeHandle)
  | moveField (descriptor field : NodeHandle)
  | addChildClass (field h : NodeHandle)
  | setSuperclass (h : NodeHandle) (superclass : Option NodeHandle)
  | setCardinality (h : NodeHandle) (cardinality : RangeSet)
  | setTransparent (h : NodeHandle) (transparent : Bool)
  | setRoot (h : NodeHandle) (root : Bool)
  | setShortToken (h : NodeHandle) (token : TokenUse)
  | setStartToken (h : NodeHandle) (token : TokenUse)
  | setStopToken (h : NodeHandle) (token : TokenUse)
  | setFieldType (field : NodeHandle) (type : FieldType)
  | setFieldOptional (field : NodeHandle) (optional : Bool)
  | setFieldWhitespace (field : NodeHandle) (whitespace : WhitespaceMode)
  | addOntologyDependency (ontology dependency : NodeHandle)
  | addOntologyTypesystem (ontology typesystem : NodeHandle)
  | registerOntologyTokens (ontology : NodeHandle) (r : TokenRegistry)
  | createDocument (name : String)
  | addDocumentOntology (document ontology : NodeHandle)
  | addDocumentTypesystem (document typesystem : NodeHandle)
  | createRoot (document descriptor : NodeHandle) (attributes : Option Value) (name : String)
  | createChild (parent descriptor : NodeHandle) (attributes : Option Value)
      (field name : String)
  | createPrimitive (parent : NodeHandle) (v : Value) (field : String)
  | createAnchor (parent : NodeHandle) (field : String)
  | createAnnotation (document descriptor : NodeHandle) (attributes : Option Value)
      (start stop : Option NodeHandle) (name : String)
  | bindAnchor (mark anchor : NodeHandle) (which : Edit.Endpoint)
  | addStructureNode (entity h : NodeHandle) (number : Nat)
  | removeStructureNode (h : NodeHandle)
  | setAttributes (entity : NodeHandle) (attributes : Value)
  | prepareAttributesOf (entity : NodeHandle)
  | setName (h : NodeHandle) (name : String)
  | setLocation (h : NodeHandle) (l : Location)
  | addWatcher (h : NodeHandle)
  | removeWatcher (number : Nat)
  | addRoot (h : NodeHandle)
  | removeRoot (h : NodeHandle)
  | invalidate (h : NodeHandle)

/-- The store after an operation, whether it succeeds or is refused. -/
def Operation.run (s : Store) : Operation → Store
  | createProject => (Edit.createProject.apply s).2
  | createProjectDocument p name => ((Edit.createProjectDocument p name).apply s).2
  | createProjectOntology p name => ((Edit.createProjectOntology p name).apply s).2
  | createProjectTypesystem p name => ((Edit.createProjectTypesystem p name).apply s).2
  | createTypesystem name => ((Edit.createTypesystem name).apply s).2
  | createSystemTypesystem => (Edit.createSystemTypesystem.apply s).2
  | createType ts name shape => ((Edit.createType ts name shape).apply s).2
  | createEnumerationType ts name constants =>
    (s.createEnumerationType ts name constants).value.2
  | createArrayType ts inner => ((Edit.createArrayType ts inner).apply s).2
  | createStructType ts name => ((Edit.createStructType ts name).apply s).2
  | createAttribute struct name type substitute =>
    ((Edit.createAttribute struct name type substitute).apply s).2
  | setStructParent type parent => ((Edit.setStructParent type parent).apply s).2
  | addTypesystemInclude ts included => ((Edit.addTypesystemInclude ts included).apply s).2
  | createOntology name => ((Edit.createOntology name).apply s).2
  | createClass o name cardinality superclass transparent root =>
    ((Edit.createClass o name cardinality superclass transparent root).apply s).2
  | createAnnotationClass o name => ((Edit.createAnnotationClass o name).apply s).2
  | createField d type name optional primitiveType =>
    ((Edit.createField d type name optional primitiveType).apply s).2
  | addField d field => ((Edit.addField d field).apply s).2
  | moveField d field => ((Edit.moveField d field).apply s).2
  | addChildClass field h => ((Edit.addChildClass field h).apply s).2
  | setSuperclass h superclass => ((Edit.setSuperclass h superclass).apply s).2
  | setCardinality h cardinality => ((Edit.setCardinality h cardinality).apply s).2
  | setTransparent h transparent => ((Edit.setTransparent h transparent).apply s).2
  | setRoot h root => ((Edit.setRoot h root).apply s).2
  | setShortToken h token => ((Edit.setShortToken h token).apply s).2
  | setStartToken h token => ((Edit.setStartToken h token).apply s).2
  | setStopToken h token => ((Edit.setStopToken h token).apply s).2
  | setFieldType field type => ((Edit.setFieldType field type).apply s).2
  | setFieldOptional field optional => ((Edit.setFieldOptional field optional).apply s).2
  | setFieldWhitespace field whitespace => ((Edit.setFieldWhitespace field whitespace).apply s).2
  | addOntologyDependency o dependency => ((Edit.addOntologyDependency o dependency).apply s).2
  | addOntologyTypesystem o ts => ((Edit.addOntologyTypesystem o ts).apply s).2
  | registerOntologyTokens o r => (s.registerOntologyTokens o r).2.2
  | createDocument name => ((Edit.createDocument name).apply s).2
  | addDocumentOntology d o => ((Edit.addDocumentOntology d o).apply s).2
  | addDocumentTypesystem d ts => ((Edit.addDocumentTypesystem d ts).apply s).2
  | createRoot d descriptor attributes name =>
    ((Edit.createRoot d descriptor attributes name).apply s).2
  | createChild parent descriptor attributes field name =>
    ((Edit.createChild parent descriptor attributes field name).apply s).2
  | createPrimitive parent v field => ((Edit.createPrimitive parent v field).apply s).2
  | createAnchor parent field => ((Edit.createAnchor parent field).apply s).2
  | createAnnotation d descriptor attributes start stop name =>
    (( Edit.createAnnotation d descriptor attributes start stop name).apply s).2
  | bindAnchor mark anchor which => ((Edit.bindAnchor mark anchor which).apply s).2
  | addStructureNode entity h number => ((Edit.addStructureNode entity h number).apply s).2
  | removeStructureNode h => (s.removeStructureNode h).2
  | setAttributes entity attributes => ((Edit.setAttributes entity attributes).apply s).2
  | prepareAttributesOf entity => (s.prepareAttributesOf entity).value.2
  | setName h name => (s.setName h name).2
  | setLocation h l => s.setLocation h l
  | addWatcher h => (s.addWatcher h).2
  | removeWatcher number => (s.removeWatcher number).2
  | addRoot h => s.addRoot h
  | removeRoot h => (s.removeRoot h).2
  | invalidate h => s.invalidate h

/-- A step of a session. -/
inductive SessionStep where
  | operate (op : Operation)
  | validate (h : NodeHandle)
  | collect

/-- The store after a step. -/
def SessionStep.run (s : Store) : SessionStep → Store
  | operate op => op.run s
  | validate h => (s.validate h).value.2
  | collect => s.collect.2

/-- The store after a session. -/
def Store.after (steps : List SessionStep) : Store := steps.foldl SessionStep.run {}

namespace Operation

lemma changes_registerTokensOf {s : Store} (hs : s.Sound) (h : NodeHandle) (r : TokenRegistry) :
    Changes s (s.registerTokensOf h r).2.2 := by
  unfold registerTokensOf
  split
  · exact .refl
  · next c hc =>
    have h1 : Changes s (s.invalidate h) := .single (.invalidate h)
    refine h1.tail (.revise h (fun _ => (c.registerTokens r).2.1) ?_ (hs.clear_invalidate h))
    intro n hn
    have hm := (SameNodes.invalidate s h).map_get? (·.content) (fun _ => rfl) h
    rw [hn, Option.map_some] at hm
    have e : n.content = c := Option.some.inj (hm.trans hc)
    rw [e]
    cases c <;> exact .of_eq ⟨rfl, rfl, rfl⟩ rfl rfl

lemma changes_registerOntologyTokens {s : Store} (hs : s.Sound) (o : NodeHandle)
    (r : TokenRegistry) : Changes s (s.registerOntologyTokens o r).2.2 := by
  refine @Sound.changes_foldl (List TokenId × TokenRegistry × Store) _ (·.2.2) _ ([], r, s) hs ?_ _
  exact fun p h hp => changes_registerTokensOf hp h p.2.1

lemma changes_removeStructureNode (s : Store) (h : NodeHandle) :
    Changes s (s.removeStructureNode h).2 := by
  unfold Store.removeStructureNode
  split
  · exact .single (.remove _ _ _)
  · exact .refl

lemma changes_prepareAttributesOf {s : Store} (hs : s.Sound) (h : NodeHandle) :
    Changes s (s.prepareAttributesOf h).value.2 := by
  unfold Store.prepareAttributesOf
  split
  · exact .refl
  · split
    · exact .refl
    · rw [Logged.value_bind]
      split
      · exact Edit.makes_setAttributes _ _ s hs
      · exact .refl

/-- Every operation comes down to elementary changes. -/
theorem changes {s : Store} (hs : s.Sound) (op : Operation) : Changes s (op.run s) := by
  cases op with
  | createProject => exact Edit.makes_createProject s hs
  | createProjectDocument p name => exact Edit.makes_createProjectDocument p name s hs
  | createProjectOntology p name => exact Edit.makes_createProjectOntology p name s hs
  | createProjectTypesystem p name => exact Edit.makes_createProjectTypesystem p name s hs
  | createTypesystem name => exact Edit.makes_create _ _ rfl s hs
  | createSystemTypesystem => exact Edit.makes_createSystemTypesystem s hs
  | createType ts name shape => exact Edit.makes_createType ts name shape s hs
  | createEnumerationType ts name constants => exact Edit.makes_createType _ _ _ s hs
  | createArrayType ts inner => exact Edit.makes_createArrayType ts inner s hs
  | createStructType ts name => exact Edit.makes_createType _ _ _ s hs
  | createAttribute struct name type substitute => exact Edit.makes_createAttribute _ _ _ _ s hs
  | setStructParent type parent => exact Edit.makes_setStructParent type parent s hs
  | addTypesystemInclude ts included => exact Edit.makes_attach rfl s hs
  | createOntology name => exact Edit.makes_create _ _ rfl s hs
  | createClass o name cardinality superclass transparent root =>
    exact Edit.makes_createClass _ _ _ _ _ _ s hs
  | createAnnotationClass o name => exact Edit.makes_createAnnotationClass o name s hs
  | createField d type name optional primitiveType => exact Edit.makes_createField _ _ _ _ _ s hs
  | addField d field => exact Edit.makes_addField d field s hs
  | moveField d field => exact Edit.makes_moveField d field s hs
  | addChildClass field h => exact Edit.makes_addChildClass field h s hs
  | setSuperclass h superclass => exact Edit.makes_setSuperclass h superclass s hs
  | setCardinality h cardinality => exact Edit.makes_reviseClass _ _ s hs
  | setTransparent h transparent => exact Edit.makes_reviseClass _ _ s hs
  | setRoot h root => exact Edit.makes_reviseClass _ _ s hs
  | setShortToken h token => exact Edit.makes_reviseClass _ _ s hs
  | setStartToken h token => exact Edit.makes_reviseTokens _ _ s hs
  | setStopToken h token => exact Edit.makes_reviseTokens _ _ s hs
  | setFieldType field type => exact Edit.makes_setFieldType field type s hs
  | setFieldOptional field optional => exact Edit.makes_reviseField _ _ s hs
  | setFieldWhitespace field whitespace => exact Edit.makes_reviseField _ _ s hs
  | addOntologyDependency o dependency => exact Edit.makes_attach rfl s hs
  | addOntologyTypesystem o ts => exact Edit.makes_attach rfl s hs
  | registerOntologyTokens o r => exact changes_registerOntologyTokens hs o r
  | createDocument name => exact Edit.makes_create _ _ rfl s hs
  | addDocumentOntology d o => exact Edit.makes_attach rfl s hs
  | addDocumentTypesystem d ts => exact Edit.makes_attach rfl s hs
  | createRoot d descriptor attributes name => exact Edit.makes_createRoot _ _ _ _ s hs
  | createChild parent descriptor attributes field name =>
    exact Edit.makes_createChild _ _ _ _ _ s hs
  | createPrimitive parent v field => exact Edit.makes_createPrimitive parent v field s hs
  | createAnchor parent field => exact Edit.makes_createAnchor parent field s hs
  | createAnnotation d descriptor attributes start stop name =>
    exact Edit.makes_createAnnotation _ _ _ _ _ _ s hs
  | bindAnchor mark anchor which => exact Edit.makes_bindAnchor mark anchor which s hs
  | addStructureNode entity h number => exact Edit.makes_addStructureNode entity h number s hs
  | removeStructureNode h => exact changes_removeStructureNode s h
  | setAttributes entity attributes => exact Edit.makes_setAttributes entity attributes s hs
  | prepareAttributesOf entity => exact changes_prepareAttributesOf hs entity
  | setName h name => exact .single (.rename h name)
  | setLocation h l => exact .single (.locate h l)
  | addWatcher h => exact .single (.watch h)
  | removeWatcher number => exact .single (.unwatch number)
  | addRoot h => exact .single (.root h)
  | removeRoot h => exact .single (.unroot h)
  | invalidate h => exact .single (.invalidate h)

end Operation

end Semdoc
