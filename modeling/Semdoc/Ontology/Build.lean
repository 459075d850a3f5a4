import Semdoc.Ontology.Query
import Semdoc.Typesystem.Build

/-! # Building ontologies

The fields of a class are kept in order, the additional ones before the tree field.  The struct types
for the attributes of classes inherit from each other as the classes do.
-/

namespace Semdoc

namespace Store

/-- Puts the tree fields of a class behind its other fields. -/
def sortFields (s : Store) (descriptor : NodeHandle) : Store :=
  s.modify descriptor (·.editRoster .descriptorFields (·.moveLast s.isTreeField))

end Store

namespace Edit

/-- Creates an ontology. -/
def createOntology (name : String) : Edit NodeHandle :=
  create name .ontology

/-- Creates the struct type for the attributes of a class. -/
def createAttributes (descriptor : NodeHandle) : Edit NodeHandle :=
  createIn descriptor .descriptorAttributes "" (.type (.struct none))

/-- Creates an attribute of a class. -/
def createClassAttribute (descriptor : NodeHandle) (name : String) (type : NodeHandle)
    (substitute : Option Value) : Edit NodeHandle := do
  match (← get).attributesOf? descriptor with
  | some attributes => createAttribute attributes name (some type) substitute
  | none => throw .classExpected

/-- Changes a structured class. -/
def reviseClass (h : NodeHandle) (f : ClassContent → ClassContent) : Edit Unit :=
  revise h .classExpected fun
    | .structuredClass c => some (.structuredClass (f c))
    | _ => none

/-- Changes a field. -/
def reviseField (h : NodeHandle) (f : FieldContent → FieldContent) : Edit Unit :=
  revise h .fieldExpected fun
    | .fieldDescriptor c => some (.fieldDescriptor (f c))
    | _ => none

/-- Changes the tokens of a class or a field. -/
def reviseTokens (h : NodeHandle) (f : TokenPair → TokenPair) : Edit Unit :=
  revise h .noTokens fun
    | .structuredClass c => some (.structuredClass { c with tokens := f c.tokens })
    | .annotationClass tokens => some (.annotationClass (f tokens))
    | .fieldDescriptor c => some (.fieldDescriptor { c with tokens := f c.tokens })
    | _ => none

/-- Changes the superclass of a class, and with it from where its attributes are inherited. -/
def setSuperclass (h : NodeHandle) (superclass : Option NodeHandle) : Edit Unit := do
  let s ← get
  if let some sup := superclass then
    if !s.isA sup .structuredClass then throw (.superclassNotAClass (s.name sup))
  match s.class? h with
  | none => throw .superclassOfNonClass
  | some c =>
    if c.superclass ≠ superclass then
      if let some previous := c.superclass then
        modify fun s => (s.removeFrom previous .classSubclasses h).2
      reviseClass h fun c => { c with superclass }
      if let some sup := superclass then attach sup .classSubclasses h
      let s ← get
      if let some attributes := s.attributesOf? h then
        setStructParent attributes (superclass.bind s.attributesOf?)

/-- Creates a structured class in an ontology. -/
def createClass (ontology : NodeHandle) (name : String) (cardinality : RangeSet)
    (superclass : Option NodeHandle) (transparent root : Bool) : Edit NodeHandle := do
  let h ← createIn ontology .ontologyClasses name
    (.structuredClass { cardinality, transparent, root })
  let _ ← createAttributes h
  if superclass.isSome then setSuperclass h superclass
  return h

/-- Creates an annotation class in an ontology. -/
def createAnnotationClass (ontology : NodeHandle) (name : String) : Edit NodeHandle := do
  let h ← createIn ontology .ontologyAnnotationClasses name (.annotationClass {})
  let _ ← createAttributes h
  return h

/-- Adds a field to a class. -/
def addField (descriptor field : NodeHandle) : Edit Unit := do
  if !(← get).isA field .fieldDescriptor then throw .notAField
  attach descriptor .descriptorFields field
  modify (·.sortFields descriptor)

/-- Creates a field of a class.  Without a name it is the default field; with a type for values it
holds a value. -/
def createField (descriptor : NodeHandle) (type : FieldType) (name : String) (optional : Bool)
    (primitiveType : Option NodeHandle) : Edit NodeHandle := do
  let name := if name == "" then defaultFieldName else name
  let h ← create name (.fieldDescriptor { type, optional, primitiveType })
  addField descriptor h
  return h

/-- Moves a field to another class. -/
def moveField (descriptor field : NodeHandle) : Edit Unit := do
  let previous := (← get).parent? field
  addField descriptor field
  if let some p := previous then modify (·.sortFields p)

/-- Allows the instances of a class in a field. -/
def addChildClass (field h : NodeHandle) : Edit Unit := do
  let s ← get
  if !s.isA h .structuredClass then throw (.notAClass (s.name h))
  if !(s.declaredChildren field).contains h then attach field .fieldChildren h

/-- Sets how many instances of a class a field may hold. -/
def setCardinality (h : NodeHandle) (cardinality : RangeSet) : Edit Unit :=
  reviseClass h fun c => { c with cardinality }

/-- Sets whether instances of a class may be inserted implicitly. -/
def setTransparent (h : NodeHandle) (transparent : Bool) : Edit Unit :=
  reviseClass h fun c => { c with transparent }

/-- Sets whether instances of a class may be the root of a document. -/
def setRoot (h : NodeHandle) (root : Bool) : Edit Unit :=
  reviseClass h fun c => { c with root }

/-- Sets the token for empty entities of a class. -/
def setShortToken (h : NodeHandle) (shortToken : TokenUse) : Edit Unit :=
  reviseClass h fun c => { c with shortToken }

/-- Sets the token with which a class or a field starts. -/
def setStartToken (h : NodeHandle) (start : TokenUse) : Edit Unit :=
  reviseTokens h fun t => { t with start }

/-- Sets the token with which a class or a field ends. -/
def setStopToken (h : NodeHandle) (stop : TokenUse) : Edit Unit :=
  reviseTokens h fun t => { t with stop }

/-- Sets the kind of a field. -/
def setFieldType (field : NodeHandle) (type : FieldType) : Edit Unit := do
  reviseField field fun f => { f with type }
  if let some descriptor := (← get).parent? field then modify (·.sortFields descriptor)

/-- Sets whether a field may be empty. -/
def setFieldOptional (field : NodeHandle) (optional : Bool) : Edit Unit :=
  reviseField field fun f => { f with optional }

/-- Sets how blanks in a field are treated. -/
def setFieldWhitespace (field : NodeHandle) (whitespace : WhitespaceMode) : Edit Unit :=
  reviseField field fun f => { f with whitespace }

/-- Makes an ontology depend on another one. -/
def addOntologyDependency (ontology dependency : NodeHandle) : Edit Unit :=
  attach ontology .ontologyDependencies dependency

/-- Makes a typesystem visible in an ontology. -/
def addOntologyTypesystem (ontology typesystem : NodeHandle) : Edit Unit :=
  attach ontology .ontologyTypesystems typesystem

end Edit

end Semdoc
