import Semdoc.Document.Query
import Semdoc.Ontology.Build
import Semdoc.Typesystem.Prepare

/-! # Building documents
-/

namespace Semdoc

namespace Edit

/-- Takes over the answer to a question that may have none. -/
def demand (f : Store → Except EditFault α) : Edit α := do
  match f (← get) with
  | .ok a => return a
  | .error fault => throw fault

/-- Creates a document. -/
def createDocument (name : String) : Edit NodeHandle :=
  create name .document

/-- Makes an ontology visible in a document. -/
def addDocumentOntology (document ontology : NodeHandle) : Edit Unit :=
  attach document .documentOntologies ontology

/-- Makes a typesystem visible in a document. -/
def addDocumentTypesystem (document typesystem : NodeHandle) : Edit Unit :=
  attach document .documentTypesystems typesystem

/-- Creates an instance of a structured class that is not in a document yet. -/
def createEntity (descriptor : NodeHandle) (attributes : Option Value) (name : String) :
    Edit NodeHandle := do
  let s ← get
  if !s.isA descriptor .structuredClass then throw (.notInstantiable (s.name descriptor))
  create name (.structuredEntity { descriptor, attributes := attributes.getD (.map []) })

/-- Creates the root of a document in place of one that it has. -/
def createRoot (document descriptor : NodeHandle) (attributes : Option Value) (name : String) :
    Edit NodeHandle := do
  let h ← createEntity descriptor attributes name
  attach document .documentRoot h
  return h

/-- Puts a node at the end of a field of an entity and takes it away from where it was. -/
def addStructureNode (entity h : NodeHandle) (number : Nat) : Edit Unit := do
  let s ← get
  if !s.isA h .structureNode then throw (.notStructural (s.tag h))
  let descriptor ← demand (·.descriptorOf entity)
  let count := (s.effectiveFields descriptor).length
  if count ≤ number then throw (.fieldOutOfRange number (s.name descriptor) count)
  attach entity (.entityField number) h

/-- Creates an entity in a field of another one. -/
def createChild (parent descriptor : NodeHandle) (attributes : Option Value)
    (field name : String) : Edit NodeHandle := do
  let number ← demand (·.entityFieldNumber parent field)
  let h ← createEntity descriptor attributes name
  addStructureNode parent h number
  return h

/-- Creates a value in a field of an entity. -/
def createPrimitive (parent : NodeHandle) (v : Value) (field : String) : Edit NodeHandle := do
  let number ← demand (·.entityFieldNumber parent field)
  let h ← create "" (.documentPrimitive v)
  addStructureNode parent h number
  return h

/-- Creates an anchor in a field of an entity. -/
def createAnchor (parent : NodeHandle) (field : String) : Edit NodeHandle := do
  let number ← demand (·.entityFieldNumber parent field)
  let h ← create "" (.anchor none)
  addStructureNode parent h number
  return h

/-- Changes the annotation that an anchor belongs to, if it is one. -/
def reviseAnchor (anchor : NodeHandle) (mark : Option NodeHandle) : Edit Unit := do
  modify fun s =>
    (s.invalidate anchor).modify anchor fun n =>
      match n.content with
      | .anchor _ => { n with content := .anchor mark }
      | _ => n

/-- The endpoints of annotations. -/
inductive Endpoint where
  | start
  | stop
  deriving DecidableEq, Inhabited

/-- Makes an anchor an endpoint of an annotation.  The anchor that was it before belongs to nothing
then. -/
def bindAnchor (mark anchor : NodeHandle) (which : Endpoint) : Edit Unit := do
  let s ← get
  if !s.isA anchor .anchor then throw .endpointNotAnAnchor
  let previous := (s.annotation? mark).bind fun a =>
    match which with
    | .start => a.start
    | .stop => a.stop
  revise mark .annotationExpected fun
    | .annotationEntity e start stop =>
      match which with
      | .start => some (.annotationEntity e (some anchor) stop)
      | .stop => some (.annotationEntity e start (some anchor))
    | _ => none
  if let some p := previous then
    if p != anchor then reviseAnchor p none
  reviseAnchor anchor (some mark)

/-- Creates an annotation of a document.  Its endpoints may be set later. -/
def createAnnotation (document descriptor : NodeHandle) (attributes : Option Value)
    (start stop : Option NodeHandle) (name : String) : Edit NodeHandle := do
  let s ← get
  if !s.isA descriptor .annotationClass then throw (.notAnAnnotationClass (s.name descriptor))
  let h ← createIn document .documentAnnotations name
    (.annotationEntity { descriptor, attributes := attributes.getD (.map []) } none none)
  if let some anchor := start then bindAnchor h anchor .start
  if let some anchor := stop then bindAnchor h anchor .stop
  return h

/-- Sets the attributes of an entity. -/
def setAttributes (entity : NodeHandle) (attributes : Value) : Edit Unit :=
  revise entity .entityExpected fun
    | .structuredEntity e => some (.structuredEntity { e with attributes })
    | .annotationEntity e start stop => some (.annotationEntity { e with attributes } start stop)
    | _ => none

end Edit

namespace Store

/-- Takes a node out of the field it is in, and tells whether it was in one. -/
def removeStructureNode (s : Store) (h : NodeHandle) : Bool × Store :=
  match s.home? h with
  | some { owner, slot := .entityField number } => s.removeFrom owner (.entityField number) h
  | _ => (false, s)

/-- Prepares the attributes of an entity for its class.  They stay as they are unless that
succeeds. -/
def prepareAttributesOf (s : Store) (entity : NodeHandle) : Logged (Bool × Store) := do
  match s.entity? entity with
  | none => return (false, s)
  | some e =>
    match s.attributesOf? e.descriptor with
    | none => return (false, s)
    | some type =>
      let prepared ← s.prepare type e.attributes
      if prepared.ok then
        return (true, ((Edit.setAttributes entity prepared.value).apply s).2)
      else return (false, s)

end Store

end Semdoc
