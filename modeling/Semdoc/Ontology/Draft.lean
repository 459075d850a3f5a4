import Semdoc.Project

/-! # Drafts of ontologies

A draft declares classes and fields by name; names are looked up when the ontology is created.
-/

namespace Semdoc

/-- A declared class. -/
structure ClassDraft where
  name : String
  cardinality : RangeSet := .any
  superclass : Option String := none
  transparent : Bool := false
  root : Bool := false
  deriving Inhabited

/-- What a declared field holds. -/
inductive FieldHolds where
  /-- Instances of some classes. -/
  | classes (names : List String)
  /-- A value of a basic type. -/
  | value (type : String)
  deriving DecidableEq, Inhabited

/-- A declared field. -/
structure FieldDraft where
  owner : String
  name : String := ""
  type : FieldType := .tree
  optional : Bool := false
  holds : FieldHolds
  deriving Inhabited

/-- The draft of an ontology. -/
structure OntologyDraft where
  name : String
  classes : List ClassDraft := []
  annotations : List String := []
  fields : List FieldDraft := []
  deriving Inhabited

/-- Handles by name. -/
abbrev NamedNodes := Entries NodeHandle

namespace OntologyDraft

/-- Declares a class. -/
def addClass (d : OntologyDraft) (c : ClassDraft) : OntologyDraft :=
  { d with classes := d.classes ++ [c] }

/-- Changes the class that was declared last. -/
def reviseLast (d : OntologyDraft) (f : ClassDraft → ClassDraft) : OntologyDraft :=
  match d.classes.getLast? with
  | none => d
  | some c => { d with classes := d.classes.dropLast ++ [f c] }

/-- Declares an annotation class. -/
def addAnnotation (d : OntologyDraft) (name : String) : OntologyDraft :=
  { d with annotations := d.annotations ++ [name] }

/-- Declares a field. -/
def addField (d : OntologyDraft) (f : FieldDraft) : OntologyDraft :=
  { d with fields := d.fields ++ [f] }

/-- The class with a name. -/
def find (named : NamedNodes) (name : String) : Edit NodeHandle :=
  match named.get? name with
  | some h => return h
  | none => throw (.unknownClass name)

/-- Creates a declared field. -/
def createField (named : NamedNodes) (project : NodeHandle) (f : FieldDraft) : Edit Unit := do
  let owner ← find named f.owner
  match f.holds with
  | .value type =>
    let t ← Edit.basicType project type
    let _ ← Edit.createField owner f.type f.name f.optional (some t)
  | .classes names =>
    let h ← Edit.createField owner f.type f.name f.optional none
    names.forM fun name => do
      let child ← find named name
      Edit.addChildClass h child

/-- Creates what a draft declares in a project: the ontology, and its classes by name. -/
def create (d : OntologyDraft) (project : NodeHandle) : Edit (NodeHandle × NamedNodes) := do
  let ontology ← Edit.createProjectOntology project d.name
  let named ← d.classes.foldlM (fun (named : NamedNodes) c => do
    let h ← Edit.createClass ontology c.name c.cardinality none c.transparent c.root
    return named.insert c.name h) []
  let named ← d.annotations.foldlM (fun (named : NamedNodes) name => do
    let h ← Edit.createAnnotationClass ontology name
    return named.insert name h) named
  d.classes.forM fun c => do
    if let some superclass := c.superclass then
      let sup ← find named superclass
      let h ← find named c.name
      Edit.setSuperclass h (some sup)
  d.fields.forM (createField named project)
  return (ontology, named)

end OntologyDraft

end Semdoc
