import Semdoc.Graph.Store
import Semdoc.Walk

/-! # Questions about ontologies

A class has its own fields and those of its superclasses.  A field of a nearer class hides those
with the same name farther away.  Of the fields that are left the additional ones come first, those
of the farthest class before the others, and then the nearest tree field.
-/

namespace Semdoc

/-- The name of a field for which no name is given. -/
def defaultFieldName : String := "$default"

namespace Store

/-- The content of a structured class. -/
def class? (s : Store) (h : NodeHandle) : Option ClassContent :=
  match s.content? h with
  | some (.structuredClass c) => some c
  | _ => none

/-- The tokens of a structured class or an annotation class. -/
def descriptorTokens? (s : Store) (h : NodeHandle) : Option TokenPair :=
  match s.content? h with
  | some (.structuredClass c) => some c.tokens
  | some (.annotationClass tokens) => some tokens
  | _ => none

/-- The content of a field. -/
def field? (s : Store) (h : NodeHandle) : Option FieldContent :=
  match s.content? h with
  | some (.fieldDescriptor f) => some f
  | _ => none

/-- The kind of a field. -/
def fieldType? (s : Store) (field : NodeHandle) : Option FieldType :=
  (s.field? field).map (·.type)

/-- Whether a node is a tree field. -/
def isTreeField (s : Store) (field : NodeHandle) : Bool :=
  s.fieldType? field == some .tree

/-- Whether a node is a field that holds a value. -/
def isPrimitiveField (s : Store) (field : NodeHandle) : Bool :=
  ((s.field? field).map (·.isPrimitive)).getD false

/-- The struct type for the attributes of a class. -/
def attributesOf? (s : Store) (descriptor : NodeHandle) : Option NodeHandle :=
  if (s.descriptorTokens? descriptor).isSome then (s.get? descriptor).bind (·.single) else none

/-- The fields that a class has itself. -/
def ownFields (s : Store) (descriptor : NodeHandle) : List NodeHandle :=
  s.listed descriptor .descriptorFields

/-- The classes that a field declares as its children. -/
def declaredChildren (s : Store) (field : NodeHandle) : List NodeHandle :=
  s.listed field .fieldChildren

/-- The superclass of a class. -/
def superclass? (s : Store) (h : NodeHandle) : Option NodeHandle :=
  (s.class? h).bind (·.superclass)

/-- The direct subclasses of a class. -/
def subclasses (s : Store) (h : NodeHandle) : List NodeHandle :=
  s.listed h .classSubclasses

/-- Whether instances of a class may be inserted implicitly. -/
def isTransparent (s : Store) (h : NodeHandle) : Bool :=
  ((s.class? h).map (·.transparent)).getD false

/-- A handle, if it reaches a node. -/
def live? (s : Store) (h : NodeHandle) : Option NodeHandle :=
  if s.contains h then some h else none

/-- A class and its superclasses, the nearest first, up to where they repeat. -/
def classLine (s : Store) (h : NodeHandle) : List NodeHandle :=
  Walk.follow (fun c => (s.superclass? c).bind s.live?) (s.extent + 1) (s.live? h) []

/-- Whether the superclasses of a class repeat. -/
def hasInheritanceCycle (s : Store) (h : NodeHandle) : Bool :=
  let line := s.classLine h
  ((line.getLast?.bind s.superclass?).map line.contains).getD false

/-- Whether a class is another one or inherits from it. -/
def isSubclassOf (s : Store) (h other : NodeHandle) : Bool :=
  (s.classLine h).contains other

/-- The fields of each of some classes that no class before hides. -/
def visibleFields (s : Store) : List String → List NodeHandle → List (List NodeHandle)
  | _, [] => []
  | seen, c :: r =>
    let fields := Walk.firstByKey s.name seen (s.ownFields c)
    fields :: s.visibleFields (fields.map s.name ++ seen) r

/-- The fields that instances of a class have. -/
def effectiveFields (s : Store) (descriptor : NodeHandle) : List NodeHandle :=
  if (s.class? descriptor).isNone then s.ownFields descriptor
  else
    let levels := s.visibleFields [] (s.classLine descriptor)
    let additional := levels.map fun fields => fields.filter fun f => !s.isTreeField f
    additional.reverse.flatten ++ (levels.flatten.find? s.isTreeField).toList

/-- The number of the field with a name; an empty name means the default one. -/
def fieldNumber? (s : Store) (descriptor : NodeHandle) (name : String) : Option Nat :=
  let name := if name == "" then defaultFieldName else name
  (s.effectiveFields descriptor).findIdx? fun f => s.name f == name

/-- The field with a name; an empty name means the default one. -/
def fieldNamed? (s : Store) (descriptor : NodeHandle) (name : String) : Option NodeHandle :=
  (s.fieldNumber? descriptor name).bind fun i => (s.effectiveFields descriptor)[i]?

/-- The tree fields among the fields of a class. -/
def treeFields (s : Store) (descriptor : NodeHandle) : List NodeHandle :=
  (s.effectiveFields descriptor).filter s.isTreeField

/-- The classes that a field may hold: those it declares and all their subclasses. -/
def permittedChildren (s : Store) (field : NodeHandle) : List NodeHandle :=
  Walk.breadthFirst s.subclasses s.extent (s.declaredChildren field) []

/-- The transparent classes that a field may hold. -/
def transparentChildren (s : Store) (field : NodeHandle) : List NodeHandle :=
  (s.permittedChildren field).filter s.isTransparent

/-- The primitive tree fields that can be reached from a class through transparent classes, the
closest first. -/
def defaultFields (s : Store) (descriptor : NodeHandle) : List NodeHandle :=
  let next (c : NodeHandle) : List NodeHandle :=
    ((s.treeFields c).filter fun f => !s.isPrimitiveField f).flatMap s.transparentChildren
  (Walk.breadthFirst next (s.extent + 1) [descriptor] []).flatMap fun c =>
    (s.treeFields c).filter s.isPrimitiveField

end Store

end Semdoc
