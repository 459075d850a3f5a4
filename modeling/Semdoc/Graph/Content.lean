import Semdoc.Graph.Slot
import Semdoc.RangeSet
import Semdoc.Token

/-! # Content of nodes

What a node is decides what it says about itself, apart from the nodes in its slots: projects,
typesystems and their types, ontologies with their classes and fields, documents with their
entities.  References to single nodes that are not owned stand here too.
-/

namespace Semdoc

/-- What a type accepts. -/
inductive TypeShape where
  | bool
  | int
  | double
  | string
  /-- Any value at all. -/
  | unknown
  /-- One of some named constants, stored as its number. -/
  | enumeration (constants : List String)
  /-- Arrays of another type. -/
  | array (inner : NodeHandle)
  /-- Named attributes, those of the parent first. -/
  | struct (parent : Option NodeHandle)
  deriving DecidableEq, Inhabited

namespace TypeShape

/-- The type tag of a shape. -/
def tag : TypeShape → TypeTag
  | bool => .boolType
  | int => .intType
  | double => .doubleType
  | string => .stringType
  | unknown => .unknownType
  | enumeration _ => .enumerationType
  | array _ => .arrayType
  | struct _ => .structType

/-- Whether the type accepts single scalar values. -/
def isPrimitive : TypeShape → Bool
  | bool | int | double | string => true
  | _ => false

/-- Whether the type is a struct. -/
def isStruct : TypeShape → Bool
  | struct _ => true
  | _ => false

end TypeShape

/-- An attribute of a struct. -/
structure AttributeContent where
  /-- The type of the attribute; without one anything is accepted. -/
  type : Option NodeHandle := none
  /-- The default of an optional attribute. -/
  substitute : Option Value := none
  deriving Inhabited

/-- The tokens between which something is written. -/
structure TokenPair where
  start : TokenUse := {}
  stop : TokenUse := {}
  deriving DecidableEq, Inhabited

/-- A class of structured entities. -/
structure ClassContent where
  tokens : TokenPair := {}
  /-- A token that stands for an empty entity. -/
  shortToken : TokenUse := {}
  /-- How many instances a field may hold. -/
  cardinality : RangeSet := .any
  superclass : Option NodeHandle := none
  /-- Whether instances may be inserted implicitly. -/
  transparent : Bool := false
  /-- Whether instances may be the root of a document. -/
  root : Bool := false
  deriving Inhabited

/-- The kinds of fields. -/
inductive FieldType where
  /-- The main content, of which there is at most one. -/
  | tree
  /-- Additional content such as headings or captions. -/
  | subtree
  deriving DecidableEq, Inhabited

/-- A field of a class. -/
structure FieldContent where
  type : FieldType := .tree
  optional : Bool := false
  whitespace : WhitespaceMode := .collapse
  /-- The type of the value in a primitive field; other fields have none. -/
  primitiveType : Option NodeHandle := none
  tokens : TokenPair := {}
  deriving DecidableEq, Inhabited

/-- Whether a field holds a value instead of entities. -/
def FieldContent.isPrimitive (f : FieldContent) : Bool := f.primitiveType.isSome

/-- An instance of a class. -/
structure EntityContent where
  descriptor : NodeHandle
  attributes : Value
  deriving Inhabited

/-- What a node is. -/
inductive Content where
  | project (system : Option NodeHandle)
  | typesystem (isSystem : Bool)
  | type (shape : TypeShape)
  | attr (a : AttributeContent)
  | ontology
  | structuredClass (c : ClassContent)
  | annotationClass (tokens : TokenPair)
  | fieldDescriptor (f : FieldContent)
  | document
  | structuredEntity (e : EntityContent)
  | annotationEntity (e : EntityContent) (start stop : Option NodeHandle)
  | documentPrimitive (value : Value)
  /-- An anchor, and the annotation it belongs to. -/
  | anchor (mark : Option NodeHandle)
  deriving Inhabited

namespace Content

/-- The type tag of a node with this content. -/
def tag : Content → TypeTag
  | project _ => .project
  | typesystem true => .systemTypesystem
  | typesystem false => .typesystem
  | type shape => shape.tag
  | attr _ => .attr
  | ontology => .ontology
  | structuredClass _ => .structuredClass
  | annotationClass _ => .annotationClass
  | fieldDescriptor _ => .fieldDescriptor
  | document => .document
  | structuredEntity _ => .structuredEntity
  | annotationEntity .. => .annotationEntity
  | documentPrimitive _ => .documentPrimitive
  | anchor _ => .anchor

/-- Whether the content is that of an entity, whose fields are slots made on demand. -/
def isEntity : Content → Bool
  | structuredEntity _ | annotationEntity .. => true
  | _ => false

/-- The slot for a single owned node. -/
def singleSlot? : Content → Option Slot
  | structuredClass _ | annotationClass _ => some .descriptorAttributes
  | document => some .documentRoot
  | _ => none

/-- The slots for lists of nodes that are there from the beginning, in the order of resolution. -/
def listSlots : Content → List Slot
  | project _ => [.projectDocuments, .projectOntologies, .projectTypesystems]
  | typesystem _ => [.typesystemTypes, .typesystemIncludes]
  | type (.struct _) => [.structAttributes]
  | ontology =>
    [.ontologyClasses, .ontologyAnnotationClasses, .ontologyDependencies, .ontologyTypesystems]
  | structuredClass _ => [.descriptorFields, .classSubclasses]
  | annotationClass _ => [.descriptorFields]
  | fieldDescriptor _ => [.fieldChildren]
  | document => [.documentAnnotations, .documentOntologies, .documentTypesystems]
  | _ => []

/-- The nodes that the content itself refers to. -/
def references : Content → List NodeHandle
  | project system => system.toList
  | type (.array inner) => [inner]
  | type (.struct parent) => parent.toList
  | attr a => a.type.toList
  | structuredClass c => c.superclass.toList
  | fieldDescriptor f => f.primitiveType.toList
  | structuredEntity e => [e.descriptor]
  | annotationEntity e start stop => e.descriptor :: start.toList ++ stop.toList
  | anchor mark => mark.toList
  | _ => []

theorem not_isSingle_listSlots (c : Content) : c.listSlots.all (fun s => !s.isSingle) = true := by
  cases c with
  | type shape => cases shape <;> rfl
  | _ => rfl

end Content

end Semdoc
