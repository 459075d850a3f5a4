/-! # Type tags

Every kind of value and every class of node has a tag.  Tags form a hierarchy (`parents`,
`isA`), and each says which tags its instances may own directly (`parts`) or through several
steps (`mayOwn`), which tells a search for nodes of some type where it need not look.
-/

namespace Semdoc

/-- The kinds of values and the classes of nodes. -/
inductive TypeTag where
  /-- No restriction. -/
  | any
  | null
  | bool
  | int
  | double
  | string
  | array
  | map
  | function
  | node
  | project
  | typesystem
  | systemTypesystem
  | typeNode
  | boolType
  | intType
  | doubleType
  | stringType
  | unknownType
  | enumerationType
  | arrayType
  | structType
  | attr
  | ontology
  | descriptor
  | structuredClass
  | annotationClass
  | fieldDescriptor
  | document
  /-- What owns content of a document. -/
  | documentEntity
  | structureNode
  | structuredEntity
  | documentPrimitive
  | anchor
  | annotationEntity
  deriving DecidableEq, Inhabited

namespace TypeTag

/-- All tags in the order of their declaration. -/
def all : List TypeTag :=
  [any, null, bool, int, double, string, array, map, function, node, project, typesystem,
   systemTypesystem, typeNode, boolType, intType, doubleType, stringType, unknownType,
   enumerationType, arrayType, structType, attr, ontology, descriptor, structuredClass,
   annotationClass, fieldDescriptor, document, documentEntity, structureNode, structuredEntity,
   documentPrimitive, anchor, annotationEntity]

/-- The name used in messages. -/
def name : TypeTag → String
  | any => "none"
  | null => "nullptr"
  | bool => "bool"
  | int => "int"
  | double => "double"
  | string => "string"
  | array => "array"
  | map => "map"
  | function => "function"
  | node => "Node"
  | project => "Project"
  | typesystem => "Typesystem"
  | systemTypesystem => "SystemTypesystem"
  | typeNode => "Type"
  | boolType => "BoolType"
  | intType => "IntType"
  | doubleType => "DoubleType"
  | stringType => "StringType"
  | unknownType => "UnknownType"
  | enumerationType => "EnumerationType"
  | arrayType => "ArrayType"
  | structType => "StructType"
  | attr => "Attribute"
  | ontology => "Ontology"
  | descriptor => "Descriptor"
  | structuredClass => "StructuredClass"
  | annotationClass => "AnnotationClass"
  | fieldDescriptor => "FieldDescriptor"
  | document => "Document"
  | documentEntity => "DocumentEntity"
  | structureNode => "StructureNode"
  | structuredEntity => "StructuredEntity"
  | documentPrimitive => "DocumentPrimitive"
  | anchor => "Anchor"
  | annotationEntity => "AnnotationEntity"

/-- The tag of a name. -/
def ofName? (s : String) : Option TypeTag :=
  all.find? fun t => t.name == s

/-- The tags a tag is declared to specialise. -/
def parents : TypeTag → List TypeTag
  | project | typesystem | typeNode | attr | ontology | descriptor | fieldDescriptor | document
  | structureNode => [node]
  | systemTypesystem => [typesystem]
  | boolType | intType | doubleType | stringType | unknownType | enumerationType | arrayType
  | structType => [typeNode]
  | structuredClass | annotationClass => [descriptor]
  | structuredEntity => [structureNode, documentEntity]
  | documentPrimitive | anchor => [structureNode]
  | annotationEntity => [node, documentEntity]
  | _ => []

/-- The tags whose instances an instance of this very tag may own. -/
def parts : TypeTag → List TypeTag
  | project => [document, ontology, typesystem]
  | typesystem => [typeNode]
  | structType => [attr]
  | ontology => [structuredClass, annotationClass]
  | descriptor => [structType, fieldDescriptor]
  | document => [structuredEntity, annotationEntity]
  | documentEntity => [structureNode]
  | _ => []

/-- The number of steps from a tag up to the top of the hierarchy. -/
def height : TypeTag → Nat
  | systemTypesystem | boolType | intType | doubleType | stringType | unknownType
  | enumerationType | arrayType | structType | structuredClass | annotationClass
  | structuredEntity | documentPrimitive | anchor => 2
  | project | typesystem | typeNode | attr | ontology | descriptor | fieldDescriptor | document
  | structureNode | annotationEntity => 1
  | _ => 0

theorem height_lt_of_mem_parents {t p : TypeTag} (h : p ∈ t.parents) : p.height < t.height := by
  revert p
  cases t <;> decide

/-- A tag and everything above it. -/
def ancestors (t : TypeTag) : List TypeTag :=
  (t :: t.parents.attach.flatMap fun ⟨p, _⟩ => ancestors p).eraseDups
termination_by t.height
decreasing_by exact height_lt_of_mem_parents ‹_›

/-- Whether a tag is another one or specialises it. -/
def isA (t u : TypeTag) : Bool :=
  t == u || t.ancestors.contains u

/-- Whether a tag is one of several others or specialises one of them. -/
def isOneOf (t : TypeTag) (us : List TypeTag) : Bool :=
  us.any t.isA

/-- What instances of a tag may own in one step, by itself or by a tag above it. -/
def directParts (t : TypeTag) : List TypeTag :=
  t.ancestors.flatMap parts

/-- Adds to `found` what the tags of `queue` are and may own.  Every tag is expanded once, so the
number of all tags bounds the rounds. -/
def collectParts : Nat → List TypeTag → List TypeTag → List TypeTag
  | 0, _, found => found
  | rounds + 1, queue, found =>
    match (queue.filter fun t => !found.contains t).eraseDups with
    | [] => found
    | fresh => collectParts rounds (fresh.flatMap directParts) (found ++ fresh)

/-- What instances of a tag may own in one or more steps. -/
def allParts (t : TypeTag) : List TypeTag :=
  collectParts all.length t.directParts []

/-- Whether instances of a tag may own instances of another, through any number of steps. -/
def mayOwn (t u : TypeTag) : Bool :=
  t.allParts.any u.isA

end TypeTag

end Semdoc
