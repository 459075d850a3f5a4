/-! # Slots

A node keeps its connections to other nodes in named slots.  Through a composition slot it owns the
nodes in it; through any other slot it only refers to nodes that are owned elsewhere.
-/

namespace Semdoc

/-- A named place of a node for other nodes. -/
inductive Slot where
  | projectDocuments
  | projectOntologies
  | projectTypesystems
  | typesystemTypes
  | typesystemIncludes
  | structAttributes
  | ontologyClasses
  | ontologyAnnotationClasses
  | ontologyDependencies
  | ontologyTypesystems
  | descriptorAttributes
  | descriptorFields
  | fieldChildren
  | classSubclasses
  | documentRoot
  | documentAnnotations
  | documentOntologies
  | documentTypesystems
  /-- The content of the field with this number. -/
  | entityField (number : Nat)
  deriving DecidableEq, Inhabited

namespace Slot

/-- The slots that are no fields. -/
def fixed : List Slot :=
  [projectDocuments, projectOntologies, projectTypesystems, typesystemTypes, typesystemIncludes,
   structAttributes, ontologyClasses, ontologyAnnotationClasses, ontologyDependencies,
   ontologyTypesystems, descriptorAttributes, descriptorFields, fieldChildren, classSubclasses,
   documentRoot, documentAnnotations, documentOntologies, documentTypesystems]

/-- Whether a node owns what is in the slot. -/
def isComposition : Slot → Bool
  | typesystemIncludes | ontologyDependencies | ontologyTypesystems | fieldChildren
  | classSubclasses | documentOntologies | documentTypesystems => false
  | _ => true

/-- Whether the slot holds at most one node. -/
def isSingle : Slot → Bool
  | descriptorAttributes | documentRoot => true
  | _ => false

/-- Whether the slot is a field of an entity. -/
def isField : Slot → Bool
  | entityField _ => true
  | _ => false

/-- The written name of a slot. -/
def name : Slot → String
  | projectDocuments => "ProjectDocuments"
  | projectOntologies => "ProjectOntologies"
  | projectTypesystems => "ProjectTypesystems"
  | typesystemTypes => "TypesystemTypes"
  | typesystemIncludes => "TypesystemIncludes"
  | structAttributes => "StructAttributes"
  | ontologyClasses => "OntologyClasses"
  | ontologyAnnotationClasses => "OntologyAnnotationClasses"
  | ontologyDependencies => "OntologyDependencies"
  | ontologyTypesystems => "OntologyTypesystems"
  | descriptorAttributes => "DescriptorAttributes"
  | descriptorFields => "DescriptorFields"
  | fieldChildren => "FieldChildren"
  | classSubclasses => "ClassSubclasses"
  | documentRoot => "DocumentRoot"
  | documentAnnotations => "DocumentAnnotations"
  | documentOntologies => "DocumentOntologies"
  | documentTypesystems => "DocumentTypesystems"
  | entityField number => s!"EntityField({number})"

/-- The slot with a name. -/
def ofName? (s : String) : Option Slot :=
  let digits := String.ofList (s.toList.filter Char.isDigit)
  let field := entityField (digits.toNat?.getD 0)
  (field :: fixed).find? fun slot => slot.name == s

theorem isComposition_of_isSingle {s : Slot} (h : s.isSingle = true) : s.isComposition = true := by
  cases s <;> simp_all [isSingle, isComposition]

theorem isComposition_of_isField {s : Slot} (h : s.isField = true) : s.isComposition = true := by
  cases s <;> simp_all [isField, isComposition]

end Slot

end Semdoc
