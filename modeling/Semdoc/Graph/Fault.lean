import Semdoc.Failure
import Semdoc.Graph.Slot
import Semdoc.TypeTag

/-! # Why an edit is refused

Every way in which an edit of the node graph can go wrong has its own cause.  The wording is in one
place, `EditFault.message`; all of these failures are structural.
-/

namespace Semdoc

/-- Why an edit of the node graph is refused. -/
inductive EditFault where
  /-- A handle reaches no node. -/
  | staleHandle
  /-- A node of this type has no such slot. -/
  | noSlot (type : TypeTag) (slot : Slot)
  /-- A node would come to own one of its owners; both are given by path. -/
  | ownsAncestor (owner child : String)
  /-- A parent is set on something that is no struct type. -/
  | parentOfNonStruct
  /-- Something that is no field is added as a field. -/
  | notAField
  /-- Something that is no structured class is allowed in a field. -/
  | notAClass (name : String)
  /-- Something that is no structured class is made a superclass. -/
  | superclassNotAClass (name : String)
  /-- A superclass is set on something that is no structured class. -/
  | superclassOfNonClass
  /-- A structured class is needed. -/
  | classExpected
  /-- A field is needed. -/
  | fieldExpected
  /-- Tokens are set on something that has none. -/
  | noTokens
  /-- Something that is no structured class is instantiated. -/
  | notInstantiable (name : String)
  /-- Something that is no annotation class is used to annotate. -/
  | notAnAnnotationClass (name : String)
  /-- Something that is no anchor is made the endpoint of an annotation. -/
  | endpointNotAnAnchor
  /-- An annotation is needed. -/
  | annotationExpected
  /-- A node of this type is put into the structure of a document. -/
  | notStructural (type : TypeTag)
  /-- A class has fewer fields than a field number needs. -/
  | fieldOutOfRange (number : Nat) (className : String) (count : Nat)
  /-- An entity is needed. -/
  | entityExpected
  /-- A class has no single tree field. -/
  | noDefaultField (className : String)
  /-- A class has no field of a name. -/
  | noField (className field : String)
  /-- A draft mentions a class that it does not declare. -/
  | unknownClass (name : String)
  /-- A draft mentions a type that the system does not have. -/
  | unknownType (name : String)
  deriving DecidableEq, Inhabited

namespace EditFault

/-- The wording of a cause. -/
def message : EditFault → String
  | staleHandle => "Invalid node handle"
  | noSlot type slot => s!"{type.name} has no slot {slot.name}"
  | ownsAncestor owner child => s!"Cannot make \"{owner}\" own its ancestor \"{child}\""
  | parentOfNonStruct => "Parent can only be set on struct types"
  | notAField => "Only field descriptors can be added as fields"
  | notAClass name => s!"\"{name}\" is not a structured class"
  | superclassNotAClass name => s!"Superclass \"{name}\" is not a structured class"
  | superclassOfNonClass => "Superclass can only be set on structured classes"
  | classExpected => "Expected a structured class"
  | fieldExpected => "Expected a field descriptor"
  | noTokens => "Node cannot have tokens"
  | notInstantiable name => s!"Cannot instantiate \"{name}\": not a structured class"
  | notAnAnnotationClass name => s!"Cannot annotate with \"{name}\": not an annotation class"
  | endpointNotAnAnchor => "Annotation endpoints must be anchors"
  | annotationExpected => "Expected an annotation entity"
  | notStructural type => s!"{type.name} cannot be part of a document structure"
  | fieldOutOfRange number className count =>
    s!"Field index {number} out of range, \"{className}\" has {count} fields"
  | entityExpected => "Expected a document entity"
  | noDefaultField className => s!"\"{className}\" has no default field"
  | noField className field => s!"\"{className}\" has no field \"{field}\""
  | unknownClass name => s!"Unknown class \"{name}\""
  | unknownType name => s!"Unknown type \"{name}\""

/-- The failure that reports a cause. -/
def failure (f : EditFault) : Failure := .structural f.message

end EditFault

end Semdoc
