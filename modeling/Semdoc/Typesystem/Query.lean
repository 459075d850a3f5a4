import Semdoc.Graph.Store
import Semdoc.Walk

/-! # Questions about typesystems

A typesystem holds types and sees those of the typesystems it includes.  A struct type has the
attributes of its whole line of parents, those of the farthest parent first.
-/

namespace Semdoc.Store

/-- The shape of a type. -/
def shape? (s : Store) (type : NodeHandle) : Option TypeShape :=
  match s.content? type with
  | some (.type shape) => some shape
  | _ => none

/-- Whether a node is the typesystem of the basic types. -/
def isSystemTypesystem (s : Store) (h : NodeHandle) : Bool :=
  match s.content? h with
  | some (.typesystem isSystem) => isSystem
  | _ => false

/-- The content of an attribute. -/
def attribute? (s : Store) (h : NodeHandle) : Option AttributeContent :=
  match s.content? h with
  | some (.attr a) => some a
  | _ => none

/-- A typesystem and all that it includes, directly or not, in the order of looking up. -/
def visibleTypesystems (s : Store) (typesystem : NodeHandle) : List NodeHandle :=
  Walk.depthFirst (s.listed · .typesystemIncludes) (s.extent + 1) [typesystem] []

/-- The type of a name that a typesystem sees. -/
def lookupType (s : Store) (typesystem : NodeHandle) (name : String) : Option NodeHandle :=
  (s.visibleTypesystems typesystem).findSome? (s.childNamed? · .typesystemTypes name)

/-- The parent of a struct type. -/
def structParent? (s : Store) (type : NodeHandle) : Option NodeHandle :=
  match s.shape? type with
  | some (.struct parent) => parent
  | _ => none

/-- A handle, if it reaches a struct type. -/
def struct? (s : Store) (type : NodeHandle) : Option NodeHandle :=
  (s.shape? type).bind fun shape => if shape.isStruct then some type else none

/-- A struct type and its parents, the nearest first, up to where they repeat. -/
def structLine (s : Store) (type : NodeHandle) : List NodeHandle :=
  Walk.follow (fun t => (s.structParent? t).bind s.struct?) (s.extent + 1) (s.struct? type) []

/-- Whether the parents of a struct type repeat. -/
def structHasCycle (s : Store) (type : NodeHandle) : Bool :=
  let line := s.structLine type
  ((line.getLast?.bind s.structParent?).map line.contains).getD false

/-- The attributes of a struct type and its parents, those of the farthest parent first. -/
def structAttributes (s : Store) (type : NodeHandle) : List NodeHandle :=
  (s.structLine type).reverse.flatMap (s.listed · .structAttributes)

/-- The position of the first attribute with a name. -/
def structAttributeIndex? (s : Store) (type : NodeHandle) (name : String) : Option Nat :=
  (s.structAttributes type).findIdx? fun a => s.name a == name

/-- The constants of an enumeration. -/
def enumerationConstants (s : Store) (type : NodeHandle) : List String :=
  match s.shape? type with
  | some (.enumeration constants) => constants
  | _ => []

/-- The number of a constant. -/
def enumerationOrdinal? (s : Store) (type : NodeHandle) (name : String) : Option Nat :=
  (s.enumerationConstants type).findIdx? (· == name)

/-- The default value of a type, with structs inside structs up to some depth. -/
def defaultWithin (s : Store) : Nat → NodeHandle → Value
  | 0, _ => .null
  | depth + 1, type =>
    match s.shape? type with
    | some .bool => .bool false
    | some .int | some (.enumeration _) => .int 0
    | some .double => .double .zero
    | some .string => .string ""
    | some (.array _) => .array []
    | some (.struct _) =>
      .array <| (s.structAttributes type).map fun a =>
        match s.attribute? a with
        | some { substitute := some v, .. } => v
        | some { type := some t, .. } => defaultWithin s depth t
        | _ => .null
    | some .unknown | none => .null

/-- The default value of a type. -/
def defaultOf (s : Store) (type : NodeHandle) : Value :=
  s.defaultWithin s.bound type

/-- The default value of an attribute. -/
def attributeDefault (s : Store) (a : NodeHandle) : Value :=
  match s.attribute? a with
  | some { substitute := some v, .. } => v
  | some { type := some t, .. } => s.defaultOf t
  | _ => .null

end Semdoc.Store
