import Semdoc.Graph.Edit
import Semdoc.Log.Event
import Semdoc.Typesystem.Query

/-! # Building typesystems
-/

namespace Semdoc

namespace Edit

/-- Creates a typesystem. -/
def createTypesystem (name : String) : Edit NodeHandle :=
  create name (.typesystem false)

/-- Creates a type in a typesystem. -/
def createType (typesystem : NodeHandle) (name : String) (shape : TypeShape) : Edit NodeHandle :=
  createIn typesystem .typesystemTypes name (.type shape)

/-- Creates the typesystem of the basic types. -/
def createSystemTypesystem : Edit NodeHandle := do
  let ts ← create "system" (.typesystem true)
  let _ ← createType ts "string" .string
  let _ ← createType ts "int" .int
  let _ ← createType ts "double" .double
  let _ ← createType ts "bool" .bool
  return ts

/-- The type of arrays of another type in a typesystem, which is created if it is not visible
there. -/
def createArrayType (typesystem inner : NodeHandle) : Edit NodeHandle := do
  let s ← get
  let name := s!"{s.name inner}[]"
  match (s.childNamed? typesystem .typesystemTypes name).filter
      (fun t => s.shape? t == some (.array inner)) with
  | some existing => return existing
  | none => createType typesystem name (.array inner)

/-- Creates a struct type without attributes. -/
def createStructType (typesystem : NodeHandle) (name : String) : Edit NodeHandle :=
  createType typesystem name (.struct none)

/-- Creates an attribute of a struct type.  One with a default is optional. -/
def createAttribute (struct : NodeHandle) (name : String) (type : Option NodeHandle)
    (substitute : Option Value) : Edit NodeHandle :=
  createIn struct .structAttributes name (.attr { type, substitute })

/-- Makes a struct type inherit from another one. -/
def setStructParent (type : NodeHandle) (parent : Option NodeHandle) : Edit Unit :=
  revise type .parentOfNonStruct fun
    | .type (.struct _) => some (.type (.struct parent))
    | _ => none

/-- Makes the types of a typesystem visible in another one. -/
def addTypesystemInclude (typesystem included : NodeHandle) : Edit Unit :=
  attach typesystem .typesystemIncludes included

end Edit

namespace Store

/-- The constants that an enumeration can have: the identifiers among some names, each once.
Whatever is left out is reported, and that none is left. -/
def usableConstants (names : List String) : Logged (List String) := do
  let usable ← names.foldlM (fun (usable : List String) name =>
    if !Text.isIdentifier name then do
      Logged.error s!"\"{name}\" is not a valid enumeration constant"
      return usable
    else if usable.contains name then do
      Logged.error s!"Enumeration constant \"{name}\" is duplicated"
      return usable
    else return usable ++ [name]) []
  if usable.isEmpty then Logged.error "Enumeration has no constants"
  return usable

/-- Creates an enumeration type with those of some names that are usable as constants. -/
def createEnumerationType (s : Store) (typesystem : NodeHandle) (name : String)
    (names : List String) : Logged (Except EditFault NodeHandle × Store) := do
  let constants ← usableConstants names
  return (Edit.createType typesystem name (.enumeration constants)).apply s

end Store

end Semdoc
