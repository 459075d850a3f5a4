import Semdoc.Ontology.Draft

/-! # The typesystem of colors

Types to try things out with.
-/

namespace Semdoc.Sample

/-- The types of the typesystem of colors. -/
structure Color where
  typesystem : NodeHandle
  color : NodeHandle
  alignment : NodeHandle
  /-- Arrays of colors. -/
  palette : NodeHandle
  deriving DecidableEq, Inhabited

namespace Color

/-- Creates the typesystem of colors in a project.  A color has three channels and is opaque unless
something else is said. -/
def create (project : NodeHandle) : Edit Color := do
  let typesystem ← Edit.createProjectTypesystem project "color"
  let int ← Edit.basicType project "int"
  let double ← Edit.basicType project "double"
  let color ← Edit.createStructType typesystem "color"
  ["r", "g", "b"].forM fun channel => do
    let _ ← Edit.createAttribute color channel (some int) none
  let _ ← Edit.createAttribute color "a" (some double) (some (.double (.ofInt 1)))
  let alignment ←
    Edit.createType typesystem "alignment" (.enumeration ["left", "center", "right"])
  let palette ← Edit.createArrayType typesystem color
  return { typesystem, color, alignment, palette }

/-- The nodes by name. -/
def named (c : Color) : NamedNodes :=
  [("typesystem", c.typesystem), ("color", c.color), ("alignment", c.alignment),
   ("palette", c.palette)]

end Color

end Semdoc.Sample
