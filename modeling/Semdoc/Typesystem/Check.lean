import Semdoc.Graph.Check
import Semdoc.Typesystem.Prepare

/-! # Checking typesystems
-/

namespace Semdoc.Store

/-- A typesystem has a name, and its types have different ones. -/
def checkTypesystem (s : Store) (h : NodeHandle) : Check :=
  Check.all [s.checkName h, s.checkUniqueNames "types" (s.listed h .typesystemTypes)]

/-- The constants of an enumeration are identifiers and different from those before them. -/
def checkConstants (l : Location) : List String → List String → Check
  | _, [] => pure true
  | seen, c :: r => do
    let named ← Check.demand (Text.isIdentifier c)
      s!"\"{c}\" is not a valid enumeration constant" l
    let new ← Check.demand (!seen.contains c)
      s!"Enumeration constant \"{c}\" is duplicated" l
    let rest ← checkConstants l (c :: seen) r
    return named && new && rest

/-- A type refers to types, and a struct has different attributes and does not inherit from
itself. -/
def checkType (s : Store) (h : NodeHandle) (shape : TypeShape) : Check :=
  let l := s.location h
  let name := s.name h
  match shape with
  | .enumeration constants =>
    Check.all
      [s.checkName h,
       Check.demand (!constants.isEmpty) s!"Enumeration \"{name}\" has no constants" l,
       checkConstants l [] constants]
  | .array inner =>
    Check.demand (s.isA inner .typeNode) s!"Inner type of \"{name}\" is not a type" l
  | .struct parent =>
    Check.all
      [if name == "" then pure true else s.checkName h,
       match parent with
        | some p =>
          Check.demand (s.isA p .structType) s!"Parent of \"{name}\" is not a struct type" l
        | none => pure true,
       if s.structHasCycle h then
         Check.demand false s!"Struct type \"{name}\" inherits from itself" l
       else
         Check.distinct (fun a => some (s.name a))
           (fun a => s!"Attribute \"{s.name a}\" is defined more than once in \"{name}\"")
           s.location [] (s.structAttributes h)]
  | _ => s.checkName h

/-- An attribute has a name, its type is one, and it accepts its default. -/
def checkAttribute (s : Store) (h : NodeHandle) (a : AttributeContent) : Check :=
  let l := s.location h
  Check.all
    [s.checkName h,
     match a with
      | { type := none, .. } => pure true
      | { type := some t, substitute } =>
        if !s.isA t .typeNode then
          Check.demand false s!"Type of attribute \"{s.name h}\" is not a type" l
        else
          match substitute with
          | none => pure true
          | some v => do
            let prepared ← s.prepare t v
            Check.demand prepared.ok s!"Invalid default value for attribute \"{s.name h}\"" l]

end Semdoc.Store
