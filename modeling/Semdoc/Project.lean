import Semdoc.Document.Build
import Semdoc.Graph.Check
import Semdoc.Graph.Collect

/-! # Projects

A project owns everything that belongs to one session.  Its ontologies and typesystems see the
typesystem of the basic types, which is a root beside it.
-/

namespace Semdoc

/-- The typesystem of the basic types in a project. -/
def Store.systemTypesystem? (s : Store) (project : NodeHandle) : Option NodeHandle :=
  match s.content? project with
  | some (.project system) => system
  | _ => none

/-- Documents, ontologies and typesystems of a project have different names. -/
def Store.checkProject (s : Store) (h : NodeHandle) : Check :=
  Check.all
    [s.checkUniqueNames "documents" (s.listed h .projectDocuments),
     s.checkUniqueNames "ontologies" (s.listed h .projectOntologies),
     s.checkUniqueNames "typesystems" (s.listed h .projectTypesystems)]

namespace Edit

/-- Creates a project with the typesystem of the basic types; both are roots. -/
def createProject : Edit NodeHandle := do
  let system ← createSystemTypesystem
  let project ← create "" (.project (some system))
  modify fun s => (s.addRoot system).addRoot project
  return project

/-- The basic type with a name, as a project sees it. -/
def basicType (project : NodeHandle) (name : String) : Edit NodeHandle := do
  let s ← get
  match (s.systemTypesystem? project).bind fun system => s.lookupType system name with
  | some type => return type
  | none => throw (.unknownType name)

/-- Creates a document in a project. -/
def createProjectDocument (project : NodeHandle) (name : String) : Edit NodeHandle := do
  let h ← createDocument name
  attach project .projectDocuments h
  return h

/-- Creates an ontology in a project. -/
def createProjectOntology (project : NodeHandle) (name : String) : Edit NodeHandle := do
  let h ← createOntology name
  attach project .projectOntologies h
  if let some system := (← get).systemTypesystem? project then addOntologyTypesystem h system
  return h

/-- Creates a typesystem in a project. -/
def createProjectTypesystem (project : NodeHandle) (name : String) : Edit NodeHandle := do
  let h ← createTypesystem name
  attach project .projectTypesystems h
  if let some system := (← get).systemTypesystem? project then addTypesystemInclude h system
  return h

end Edit

end Semdoc
