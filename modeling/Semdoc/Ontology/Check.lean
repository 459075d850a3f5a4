import Semdoc.Graph.Check
import Semdoc.Ontology.Query
import Semdoc.Typesystem.Query

/-! # Checking ontologies
-/

namespace Semdoc.Store

/-- Tokens have to be usable. -/
def checkTokens (l : Location) (what : String) (tokens : List TokenUse) : Check :=
  Check.all <| tokens.map fun t =>
    Check.demand t.isValid s!"\"{t.text}\" is not a valid token for {what}" l

/-- An ontology has a name, and its classes and typesystems have different ones. -/
def checkOntology (s : Store) (h : NodeHandle) : Check :=
  Check.all
    [s.checkName h,
     s.checkUniqueNames "classes" (s.listed h .ontologyClasses),
     s.checkUniqueNames "annotation classes" (s.listed h .ontologyAnnotationClasses),
     s.checkUniqueNames "typesystems" (s.listed h .ontologyTypesystems)]

/-- The fields of a class have at most one tree field among them, which is the last. -/
def checkFieldOrder (s : Store) (l : Location) (name : String) (fields : List NodeHandle) :
    Check :=
  let trees := (fields.zipIdx.filter fun e => s.isTreeField e.1).map (·.2)
  match trees with
  | [] => pure true
  | [i] =>
    Check.demand (i + 1 == fields.length) s!"The TREE field of \"{name}\" is not its last field" l
  | _ => Check.demand false s!"\"{name}\" has more than one TREE field" l

/-- What holds for classes of both kinds. -/
def checkDescriptor (s : Store) (h : NodeHandle) (tokens : TokenPair) : Check :=
  let l := s.location h
  let name := s.name h
  let fields := s.ownFields h
  Check.all
    [s.checkParent .ontology h,
     s.checkName h,
     match s.attributesOf? h with
      | some attributes =>
        Check.demand (s.structAttributeIndex? attributes "name").isNone
          s!"Attribute descriptor of \"{name}\" may not define an attribute \"name\"" l
      | none => Check.demand false s!"\"{name}\" has no attribute descriptor" l,
     s.checkFieldOrder l name fields,
     s.checkUniqueNames "fields" fields,
     checkTokens l s!"\"{name}\"" [tokens.start, tokens.stop]]

/-- Subclasses name the class as their superclass. -/
def checkSubclasses (s : Store) (h : NodeHandle) : Check :=
  Check.all <| (s.subclasses h).map fun sub =>
    let text :=
      s!"\"{s.name sub}\" is listed as subclass of \"{s.name h}\" but has a different superclass"
    Check.demand (s.superclass? sub == some h) text (s.location sub)

/-- A structured class. -/
def checkClass (s : Store) (h : NodeHandle) (c : ClassContent) : Check :=
  let l := s.location h
  let name := s.name h
  Check.all
    [s.checkDescriptor h c.tokens,
     Check.demand c.cardinality.isValid
       s!"Cardinality {c.cardinality.text} of \"{name}\" is invalid" l,
     checkTokens l s!"\"{name}\"" [c.shortToken],
     s.checkSubclasses h,
     Check.demand (!s.hasInheritanceCycle h) s!"Class \"{name}\" inherits from itself" l]

/-- The name of a field.  Only a tree field may have the default name. -/
def checkFieldName (s : Store) (h : NodeHandle) (f : FieldContent) : Check :=
  let l := s.location h
  if s.name h == "" then Check.demand false "Field has no name" l
  else if s.name h == defaultFieldName then
    Check.demand (f.type == .tree) "The default field must be a TREE field" l
  else s.checkName h

/-- A field for a value has a type and no children; other fields have children. -/
def checkFieldContent (s : Store) (h : NodeHandle) (f : FieldContent) : Check :=
  let l := s.location h
  let name := s.name h
  let childless := (s.declaredChildren h).isEmpty
  match f.primitiveType with
  | some t =>
    Check.all
      [Check.demand (s.isA t .typeNode) s!"Primitive field \"{name}\" has no valid type" l,
       Check.demand childless s!"Primitive field \"{name}\" may not have children" l]
  | none =>
    Check.all
      [Check.demand (!childless) s!"Non-primitive field \"{name}\" has no children" l,
       s.checkUniqueNames "child classes" (s.permittedChildren h)]

/-- A field. -/
def checkField (s : Store) (h : NodeHandle) (f : FieldContent) : Check :=
  let l := s.location h
  Check.all
    [s.checkParent .descriptor h,
     s.checkFieldName h f,
     s.checkFieldContent h f,
     checkTokens l s!"field \"{s.name h}\"" [f.tokens.start, f.tokens.stop]]

end Semdoc.Store
