import Semdoc.Document.Query
import Semdoc.Graph.Check
import Semdoc.Typesystem.Prepare

/-! # Checking documents
-/

namespace Semdoc.Store

/-- A document has a root, whose class may be one, and annotations with different names. -/
def checkDocument (s : Store) (h : NodeHandle) : Check :=
  Check.all
    [s.checkUniqueNames "annotations" (s.listed h .documentAnnotations),
     match s.documentRoot? h with
      | none => Check.demand false s!"Document \"{s.name h}\" has no root" (s.location h)
      | some root =>
        match s.entity? root with
        | none => pure true
        | some e =>
          Check.demand (((s.class? e.descriptor).map (·.root)).getD false)
            s!"Class \"{s.name e.descriptor}\" is not allowed as document root"
            (s.location root)]

/-- A value is acceptable for a type. -/
def checkValue (s : Store) (type : NodeHandle) (v : Value) : Check := do
  let prepared ← s.prepare type v
  return prepared.ok

/-- The content of a field for a value, without anchors. -/
def checkPrimitiveField (s : Store) (l : Location) (name : String) (optional : Bool)
    (type : NodeHandle) (content : List NodeHandle) : Check :=
  match content with
  | [] => Check.demand optional s!"Missing primitive field \"{name}\"" l
  | [child] =>
    match s.primitive? child with
    | some v => s.checkValue type v
    | none =>
      Check.demand false s!"Primitive field \"{name}\" must contain a primitive"
        (s.location child)
  | _ => Check.demand false s!"Only one element allowed in primitive field \"{name}\"" l

/-- One node in a field for entities. -/
def checkMember (s : Store) (name : String) (descriptor : NodeHandle)
    (declared : List NodeHandle) (child : NodeHandle) : Check :=
  if s.isA child .documentPrimitive then
    Check.demand false s!"Primitive content is not allowed in field \"{name}\"" (s.location child)
  else
    match s.entity? child with
    | none => pure true
    | some e =>
      Check.demand (declared.any (s.isSubclassOf e.descriptor))
        s!"`{s.name e.descriptor}` is not allowed in field `{name}` of `{s.name descriptor}`"
        (s.location child)

/-- The number of entities that are of a class. -/
def countOf (s : Store) (descriptor : NodeHandle) (content : List NodeHandle) : Nat :=
  content.countP fun c =>
    !s.isA c .documentPrimitive
      && ((s.entity? c).map fun e => s.isSubclassOf e.descriptor descriptor).getD false

/-- The number of instances of one class in a field. -/
def checkCount (s : Store) (l : Location) (name : String) (content : List NodeHandle)
    (descriptor : NodeHandle) : Check :=
  match s.class? descriptor with
  | none => pure true
  | some c =>
    let count := s.countOf descriptor content
    Check.demand (c.cardinality.contains (UInt64.ofNat count))
      s!"`{name}` had {count} elements of class `{s.name descriptor}`, which is invalid" l

/-- The content of one field of an entity.  Anchors may be anywhere. -/
def checkEntityField (s : Store) (h descriptor : NodeHandle) (number : Nat)
    (field : NodeHandle) : Check :=
  match s.field? field with
  | none => pure true
  | some f =>
    let l := s.location h
    let name := s.name field
    let content := (s.fieldContent h number).filter fun c => !s.isA c .anchor
    match f.primitiveType with
    | some type => s.checkPrimitiveField l name f.optional type content
    | none =>
      if content.isEmpty && f.optional then pure true
      else
        let declared := s.declaredChildren field
        Check.all
          [Check.all (content.map (s.checkMember name descriptor declared)),
           Check.all (declared.map (s.checkCount l name content))]

/-- Whether an entity has content beyond a number of fields. -/
def hasContentBeyond (s : Store) (h : NodeHandle) (count : Nat) : Bool :=
  ((s.get? h).map fun n => (n.rosters.drop count).any fun e => !e.2.items.isEmpty).getD false

/-- The attributes and fields of an entity. -/
def checkEntity (s : Store) (h : NodeHandle) (e : EntityContent) : Check :=
  let fields := s.effectiveFields e.descriptor
  Check.all
    [match s.attributesOf? e.descriptor with
      | some type => s.checkValue type e.attributes
      | none => pure true,
     Check.demand (!s.hasContentBeyond h fields.length)
       s!"Entity of class \"{s.name e.descriptor}\" has content in undefined fields"
       (s.location h),
     Check.all (fields.zipIdx.map fun (field, number) =>
       s.checkEntityField h e.descriptor number field)]

/-- A structured entity is part of a document and an instance of a structured class. -/
def checkStructuredEntity (s : Store) (h : NodeHandle) (e : EntityContent) : Check :=
  let owned :=
    ((s.parent? h).map fun p => s.isA p .document || s.isA p .documentEntity).getD false
  Check.all
    [Check.demand owned s!"Entity \"{s.pathText h}\" is not part of a document" (s.location h),
     if s.isA e.descriptor .structuredClass then s.checkEntity h e
     else
       Check.demand false "Structured entity is not an instance of a structured class"
         (s.location h)]

/-- The endpoints of an annotation are in its document. -/
def checkEndpoints (s : Store) (h start stop : NodeHandle) : Check :=
  match s.parent? h with
  | none => pure true
  | some document =>
    let one (anchor : NodeHandle) (what : String) :=
      let text := s!"The {what} anchor of annotation \"{s.name h}\" is not part of the document"
      Check.demand (s.documentContains document anchor) text (s.location h)
    Check.all [one start "start", one stop "end"]

/-- An annotation is an instance of an annotation class, and reaches from an anchor to a later one
of its document. -/
def checkAnnotation (s : Store) (h : NodeHandle) (a : Annotation) : Check := do
  let l := s.location h
  let name := s.name h
  let inDocument ← s.checkParent .document h
  if !s.isA a.entity.descriptor .annotationClass then
    Check.demand false s!"Annotation \"{name}\" is not an instance of an annotation class" l
  else
    let filled ← s.checkEntity h a.entity
    match a.start, a.stop with
    | some start, some stop =>
      let ended ← s.checkEndpoints h start stop
      if inDocument && filled && ended then
        Check.demand (s.compareInDocument start stop == some .lt)
          s!"The start anchor of annotation \"{name}\" does not precede its end" l
      else return false
    | start, stop =>
      Check.all
        [Check.demand start.isSome s!"Annotation \"{name}\" has no start anchor" l,
         Check.demand stop.isSome s!"Annotation \"{name}\" has no end anchor" l]

/-- An anchor is an endpoint of the annotation it belongs to. -/
def checkAnchor (s : Store) (h : NodeHandle) (mark : Option NodeHandle) : Check :=
  match mark with
  | none => Check.demand false "Anchor is not connected to an annotation" (s.location h)
  | some a =>
    let isEndpoint :=
      ((s.annotation? a).map fun a => a.start == some h || a.stop == some h).getD false
    Check.demand isEndpoint s!"Anchor is not an endpoint of annotation \"{s.name a}\""
      (s.location h)

end Semdoc.Store
