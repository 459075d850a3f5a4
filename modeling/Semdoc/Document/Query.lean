import Semdoc.Graph.Fault
import Semdoc.Ontology.Query

/-! # Questions about documents

A document owns a tree of entities, values and anchors, and annotations that reach from one anchor
to another.  The place of a node in the tree is the way to it from the root, which orders the nodes
of a document: owners come before what they own, fields by number, the content of a field as it is
listed.
-/

namespace Semdoc

/-- An annotation with its endpoints. -/
structure Annotation where
  entity : EntityContent
  start : Option NodeHandle
  stop : Option NodeHandle
  deriving Inhabited

/-- One step down in a document: the number of the field and the position in it. -/
structure Step where
  field : Nat
  position : Nat
  deriving DecidableEq, Inhabited

/-- Where a node is in a document. -/
structure Place where
  document : NodeHandle
  /-- The way down from the root. -/
  steps : List Step
  deriving DecidableEq, Inhabited

/-- The order of steps from the same node. -/
def Step.compareSteps (a b : Step) : Ordering :=
  (compare a.field b.field).then (compare a.position b.position)

/-- The order of ways from the root: by the first step that differs, and a way comes before those
that lead on. -/
def Place.compareWays : List Step → List Step → Ordering
  | [], [] => .eq
  | [], _ :: _ => .lt
  | _ :: _, [] => .gt
  | a :: r, b :: t => (a.compareSteps b).then (compareWays r t)

namespace Store

/-- The content of a structured entity or an annotation. -/
def entity? (s : Store) (h : NodeHandle) : Option EntityContent :=
  match s.content? h with
  | some (.structuredEntity e) => some e
  | some (.annotationEntity e _ _) => some e
  | _ => none

/-- An annotation. -/
def annotation? (s : Store) (h : NodeHandle) : Option Annotation :=
  match s.content? h with
  | some (.annotationEntity entity start stop) => some { entity, start, stop }
  | _ => none

/-- The annotation that an anchor belongs to. -/
def anchorAnnotation? (s : Store) (anchor : NodeHandle) : Option NodeHandle :=
  match s.content? anchor with
  | some (.anchor annotation) => annotation
  | _ => none

/-- The value of a primitive. -/
def primitive? (s : Store) (h : NodeHandle) : Option Value :=
  match s.content? h with
  | some (.documentPrimitive v) => some v
  | _ => none

/-- The root of a document. -/
def documentRoot? (s : Store) (h : NodeHandle) : Option NodeHandle :=
  match s.get? h with
  | some { content := .document, single, .. } => single
  | _ => none

/-- The class of an entity. -/
def descriptorOf (s : Store) (entity : NodeHandle) : Except EditFault NodeHandle :=
  match s.entity? entity with
  | some e => .ok e.descriptor
  | none => .error .entityExpected

/-- The content of a field of an entity. -/
def fieldContent (s : Store) (entity : NodeHandle) (number : Nat) : List NodeHandle :=
  s.listed entity (.entityField number)

/-- The numbers of the tree fields of a class. -/
def treeFieldNumbers (s : Store) (descriptor : NodeHandle) : List Nat :=
  ((s.effectiveFields descriptor).zipIdx.filter fun e => s.isTreeField e.1).map (·.2)

/-- The number of a field of an entity.  Without a name, or with the default one, it is that of the
tree field. -/
def entityFieldNumber (s : Store) (entity : NodeHandle) (name : String) :
    Except EditFault Nat := do
  let descriptor ← s.descriptorOf entity
  if name == "" || name == defaultFieldName then
    match s.treeFieldNumbers descriptor with
    | [i] => return i
    | _ => throw (.noDefaultField (s.name descriptor))
  else
    match (s.effectiveFields descriptor).findIdx? fun f => s.name f == name with
    | some i => return i
    | none => throw (.noField (s.name descriptor) name)

/-- The number that a field has among the fields of an entity. -/
def numberOfField (s : Store) (entity field : NodeHandle) : Except EditFault Nat := do
  let descriptor ← s.descriptorOf entity
  match (s.effectiveFields descriptor).findIdx? (· == field) with
  | some i => return i
  | none => throw (.noField (s.name descriptor) (s.name field))

/-- Goes up to the document, with the steps that lead back down. -/
def placeAbove (s : Store) : Nat → NodeHandle → List Step → Option Place
  | 0, _, _ => none
  | fuel + 1, h, steps =>
    match s.home? h with
    | some { owner, slot := .entityField field } =>
      match (s.fieldContent owner field).findIdx? (· == h) with
      | some position => s.placeAbove fuel owner ({ field, position } :: steps)
      | none => none
    | some { owner, slot := .documentRoot } => some { document := owner, steps }
    | _ => none

/-- Where a node is in a document, if it is part of the tree of one. -/
def place? (s : Store) (h : NodeHandle) : Option Place :=
  s.placeAbove s.bound h []

/-- Whether a node is part of the tree of a document. -/
def documentContains (s : Store) (document h : NodeHandle) : Bool :=
  ((s.place? h).map fun p => p.document == document).getD false

/-- The order of two nodes of the same document. -/
def compareInDocument (s : Store) (a b : NodeHandle) : Option Ordering := do
  let p ← s.place? a
  let q ← s.place? b
  if p.document == q.document then some (Place.compareWays p.steps q.steps) else none

end Store

end Semdoc
