import Semdoc.Document.Query
import Semdoc.Value.Text
import Semdoc.Walk

/-! # Counting in documents
-/

namespace Semdoc.Store

/-- An entity and everything in its fields, down through structured entities. -/
def contentBelow (s : Store) (entity : NodeHandle) : List NodeHandle :=
  let below (h : NodeHandle) : List NodeHandle :=
    if h == entity || s.isA h .structuredEntity then
      if (s.entity? h).isSome then
        ((s.get? h).map fun n => n.rosters.flatMap (·.2.items)).getD []
      else []
    else []
  Walk.preorder below s.bound entity

/-- How many nodes of a type there are in the tree of a document. -/
def countInDocument (s : Store) (document : NodeHandle) (type : TypeTag) : Nat :=
  match s.documentRoot? document with
  | none => 0
  | some root => (s.contentBelow root).countP (s.isA · type)

/-- How many structured entities a document has. -/
def countEntities (s : Store) (document : NodeHandle) : Nat :=
  s.countInDocument document .structuredEntity

/-- How many values a document has. -/
def countPrimitives (s : Store) (document : NodeHandle) : Nat :=
  s.countInDocument document .documentPrimitive

/-- How many anchors a document has. -/
def countAnchors (s : Store) (document : NodeHandle) : Nat :=
  s.countInDocument document .anchor

/-- How many annotations a document has. -/
def countAnnotations (s : Store) (document : NodeHandle) : Nat :=
  (s.listed document .documentAnnotations).length

/-- The text of all values below an entity, one after the other. -/
def textContent (s : Store) (entity : NodeHandle) : String :=
  String.join (((s.contentBelow entity).filterMap s.primitive?).map Value.plainText)

end Semdoc.Store
