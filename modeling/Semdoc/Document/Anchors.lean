import Semdoc.Document.Query

/-! # Open anchors

The end of an annotation looks for its start: the nearest anchor before it that belongs to nothing
yet or starts an annotation without end.  The search looks backwards through the content of a field,
down into the tree fields of the entities there, and outwards as long as it comes out of a tree
field.
-/

namespace Semdoc.Store

/-- The anchors in some content of a field and in the tree fields of the entities there, the last
first. -/
def anchorsBackwards (s : Store) : Nat → List NodeHandle → List NodeHandle
  | 0, _ => []
  | depth + 1, content =>
    content.reverse.flatMap fun c =>
      if s.isA c .anchor then [c]
      else if s.isA c .structuredEntity then
        match s.entityFieldNumber c "" with
        | .ok number => s.anchorsBackwards depth (s.fieldContent c number)
        | .error _ => []
      else []

/-- The anchors before an entity that can be seen from one of its fields. -/
def anchorsOutside (s : Store) : Nat → NodeHandle → Nat → List NodeHandle
  | 0, _, _ => []
  | depth + 1, entity, number =>
    let field := (s.entity? entity).bind fun e => (s.effectiveFields e.descriptor)[number]?
    if (field.map s.isTreeField).getD false then
      match s.home? entity with
      | some { owner, slot := .entityField outer } =>
        let content := s.fieldContent owner outer
        match content.findIdx? (· == entity) with
        | some position =>
          s.anchorsBackwards s.bound (content.take position) ++ s.anchorsOutside depth owner outer
        | none => []
      | _ => []
    else []

/-- The anchors that can be seen from the end of a field of an entity, the nearest first. -/
def visibleAnchors (s : Store) (entity : NodeHandle) (number : Nat) : List NodeHandle :=
  s.anchorsBackwards s.bound (s.fieldContent entity number)
    ++ s.anchorsOutside s.bound entity number

/-- Whether an anchor belongs to nothing, or starts an annotation without end that is of a class and
has a name, if these are given. -/
def isOpenStart (s : Store) (descriptor : Option NodeHandle) (name : String)
    (anchor : NodeHandle) : Bool :=
  match s.anchorAnnotation? anchor with
  | none => true
  | some h =>
    match s.annotation? h with
    | none => false
    | some a =>
      a.start == some anchor && a.stop.isNone && (name == "" || s.name h == name)
        && (descriptor.map (a.entity.descriptor == ·)).getD true

/-- The nearest anchor at which an annotation that ends in a field of an entity may start. -/
def searchStartAnchor (s : Store) (entity : NodeHandle) (number : Nat)
    (descriptor : Option NodeHandle) (name : String) : Option NodeHandle :=
  (s.visibleAnchors entity number).find? (s.isOpenStart descriptor name)

end Semdoc.Store
