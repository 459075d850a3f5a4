import Semdoc.Graph.Store
import Semdoc.Log.Event
import Semdoc.Walk

/-! # Resolving names

A path is resolved as seen from some node.  Its first name may be that of any node which the root,
or a node that the root refers to, owns through any number of steps, or of these nodes themselves.
Every further name is that of a child of the node before: the one that is visible in a slot through
which nodes are owned.

Names are looked for in a walk that comes to every node once for each position in the path.
-/

namespace Semdoc

/-- A stop of the search for a path: a node, and the names that are left, the first of which is to
be that of the node. -/
abbrev Stop := NodeHandle × List String

namespace Store

/-- Whether a node carries a name. -/
def carries (s : Store) (name : String) (h : NodeHandle) : Bool :=
  name != "" && s.name h == name

/-- The children of a node that are visible under a name, one for each list at most. -/
def visibleChildren (s : Store) (h : NodeHandle) (name : String) : List NodeHandle :=
  match s.get? h with
  | none => []
  | some n =>
    let inLists := n.rosters.filterMap fun (slot, r) =>
      if slot.isComposition then r.resolve? name else none
    inLists ++ n.single.toList.filter fun c => s.name c == name

/-- The stops at the children of a node that carries the first of some names. -/
def descend (s : Store) : Stop → List Stop
  | (h, name :: next :: rest) =>
    if s.carries name h then (s.visibleChildren h next).map fun c => (c, next :: rest) else []
  | _ => []

/-- The nodes in which the first name of a path is looked for after another one: those that it owns,
and for the root also those to which it refers. -/
def widen (s : Store) (root h : NodeHandle) : List NodeHandle :=
  s.owned h ++ if h = root then s.referred root else []

/-- The stops to which the search for a path goes on from a stop. -/
def onward (s : Store) (root : NodeHandle) (path : List String) (stop : Stop) : List Stop :=
  let wider := if stop.2 = path then (s.widen root stop.1).map fun c => (c, path) else []
  (s.descend stop ++ wider).filter fun stop => s.contains stop.1

/-- Whether the last name has been found at a stop, with a node of a type. -/
def isFound (s : Store) (type : TypeTag) : Stop → Bool
  | (h, [name]) => s.carries name h && s.isA h type
  | _ => false

/-- More than the number of stops for a path. -/
def stopBound (s : Store) (path : List String) : Nat := s.size * (path.length + 1) + 1

/-- The nodes of a type that are found under a path in some rounds, as seen from a root. -/
def resolveIn (s : Store) (rounds : Nat) (root : NodeHandle) (path : List String)
    (type : TypeTag) : List NodeHandle :=
  if path.isEmpty || !s.contains root then []
  else
    let stops := Walk.depthFirst (s.onward root path) rounds [(root, path)] []
    (stops.filter (s.isFound type)).map (·.1)

/-- All nodes of a type to which a path leads, as seen from a root. -/
def resolve (s : Store) (root : NodeHandle) (path : List String) (type : TypeTag) :
    List NodeHandle :=
  s.resolveIn (s.stopBound path) root path type

/-- The first node to which a path leads.  If there are more this is reported, with a note on each
of them. -/
def resolveUnique (s : Store) (root : NodeHandle) (path : List String) (type : TypeTag)
    (l : Location) : Logged (Option NodeHandle) := do
  let results := s.resolve root path type
  if 1 < results.length then
    Logged.error s!"The reference \"{Text.joinPath path}\" is ambiguous!" l
    results.forM fun h =>
      Logged.report .note s!"Resolves to \"{s.pathText h}\"" (s.location h)
  return results.head?

end Store

end Semdoc
