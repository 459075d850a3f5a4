import Semdoc.Graph.Store
import Semdoc.Walk

/-! # Dropping nodes

Some nodes are roots.  Collecting drops every node that no root owns, directly or through other
nodes.  References to dropped nodes stay and lead nowhere; validation reports them.
-/

namespace Semdoc

namespace Node

/-- Whether a node has a watcher. -/
def hasWatcher (n : Node) (number : Nat) : Bool :=
  n.listeners.contains (.watcher number)

/-- Forgets the rosters of other nodes than some. -/
def keepRosterListeners (kept : List NodeHandle) (n : Node) : Node :=
  { n with
    listeners := n.listeners.filter fun l =>
      match l with
      | .roster owner _ => kept.contains owner
      | .watcher _ => true }

end Node

namespace Store

/-- Makes a node a root. -/
def addRoot (s : Store) (h : NodeHandle) : Store :=
  if s.roots.contains h then s else { s with roots := h :: s.roots }

/-- Makes a node an ordinary one, and tells whether it was a root. -/
def removeRoot (s : Store) (h : NodeHandle) : Bool × Store :=
  (s.roots.contains h, { s with roots := s.roots.filter (· != h) })

/-- Whether a node is a root. -/
def isRoot (s : Store) (h : NodeHandle) : Bool := s.roots.contains h

/-- The roots and all they own through any number of steps. -/
def kept (s : Store) : List NodeHandle :=
  Walk.depthFirst s.owned (s.roots.length + s.extent) s.roots []

/-- Drops a node with its watchers. -/
def bury (s : Store) (h : NodeHandle) : Store :=
  match s.get? h with
  | none => s
  | some n =>
    let s := s.drop h
    { s with watchers := s.watchers.filter fun w => !n.hasWatcher w.number }

/-- Drops all nodes that no root owns, and tells how many they were. -/
def collect (s : Store) : Nat × Store :=
  let s := { s with roots := s.roots.filter s.contains }
  let kept := s.kept
  let dead := s.handles.filter fun h => !kept.contains h
  let s := dead.foldl bury s
  let s :=
    if dead.isEmpty then s
    else s.handles.foldl (fun s h => s.modify h (·.keepRosterListeners kept)) s
  (dead.length, s)

end Store

end Semdoc
