import Semdoc.Graph.Node
import Semdoc.Text.Identifier

/-! # The store of nodes

All nodes of a session live in one store and are reached through handles.  A place that a dropped
node leaves is used again, the one left last first, with a new generation, so that old handles do
not reach the new node.  Questions about a node answer for a handle that reaches nothing as for a
node without name, type and connections.
-/

namespace Semdoc

/-- A place of a store. -/
structure Cell where
  /-- The generation of the handles that reach the node here, or the next one. -/
  generation : Nat
  node : Option Node
  deriving Inhabited

/-- A watcher of the name of a node. -/
structure Watcher where
  number : Nat
  node : NodeHandle
  deriving DecidableEq, Inhabited

/-- The nodes of a session. -/
structure Store where
  /-- The places; the first has the number one. -/
  cells : Array Cell := #[]
  /-- The indices of places that were left, the last one first. -/
  vacant : List Nat := []
  /-- The nodes that are kept together with what they own. -/
  roots : List NodeHandle := []
  /-- The watchers that are registered. -/
  watchers : List Watcher := []
  nextUid : Nat := 1
  nextWatcher : Nat := 0
  deriving Inhabited

namespace Store

/-- The handle that reaches the cell with an index. -/
def handleAt (s : Store) (index : Nat) : NodeHandle :=
  ⟨index + 1, ((s.cells[index]?).map (·.generation)).getD 1⟩

/-- The node that a handle reaches. -/
def get? (s : Store) (h : NodeHandle) : Option Node :=
  match h.place with
  | 0 => none
  | index + 1 =>
    (s.cells[index]?).bind fun c => if c.generation = h.generation then c.node else none

/-- Whether a handle reaches a node. -/
def contains (s : Store) (h : NodeHandle) : Bool := (s.get? h).isSome

/-- The handles of all nodes in the order of their places. -/
def handles (s : Store) : List NodeHandle :=
  ((List.range s.cells.size).map s.handleAt).filter s.contains

/-- The number of nodes. -/
def size (s : Store) : Nat := s.handles.length

/-- Changes the node that a handle reaches. -/
def modify (s : Store) (h : NodeHandle) (f : Node → Node) : Store :=
  match s.get? h with
  | none => s
  | some n =>
    { s with cells := s.cells.setIfInBounds (h.place - 1) ⟨h.generation, some (f n)⟩ }

/-- Adds a node with a new number. -/
def create (s : Store) (name : String) (content : Content) : NodeHandle × Store :=
  let n := Node.new s.nextUid name content
  match s.vacant with
  | index :: rest =>
    let h := s.handleAt index
    (h, { s with
      cells := s.cells.setIfInBounds index ⟨h.generation, some n⟩
      vacant := rest
      nextUid := s.nextUid + 1 })
  | [] =>
    (⟨s.cells.size + 1, 1⟩,
      { s with cells := s.cells.push ⟨1, some n⟩, nextUid := s.nextUid + 1 })

/-- Drops a node.  Handles that are given out for its place later are two generations younger. -/
def drop (s : Store) (h : NodeHandle) : Store :=
  match s.get? h with
  | none => s
  | some _ =>
    { s with
      cells := s.cells.setIfInBounds (h.place - 1) ⟨h.generation + 2, none⟩
      vacant := (h.place - 1) :: s.vacant }

/-! ## Questions about single nodes -/

/-- The content of a node. -/
def content? (s : Store) (h : NodeHandle) : Option Content := (s.get? h).map (·.content)

/-- The number of a node. -/
def uid? (s : Store) (h : NodeHandle) : Option Nat := (s.get? h).map (·.uid)

/-- The name of a node. -/
def name (s : Store) (h : NodeHandle) : String := ((s.get? h).map (·.name)).getD ""

/-- Where a node comes from. -/
def location (s : Store) (h : NodeHandle) : Location :=
  ((s.get? h).map (·.location)).getD .unknown

/-- Who owns a node. -/
def parent? (s : Store) (h : NodeHandle) : Option NodeHandle := (s.get? h).bind (·.parent)

/-- Where a node is owned. -/
def home? (s : Store) (h : NodeHandle) : Option Home := (s.get? h).bind (·.home)

/-- The type tag of a node; no restriction for a handle that reaches nothing. -/
def tag (s : Store) (h : NodeHandle) : TypeTag := ((s.get? h).map (·.tag)).getD .any

/-- Whether a handle reaches a node of a type. -/
def isA (s : Store) (h : NodeHandle) (type : TypeTag) : Bool :=
  ((s.get? h).map fun n => n.tag.isA type).getD false

/-- The value that refers to a node. -/
def object (s : Store) (h : NodeHandle) : Value := .object { node := h, type := s.tag h }

/-- The nodes listed in a slot of a node. -/
def listed (s : Store) (h : NodeHandle) (slot : Slot) : List NodeHandle :=
  ((s.get? h).map (·.listed slot)).getD []

/-- The roster of a slot of a node. -/
def roster? (s : Store) (h : NodeHandle) (slot : Slot) : Option Roster :=
  (s.get? h).bind (·.roster? slot)

/-- The node that is visible under a name in a slot of a node. -/
def childNamed? (s : Store) (h : NodeHandle) (slot : Slot) (name : String) : Option NodeHandle :=
  (s.roster? h slot).bind (·.resolve? name)

/-- The connections from a node. -/
def edges (s : Store) (h : NodeHandle) : List Edge := ((s.get? h).map (·.edges)).getD []

/-- The nodes that a node owns. -/
def owned (s : Store) (h : NodeHandle) : List NodeHandle := ((s.get? h).map (·.owned)).getD []

/-- The nodes that a node refers to without owning them. -/
def referred (s : Store) (h : NodeHandle) : List NodeHandle :=
  ((s.get? h).map (·.referred)).getD []

/-- Whether a node has been found valid and nothing below it has changed since. -/
def isValidated (s : Store) (h : NodeHandle) : Bool :=
  ((s.get? h).map (·.validated)).getD false

/-- Sets where a node comes from. -/
def setLocation (s : Store) (h : NodeHandle) (l : Location) : Store :=
  s.modify h fun n => { n with location := l }

/-! ## Bounds -/

/-- More than the number of nodes. -/
def bound (s : Store) : Nat := s.cells.size + 1

/-- More than the number of nodes and connections together, and so than the number of different
handles that are in use. -/
def extent (s : Store) : Nat :=
  s.cells.foldl (fun n c => n + 1 + ((c.node.map (·.edges.length)).getD 0)) 1

/-! ## Owners -/

/-- The nodes met when going from owner to owner, beginning with a given one. -/
def chainUp (s : Store) : Nat → Option NodeHandle → List NodeHandle
  | 0, _ => []
  | _, none => []
  | fuel + 1, some h => h :: chainUp s fuel (s.parent? h)

/-- The owners of a node, the nearest first. -/
def ancestors (s : Store) (h : NodeHandle) : List NodeHandle :=
  s.chainUp s.bound (s.parent? h)

/-- Whether a node owns another one, directly or not. -/
def isAncestor (s : Store) (ancestor h : NodeHandle) : Bool :=
  (s.ancestors h).contains ancestor

/-- The nearest among a node and its owners that is of a type. -/
def nearest? (s : Store) (h : NodeHandle) (type : TypeTag) : Option NodeHandle :=
  (h :: s.ancestors h).find? fun a => s.isA a type

/-- The names on the way from the outermost named owner down to a node. -/
def path (s : Store) (h : NodeHandle) : List String :=
  (((h :: s.ancestors h).map s.name).filter (· != "")).reverse

/-- The path of a node with dots between the names. -/
def pathText (s : Store) (h : NodeHandle) : String :=
  Text.joinPath (s.path h)

end Store

end Semdoc
