import Semdoc.Graph.Content
import Semdoc.Graph.Roster

/-! # Nodes

A node has a number that is never used again, a name, a home if it is owned, its content, and the
nodes in its slots.  It remembers who wants to know when its name changes: the rosters that list it,
and watchers.
-/

namespace Semdoc

/-- Where a node is owned. -/
structure Home where
  owner : NodeHandle
  slot : Slot
  deriving DecidableEq, Inhabited

/-- Who is told about a new name of a node. -/
inductive Listener where
  /-- The roster of a slot that lists the node. -/
  | roster (owner : NodeHandle) (slot : Slot)
  /-- The watcher with a number. -/
  | watcher (number : Nat)
  deriving DecidableEq, Inhabited

/-- A connection from one node to another. -/
structure Edge where
  target : NodeHandle
  /-- Whether the target is owned through the connection. -/
  owned : Bool
  deriving DecidableEq, Inhabited

/-- A node of the graph. -/
structure Node where
  uid : Nat
  name : String
  content : Content
  home : Option Home := none
  location : Location := .unknown
  /-- The node in the slot for a single one. -/
  single : Option NodeHandle := none
  /-- The slots for lists of nodes, in the order of resolution. -/
  rosters : List (Slot × Roster) := []
  listeners : List Listener := []
  /-- Whether the node has been found valid and nothing below it has changed since. -/
  validated : Bool := false
  deriving Inhabited

namespace Node

/-- A new node, with empty slots and without owner. -/
def new (uid : Nat) (name : String) (content : Content) : Node :=
  { uid, name, content, rosters := content.listSlots.map fun s => (s, {}) }

/-- The type tag of a node. -/
def tag (n : Node) : TypeTag := n.content.tag

/-- Who owns the node. -/
def parent (n : Node) : Option NodeHandle := n.home.map (·.owner)

/-- The slots for lists of nodes. -/
def slots (n : Node) : List Slot := n.rosters.map (·.1)

/-- The roster of a slot, if the node has that slot for lists. -/
def roster? (n : Node) (slot : Slot) : Option Roster :=
  (n.rosters.find? fun e => e.1 == slot).map (·.2)

/-- The nodes listed in a slot. -/
def listed (n : Node) (slot : Slot) : List NodeHandle :=
  ((n.roster? slot).map (·.items)).getD []

/-- The nodes in a slot of either kind. -/
def held (n : Node) (slot : Slot) : List NodeHandle :=
  if slot.isSingle then
    if n.content.singleSlot? = some slot then n.single.toList else []
  else n.listed slot

/-- Whether nodes can be put into a slot. -/
def accepts (n : Node) (slot : Slot) : Bool :=
  if slot.isSingle then n.content.singleSlot? == some slot
  else (slot.isField && n.content.isEntity) || (n.roster? slot).isSome

/-- Makes sure that an entity has the fields up to and including a number. -/
def withFields (n : Node) (number : Nat) : Node :=
  let present := n.rosters.length
  { n with
    rosters :=
      n.rosters ++ (List.range (number + 1 - present)).map fun i => (.entityField (present + i), {}) }

/-- Makes a slot that is made on demand. -/
def withSlot (n : Node) (slot : Slot) : Node :=
  match slot with
  | .entityField number => if n.content.isEntity then n.withFields number else n
  | _ => n

/-- Changes the roster of a slot; one that the node does not have and that is not made on demand
stays away. -/
def editRoster (n : Node) (slot : Slot) (f : Roster → Roster) : Node :=
  let n := n.withSlot slot
  { n with rosters := n.rosters.map fun e => if e.1 == slot then (e.1, f e.2) else e }

/-- The node that is owned in the slot for a single one. -/
def singleEdge (n : Node) : List Edge :=
  n.single.toList.map fun target => { target, owned := true }

/-- The connections to nodes that the content refers to. -/
def referenceEdges (n : Node) : List Edge :=
  n.content.references.map fun target => { target, owned := false }

/-- The connections to listed nodes. -/
def listEdges (n : Node) : List Edge :=
  n.rosters.flatMap fun (slot, r) =>
    r.items.map fun target => { target, owned := slot.isComposition }

/-- All connections to other nodes. -/
def edges (n : Node) : List Edge :=
  n.singleEdge ++ n.referenceEdges ++ n.listEdges

/-- The nodes that are owned. -/
def owned (n : Node) : List NodeHandle :=
  (n.edges.filter (·.owned)).map (·.target)

/-- The nodes that are referred to but not owned. -/
def referred (n : Node) : List NodeHandle :=
  (n.edges.filter fun e => !e.owned).map (·.target)

/-- Forgets one roster among the listeners. -/
def dropRosterListener (n : Node) (owner : NodeHandle) (slot : Slot) : Node :=
  { n with listeners := n.listeners.erase (.roster owner slot) }

end Node

end Semdoc
