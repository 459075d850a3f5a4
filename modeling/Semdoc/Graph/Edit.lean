import Semdoc.Graph.Fault
import Semdoc.Graph.Store

/-! # Edits

An edit changes the store and answers with a result or the reason why it is refused; what a refused
edit has done up to then stays done.  Connections are made and removed here only, so that a node
knows its owner, rosters know the names of their nodes, and what has been found valid before is
forgotten where something changes.
-/

namespace Semdoc

namespace Node

/-- Puts a node into a slot: at the end of a roster, or in place of the single one. -/
def put (n : Node) (slot : Slot) (child : NodeHandle) (name : String) : Node :=
  if slot.isSingle then { n with single := some child }
  else n.editRoster slot (·.push child name)

/-- Takes a node out of a slot. -/
def take (n : Node) (slot : Slot) (child : NodeHandle) (name : String) : Node :=
  if slot.isSingle then { n with single := none }
  else n.editRoster slot (·.erase child name)

end Node

namespace Store

/-- Forgets that a node and its owners have been found valid. -/
def invalidate (s : Store) (h : NodeHandle) : Store :=
  (s.chainUp s.bound (some h)).foldl
    (fun s a => s.modify a fun n => { n with validated := false }) s

/-- Whether a node is in a slot of another one. -/
def holds (s : Store) (owner : NodeHandle) (slot : Slot) (child : NodeHandle) : Bool :=
  ((s.get? owner).map fun n => (n.held slot).contains child).getD false

/-- Makes a node one that nobody owns. -/
def clearHome (s : Store) (h : NodeHandle) : Store :=
  s.modify h fun n => { n with home := none }

/-- Takes a node out of a slot of another one, and tells whether it was there. -/
def removeFrom (s : Store) (owner : NodeHandle) (slot : Slot) (child : NodeHandle) :
    Bool × Store :=
  if s.holds owner slot child then
    let name := s.name child
    let s := s.modify owner (·.take slot child name)
    let s := s.modify child (·.dropRosterListener owner slot)
    let s := if slot.isComposition then s.clearHome child else s
    (true, s.invalidate owner)
  else (false, s)

/-- Takes a node from its owner, and tells whether it had one. -/
def detach (s : Store) (child : NodeHandle) : Bool × Store :=
  match s.home? child with
  | some home => s.removeFrom home.owner home.slot child
  | none => (false, s)

/-- The name of a node, or the reason why it has none. -/
def liveName (s : Store) (h : NodeHandle) : Except EditFault String :=
  (s.get? h).elim (.error .staleHandle) (.ok ·.name)

/-- Why a node cannot be put into a slot of another one. -/
def attachFault? (s : Store) (owner : NodeHandle) (slot : Slot) (child : NodeHandle) :
    Option EditFault :=
  match s.get? owner with
  | none => some .staleHandle
  | some n =>
    if !s.contains child then some .staleHandle
    else if !n.accepts slot then some (.noSlot n.tag slot)
    else if slot.isComposition && (owner == child || s.isAncestor child owner) then
      some (.ownsAncestor (s.pathText owner) (s.pathText child))
    else none

/-- Takes the place of the node that a slot for a single one holds. -/
def vacate (s : Store) (owner : NodeHandle) : Store :=
  match (s.get? owner).bind (·.single) with
  | some previous => s.clearHome previous
  | none => s

/-- Puts a node into a slot of another one, which nothing forbids.  An owned node leaves its owner
before; the node that a slot for a single one held is owned by nobody afterwards. -/
def place (s : Store) (owner : NodeHandle) (slot : Slot) (child : NodeHandle) : Store :=
  let s := if slot.isComposition then (s.detach child).2 else s
  let name := s.name child
  let s := if slot.isSingle then s.vacate owner else s
  let s := s.modify owner (·.put slot child name)
  let s :=
    if slot.isSingle then s
    else s.modify child fun n => { n with listeners := n.listeners ++ [.roster owner slot] }
  let s :=
    if slot.isComposition then s.modify child fun n => { n with home := some { owner, slot } }
    else s
  s.invalidate owner

/-! ## Names -/

/-- What a watcher is told about a new name. -/
structure Renaming where
  watcher : Nat
  node : NodeHandle
  old : String
  new : String
  deriving DecidableEq, Inhabited

/-- Tells one listener about a new name; a watcher that is registered gets a report. -/
def tell (old new : String) (h : NodeHandle) (s : Store) : Listener → List Renaming × Store
  | .roster owner slot =>
    ([], (s.modify owner (·.editRoster slot (·.rename old new h))).invalidate owner)
  | .watcher number =>
    if s.watchers.any (·.number == number) then ([{ watcher := number, node := h, old, new }], s)
    else ([], s)

/-- Renames a node, and tells all listeners in the order in which they came. -/
def setName (s : Store) (h : NodeHandle) (name : String) : List Renaming × Store :=
  match s.get? h with
  | none => ([], s)
  | some n =>
    if n.name == name then ([], s)
    else
      let s := (s.modify h fun n => { n with name }).invalidate h
      n.listeners.foldl (fun (told, s) l =>
        let (more, s) := s.tell n.name name h l
        (told ++ more, s)) ([], s)

/-- Registers a watcher for the name of a node. -/
def addWatcher (s : Store) (h : NodeHandle) : Nat × Store :=
  let number := s.nextWatcher
  let s := { s with
    watchers := s.watchers ++ [Watcher.mk number h]
    nextWatcher := number + 1 }
  (number, s.modify h fun n => { n with listeners := n.listeners ++ [Listener.watcher number] })

/-- Takes back the registration of a watcher, and tells whether there was one. -/
def removeWatcher (s : Store) (number : Nat) : Bool × Store :=
  match s.watchers.find? (·.number == number) with
  | none => (false, s)
  | some w =>
    let s := { s with watchers := s.watchers.filter (·.number != number) }
    (true, s.modify w.node fun n =>
      { n with listeners := n.listeners.filter (· != Listener.watcher number) })

end Store

/-- A change of the store with a result, or the reason why it is refused. -/
abbrev Edit := ExceptT EditFault (StateM Store)

namespace Edit

/-- The result of an edit and the store after it. -/
def apply (e : Edit α) (s : Store) : Except EditFault α × Store :=
  StateT.run (ExceptT.run e) s

/-- Asks a question about the store as it is. -/
def ask (f : Store → α) : Edit α := f <$> get

/-- Adds a node that nobody owns. -/
def create (name : String) (content : Content) : Edit NodeHandle :=
  modifyGet fun s => s.create name content

/-- Puts a node into a slot of another one.  Owning a node that owns oneself is refused. -/
def attach (owner : NodeHandle) (slot : Slot) (child : NodeHandle) : Edit Unit := do
  match (← get).attachFault? owner slot child with
  | some fault => throw fault
  | none => modify (·.place owner slot child)

/-- Adds a node and puts it into a slot. -/
def createIn (owner : NodeHandle) (slot : Slot) (name : String) (content : Content) :
    Edit NodeHandle := do
  let h ← create name content
  attach owner slot h
  return h

/-- Changes the content of a node, which counts as a change of the node even if `f` refuses. -/
def revise (h : NodeHandle) (fault : EditFault) (f : Content → Option Content) : Edit Unit := do
  modify (·.invalidate h)
  match ((← get).content? h).bind f with
  | some content => modify (·.modify h fun n => { n with content })
  | none => throw fault

end Edit

end Semdoc
