import Semdoc.Graph.Handle

/-! # Rosters

A roster lists the nodes of one slot in order, together with an index by name.  Several nodes of a
roster may have the same name.  The index then shows the one that took the name first; the others
become visible again once those before them are gone or have another name.  Nodes without a name
are not in the index.
-/

namespace Semdoc

/-- Names and the nodes that carry them, in the order in which the nodes took their names. -/
structure NameIndex where
  entries : List (String × NodeHandle) := []
  deriving DecidableEq, Inhabited

namespace NameIndex

/-- The node that is visible under a name. -/
def get? (i : NameIndex) (name : String) : Option NodeHandle :=
  (i.entries.find? fun e => e.1 == name).map (·.2)

/-- Whether some node carries a name. -/
def hasName (i : NameIndex) (name : String) : Bool :=
  i.entries.any fun e => e.1 == name

/-- The different names, in the order in which they came up. -/
def names (i : NameIndex) : List String :=
  (i.entries.map (·.1)).eraseDups

/-- Adds a node unless it has no name. -/
def insert (i : NameIndex) (name : String) (h : NodeHandle) : NameIndex :=
  if name == "" then i else ⟨i.entries ++ [(name, h)]⟩

/-- Takes back one addition of a node. -/
def erase (i : NameIndex) (name : String) (h : NodeHandle) : NameIndex :=
  ⟨i.entries.erase (name, h)⟩

/-- Moves a node from one name to another. -/
def rename (i : NameIndex) (old new : String) (h : NodeHandle) : NameIndex :=
  (i.erase old h).insert new h

/-- The nodes that carry a name, the visible one first. -/
def nodesNamed (i : NameIndex) (name : String) : List NodeHandle :=
  (i.entries.filter fun e => e.1 == name).map (·.2)

end NameIndex

/-- The nodes of a slot. -/
structure Roster where
  items : List NodeHandle := []
  index : NameIndex := {}
  deriving DecidableEq, Inhabited

namespace Roster

/-- The node that is visible under a name. -/
def resolve? (r : Roster) (name : String) : Option NodeHandle :=
  r.index.get? name

/-- Whether a node is listed. -/
def contains (r : Roster) (h : NodeHandle) : Bool :=
  r.items.contains h

/-- The first position of a node. -/
def position? (r : Roster) (h : NodeHandle) : Option Nat :=
  r.items.findIdx? (· == h)

/-- Appends a node with its name. -/
def push (r : Roster) (h : NodeHandle) (name : String) : Roster :=
  { items := r.items ++ [h], index := r.index.insert name h }

/-- Removes the first occurrence of a node that is listed. -/
def erase (r : Roster) (h : NodeHandle) (name : String) : Roster :=
  if r.contains h then { items := r.items.erase h, index := r.index.erase name h } else r

/-- Moves a node that is listed to a position, or to the end if that is beyond; the index stays as it is. -/
def moveTo (r : Roster) (h : NodeHandle) (position : Nat) : Roster :=
  if r.contains h then
    let others := r.items.erase h
    { r with items := others.insertIdx (min position others.length) h }
  else r

/-- Moves the nodes with some property to the end, one after another. -/
def moveLast (r : Roster) (last : NodeHandle → Bool) : Roster :=
  (r.items.filter last).foldl (fun r h => r.moveTo h (r.items.length - 1)) r

/-- Records that a node has another name. -/
def rename (r : Roster) (old new : String) (h : NodeHandle) : Roster :=
  { r with index := r.index.rename old new h }

@[simp] theorem items_push (r : Roster) (h : NodeHandle) (name : String) :
    (r.push h name).items = r.items ++ [h] := rfl

@[simp] theorem items_rename (r : Roster) (old new : String) (h : NodeHandle) :
    (r.rename old new h).items = r.items := rfl

@[simp] theorem items_erase (r : Roster) (h : NodeHandle) (name : String) :
    (r.erase h name).items = r.items.erase h := by
  unfold erase contains
  split
  · rfl
  · next hc =>
    rw [List.erase_of_not_mem]
    simpa using hc

end Roster

end Semdoc
