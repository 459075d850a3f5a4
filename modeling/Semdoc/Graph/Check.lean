import Semdoc.Graph.Store
import Semdoc.Log.Event
import Semdoc.Text.Identifier

/-! # Checks

A check reports what is wrong and tells whether all is well.  Checks are put together so that one
that fails does not keep the others from being made.
-/

namespace Semdoc

/-- A check with its reports. -/
abbrev Check := Logged Bool

namespace Check

/-- Demands that something holds, and reports an error otherwise. -/
def demand (ok : Bool) (text : String) (l : Location) : Check := do
  if !ok then Logged.error text l
  return ok

/-- Makes all checks in order. -/
def all : List Check → Check
  | [] => pure true
  | c :: r => do
    let ok ← c
    let rest ← all r
    return ok && rest

/-- Demands that no thing has the same key as one before it.  Things without key do not count. -/
def distinct [BEq κ] (key : α → Option κ) (text : α → String) (place : α → Location) :
    List κ → List α → Check
  | _, [] => pure true
  | seen, x :: r => do
    match key x with
    | none => distinct key text place seen r
    | some k =>
      let ok ← demand (!seen.contains k) (text x) (place x)
      let rest ← distinct key text place (k :: seen) r
      return ok && rest

end Check

namespace Store

/-- The name of a node has to be an identifier. -/
def checkName (s : Store) (h : NodeHandle) : Check :=
  Check.demand (Text.isIdentifier (s.name h))
    s!"Name \"{s.name h}\" of {(s.tag h).name} is not a valid identifier" (s.location h)

/-- Named nodes have to have different names. -/
def checkUniqueNames (s : Store) (what : String) (hs : List NodeHandle) : Check :=
  Check.distinct (fun h => if s.name h == "" then none else some (s.name h))
    (fun h => s!"Multiple {what} with name \"{s.name h}\"") s.location [] hs

/-- The owner of a node has to be of some type. -/
def checkParent (s : Store) (type : TypeTag) (h : NodeHandle) : Check :=
  let this := s!"{(s.tag h).name} \"{s.name h}\""
  match s.parent? h with
  | some parent =>
    Check.demand (s.isA parent type)
      s!"Expected parent of {this} to be {type.name}, but got {(s.tag parent).name}"
      (s.location h)
  | none => Check.demand false s!"{this} has no parent" (s.location h)

end Store

end Semdoc
