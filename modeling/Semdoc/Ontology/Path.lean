import Semdoc.Graph.Store
import Semdoc.Log.Event
import Semdoc.Ontology.Query

/-! # Paths through transparent classes

Where a class is not allowed directly, instances of transparent classes may be inserted around it.
A path names what is to be inserted: fields and classes in turn, ending with a field that permits
the target.  The search goes round by round, every round through one more transparent class, and
looks for a path that is shorter than all others.
-/

namespace Semdoc

/-- A field that has been reached, and the fields and classes on the way to it with it. -/
structure Reached where
  field : NodeHandle
  path : List NodeHandle
  deriving DecidableEq, Inhabited

namespace Store

/-- What lies behind a field: for every transparent class that has not been entered before, its tree
fields.  Also tells which classes have been entered then. -/
def beyond (s : Store) (r : Reached) :
    List NodeHandle → List NodeHandle → List Reached × List NodeHandle
  | entered, [] => ([], entered)
  | entered, c :: rest =>
    if entered.contains c then s.beyond r entered rest
    else
      let here := (s.treeFields c).map fun f => { field := f, path := r.path ++ [c, f] : Reached }
      let (more, entered) := s.beyond r (c :: entered) rest
      (here ++ more, entered)

/-- One round of the search: the paths to fields that permit the target, and what lies behind the
other fields. -/
def searchRound (s : Store) (target : NodeHandle) :
    List NodeHandle → List Reached → List (List NodeHandle) × List Reached × List NodeHandle
  | entered, [] => ([], [], entered)
  | entered, r :: rest =>
    if (s.permittedChildren r.field).contains target then
      let (found, next, entered) := s.searchRound target entered rest
      (r.path :: found, next, entered)
    else
      let (here, entered) := s.beyond r entered (s.transparentChildren r.field)
      let (found, next, entered) := s.searchRound target entered rest
      (found, here ++ next, entered)

/-- The paths to the target that go through the fewest classes. -/
def shortestPaths (s : Store) (target : NodeHandle) :
    Nat → List NodeHandle → List Reached → List (List NodeHandle)
  | 0, _, _ => []
  | _, _, [] => []
  | rounds + 1, entered, frontier =>
    let (found, next, entered) := s.searchRound target entered frontier
    if found.isEmpty then s.shortestPaths target rounds entered next else found.eraseDups

/-- The fields where a search begins. -/
def searchStart (s : Store) (start : NodeHandle) : List Reached :=
  if s.isA start .fieldDescriptor then [{ field := start, path := [] }]
  else (s.treeFields start).map fun f => { field := f, path := [f] }

/-- The one shortest path from a class or a field to a field that permits a class.  If there are
several this is reported, and none is given. -/
def pathTo (s : Store) (start target : NodeHandle) : Logged (Option (List NodeHandle)) := do
  match s.shortestPaths target (s.extent + 1) [start] (s.searchStart start) with
  | [] => return none
  | [path] => return some path
  | paths =>
    Logged.error s!"Ambiguous path from \"{s.pathText start}\" to \"{s.name target}\""
    paths.forM fun path =>
      let way := " -> ".intercalate (path.map s.pathText)
      Logged.report .note s!"Possible path: {way}"
    return none

end Store

end Semdoc
