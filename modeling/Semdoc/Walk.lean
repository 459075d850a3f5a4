/-! # Walks along links

Walks through things that are linked in any way, cycles included.  Nothing is visited twice, and
the number of rounds, which bounds the number of visited things, is enough as soon as it exceeds
the number of things that can be reached.
-/

namespace Semdoc.Walk

variable {α : Type u} [BEq α]

/-- Visits everything that can be reached, what a thing links to right after it.  `seen` is what has
been visited, the last first. -/
def depthFirst (next : α → List α) : Nat → List α → List α → List α
  | 0, _, seen => seen.reverse
  | rounds + 1, work, seen =>
    match work.filter fun x => !seen.contains x with
    | [] => seen.reverse
    | x :: rest => depthFirst next rounds (next x ++ rest) (x :: seen)

/-- Visits everything that can be reached, what is fewer links away first.  `seen` is what has been
visited, the last first. -/
def breadthFirst (next : α → List α) : Nat → List α → List α → List α
  | 0, _, seen => seen.reverse
  | rounds + 1, work, seen =>
    match work.filter fun x => !seen.contains x with
    | [] => seen.reverse
    | x :: rest => breadthFirst next rounds (rest ++ next x) (x :: seen)

/-- Follows single links until there is none or it leads back to what has been visited. -/
def follow (next : α → Option α) : Nat → Option α → List α → List α
  | 0, _, seen => seen.reverse
  | _, none, seen => seen.reverse
  | rounds + 1, some x, seen =>
    if seen.contains x then seen.reverse else follow next rounds (next x) (x :: seen)

/-- Everything below a thing with the thing itself, each before what is below it.  Here things are
visited as often as ways lead to them. -/
def preorder (below : α → List α) : Nat → α → List α
  | 0, _ => []
  | depth + 1, x => x :: (below x).flatMap (preorder below depth)

/-- The first of things with the same key, for keys that are not in `seen`. -/
def firstByKey [BEq κ] (key : α → κ) : List κ → List α → List α
  | _, [] => []
  | seen, x :: r =>
    if seen.contains (key x) then firstByKey key seen r
    else x :: firstByKey key (key x :: seen) r

end Semdoc.Walk
