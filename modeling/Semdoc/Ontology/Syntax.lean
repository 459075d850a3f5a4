import Semdoc.Graph.Edit
import Semdoc.Ontology.Query

/-! # Tokens of ontologies

Classes and fields may be written with tokens.  What may start at some place is told together with
the number of transparent classes that have to be inserted to get there.
-/

namespace Semdoc

/-- The tokens of a class or a field. -/
structure TokenSet where
  start : TokenId := ReservedToken.empty.id
  stop : TokenId := ReservedToken.empty.id
  short : TokenId := ReservedToken.empty.id
  /-- What the tokens belong to. -/
  descriptor : NodeHandle
  /-- How many transparent classes are in between. -/
  depth : Nat
  deriving DecidableEq, Inhabited

/-- Whether there is no token at all. -/
def TokenSet.isEmpty (t : TokenSet) : Bool :=
  let none := ReservedToken.empty.id
  t.start == none && t.stop == none && t.short == none

/-- Gives a user token its number, and tells which it is; other tokens stay as they are. -/
def TokenUse.registerIn (t : TokenUse) (r : TokenRegistry) :
    List TokenId × TokenUse × TokenRegistry :=
  if !t.special && t.text != "" then
    let (id, r) := r.register t.text
    ([id], { t with id }, r)
  else ([], t, r)

/-- Gives the user tokens of a pair their numbers. -/
def TokenPair.registerIn (t : TokenPair) (r : TokenRegistry) :
    List TokenId × TokenPair × TokenRegistry :=
  let (a, start, r) := t.start.registerIn r
  let (b, stop, r) := t.stop.registerIn r
  (a ++ b, { start, stop }, r)

/-- Gives the user tokens of a class or a field their numbers. -/
def Content.registerTokens (c : Content) (r : TokenRegistry) :
    List TokenId × Content × TokenRegistry :=
  match c with
  | .structuredClass c =>
    let (a, tokens, r) := c.tokens.registerIn r
    let (b, shortToken, r) := c.shortToken.registerIn r
    (a ++ b, .structuredClass { c with tokens, shortToken }, r)
  | .annotationClass tokens =>
    let (a, tokens, r) := tokens.registerIn r
    (a, .annotationClass tokens, r)
  | .fieldDescriptor f =>
    let (a, tokens, r) := f.tokens.registerIn r
    (a, .fieldDescriptor { f with tokens }, r)
  | c => ([], c, r)

namespace Store

/-- Gives the user tokens of a node their numbers. -/
def registerTokensOf (s : Store) (h : NodeHandle) (r : TokenRegistry) :
    List TokenId × TokenRegistry × Store :=
  match s.content? h with
  | none => ([], r, s)
  | some c =>
    let (ids, content, r) := c.registerTokens r
    (ids, r, (s.invalidate h).modify h fun n => { n with content })

/-- Gives the user tokens of all classes of an ontology and their fields their numbers, and tells
which they are. -/
def registerOntologyTokens (s : Store) (ontology : NodeHandle) (r : TokenRegistry) :
    List TokenId × TokenRegistry × Store :=
  let classes := s.listed ontology .ontologyClasses ++ s.listed ontology .ontologyAnnotationClasses
  (classes.flatMap fun c => c :: s.ownFields c).foldl
    (fun (ids, r, s) h =>
      let (more, r, s) := s.registerTokensOf h r
      (ids ++ more, r, s))
    ([], r, s)

/-- The tokens of a class or a field. -/
def tokensOf (s : Store) (h : NodeHandle) (depth : Nat) : TokenSet :=
  match s.content? h with
  | some (.structuredClass c) =>
    { start := c.tokens.start.id, stop := c.tokens.stop.id, short := c.shortToken.id
      descriptor := h, depth }
  | some (.annotationClass t) => { start := t.start.id, stop := t.stop.id, descriptor := h, depth }
  | some (.fieldDescriptor f) =>
    { start := f.tokens.start.id, stop := f.tokens.stop.id, descriptor := h, depth }
  | _ => { descriptor := h, depth }

/-- Fields in the order in which a search through transparent classes meets them, with the number of
classes in between.  `seen` is what has been met, the last first. -/
def fieldsByDepth (s : Store) :
    Nat → List (NodeHandle × Nat) → List (NodeHandle × Nat) → List (NodeHandle × Nat)
  | 0, _, seen => seen.reverse
  | rounds + 1, work, seen =>
    match work.filter fun (f, _) => !(seen.map (·.1)).contains f with
    | [] => seen.reverse
    | (f, depth) :: rest =>
      let next := ((s.transparentChildren f).flatMap s.effectiveFields).map (·, depth + 1)
      s.fieldsByDepth rounds (rest ++ next) ((f, depth) :: seen)

/-- The tokens of everything that may start inside a class or a field, by the number of transparent
classes in between. -/
def permittedTokens (s : Store) (start : NodeHandle) : List TokenSet :=
  let fields := if s.isA start .fieldDescriptor then [start] else s.effectiveFields start
  let met := s.fieldsByDepth (s.extent + 1) (fields.map (·, 0)) []
  let all := met.flatMap fun (f, depth) => (f :: s.permittedChildren f).map (s.tokensOf · depth)
  Walk.firstByKey (·.descriptor) [] (all.filter fun t => !t.isEmpty)

end Store

end Semdoc
