import Semdoc.Literal.Value
import Semdoc.Text.Identifier
import Semdoc.Text.Whitespace

/-! # Tokens

Pieces of markup are known by number.  The seven highest numbers are reserved for what every format
has; a registry gives out the others for user tokens and counts how often each is wanted.  It also
holds how character data is prepared: which blanks stay and what kind of value it is read as.
-/

namespace Semdoc

/-- The number of a token. -/
abbrev TokenId := UInt32

/-- The reserved tokens. -/
inductive ReservedToken where
  /-- No token. -/
  | empty
  /-- Character data. -/
  | data
  /-- A line break. -/
  | newline
  /-- Two line breaks or more. -/
  | paragraph
  /-- Three line breaks or more. -/
  | sectionBreak
  | indent
  | dedent
  deriving DecidableEq, Inhabited

namespace ReservedToken

/-- All reserved tokens, the one with the highest number first. -/
def all : List ReservedToken :=
  [empty, data, newline, paragraph, sectionBreak, indent, dedent]

/-- The number of a reserved token. -/
def id : ReservedToken → TokenId
  | empty => 0xffffffff
  | data => 0xfffffffe
  | newline => 0xfffffffd
  | paragraph => 0xfffffffc
  | sectionBreak => 0xfffffffb
  | indent => 0xfffffffa
  | dedent => 0xfffffff9

/-- The name of a reserved token. -/
def name : ReservedToken → String
  | empty => "empty"
  | data => "data"
  | newline => "newline"
  | paragraph => "paragraph"
  | sectionBreak => "section"
  | indent => "indent"
  | dedent => "dedent"

/-- The reserved token with a number. -/
def ofId? (n : TokenId) : Option ReservedToken :=
  all.find? fun t => t.id == n

end ReservedToken

/-- Whether a number is reserved. -/
def TokenId.isReserved (n : TokenId) : Bool := ReservedToken.dedent.id ≤ n

/-- A token that a descriptor goes by: none, a reserved one, or a user token. -/
structure TokenUse where
  text : String := ""
  id : TokenId := ReservedToken.empty.id
  /-- Whether the token is a reserved one. -/
  special : Bool := false
  deriving DecidableEq, Inhabited

namespace TokenUse

/-- A reserved token. -/
def reserved (n : TokenId) : TokenUse := { id := n, special := true }

/-- A user token, which has no number before it is registered. -/
def user (text : String) : TokenUse := { text }

/-- Whether there is no token. -/
def isEmpty (t : TokenUse) : Bool := t.text == "" && t.id == ReservedToken.empty.id

/-- Whether the token may be used. -/
def isValid (t : TokenUse) : Bool := t.special || t.isEmpty || Text.isUserToken t.text

end TokenUse

/-- Finite maps with one entry for each key, in no particular order. -/
abbrev Table (κ α : Type) := List (κ × α)

namespace Table

/-- Drops a key. -/
def erase [BEq κ] (key : κ) (m : Table κ α) : Table κ α :=
  m.filter fun e => e.1 != key

/-- Puts a value under a key and replaces one that is there. -/
def put [BEq κ] (key : κ) (value : α) (m : Table κ α) : Table κ α :=
  (key, value) :: erase key m

end Table

/-- A user token that is registered. -/
structure RegisteredToken where
  text : String
  /-- How often it is wanted. -/
  count : Nat
  deriving DecidableEq, Inhabited

/-- The user tokens of a parse and how its character data is prepared. -/
structure TokenRegistry where
  /-- The numbers of the registered tokens. -/
  ids : Table String TokenId := []
  /-- The registered tokens by number. -/
  tokens : Table TokenId RegisteredToken := []
  nextId : TokenId := 0
  whitespace : WhitespaceMode := .collapse
  /-- The kind of value that data is read as; without one it stays text. -/
  dataKind : Option ValueKind := none
  deriving DecidableEq, Inhabited

namespace TokenRegistry

/-- The number of registered tokens. -/
def size (r : TokenRegistry) : Nat := r.tokens.length

/-- Whether no token is registered. -/
def isEmpty (r : TokenRegistry) : Bool := r.tokens.isEmpty

/-- The number of a token. -/
def idOf? (r : TokenRegistry) (text : String) : Option TokenId := r.ids.lookup text

/-- The registered token with a number. -/
def token? (r : TokenRegistry) (id : TokenId) : Option RegisteredToken := r.tokens.lookup id

/-- The text of the token with a number. -/
def textOf? (r : TokenRegistry) (id : TokenId) : Option String := (r.token? id).map (·.text)

/-- Whether a text may be registered. -/
def supports (text : String) : Bool := Text.isUserToken text

/-- Registers a token once more and gives its number. -/
def register (r : TokenRegistry) (text : String) : TokenId × TokenRegistry :=
  match r.idOf? text with
  | some id =>
    match r.token? id with
    | some t => (id, { r with tokens := r.tokens.put id { t with count := t.count + 1 } })
    | none => (id, r)
  | none =>
    (r.nextId, { r with
      ids := r.ids.put text r.nextId
      tokens := r.tokens.put r.nextId { text, count := 1 }
      nextId := r.nextId + 1 })

/-- Takes back one registration; a token that is not wanted any more is dropped. -/
def unregister (r : TokenRegistry) (id : TokenId) : TokenRegistry :=
  match r.token? id with
  | some t =>
    if t.count ≤ 1 then { r with tokens := r.tokens.erase id, ids := r.ids.erase t.text }
    else { r with tokens := r.tokens.put id { t with count := t.count - 1 } }
  | none => r

/-- The value that stands for data of a kind that cannot be read. -/
def substituteOf : ValueKind → Value
  | .bool => .bool false
  | .int => .int 0
  | .double => .double .zero
  | .string | .magic => .string ""
  | .array => .array []
  | .map => .map []
  | .null | .object | .function => .null

/-- Prepares character data: treats its blanks, and reads it as the kind that is asked for.  Data
that is not of that kind is reported and replaced. -/
def prepare (r : TokenRegistry) (text : String) (l : Location) : Logged Value :=
  let text := Text.normalize r.whitespace text
  match r.dataKind with
  | none => pure (.string text)
  | some kind =>
    let (outcome, reader) := (Literal.readTyped {} kind [] (.ofString text l.source)).value
    if outcome.ok && !reader.consumeWhitespace.1 then pure outcome.value
    else do
      Logged.error s!"Could not read \"{text}\" as {kind.name}" l
      return substituteOf kind

end TokenRegistry

end Semdoc
