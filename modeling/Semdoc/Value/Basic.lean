import Semdoc.Double.Basic
import Semdoc.Failure
import Semdoc.Graph.Handle
import Semdoc.Text.Order
import Semdoc.TypeTag

/-! # Values

Attributes of nodes, arguments of commands and character data are dynamically typed values.  A magic
string is a string that was written without quotes: it equals the ordinary string of the same text
but may also be taken as a name.  Maps are kept in the order of their keys.
-/

namespace Semdoc

/-- A reference to a node together with the type of the node. -/
structure ObjectRef where
  node : NodeHandle
  type : TypeTag
  deriving DecidableEq, Inhabited

/-- A reference to a function.  Two references are equal if they are the same instance; instance
zero is the function that takes nothing and returns null. -/
structure FunctionRef where
  instanceNumber : Nat
  deriving DecidableEq, Inhabited

/-- A dynamically typed value. -/
inductive Value where
  | null
  | bool (b : Bool)
  | int (i : Int64)
  | double (d : Double)
  | string (s : String)
  /-- A string that was written as a bare word. -/
  | magic (s : String)
  | array (items : List Value)
  | map (entries : List (String × Value))
  | object (ref : ObjectRef)
  | function (ref : FunctionRef)
  deriving Inhabited

/-- The kinds of values. -/
inductive ValueKind where
  | null
  | bool
  | int
  | double
  | string
  | magic
  | array
  | map
  | object
  | function
  deriving DecidableEq, Inhabited

namespace ValueKind

/-- All kinds. -/
def all : List ValueKind :=
  [null, bool, int, double, string, magic, array, map, object, function]

/-- The name of a kind in messages. -/
def name : ValueKind → String
  | null => "null"
  | bool => "boolean"
  | int => "integer"
  | double => "double"
  | string => "string"
  | magic => "magic string"
  | array => "array"
  | map => "map"
  | object => "object"
  | function => "function"

/-- The kind of a name. -/
def ofName? (s : String) : Option ValueKind :=
  all.find? fun k => k.name == s

/-- The type tag of a kind. -/
def tag : ValueKind → TypeTag
  | null => .null
  | bool => .bool
  | int => .int
  | double => .double
  | string | magic => .string
  | array => .array
  | map => .map
  | object => .node
  | function => .function

end ValueKind

/-- Maps from texts, kept sorted by key. -/
abbrev Entries (α : Type u) := List (String × α)

namespace Entries

/-- Puts a value under a key and replaces one that is there. -/
def insert (key : String) (value : α) : Entries α → Entries α
  | [] => [(key, value)]
  | (k, v) :: r =>
    match Text.compareTexts key k with
    | .lt => (key, value) :: (k, v) :: r
    | .eq => (key, value) :: r
    | .gt => (k, v) :: insert key value r

/-- The value under a key. -/
def get? (key : String) : Entries α → Option α
  | [] => none
  | (k, v) :: r => if k == key then some v else get? key r

/-- Whether a key is there. -/
def hasKey (key : String) (m : Entries α) : Bool :=
  m.any fun e => e.1 == key

/-- Drops a key. -/
def erase (key : String) (m : Entries α) : Entries α :=
  m.filter fun e => e.1 != key

/-- Collects pairs; of two with the same key the later one stays. -/
def ofPairs (pairs : List (String × α)) : Entries α :=
  pairs.foldl (fun m e => insert e.1 e.2 m) []

end Entries

namespace Value

/-- The kind of a value. -/
def kind : Value → ValueKind
  | null => .null
  | bool _ => .bool
  | int _ => .int
  | double _ => .double
  | string _ => .string
  | magic _ => .magic
  | array _ => .array
  | map _ => .map
  | object _ => .object
  | function _ => .function

/-- The name of the kind. -/
def kindName (v : Value) : String := v.kind.name

/-- The type of a value; that of an object is the type of its node. -/
def tag : Value → TypeTag
  | object o => o.type
  | v => v.kind.tag

/-- Whether a value is a string, magic or not. -/
def isText : Value → Bool
  | string _ | magic _ => true
  | _ => false

/-- Null, booleans, numbers and strings. -/
def isPrimitive : Value → Bool
  | null | bool _ | int _ | double _ | string _ | magic _ => true
  | _ => false

/-- The failure of asking for another kind. -/
def mismatch (v : Value) (requested : ValueKind) : Failure :=
  Failure.mismatch v.kindName requested.name

/-- The boolean, for values of just this kind. -/
def asBool : Value → Except Failure Bool
  | bool b => .ok b
  | v => .error (v.mismatch .bool)

/-- The integer, for values of just this kind. -/
def asInt : Value → Except Failure Int64
  | int i => .ok i
  | v => .error (v.mismatch .int)

/-- The double, for values of just this kind. -/
def asDouble : Value → Except Failure Double
  | double d => .ok d
  | v => .error (v.mismatch .double)

/-- The text of a string, magic or not. -/
def asText : Value → Except Failure String
  | string s | magic s => .ok s
  | v => .error (v.mismatch .string)

/-- The items, for values of just this kind. -/
def asArray : Value → Except Failure (List Value)
  | array items => .ok items
  | v => .error (v.mismatch .array)

/-- The entries, for values of just this kind. -/
def asMap : Value → Except Failure (Entries Value)
  | map entries => .ok entries
  | v => .error (v.mismatch .map)

/-- The reference to a node, for values of just this kind. -/
def asObject : Value → Except Failure ObjectRef
  | object o => .ok o
  | v => .error (v.mismatch .object)

/-- The reference to a function, for values of just this kind. -/
def asFunction : Value → Except Failure FunctionRef
  | function f => .ok f
  | v => .error (v.mismatch .function)

/-- Changes the items of an array. -/
def modifyArray (f : List Value → List Value) (v : Value) : Except Failure Value :=
  v.asArray.map fun items => array (f items)

/-- Changes the entries of a map. -/
def modifyMap (f : Entries Value → Entries Value) (v : Value) : Except Failure Value :=
  v.asMap.map fun entries => map (f entries)

end Value

end Semdoc
