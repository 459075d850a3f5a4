import Semdoc.Value.Basic

/-! # JSON values

The data model of JSON.  A number is an integer or a finite double; the two are kept apart, so that
`1` and `1.0` are different numbers.
-/

namespace Semdoc

/-- A JSON value.  Objects are sorted by key. -/
inductive Json where
  | null
  | bool (b : Bool)
  | integer (i : Int)
  | double (d : Double)
  | string (s : String)
  | array (items : List Json)
  | object (entries : List (String × Json))
  deriving Inhabited

namespace Json

/-- The entry of an object with a key; null if there is none. -/
def field (j : Json) (key : String) : Json :=
  match j with
  | object entries => (Entries.get? key entries).getD null
  | _ => null

/-- Whether an object has an entry with a key. -/
def hasField (j : Json) (key : String) : Bool :=
  match j with
  | object entries => Entries.hasKey key entries
  | _ => false

/-- The items of an array; anything else has none. -/
def items : Json → List Json
  | array items => items
  | _ => []

/-- The item of an array with a number; null if there is none. -/
def item (j : Json) (i : Nat) : Json := j.items.getD i null

/-- The text of a string; anything else has none. -/
def text : Json → String
  | string s => s
  | _ => ""

/-- Whether there is nothing. -/
def isNull : Json → Bool
  | null => true
  | _ => false

/-- An object with some entries. -/
def ofEntries (entries : List (String × Json)) : Json := object (Entries.ofPairs entries)

/-- A double as a JSON number; one that is not finite has none and becomes null. -/
def ofDouble (d : Double) : Json :=
  if d.isFinite then double d else null

mutual

/-- The JSON value of a value.  Objects and functions are written as texts by `describe`. -/
def ofValueWith (describe : Value → String) : Value → Json
  | .null => null
  | .bool b => bool b
  | .int i => integer i.toInt
  | .double d => ofDouble d
  | .string s => string s
  | .magic s => string s
  | .array items => array (ofItemsWith describe items)
  | .map entries => object (ofEntriesWith describe entries)
  | .object o => string (describe (.object o))
  | .function f => string (describe (.function f))

/-- The JSON values of items. -/
def ofItemsWith (describe : Value → String) : List Value → List Json
  | [] => []
  | v :: r => ofValueWith describe v :: ofItemsWith describe r

/-- The JSON values of entries. -/
def ofEntriesWith (describe : Value → String) : List (String × Value) → List (String × Json)
  | [] => []
  | (k, v) :: r => (k, ofValueWith describe v) :: ofEntriesWith describe r

end

mutual

/-- The value of a JSON value.  An integer outside the 64-bit range becomes the nearest double. -/
def toValue : Json → Value
  | null => .null
  | bool b => .bool b
  | integer i =>
    if Int64.minValue.toInt ≤ i ∧ i ≤ Int64.maxValue.toInt then .int (Int64.ofInt i)
    else .double (Double.ofInt i)
  | double d => .double d
  | string s => .string s
  | array items => .array (toItems items)
  | object entries => .map (toEntries entries)

/-- The values of JSON items. -/
def toItems : List Json → List Value
  | [] => []
  | j :: r => toValue j :: toItems r

/-- The values of JSON entries. -/
def toEntries : List (String × Json) → List (String × Value)
  | [] => []
  | (k, j) :: r => (k, toValue j) :: toEntries r

end

end Json

end Semdoc
