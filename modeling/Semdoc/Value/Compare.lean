import Semdoc.Value.Basic

/-! # Comparison of values

Values of one kind are totally ordered; values of different kinds cannot be compared, and that is
an error.  Arrays and maps compare lexicographically, so such an error surfaces only if no earlier
item decides.  `same` is the equality that goes with the order, and `digest` lists what a hash
of a value takes in.
-/

namespace Semdoc.Value

mutual

/-- Compares two values of one kind. -/
def compare : Value → Value → Except Failure Ordering
  | null, null => .ok .eq
  | bool a, bool b => .ok (Ord.compare a b)
  | int a, int b => .ok (Ord.compare a.toInt b.toInt)
  | double a, double b => .ok (Double.compareTotal a b)
  | string a, string b | string a, magic b | magic a, string b | magic a, magic b =>
    .ok (Text.compareTexts a b)
  | array a, array b => compareItems a b
  | map a, map b => compareEntries a b
  | object a, object b => .ok (NodeHandle.compareHandles a.node b.node)
  | function a, function b => .ok (Ord.compare a.instanceNumber b.instanceNumber)
  | a, b => .error (b.mismatch a.kind)

/-- Lexicographic comparison of items. -/
def compareItems : List Value → List Value → Except Failure Ordering
  | [], [] => .ok .eq
  | [], _ :: _ => .ok .lt
  | _ :: _, [] => .ok .gt
  | a :: as, b :: bs =>
    match compare a b with
    | .ok .eq => compareItems as bs
    | r => r

/-- Lexicographic comparison of entries, the key of an entry before its value. -/
def compareEntries : List (String × Value) → List (String × Value) → Except Failure Ordering
  | [], [] => .ok .eq
  | [], _ :: _ => .ok .lt
  | _ :: _, [] => .ok .gt
  | (k, a) :: as, (l, b) :: bs =>
    match Text.compareTexts k l with
    | .eq =>
      match compare a b with
      | .ok .eq => compareEntries as bs
      | r => r
    | o => .ok o

end

mutual

/-- Whether two values are equal.  Values of different kinds differ, but magic strings count as
strings. -/
def same : Value → Value → Bool
  | null, null => true
  | bool a, bool b => a == b
  | int a, int b => a == b
  | double a, double b => a == b
  | string a, string b | string a, magic b | magic a, string b | magic a, magic b => a == b
  | array a, array b => sameItems a b
  | map a, map b => sameEntries a b
  | object a, object b => a.node == b.node
  | function a, function b => a == b
  | _, _ => false

/-- Equality of items. -/
def sameItems : List Value → List Value → Bool
  | [], [] => true
  | a :: as, b :: bs => same a b && sameItems as bs
  | _, _ => false

/-- Equality of entries. -/
def sameEntries : List (String × Value) → List (String × Value) → Bool
  | [], [] => true
  | (k, a) :: as, (l, b) :: bs => k == l && same a b && sameEntries as bs
  | _, _ => false

end

instance : BEq Value := ⟨same⟩

/-- What a hash takes in. -/
inductive DigestItem where
  /-- The kind of a value, one for both kinds of strings. -/
  | tag (n : Nat)
  | bool (b : Bool)
  | int (i : Int64)
  | bits (b : UInt64)
  | text (s : String)
  | size (n : Nat)
  | node (h : NodeHandle)
  | functionInstance (n : Nat)
  deriving DecidableEq

mutual

/-- What the hash of a value takes in, in order. -/
def digest : Value → List DigestItem
  | null => [.tag 0]
  | bool b => [.tag 1, .bool b]
  | int i => [.tag 2, .int i]
  | double d => [.tag 3, .bits d.bits]
  | string s | magic s => [.tag 4, .text s]
  | array items => .tag 5 :: .size items.length :: digestItems items
  | map entries => .tag 6 :: .size entries.length :: digestEntries entries
  | object o => [.tag 7, .node o.node]
  | function f => [.tag 8, .functionInstance f.instanceNumber]

/-- What the hash of items takes in. -/
def digestItems : List Value → List DigestItem
  | [] => []
  | v :: r => digest v ++ digestItems r

/-- What the hash of entries takes in. -/
def digestEntries : List (String × Value) → List DigestItem
  | [] => []
  | (k, v) :: r => .text k :: digest v ++ digestEntries r

end

end Semdoc.Value
