import Mathlib.Tactic.Lemma
import Semdoc.Json.Basic
import Semdoc.Value.Basic
import Semdoc.Value.Text

/-!
# Members of values

Arrays and maps hold other values.  What holds of a value whenever it holds of its members holds of all
values, which is the induction that goes down into values.  So does the change to plain values, with plain
strings in place of magic ones, which is what the JSON of values stands for.  Other replacements of what is
no container go down in the same way, such as that which a trip to JSON and back makes.
-/

namespace Semdoc.Value

/-- The items of an array, and the values in a map. -/
def members : Value → List Value
  | array items => items
  | map entries => entries.map (·.2)
  | _ => []

/-- Arrays and maps can hold members. -/
def IsContainer (v : Value) : Prop := (∃ vs, v = array vs) ∨ ∃ es, v = map es

lemma isContainer_array (vs : List Value) : (array vs).IsContainer := .inl ⟨vs, rfl⟩

lemma sizeOf_lt_of_mem_members {v w : Value} (h : w ∈ v.members) : sizeOf w < sizeOf v := by
  cases v with
  | array items =>
    have : sizeOf w < sizeOf items := List.sizeOf_lt_of_mem h
    rw [array.sizeOf_spec]
    omega
  | map entries =>
    obtain ⟨⟨k, u⟩, he, rfl⟩ := List.mem_map.1 h
    have := List.sizeOf_lt_of_mem he
    rw [Prod.mk.sizeOf_spec] at this
    rw [map.sizeOf_spec]
    dsimp only
    omega
  | _ => cases h

/-- What holds of a value whenever it holds of its members holds of all values. -/
theorem induction_members {P : Value → Prop} (h : ∀ v, (∀ w ∈ v.members, P w) → P v) (v : Value) :
    P v :=
  h v fun w _ => induction_members h w
termination_by sizeOf v
decreasing_by exact sizeOf_lt_of_mem_members ‹_›

/-- What goes through a list item by item is a map. -/
lemma eq_map_of_cons {α β : Type} {f : List α → List β} {g : α → β} (hnil : f [] = [])
    (hcons : ∀ x r, f (x :: r) = g x :: f r) (xs : List α) : f xs = xs.map g := by
  induction xs with
  | nil => exact hnil
  | cons x r ih => rw [hcons, ih, List.map_cons]

/-! ## Plain values -/

mutual

/-- The value with plain strings in place of magic ones, at any depth. -/
def plain : Value → Value
  | null => null
  | bool b => bool b
  | int i => int i
  | double d => double d
  | string s => string s
  | magic s => string s
  | array items => array (plainItems items)
  | map entries => map (plainEntries entries)
  | object o => object o
  | function f => function f

/-- The items with plain strings in place of magic ones. -/
def plainItems : List Value → List Value
  | [] => []
  | v :: r => plain v :: plainItems r

/-- The entries with plain strings in place of magic ones. -/
def plainEntries : List (String × Value) → List (String × Value)
  | [] => []
  | (k, v) :: r => (k, plain v) :: plainEntries r

end

lemma plain_array (items : List Value) : (array items).plain = array (items.map plain) := by
  rw [plain, eq_map_of_cons (f := plainItems) rfl fun _ _ => rfl]

lemma plain_map (entries : Entries Value) :
    (map entries).plain = map (entries.map fun e => (e.1, e.2.plain)) := by
  rw [plain, eq_map_of_cons (f := plainEntries) rfl fun _ _ => rfl]

lemma toJson_array (items : List Value) : (array items).toJson = .array (items.map toJson) := by
  rw [toJson, Json.ofValueWith, eq_map_of_cons (f := Json.ofItemsWith describe) rfl fun _ _ => rfl]
  rfl

lemma toJson_map (entries : Entries Value) :
    (map entries).toJson = .object (entries.map fun e => (e.1, e.2.toJson)) := by
  rw [toJson, Json.ofValueWith, eq_map_of_cons (f := Json.ofEntriesWith describe) rfl fun _ _ => rfl]
  rfl

/-! ## JSON and back -/

mutual

/-- The value with all that is no container replaced, at any depth. -/
def mapLeaves (f : Value → Value) : Value → Value
  | array items => array (mapLeavesItems f items)
  | map entries => map (mapLeavesEntries f entries)
  | v => f v

/-- The items with all that is no container replaced. -/
def mapLeavesItems (f : Value → Value) : List Value → List Value
  | [] => []
  | v :: r => mapLeaves f v :: mapLeavesItems f r

/-- The entries with all that is no container replaced. -/
def mapLeavesEntries (f : Value → Value) : List (String × Value) → List (String × Value)
  | [] => []
  | (k, v) :: r => (k, mapLeaves f v) :: mapLeavesEntries f r

end

lemma mapLeaves_array (f : Value → Value) (items : List Value) :
    (array items).mapLeaves f = array (items.map (mapLeaves f)) := by
  rw [mapLeaves, eq_map_of_cons (f := mapLeavesItems f) rfl fun _ _ => rfl]

lemma mapLeaves_map (f : Value → Value) (entries : Entries Value) :
    (map entries).mapLeaves f = map (entries.map fun e => (e.1, e.2.mapLeaves f)) := by
  rw [mapLeaves, eq_map_of_cons (f := mapLeavesEntries f) rfl fun _ _ => rfl]

lemma toValue_array (items : List Json) : (Json.array items).toValue = array (items.map Json.toValue) := by
  rw [Json.toValue, eq_map_of_cons (f := Json.toItems) rfl fun _ _ => rfl]

lemma toValue_object (entries : Entries Json) :
    (Json.object entries).toValue = map (entries.map fun e => (e.1, e.2.toValue)) := by
  rw [Json.toValue, eq_map_of_cons (f := Json.toEntries) rfl fun _ _ => rfl]

/-- What JSON keeps of a value that is no container: a plain string of a magic one, nothing of a double that is not
finite, and the text of an object or a function. -/
def keptInJson : Value → Value
  | double d => if d.isFinite then double d else null
  | magic s => string s
  | object o => string (object o).plainText
  | function f => string (function f).plainText
  | v => v

lemma toValue_toJson_int (i : Int64) : (int i).toJson.toValue = int i := by
  show (Json.integer i.toInt).toValue = int i
  rw [Json.toValue, if_pos ⟨i.minValue_le_toInt, i.toInt_le⟩, Int64.ofInt_toInt]

lemma toValue_toJson_double (d : Double) :
    (double d).toJson.toValue = if d.isFinite then double d else null := by
  show (Json.ofDouble d).toValue = _
  rw [Json.ofDouble]
  split <;> rfl

/-- A value that is taken to JSON and back is what JSON keeps of it, at any depth.  All integers are kept, and finite
doubles with all their bits, none of which becomes an integer. -/
theorem toValue_toJson :
    (∀ v : Value, v.toJson.toValue = v.mapLeaves keptInJson) ∧
      (∀ i : Int64, (int i).toJson.toValue = int i) ∧
      ∀ d : Double, d.isFinite = true → (double d).toJson.toValue = double d := by
  refine ⟨?_, toValue_toJson_int, fun d hd => by rw [toValue_toJson_double, if_pos hd]⟩
  refine induction_members fun v ih => ?_
  cases v with
  | int i => exact toValue_toJson_int i
  | double d => exact toValue_toJson_double d
  | array items =>
    rw [toJson_array, toValue_array, mapLeaves_array, List.map_map]
    exact congrArg array (List.map_congr_left ih)
  | map entries =>
    rw [toJson_map, toValue_object, mapLeaves_map, List.map_map]
    refine congrArg map (List.map_congr_left fun e he => ?_)
    exact congrArg (Prod.mk e.1) (ih e.2 (List.mem_map_of_mem he))
  | null | bool b | string s | magic s | object o | function f => rfl

/-- Integers at both ends of their range, doubles that are integers, and negative zero. -/
theorem toValue_toJson_extremes :
    (array [int Int64.minValue, map [("k", int Int64.maxValue)], double ⟨0x7FF0000000000000⟩,
        magic "m", function ⟨0⟩]).toJson.toValue =
      array [int Int64.minValue, map [("k", int Int64.maxValue)], null, string "m", string "<function>"] ∧
    (⟨0x3FF0000000000000⟩ : Double).isFinite = true ∧
    (double ⟨0x3FF0000000000000⟩).toJson.toValue = double ⟨0x3FF0000000000000⟩ ∧
    (⟨0x8000000000000000⟩ : Double).isFinite = true ∧
    (double ⟨0x8000000000000000⟩).toJson.toValue = double ⟨0x8000000000000000⟩ := by
  obtain ⟨hall, -, hdouble⟩ := toValue_toJson
  have hone : (⟨0x3FF0000000000000⟩ : Double).isFinite = true := by decide
  have hzero : (⟨0x8000000000000000⟩ : Double).isFinite = true := by decide
  refine ⟨?_, hone, hdouble _ hone, hzero, hdouble _ hzero⟩
  rw [hall]
  rfl

end Semdoc.Value
