import Semdoc.Limits
import Semdoc.Literal.Reading
import Semdoc.Log.Ledger
import Semdoc.Log.Sink
import Semdoc.Value.Text

/-! # Conversion of values

A conversion always leaves a value of the requested type.  Where there is no way to convert, an error
is reported and the default value of the type takes the place; the outcome says so.
-/

namespace Semdoc.Convert

/-- Reports that a value cannot be converted and puts a default in its place. -/
def refuse (v : Value) (target : String) (substitute : Value) : Logged (Outcome Value) := do
  Logged.error s!"Cannot convert {v.kindName} to {target}"
  return .bad substitute

/-- Reports that a string is no number and puts a default in its place. -/
def refuseText (s target : String) (substitute : Value) : Logged (Outcome Value) := do
  Logged.error s!"Cannot convert string \"{s}\" to {target}"
  return .bad substitute

/-- The number a text stands for.  Of what is wrong with it, only a number too large is
reported. -/
def numberOf? (s : String) : Logged (Option Numeral) := do
  let tried := Numeral.ofText s
  let tooLarge := (messagesOf tried.events).any fun m =>
    Ledger.occursIn Numeral.tooLargeText.toList m.text.toList
  if tried.value.isNone && tooLarge then Logged.error Numeral.tooLargeText
  return tried.value

/-- The item of an array with just one, to which conversions look through. -/
def soleItem? : Value → Option Value
  | .array [v] => some v
  | _ => none

/-- The boolean a string stands for: its word, or whether there is any text. -/
def truthOfText (s : String) : Bool :=
  if s == "true" then true else if s == "false" then false else s != ""

/-- To a boolean, with any loss. -/
def toBoolFully : Value → Logged (Outcome Value)
  | .bool b => pure (.good (.bool b))
  | .null => pure (.good (.bool false))
  | .int i => pure (.good (.bool (i != 0)))
  | .double d => pure (.good (.bool !d.isZero))
  | .string s => pure (.good (.bool (truthOfText s)))
  | .magic s => pure (.good (.bool (truthOfText s)))
  | .object _ => pure (.good (.bool true))
  | .array [v] => toBoolFully v
  | v => refuse v "boolean" (.bool false)

/-- To a boolean. -/
def toBool (mode : ConversionMode) (v : Value) : Logged (Outcome Value) :=
  match mode, v with
  | _, .bool b => pure (.good (.bool b))
  | .safe, v => refuse v "boolean" (.bool false)
  | .all, v => toBoolFully v

/-- The integer of a text. -/
def textToInt (s : String) : Logged (Outcome Value) := do
  match ← numberOf? s with
  | some n =>
    if n.isInteger then return .good (.int n.toInt64)
    else if n.toDouble.isFinite then return .good (.int n.toDouble.toInt64)
    else refuseText s "integer" (.int 0)
  | none => refuseText s "integer" (.int 0)

/-- To an integer, with any loss. -/
def toIntFully : Value → Logged (Outcome Value)
  | .int i => pure (.good (.int i))
  | .null => pure (.good (.int 0))
  | .bool b => pure (.good (.int (if b then 1 else 0)))
  | .double d =>
    if d.isFinite then pure (.good (.int d.toInt64)) else refuse (.double d) "integer" (.int 0)
  | .string s => textToInt s
  | .magic s => textToInt s
  | .array [v] => toIntFully v
  | v => refuse v "integer" (.int 0)

/-- To an integer. -/
def toInt (mode : ConversionMode) (v : Value) : Logged (Outcome Value) :=
  match mode, v with
  | _, .int i => pure (.good (.int i))
  | .safe, v => refuse v "integer" (.int 0)
  | .all, v => toIntFully v

/-- The double of a text. -/
def textToDouble (s : String) : Logged (Outcome Value) := do
  match ← numberOf? s with
  | some n => return .good (.double n.toDouble)
  | none => refuseText s "double" (.double .zero)

/-- To a double, with any loss. -/
def toDoubleFully : Value → Logged (Outcome Value)
  | .double d => pure (.good (.double d))
  | .int i => pure (.good (.double (.ofInt i.toInt)))
  | .null => pure (.good (.double .zero))
  | .bool b => pure (.good (.double (.ofInt (if b then 1 else 0))))
  | .string s => textToDouble s
  | .magic s => textToDouble s
  | .array [v] => toDoubleFully v
  | v => refuse v "double" (.double .zero)

/-- To a double.  Integers convert in any mode. -/
def toDouble (mode : ConversionMode) (v : Value) : Logged (Outcome Value) :=
  match mode, v with
  | _, .double d => pure (.good (.double d))
  | _, .int i => pure (.good (.double (.ofInt i.toInt)))
  | .safe, v => refuse v "double" (.double .zero)
  | .all, v => toDoubleFully v

/-- To a string.  Primitive values convert in any mode. -/
def toText (mode : ConversionMode) (v : Value) : Logged (Outcome Value) :=
  match v with
  | .string s | .magic s => pure (.good (.string s))
  | v =>
    if v.isPrimitive || mode = .all then pure (.good (.string v.plainText))
    else refuse v "string" (.string "")

/-- To null, which only null is. -/
def toNull (v : Value) : Logged (Outcome Value) :=
  match v with
  | .null => pure (.good .null)
  | v => refuse v "null" .null

/-- To a function, which only functions are. -/
def toFunction (v : Value) : Logged (Outcome Value) :=
  match v with
  | .function f => pure (.good (.function f))
  | v => refuse v "function" (.function ⟨0⟩)

/-- To a reference to a node of a type. -/
def toObject (type : TypeTag) (v : Value) : Logged (Outcome Value) :=
  let expected := do
    Logged.error s!"Expected object of type \"{type.name}\" but got {v.kindName}"
    return .bad .null
  match v with
  | .object o => if o.type.isA type then pure (.good (.object o)) else expected
  | _ => expected

/-- Converts all items; the outcome is good if that of each is. -/
def items (f : Value → Logged (Outcome Value)) : List Value → Logged (Outcome (List Value))
  | [] => pure (.good [])
  | v :: r => do
    let v ← f v
    let r ← items f r
    return ⟨v.ok && r.ok, v.value :: r.value⟩

/-- Converts the values of all entries; the outcome is good if that of each is. -/
def entries (f : Value → Logged (Outcome Value)) :
    Entries Value → Logged (Outcome (Entries Value))
  | [] => pure (.good [])
  | (k, v) :: r => do
    let v ← f v
    let r ← entries f r
    return ⟨v.ok && r.ok, (k, v.value) :: r.value⟩

/-- To an array whose items are converted by `f`.  In the lenient mode any other value becomes the
only item of one. -/
def toArrayOf (f : Value → Logged (Outcome Value)) (mode : ConversionMode) (v : Value) :
    Logged (Outcome Value) := do
  match v, mode with
  | .array vs, _ => return (← items f vs).map .array
  | v, .safe => refuse v "array" (.array [])
  | v, .all => return (← items f [v]).map .array

/-- To a map whose values are converted by `f`. -/
def toMapOf (f : Value → Logged (Outcome Value)) (v : Value) : Logged (Outcome Value) := do
  match v with
  | .map es => return (← entries f es).map .map
  | v => refuse v "map" (.map [])

/-- To a type without regard to what a container holds; `inner` converts what it holds. -/
def toTypeOf (inner : Value → Logged (Outcome Value)) (type : TypeTag) (mode : ConversionMode)
    (v : Value) : Logged (Outcome Value) :=
  match type with
  | .any => pure (.good v)
  | .null => toNull v
  | .bool => toBool mode v
  | .int => toInt mode v
  | .double => toDouble mode v
  | .string => toText mode v
  | .array => toArrayOf inner mode v
  | .map => toMapOf inner v
  | .function => toFunction v
  | type => toObject type v

/-- Converts a value to a type.  `inner` is the type of what an array or a map holds; what that
holds in turn may be anything. -/
def convert (type inner : TypeTag) (mode : ConversionMode) (v : Value) : Logged (Outcome Value) :=
  toTypeOf (toTypeOf (fun v => pure (.good v)) inner mode) type mode v

end Semdoc.Convert

namespace Semdoc.Value

/-- The result of a lenient conversion, or the first error it reported. -/
def converted (type : TypeTag) (v : Value) : Except Failure Value :=
  (Convert.convert type .any .all v).toExcept .conversion |>.map (·.value)

/-- The boolean a value converts to. -/
def toBool (v : Value) : Except Failure Bool := v.converted .bool >>= asBool

/-- The integer a value converts to. -/
def toInt (v : Value) : Except Failure Int64 := v.converted .int >>= asInt

/-- The double a value converts to. -/
def toDouble (v : Value) : Except Failure Double := v.converted .double >>= asDouble

/-- The text a value converts to. -/
def toText (v : Value) : Except Failure String := v.converted .string >>= asText

/-- The items a value converts to. -/
def toArray (v : Value) : Except Failure (List Value) := v.converted .array >>= asArray

/-- The entries a value converts to. -/
def toMap (v : Value) : Except Failure (Entries Value) := v.converted .map >>= asMap

end Semdoc.Value
