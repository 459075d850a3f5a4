import Semdoc.Double.Text
import Semdoc.Json.Printer
import Semdoc.Value.Basic

/-! # Texts of values

The text of a value for messages and conversions, and its JSON.  Doubles have six decimals in a text
of their own but the shortest digits in JSON; objects and functions are described.
-/

namespace Semdoc.Value

/-- How objects and functions are written. -/
def describe : Value → String
  | object o => s!"<object {o.type.name}({o.node.text})>"
  | _ => "<function>"

/-- The JSON value of a value. -/
def toJson (v : Value) : Json :=
  Json.ofValueWith describe v

/-- The JSON text of a value, compact or indented. -/
def jsonText (v : Value) (pretty : Bool) : String :=
  (toJson v).render pretty

/-- The text of a value.  Strings are quoted only if asked for; inside containers they always
are. -/
def text (quoted : Bool) : Value → String
  | null => "null"
  | bool b => if b then "true" else "false"
  | int i => toString i.toInt
  | double d => d.fixedSix
  | string s | magic s => if quoted then Json.quote s else s
  | array items => jsonText (array items) false
  | map entries => jsonText (map entries) false
  | object o => describe (object o)
  | function f => describe (function f)

/-- The plain text of a value. -/
def plainText (v : Value) : String := v.text false

end Semdoc.Value
