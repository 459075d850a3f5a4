import Semdoc.Json.Printer
import Semdoc.Literal.Numeral
import Semdoc.Literal.Reading
import Semdoc.Log.Event
import Semdoc.Ontology.Draft
import Semdoc.Ontology.Syntax
import Semdoc.Source.Excerpt

/-! # Writing for exchange

What the library works with has a form in JSON in which other programs take it over.  Where JSON
does not tell things apart their form does: a double is written by its bits, a map by its entries.
Several things together are written as an array, or under keys as an object.  Nodes are written by
number, and what the numbers are is up to whoever writes.
-/

namespace Semdoc

/-- The numbers under which nodes are written. -/
abbrev Numbering := NodeHandle → Nat

/-- A form in JSON for any numbering of nodes. -/
abbrev Form := Numbering → Json

/-- Types with a form in JSON. -/
class Encode (α : Type) where
  encode : α → Form

/-- Types whose values are written as several items of an array. -/
class EncodeRow (α : Type) where
  row : α → Numbering → List Json

/-- The form of something. -/
def form [Encode α] (a : α) : Form := Encode.encode a

/-- An object from keys with blanks between them and the things under these keys. -/
def record [EncodeRow α] (keys : String) (a : α) : Form := fun n =>
  .ofEntries ((keys.splitOn " ").zip (EncodeRow.row a n))

namespace Encode

attribute [local instance (2000)] instPowNat

/-- The form by name. -/
abbrev byName (name : α → String) : Encode α := ⟨fun a _ => .string (name a)⟩

instance : Encode Form := ⟨id⟩

instance : Encode Json := ⟨fun j _ => j⟩

instance : Encode Unit := ⟨fun _ _ => .null⟩

instance : Encode Bool := ⟨fun b _ => .bool b⟩

instance : Encode Int := ⟨fun i _ => .integer i⟩

instance : Encode Nat := ⟨fun n _ => .integer n⟩

instance : Encode UInt8 := ⟨fun n _ => .integer n.toNat⟩

instance : Encode UInt32 := ⟨fun n _ => .integer n.toNat⟩

instance : Encode UInt64 := ⟨fun n _ => .integer n.toNat⟩

instance : Encode Int64 := ⟨fun i _ => .integer i.toInt⟩

instance : Encode String := ⟨fun s _ => .string s⟩

instance : Encode NodeHandle := ⟨fun h n => .integer (n h)⟩

instance [Encode α] : Encode (Option α) := ⟨fun a n => a.elim .null (form · n)⟩

instance [Encode α] : Encode (List α) := ⟨fun as n => .array (as.map (form · n))⟩

instance (priority := low) [Encode α] : EncodeRow α := ⟨fun a n => [form a n]⟩

instance [Encode α] [EncodeRow β] : EncodeRow (α × β) :=
  ⟨fun p n => form p.1 n :: EncodeRow.row p.2 n⟩

instance [Encode α] [EncodeRow β] : Encode (α × β) := ⟨fun p n => .array (EncodeRow.row p n)⟩

/-! ## Names -/

instance : Encode Severity := byName Severity.name

instance : Encode TypeTag := byName TypeTag.name

instance : Encode ValueKind := byName ValueKind.name

instance : Encode WhitespaceMode := byName WhitespaceMode.name

instance : Encode Slot := byName Slot.name

instance : Encode Location := byName Location.text

instance : Encode Ordering :=
  byName fun
    | .lt => "lt"
    | .eq => "eq"
    | .gt => "gt"

instance : Encode ConversionMode :=
  byName fun
    | .safe => "safe"
    | .all => "all"

instance : Encode MessageMode :=
  byName fun
    | .standard => "Default"
    | .noContext => "NoContext"
    | .noTrace => "NoTrace"

instance : Encode FieldType :=
  byName fun
    | .tree => "Tree"
    | .subtree => "Subtree"

/-! ## Values -/

/-- The bits of a double as sixteen hexadecimal digits; there is one form for all that is not a
number. -/
def bitsText (d : Double) : String :=
  if d.isNaN then "7ff8000000000000"
  else
    let digit (i : Nat) := Json.hexDigit (d.bits.toNat / 16 ^ (15 - i) % 16)
    String.ofList ((List.range 16).map digit)

instance : Encode Double := ⟨record "d" ∘ bitsText⟩

instance : Encode ObjectRef := ⟨fun o => form (o.node, o.type)⟩

mutual

/-- The form of a value. -/
def value (n : Numbering) : Value → Json
  | .null => .null
  | .bool b => .bool b
  | .int i => form i n
  | .double d => form d n
  | .string s => .string s
  | .magic s => record "magic" s n
  | .array items => .array (values n items)
  | .map es => .ofEntries [("map", .array (entries n es))]
  | .object o => record "obj" (form o) n
  | .function _ => record "fn" "null" n

/-- The forms of items. -/
def values (n : Numbering) : List Value → List Json
  | [] => []
  | v :: r => value n v :: values n r

/-- The forms of entries. -/
def entries (n : Numbering) : List (String × Value) → List Json
  | [] => []
  | (k, v) :: r => .array [.string k, value n v] :: entries n r

end

instance : Encode Value := ⟨fun v n => value n v⟩

instance (priority := 2000) : Encode (List (String × Value)) := ⟨fun es => form (Value.map es)⟩

instance (priority := 2000) : Encode (List (String × NodeHandle)) :=
  ⟨fun hs n => .ofEntries (hs.map fun (k, h) => (k, form h n))⟩

/-! ## Results and reports -/

instance : Encode Failure :=
  ⟨fun f n => .ofEntries <|
    [("error", .string f.kind.name), ("message", .string f.message)]
      ++ (f.location.map fun l => ("location", form l n)).toList
      ++ (f.context.map fun c => ("context", form c n)).toList⟩

instance [Encode α] : Encode (Except Failure α) :=
  ⟨fun
    | .ok a => form a
    | .error f => form f⟩

instance [Encode α] : Encode (Except EditFault α) :=
  ⟨fun r => form (r.mapError EditFault.failure)⟩

instance [Encode α] : Encode (Outcome α) := ⟨fun o => form (o.ok, form o.value)⟩

instance : Encode Message := ⟨fun m => form (m.severity, m.text, m.location)⟩

instance : Encode Excerpt :=
  ⟨fun e => record "file start end text rel truncated valid has_file has_text display"
    (e.file, form (e.startLine, e.startColumn), form (e.endLine, e.endColumn), e.text,
      form (e.position, e.length), form (e.truncatedStart, e.truncatedEnd), e.isValid, e.hasFile,
      e.hasText, e.heading)⟩

/-! ## Parts of nodes -/

instance : Encode Numeral :=
  ⟨fun x => record "is_int int double v"
    (x.isInteger, if x.isInteger then some x.toInt64 else none, x.toDouble, x.toValue)⟩

instance : Encode Limits :=
  ⟨fun l => record ("chunk_size lookback max_complex_depth max_resolution_passes "
      ++ "max_context_length max_string_length max_stack_depth")
    (l.chunkSize, l.lookback, l.complexDepth, l.resolutionPasses, l.contextLength, l.stringLength,
      l.stackDepth)⟩

instance : Encode TokenUse := ⟨fun t => form (t.text, t.id, t.special)⟩

instance : Encode TokenPair := ⟨fun t => form (t.start, form t.stop)⟩

instance : Encode TokenSet :=
  ⟨fun t => form (t.start, t.stop, t.short, t.descriptor, t.depth, t.isEmpty)⟩

end Encode

end Semdoc
