import Semdoc.Json.Parser
import Semdoc.Log.Event
import Semdoc.Graph.Content
import Semdoc.Signature
import Semdoc.Source.Excerpt
import Semdoc.Limits

/-! # Reading for exchange

What other programs hand over is read from JSON.  Reading is lenient: where something does not have
the form of what is expected, a default takes its place.  What refers to a node is up to whoever
reads.
-/

namespace Semdoc

/-- What references to nodes mean. -/
abbrev Referring := Json → ObjectRef

/-- Types that can be read from JSON. -/
class Decode (α : Type) where
  decode : Referring → Json → α

namespace Decode

/-- Reads the entry of an object with a key. -/
def field [Decode α] (r : Referring) (j : Json) (key : String) : α := decode r (j.field key)

/-- Reads the item of an array with a number. -/
def item [Decode α] (r : Referring) (j : Json) (i : Nat) : α := decode r (j.item i)

/-- Reads one of several things by name. -/
abbrev byName (all : List α) (name : α → String) (default : α) : Decode α :=
  ⟨fun _ j => (all.find? fun a => name a == j.text).getD default⟩

instance : Decode Json := ⟨fun _ j => j⟩

instance : Decode String := ⟨fun _ => Json.text⟩

instance : Decode Int :=
  ⟨fun
    | _, .integer i => i
    | _, _ => 0⟩

instance : Decode Nat := ⟨fun r j => (decode r j : Int).toNat⟩

instance : Decode UInt32 := ⟨fun r j => UInt32.ofNat (decode r j)⟩

instance : Decode UInt64 := ⟨fun r j => UInt64.ofNat (decode r j)⟩

instance : Decode Bool :=
  ⟨fun
    | _, .bool b => b
    | _, _ => false⟩

instance : Decode ObjectRef := ⟨id⟩

instance : Decode NodeHandle := ⟨fun r j => (r j).node⟩

instance [Decode α] : Decode (Option α) :=
  ⟨fun r j => if j.isNull then none else some (decode r j)⟩

instance [Decode α] : Decode (List α) := ⟨fun r j => j.items.map (decode r)⟩

/-! ## Names -/

instance : Decode Severity := byName Severity.all Severity.name .debug

instance : Decode FailureKind := byName FailureKind.all FailureKind.name .structural

instance : Decode TypeTag := byName TypeTag.all TypeTag.name .any

instance : Decode ValueKind := byName ValueKind.all ValueKind.name .null

instance : Decode WhitespaceMode := byName WhitespaceMode.all WhitespaceMode.name .collapse

instance : Decode Slot :=
  ⟨fun _ j => (Slot.ofName? j.text).getD default⟩

instance : Decode ConversionMode := ⟨fun _ j => if j.text == "all" then .all else .safe⟩

instance : Decode FieldType := ⟨fun _ j => if j.text == "subtree" then .subtree else .tree⟩

instance : Decode MessageMode :=
  ⟨fun _ j =>
    match j.text with
    | "no_context" => .noContext
    | "no_trace" => .noTrace
    | _ => .standard⟩

/-- A single type may stand for a list of types. -/
instance (priority := 2000) : Decode (List TypeTag) :=
  ⟨fun r j =>
    match j with
    | .array types => types.map (decode r)
    | j => [decode r j]⟩

/-! ## Values -/

/-- The number that hexadecimal digits stand for. -/
def hexNumber (cs : List Char) : Nat :=
  cs.foldl (fun n c => 16 * n + (Json.hexValue? c).getD 0) 0

/-- The bytes that pairs of hexadecimal digits stand for. -/
def hexBytes : List Char → List UInt8
  | a :: b :: r => UInt8.ofNat (hexNumber [a, b]) :: hexBytes r
  | _ => []

/-- Bytes are written as the text they encode, or by their digits. -/
instance (priority := 2000) : Decode (List UInt8) :=
  ⟨fun
    | _, .string s => Text.utf8Bytes s
    | _, j => hexBytes (j.field "hex").text.toList⟩

mutual

/-- Reads a value; functions are counted, so that they all differ. -/
def value (r : Referring) : Json → StateM Nat Value
  | .null => return .null
  | .bool b => return .bool b
  | .integer i => return .int (Int64.ofInt i)
  | .double d => return .double d
  | .string s => return .string s
  | .array items => return .array (← values r items)
  | .object [("d", .string s)] => return .double ⟨UInt64.ofNat (hexNumber s.toList)⟩
  | .object [("magic", .string s)] => return .magic s
  | .object [("map", .array pairs)] => return .map (Entries.ofPairs (← entries r pairs))
  | .object [("obj", j)] => return .object (r j)
  | .object _ => modifyGet fun n => (.function ⟨n + 1⟩, n + 1)

/-- Reads items. -/
def values (r : Referring) : List Json → StateM Nat (List Value)
  | [] => return []
  | j :: rest => return (← value r j) :: (← values r rest)

/-- Reads entries. -/
def entries (r : Referring) : List Json → StateM Nat (List (String × Value))
  | [] => return []
  | .array [.string k, j] :: rest => return (k, ← value r j) :: (← entries r rest)
  | _ :: rest => entries r rest

end

instance : Decode Value := ⟨fun r j => ((value r j).run 0).1⟩

instance (priority := 2000) : Decode (List Value) := ⟨fun r j => ((values r j.items).run 0).1⟩

instance (priority := 2000) : Decode (List (String × Value)) :=
  ⟨fun r j => Entries.ofPairs ((entries r j.items).run 0).1⟩

/-- A value that may be missing is told apart from null. -/
instance (priority := 2000) : Decode (Option Value) :=
  ⟨fun r j => if j.isNull then none else some (field r j "v")⟩

/-! ## Reports and limits -/

instance : Decode Location :=
  ⟨fun r j => if j.isNull then .unknown else .between (item r j 0) (item r j 1) (item r j 2)⟩

instance : Decode SourceText := ⟨fun r j => { name := field r j "file", text := field r j "text" }⟩

instance : Decode Failure :=
  ⟨fun r j =>
    let f : Failure := { kind := field r j "kind", message := field r j "message" }
    let f := (field r j "loc" : Option Location).elim f f.withLocation
    (field r j "context" : Option String).elim f f.withContext⟩

/-- What is not mentioned is as usual, or not limited. -/
instance : Decode Limits :=
  ⟨fun r j =>
    let l : Limits := if (j.field "base").text == "unlimited" then .unlimited else {}
    let of (key : String) (n : UInt64) : UInt64 := if j.hasField key then field r j key else n
    { chunkSize := of "chunk_size" l.chunkSize
      lookback := of "lookback" l.lookback
      complexDepth := of "max_complex_depth" l.complexDepth
      resolutionPasses := of "max_resolution_passes" l.resolutionPasses
      contextLength := of "max_context_length" l.contextLength
      stringLength := of "max_string_length" l.stringLength
      stackDepth := of "max_stack_depth" l.stackDepth }⟩

/-! ## Parts of nodes -/

instance : Decode TokenUse :=
  ⟨fun r j =>
    match j with
    | .null => {}
    | .string s => .user s
    | j => .reserved (decode r j)⟩

instance : Decode TypeShape :=
  ⟨fun r j =>
    match j with
    | .string "bool" => .bool
    | .string "int" => .int
    | .string "double" => .double
    | .string "string" => .string
    | .string "struct" => .struct none
    | .string _ => .unknown
    | j =>
      if j.hasField "enum" then .enumeration (field r j "enum") else .array (field r j "array")⟩

instance : Decode (Except Failure RangeSet) := ⟨fun _ j => RangeSet.parse j.text⟩

instance : Decode Parameter :=
  ⟨fun r j =>
    { name := item r j 0
      type := item r j 1
      inner := (item r j 2 : Option TypeTag).getD .any
      substitute := j.items[3]?.map (decode r) }⟩

/-- Without parameters nothing is known about arguments. -/
instance : Decode Signature :=
  ⟨fun r j => if j.isNull then .unknown else { parameters := decode r j }⟩

end Decode

end Semdoc
