import Semdoc.Typesystem.Query
import Semdoc.Value.Convert

/-! # Preparing values

Preparing a value for a type checks it and brings it into the form of the type.  A value that is not
acceptable is reported and replaced by a default.  A prepared struct is an array with a value for
every attribute; it may be given as an array in the order of the attributes or as a map.
-/

namespace Semdoc

/-- How a value is prepared for a type, given the struct types around it. -/
abbrev Preparation := List NodeHandle → NodeHandle → Logged (Outcome Value)

namespace Store

/-- Prepares a value for an enumeration. -/
def prepareConstant (constants : List String) (v : Value) : Logged (Outcome Value) :=
  let ofName (name : String) : Logged (Outcome Value) :=
    match constants.findIdx? (· == name) with
    | some ordinal => pure (.good (.int (Int64.ofNat ordinal)))
    | none => do
      let all := ", ".intercalate constants
      Logged.error s!"Unknown enumeration constant \"{name}\", expected one of {all}"
      return .bad (.int 0)
  match v with
  | .int i =>
    if 0 ≤ i.toInt && i.toInt < constants.length then pure (.good (.int i))
    else do
      Logged.error
        s!"Invalid ordinal {i.toInt} for enumeration with {constants.length} constants"
      return .bad (.int 0)
  | .string name | .magic name => ofName name
  | v => do
    Logged.error s!"Expected enumeration constant but got {v.kindName}"
    return .bad (.int 0)

/-- Prepares the value of one attribute, or finds one if none is given. -/
def prepareAttribute (s : Store) (around : List NodeHandle) (a : NodeHandle)
    (given : Option (Value × Preparation)) : Logged (Outcome Value) := do
  match s.attribute? a, given with
  | none, _ => return .good .null
  | some { type := some t, .. }, some (_, prepare) => prepare around t
  | some { type := none, .. }, some (v, _) => return .good v
  | some { substitute := some v, .. }, none =>
    Logged.report .note s!"Using default value for attribute \"{s.name a}\""
    return .good v
  | some { substitute := none, .. }, none =>
    Logged.error s!"Missing attribute \"{s.name a}\""
    return .bad (s.attributeDefault a)

/-- Prepares the values of attributes, which are given in their order. -/
def prepareAttributes (s : Store) (around : List NodeHandle) :
    List (NodeHandle × Option (Value × Preparation)) → Logged (Outcome (List Value))
  | [] => pure (.good [])
  | (a, given) :: r => do
    let v ← s.prepareAttribute around a given
    let vs ← s.prepareAttributes around r
    return ⟨v.ok && vs.ok, v.value :: vs.value⟩

/-- Assigns values to attributes by position. -/
def assignByPosition (attributes : List NodeHandle) (given : List (Value × Preparation)) :
    Logged (Outcome (List (NodeHandle × Option (Value × Preparation)))) := do
  let tooMany := attributes.length < given.length
  if tooMany then
    Logged.error
      s!"Expected at most {attributes.length} attributes but got {given.length}"
  return ⟨!tooMany, attributes.zipIdx.map fun (a, i) => (a, given[i]?)⟩

/-- Assigns values to attributes by name.  Of attributes with the same name the first gets it. -/
def assignByName (s : Store) (attributes : List NodeHandle)
    (given : List (String × Value × Preparation)) :
    Logged (Outcome (List (NodeHandle × Option (Value × Preparation)))) := do
  let names := attributes.map s.name
  let unknown := given.filter fun e => !names.contains e.1
  unknown.forM fun e => Logged.error s!"Invalid attribute \"{e.1}\""
  let assigned := attributes.zipIdx.map fun (a, i) =>
    let name := s.name a
    let first := names.findIdx? (· == name) == some i
    (a, if first then (given.find? fun e => e.1 == name).map (·.2) else none)
  return ⟨unknown.isEmpty, assigned⟩

/-- Prepares a struct whose values have been assigned. -/
def prepareStruct (s : Store) (around : List NodeHandle)
    (assigned : Logged (Outcome (List (NodeHandle × Option (Value × Preparation))))) :
    Logged (Outcome Value) := do
  let assigned ← assigned
  let vs ← s.prepareAttributes around assigned.value
  return ⟨assigned.ok && vs.ok, .array vs.value⟩

/-- Prepares all items of an array for one type. -/
def prepareAll (around : List NodeHandle) (inner : NodeHandle) :
    List (Value × Preparation) → Logged (Outcome (List Value))
  | [] => pure (.good [])
  | (_, prepare) :: r => do
    let v ← prepare around inner
    let vs ← prepareAll around inner r
    return ⟨v.ok && vs.ok, v.value :: vs.value⟩

/-- Prepares a value for a type; how the items and entries of the value are prepared is given. -/
def prepareAs (s : Store) (v : Value) (items : List (Value × Preparation))
    (entries : List (String × Value × Preparation)) : Preparation := fun around type => do
  match s.shape? type with
  | none =>
    Logged.error "Cannot prepare value with an invalid type"
    return .bad v
  | some .bool => Convert.toBool .safe v
  | some .int => Convert.toInt .safe v
  | some .double => Convert.toDouble .safe v
  | some .string =>
    if !v.isText then
      Logged.report .note s!"Implicit conversion from {v.kindName} to string"
    Convert.toText .safe v
  | some .unknown => return .good v
  | some (.enumeration constants) => prepareConstant constants v
  | some (.array inner) =>
    match v with
    | .array _ => return (← prepareAll around inner items).map .array
    | v =>
      Logged.error s!"Expected array but got {v.kindName}"
      return .bad (.array [])
  | some (.struct _) =>
    if around.contains type then
      Logged.error s!"Struct type \"{s.name type}\" contains itself"
      return .bad .null
    else
      let attributes := s.structAttributes type
      let around := type :: around
      match v with
      | .array _ => s.prepareStruct around (assignByPosition attributes items)
      | .map _ => s.prepareStruct around (s.assignByName attributes entries)
      | v =>
        Logged.error s!"Expected array or map but got {v.kindName}"
        return .bad (s.defaultOf type)

mutual

/-- How a value is prepared. -/
def preparation (s : Store) : Value → Preparation
  | .array items => s.prepareAs (.array items) (s.itemPreparations items) []
  | .map entries => s.prepareAs (.map entries) [] (s.entryPreparations entries)
  | v => s.prepareAs v [] []

/-- The items of an array with how each is prepared. -/
def itemPreparations (s : Store) : List Value → List (Value × Preparation)
  | [] => []
  | v :: r => (v, s.preparation v) :: s.itemPreparations r

/-- The entries of a map with how each is prepared. -/
def entryPreparations (s : Store) :
    List (String × Value) → List (String × Value × Preparation)
  | [] => []
  | (k, v) :: r => (k, v, s.preparation v) :: s.entryPreparations r

end

/-- Prepares a value for a type. -/
def prepare (s : Store) (type : NodeHandle) (v : Value) : Logged (Outcome Value) :=
  s.preparation v [] type

end Store

end Semdoc
