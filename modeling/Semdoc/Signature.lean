import Semdoc.Value.Convert

/-! # Signatures

A signature lists the parameters of a command or a function.  Checking arguments against it converts
them strictly and completes them: what is missing gets its default, or the zero value of its
type after an error has been reported.  The unknown signature checks nothing.
-/

namespace Semdoc

/-- The value that stands for a missing one of a type. -/
def Value.zeroOf : TypeTag → Value
  | .bool => .bool false
  | .int => .int 0
  | .double => .double .zero
  | .string => .string ""
  | .array => .array []
  | .map => .map []
  | .function => .function ⟨0⟩
  | _ => .null

/-- A named, typed parameter. -/
structure Parameter where
  name : String
  type : TypeTag := .any
  /-- The type of what an array or a map holds. -/
  inner : TypeTag := .any
  /-- The default of an optional parameter. -/
  substitute : Option Value := none
  deriving Inhabited

namespace Parameter

/-- Whether the parameter may be left out. -/
def isOptional (p : Parameter) : Bool := p.substitute.isSome

/-- What stands for the argument if it is missing. -/
def missingValue (p : Parameter) : Value :=
  p.substitute.getD (Value.zeroOf p.type)

/-- Whether the default is null, in which case null is an argument too. -/
def allowsNull (p : Parameter) : Bool :=
  match p.substitute with
  | some .null => true
  | _ => false

/-- Converts an argument to the type of the parameter.  If that fails the default takes its place,
if there is one. -/
def check (p : Parameter) (v : Value) : Logged (Outcome Value) := do
  if p.allowsNull && v.kind = .null then return .good v
  else
    let converted ← Convert.convert p.type p.inner .safe v
    if converted.ok then return converted
    else return .bad (p.substitute.getD converted.value)

end Parameter

/-- The parameters of a command or a function. -/
structure Signature where
  parameters : List Parameter := []
  /-- False if the parameters are not known. -/
  known : Bool := true
  deriving Inhabited

namespace Signature

/-- The signature that checks nothing. -/
def unknown : Signature := { known := false }

/-- The names of the parameters. -/
def names (s : Signature) : List String := s.parameters.map (·.name)

/-- The number of the first parameter with a name. -/
def indexOf? (s : Signature) (name : String) : Option Nat :=
  s.names.findIdx? (· == name)

/-- The first parameter with a name. -/
def find? (s : Signature) (name : String) : Option Parameter :=
  s.parameters.find? fun p => p.name == name

/-- The first name that has occurred before. -/
def firstRepeated? : List String → List String → Option String
  | _, [] => none
  | seen, n :: r => if seen.contains n then some n else firstRepeated? (n :: seen) r

/-- The signature of parameters with different names. -/
def ofParameters (parameters : List Parameter) : Except Failure Signature :=
  match firstRepeated? [] (parameters.map (·.name)) with
  | some name =>
    .error
      { kind := .invalidCommand, message := s!"Argument \"{name}\" is defined more than once" }
  | none => .ok { parameters }

/-- Checks the arguments of parameters, the first of which has the given number. -/
def checkFrom (number : Nat) : List Parameter → List Value → Logged (Outcome (List Value))
  | [], _ => pure (.good [])
  | p :: ps, v :: vs => do
    let v ← p.check v
    let r ← checkFrom (number + 1) ps vs
    return ⟨v.ok && r.ok, v.value :: r.value⟩
  | p :: ps, [] => do
    if !p.isOptional then Logged.error s!"Missing argument {number} \"{p.name}\""
    let r ← checkFrom (number + 1) ps []
    return ⟨p.isOptional && r.ok, p.missingValue :: r.value⟩

/-- Checks positional arguments. -/
def checkArray (s : Signature) (vs : List Value) : Logged (Outcome (List Value)) := do
  if !s.known then return .good vs
  else
    let most := s.parameters.length
    let tooMany := most < vs.length
    if tooMany then
      Logged.error s!"Too many arguments: expected at most {most} but got {vs.length}"
    let r ← checkFrom 1 s.parameters vs
    return ⟨!tooMany && r.ok, r.value⟩

/-- Checks the arguments that have been given by name. -/
def checkGiven (s : Signature) (ignoreUnknown : Bool) :
    Entries Value → Logged (Outcome (Entries Value))
  | [] => pure (.good [])
  | (key, v) :: es => do
    let v ←
      match s.find? key with
      | some p => p.check v
      | none =>
        if ignoreUnknown then do
          Logged.report .warning s!"Ignoring unknown argument \"{key}\""
          pure (.good v)
        else do
          Logged.error s!"Invalid argument \"{key}\""
          pure (.bad v)
    let r ← checkGiven s ignoreUnknown es
    return ⟨v.ok && r.ok, (key, v.value) :: r.value⟩

/-- Adds the arguments that have not been given. -/
def complete : List Parameter → Entries Value → Logged (Outcome (Entries Value))
  | [], es => pure (.good es)
  | p :: ps, es => do
    if es.hasKey p.name then complete ps es
    else
      if !p.isOptional then Logged.error s!"Missing argument \"{p.name}\""
      let r ← complete ps (es.insert p.name p.missingValue)
      return ⟨p.isOptional && r.ok, r.value⟩

/-- Checks arguments given by name.  One that no parameter has keeps its value; it is an error unless
unknown ones are to be ignored. -/
def checkMap (s : Signature) (es : Entries Value) (ignoreUnknown : Bool) :
    Logged (Outcome (Entries Value)) := do
  if !s.known then return .good es
  else
    let given ← checkGiven s ignoreUnknown es
    let all ← complete s.parameters given.value
    return ⟨given.ok && all.ok, all.value⟩

/-- Names positional arguments. -/
def toMap (s : Signature) (vs : List Value) : Entries Value :=
  Entries.ofPairs (s.names.zip vs)

end Signature

end Semdoc
