import Semdoc.Signature

/-! # Functions and properties

Host programs offer functions, and methods on their objects.  Arguments are checked against a
signature before the body runs.  A property is a getter and a setter on a host object; values are
converted without loss before the setter sees them.
-/

namespace Semdoc

/-- A callable for host objects of a type. -/
inductive Callable (Host : Type) where
  /-- Takes anything and returns null. -/
  | nothing
  /-- A function of its arguments. -/
  | native (signature : Signature) (body : List Value → Except Failure Value)
  /-- A function of its arguments and a host object, which it may change. -/
  | method (signature : Signature) (hostName : String)
    (body : List Value → Host → Except Failure Value × Host)

namespace Callable

/-- Checks the arguments of a call. -/
def checked (signature : Signature) (vs : List Value) : Except Failure (List Value) :=
  (signature.checkArray vs).toExcept .typeMismatch |>.map (·.value)

/-- Calls a callable, on a host object if there is one of its type. -/
def call (c : Callable Host) (vs : List Value) (host : Option Host) :
    Except Failure Value × Option Host :=
  match c with
  | nothing => (.ok .null, host)
  | native signature body => (checked signature vs >>= body, host)
  | method signature hostName body =>
    match host with
    | none => (.error (.mismatch "unknown object" hostName), none)
    | some h =>
      match checked signature vs with
      | .error e => (.error e, some h)
      | .ok vs =>
        let (r, h) := body vs h
        (r, some h)

end Callable

/-- A value of a host object that can be read and perhaps written. -/
structure Property (Host : Type) where
  type : TypeTag := .any
  /-- The type of what an array or a map holds. -/
  inner : TypeTag := .any
  getter : Option (Callable Host) := none
  setter : Option (Callable Host) := none

namespace Property

/-- Whether the property cannot be written. -/
def isReadOnly (p : Property Host) : Bool := p.setter.isNone

/-- Reads the property. -/
def get (p : Property Host) (host : Host) : Except Failure Value × Option Host :=
  match p.getter with
  | some getter => getter.call [] (some host)
  | none => (.error { kind := .invalidCommand, message := "Property has no getter" }, some host)

/-- Writes the property. -/
def set (p : Property Host) (v : Value) (host : Host) : Except Failure Unit × Option Host :=
  match p.setter with
  | none => (.error { kind := .invalidCommand, message := "Property is read-only" }, some host)
  | some setter =>
    match (Convert.convert p.type p.inner .safe v).toExcept .typeMismatch with
    | .error e => (.error e, some host)
    | .ok converted =>
      let (r, host) := setter.call [converted.value] (some host)
      (r.map fun _ => (), host)

end Property

end Semdoc
