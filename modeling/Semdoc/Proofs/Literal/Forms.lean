import Semdoc.Proofs.Literal.Descent

/-!
# Forms of literals

What a literal can be asked for, as one reading with a result and a verdict on it, and as a plan.
-/

namespace Semdoc.Literal

open scoped Plan

/-- What is read: any value, or a literal of some form. -/
inductive Form where
  | any (delims : List UInt8)
  | quoted
  | unquoted (delims : List UInt8)
  | integer (delims : List UInt8)
  | double (delims : List UInt8)
  | array
  | map
  | container
  | typed (kind : ValueKind) (delims : List UInt8)

/-- What a literal of some form stands for. -/
@[reducible] def Form.Answer : Form → Type
  | any _ => Value
  | quoted => String
  | unquoted _ => String
  | integer _ => Int64
  | double _ => Double
  | array => List Value
  | map => Entries Value
  | container => Value
  | typed _ _ => Value

/-- Reads a literal of some form.  Text without quotes is always good. -/
def Form.read (limits : Limits) : ∀ f : Form, Reading (Outcome f.Answer)
  | any delims => readValue limits delims
  | quoted => readQuoted limits.stringLength
  | unquoted delims => return .good (← readUnquoted delims)
  | integer delims => readInteger delims
  | double delims => readDouble delims
  | array => readArray limits
  | map => readMap limits
  | container => readContainer limits
  | typed kind delims => readTyped limits kind delims

/-! ## Plans -/

/-- The plan of an integer. -/
def integerPlan (delims : List UInt8) : LiteralPlan (Outcome Int64) := do
  let _ ← Reading.skipWhitespace
  let start ← Reading.offset
  match ← numeralPlan delims with
  | none => return .bad 0
  | some n =>
    if n.isInteger then return .good n.toInt64
    else
      Reading.error "Expected integer but got double" (← Reading.locationFrom start)
      return .bad n.toDouble.toInt64

/-- The plan of a double. -/
def doublePlan (delims : List UInt8) : LiteralPlan (Outcome Double) := do
  let _ ← Reading.skipWhitespace
  match ← numeralPlan delims with
  | none => return .bad .zero
  | some n => return .good n.toDouble

/-- The plan of one of the words of a kind. -/
def keywordPlan (kind : ValueKind) (delims : List UInt8) (start : Nat) (words : Entries Value)
    (substitute : Value) : LiteralPlan (Outcome Value) := do
  let s ← unquotedPlan delims
  match words.get? s with
  | some v => return .good v
  | none =>
    Reading.error s!"Expected {kind.name} but got \"{s}\"" (← Reading.locationFrom start)
    return .bad substitute

/-- The plan of a container. -/
def containerPlan : LiteralPlan (Outcome Value) := do
  let _ ← Reading.skipWhitespace
  Call.ask (.container 0)

/-- The plan of an array. -/
def arrayPlan : LiteralPlan (Outcome (List Value)) := do
  let _ ← Reading.skipWhitespace
  let start ← Reading.offset
  if (← Reading.lookahead) != some openBracket then
    Reading.error "Expected '['" (← Reading.locationFrom start)
    return .bad []
  else
    match ← Call.ask (.container 0) with
    | ⟨ok, .array items⟩ => return ⟨ok, items⟩
    | ⟨_, v⟩ =>
      Reading.error s!"Expected array but got {v.kindName}" (← Reading.locationFrom start)
      return .bad []

/-- The plan of a map. -/
def mapPlan : LiteralPlan (Outcome (Entries Value)) := do
  let _ ← Reading.skipWhitespace
  let start ← Reading.offset
  let opener ← Reading.lookahead
  if (opener.bind closerOf?).isNone then
    Reading.error "Expected '\x7b'" (← Reading.locationFrom start)
    return .bad []
  else
    match ← Call.ask (.container 0) with
    | ⟨ok, .map entries⟩ => return ⟨ok, entries⟩
    | ⟨ok, .array []⟩ => return ⟨ok, []⟩
    | ⟨_, v⟩ =>
      Reading.error s!"Expected map but got {v.kindName}" (← Reading.locationFrom start)
      return .bad []

/-- The plan of a value of a given kind. -/
def typedPlan (kind : ValueKind) (delims : List UInt8) : LiteralPlan (Outcome Value) := do
  let _ ← Reading.skipWhitespace
  let start ← Reading.offset
  match kind with
  | .int => return (← integerPlan delims).map .int
  | .double => return (← doublePlan delims).map .double
  | .bool =>
    keywordPlan kind delims start [("false", .bool false), ("true", .bool true)] (.bool false)
  | .null => keywordPlan kind delims start [("null", .null)] .null
  | .string | .magic =>
    if ((← Reading.lookahead).map isQuote).getD false then
      return (← quotedPlan).map .string
    else return .good (.string (← unquotedPlan delims))
  | .array | .map =>
    let v ← containerPlan
    if v.value.kind = kind || !v.ok then return v
    else
      Reading.error s!"Expected {kind.name} but got {v.value.kindName}"
        (← Reading.locationFrom start)
      return .bad v.value
  | .object | .function => Call.ask (.value delims 0)

/-- The plan of a literal of some form. -/
def Form.plan : ∀ f : Form, LiteralPlan (Outcome f.Answer)
  | any delims => Call.ask (.value delims 0)
  | quoted => quotedPlan
  | unquoted delims => return .good (← unquotedPlan delims)
  | integer delims => integerPlan delims
  | double delims => doublePlan delims
  | array => arrayPlan
  | map => mapPlan
  | container => containerPlan
  | typed kind delims => typedPlan kind delims

/-! ## Plans and what they are plans of -/

section Run

variable (limits : Limits)

lemma run_askContainer : (Call.ask (.container 0)).run (Call.run limits) =
    (fuel >>= fun n => readContainerAt limits n 0) := Call.run_ask _ _

lemma run_integerPlan (delims : List UInt8) :
    (integerPlan delims).run (Call.run limits) = readInteger delims := by
  refine Plan.run_act fun _ => Plan.run_act fun start => ?_
  refine Plan.run_then (run_numeralPlan (fun _ _ => rfl) delims) fun n => ?_
  cases n with
  | none => rfl
  | some n =>
    dsimp only
    split <;> rfl

lemma run_doublePlan (delims : List UInt8) :
    (doublePlan delims).run (Call.run limits) = readDouble delims := by
  refine Plan.run_act fun _ => Plan.run_then (run_numeralPlan (fun _ _ => rfl) delims) fun n => ?_
  cases n <;> rfl

lemma run_keywordPlan (kind : ValueKind) (delims : List UInt8) (start : Nat) (words : Entries Value)
    (substitute : Value) : (keywordPlan kind delims start words substitute).run (Call.run limits) =
      readKeyword kind delims start words substitute := by
  refine Plan.run_then (run_unquotedPlan (fun _ _ => rfl) delims) fun s => ?_
  cases words.get? s <;> rfl

lemma run_containerPlan : containerPlan.run (Call.run limits) = readContainer limits :=
  Plan.run_act fun _ => run_askContainer limits

lemma run_arrayPlan : arrayPlan.run (Call.run limits) = readArray limits := by
  refine Plan.run_act fun _ => Plan.run_act fun start => Plan.run_act fun c => ?_
  split
  · rfl
  · refine (Plan.run_then (run_askContainer limits) fun v => ?_).trans (bind_assoc _ _ _)
    obtain ⟨ok, v⟩ := v
    cases v <;> rfl

lemma run_mapPlan : mapPlan.run (Call.run limits) = readMap limits := by
  refine Plan.run_act fun _ => Plan.run_act fun start => Plan.run_act fun c => ?_
  split
  · rfl
  · refine (Plan.run_then (run_askContainer limits) fun v => ?_).trans (bind_assoc _ _ _)
    obtain ⟨ok, v⟩ := v
    cases v with
    | array items => cases items <;> rfl
    | null | bool | int | double | string | magic | map | object | function => rfl

lemma run_typedPlan (kind : ValueKind) (delims : List UInt8) :
    (typedPlan kind delims).run (Call.run limits) = readTyped limits kind delims := by
  refine Plan.run_act fun _ => Plan.run_act fun start => ?_
  cases kind with
  | int => exact Plan.run_then (run_integerPlan limits delims) fun _ => rfl
  | double => exact Plan.run_then (run_doublePlan limits delims) fun _ => rfl
  | bool | null => exact run_keywordPlan limits _ delims start _ _
  | string | magic =>
    refine Plan.run_act fun c => ?_
    split
    · exact Plan.run_then (run_quotedPlan fun _ _ => rfl) fun _ => rfl
    · exact Plan.run_then (run_unquotedPlan (fun _ _ => rfl) delims) fun _ => rfl
  | array | map =>
    refine Plan.run_then (run_containerPlan limits) fun v => ?_
    split <;> rfl
  | object | function => exact Call.run_ask _ _

/-- Every form of literals is read by its plan. -/
theorem Form.run_plan (f : Form) : f.plan.run (Call.run limits) = f.read limits := by
  cases f with
  | any delims => exact Call.run_ask _ _
  | quoted => exact run_quotedPlan fun _ _ => rfl
  | unquoted delims => exact Plan.run_then (run_unquotedPlan (fun _ _ => rfl) delims) fun _ => rfl
  | integer delims => exact run_integerPlan limits delims
  | double delims => exact run_doublePlan limits delims
  | array => exact run_arrayPlan limits
  | map => exact run_mapPlan limits
  | container => exact run_containerPlan limits
  | typed kind delims => exact run_typedPlan limits kind delims

end Run

/-! ## What forms call -/

section Meets

variable {bytes : List UInt8} {p : Progress} {Q : Call → Progress → Prop}

section Loops

variable (hQ : ∀ d q, d.isLoop = true → p.read ≤ q.read → Q d q)
include hQ

lemma meets_integerPlan (delims : List UInt8) :
    (integerPlan delims).Meets bytes Q p fun _ _ => True := by
  refine .act (.skipWhitespace fun q _ _ hle _ => .act (.offset fun start => ?_))
  refine .bind ((meets_numeralPlan (fun d _ hd h => hQ d _ hd (hle.trans h)) delims).mono ?_)
  intro n _ _
  cases n with
  | none => exact .pure trivial
  | some n =>
    dsimp only
    split
    · exact .pure trivial
    · exact meets_errorFrom

lemma meets_doublePlan (delims : List UInt8) :
    (doublePlan delims).Meets bytes Q p fun _ _ => True := by
  refine .act (.skipWhitespace fun q _ _ hle _ => ?_)
  refine .bind ((meets_numeralPlan (fun d _ hd h => hQ d _ hd (hle.trans h)) delims).mono ?_)
  intro n _ _
  cases n <;> exact .pure trivial

lemma meets_keywordPlan (kind : ValueKind) (delims : List UInt8) (start : Nat)
    (words : Entries Value) (substitute : Value) :
    (keywordPlan kind delims start words substitute).Meets bytes Q p fun _ _ => True := by
  refine .bind ((meets_unquotedPlan hQ delims).mono fun s _ _ => ?_)
  cases words.get? s with
  | none => exact meets_errorFrom
  | some v => exact .pure trivial

end Loops

section Containers

variable (hQ : ∀ q, p.read ≤ q.read → Q (.container 0) q)
include hQ

lemma meets_containerPlan : containerPlan.Meets bytes Q p fun _ _ => True :=
  .act (.skipWhitespace fun _ _ _ hle _ => .ask (hQ _ hle) fun _ _ _ _ _ => trivial)

lemma meets_arrayPlan : arrayPlan.Meets bytes Q p fun _ _ => True := by
  refine .act (.skipWhitespace fun q _ _ hle _ => .act (.offset fun start => ?_))
  refine .act (.lookahead fun c q' hq' _ => ?_)
  split
  · exact meets_errorFrom
  · refine .bind (.ask (hQ _ (by omega)) fun v _ _ _ _ => ?_)
    split
    · exact .pure trivial
    · exact meets_errorFrom

lemma meets_mapPlan : mapPlan.Meets bytes Q p fun _ _ => True := by
  refine .act (.skipWhitespace fun q _ _ hle _ => .act (.offset fun start => ?_))
  refine .act (.lookahead fun c q' hq' _ => ?_)
  split
  · exact meets_errorFrom
  · refine .bind (.ask (hQ _ (by omega)) fun v _ _ _ _ => ?_)
    split
    · exact .pure trivial
    · exact .pure trivial
    · exact meets_errorFrom

end Containers

lemma meets_typedPlan (hloop : ∀ d q, d.isLoop = true → p.read ≤ q.read → Q d q)
    (hcontainer : ∀ q, p.read ≤ q.read → Q (.container 0) q)
    (hvalue : ∀ delims q, p.read ≤ q.read → Q (.value delims 0) q) (kind : ValueKind)
    (delims : List UInt8) : (typedPlan kind delims).Meets bytes Q p fun _ _ => True := by
  refine .act (.skipWhitespace fun q _ _ hle _ => .act (.offset fun start => ?_))
  have hloop' : ∀ d q', d.isLoop = true → q.read ≤ q'.read → Q d q' :=
    fun d _ hd h => hloop d _ hd (hle.trans h)
  cases kind with
  | int => exact .bind ((meets_integerPlan hloop' delims).mono fun _ _ _ => .pure trivial)
  | double => exact .bind ((meets_doublePlan hloop' delims).mono fun _ _ _ => .pure trivial)
  | bool | null => exact meets_keywordPlan hloop' _ delims start _ _
  | string | magic =>
    refine .act (.lookahead fun c q' hq' _ => ?_)
    have hloop'' : ∀ d q'', d.isLoop = true → q'.read ≤ q''.read → Q d q'' :=
      fun d _ hd h => hloop' d _ hd (hq'.ge.trans h)
    split
    · exact .bind ((meets_quotedPlan hloop'').mono fun _ _ _ => .pure trivial)
    · exact .bind ((meets_unquotedPlan hloop'' delims).mono fun _ _ _ => .pure trivial)
  | array | map =>
    refine .bind ((meets_containerPlan fun _ h => hcontainer _ (hle.trans h)).mono fun v _ _ => ?_)
    split
    · exact .pure trivial
    · exact meets_errorFrom
  | object | function => exact .ask (hvalue _ _ hle) fun _ _ _ _ _ => trivial

/-- The calls of a form are not before it, and not too deep. -/
theorem Form.meets (limits : Limits) (f : Form) :
    f.plan.Meets bytes (fun d q => p.read ≤ q.read ∧ d.Shallow limits) p fun _ _ => True := by
  have hloop : ∀ (d : Call) (q : Progress), d.isLoop = true → p.read ≤ q.read →
      p.read ≤ q.read ∧ d.Shallow limits := fun _ _ hd h => ⟨h, Call.shallow_of_isLoop hd⟩
  have hcontainer : ∀ q : Progress, p.read ≤ q.read →
      p.read ≤ q.read ∧ (Call.container 0).Shallow limits := fun _ h => ⟨h, Nat.zero_le _⟩
  have hvalue : ∀ delims (q : Progress), p.read ≤ q.read →
      p.read ≤ q.read ∧ (Call.value delims 0).Shallow limits := fun _ _ h => ⟨h, Nat.zero_le _⟩
  cases f with
  | any delims => exact .ask (hvalue _ _ le_rfl) fun _ _ _ _ _ => trivial
  | quoted => exact meets_quotedPlan hloop
  | unquoted delims => exact .bind ((meets_unquotedPlan hloop delims).mono fun _ _ _ => .pure trivial)
  | integer delims => exact meets_integerPlan hloop delims
  | double delims => exact meets_doublePlan hloop delims
  | array => exact meets_arrayPlan hcontainer
  | map => exact meets_mapPlan hcontainer
  | container => exact meets_containerPlan hcontainer
  | typed kind delims => exact meets_typedPlan hloop hcontainer hvalue kind delims

end Meets

end Semdoc.Literal
