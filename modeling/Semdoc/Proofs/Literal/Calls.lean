import Semdoc.Literal.Value
import Semdoc.Proofs.Literal.Plan

/-!
# Calls of literals

The loops and the recursion of reading literals, as plans.  Every call has so many rounds, or so much fuel,
that it never runs out of them: what it reads is what its plan reads when all calls in it are made in the
same way.
-/

namespace Semdoc.Literal

open scoped Plan

/-- A round of a loop, or a value, a container or what is left of its entries. -/
inductive Call where
  | value (delims : List UInt8) (depth : Nat)
  | container (depth : Nat)
  | entries (close : UInt8) (start depth : Nat) (c : Container)
  | quoted (quote : UInt8) (start : Nat) (out : Array UInt8) (ok : Bool)
  | unquoted (delims : List UInt8) (out : Array UInt8)
  | number (delims : List UInt8) (s : Numeral.Scan)

namespace Call

/-- What a call answers with. -/
@[reducible] def Answer : Call → Type
  | value _ _ => Outcome Value
  | container _ => Outcome Value
  | entries _ _ _ _ => Container
  | quoted _ _ _ _ => Outcome String
  | unquoted _ _ => Array UInt8
  | number _ _ => Option Numeral.Scan

/-- Whether a call is a round of a loop over characters. -/
def isLoop : Call → Bool
  | value _ _ => false
  | container _ => false
  | entries _ _ _ _ => false
  | quoted _ _ _ _ => true
  | unquoted _ _ => true
  | number _ _ => true

/-- Makes a call with some rounds or fuel. -/
def runWith (limits : Limits) (n : Nat) : ∀ c : Call, Reading c.Answer
  | value delims depth => readValueAt limits delims n depth
  | container depth => readContainerAt limits n depth
  | entries close start depth c => readEntries limits close start n depth c
  | quoted quote start out ok => readQuotedRest limits.stringLength quote start n out ok
  | unquoted delims out => collectUntil delims n out
  | number delims s => Numeral.scanWith delims n s

/-- Makes a call with as many rounds or as much fuel as the input asks for. -/
def run (limits : Limits) (c : Call) : Reading c.Answer := do
  c.runWith limits (← if c.isLoop then Reading.rounds else fuel)

/-- How calls are answered that are made with some rounds or fuel left. -/
def answer (limits : Limits) (c : Call) (n : Nat) (d : Call) : Reading d.Answer :=
  if d.isLoop = c.isLoop then d.runWith limits n else d.run limits

end Call

/-- A plan of reading a literal. -/
abbrev LiteralPlan (α : Type) := Plan Call Call.Answer α

/-- Makes a call. -/
def Call.ask (c : Call) : LiteralPlan c.Answer := Plan.ask c

/-! ## Plans -/

/-- The plan of a number. -/
def numeralPlan (delims : List UInt8) : LiteralPlan (Option Numeral) := do
  Reading.resetPeek
  match ← Call.ask (.number delims {}) with
  | none => return none
  | some s =>
    match s.finish with
    | none =>
      Reading.error "Unexpected end of number" (← Reading.location)
      return none
    | some n =>
      if n.inRange then return some n
      else
        Reading.error Numeral.tooLargeText (← Reading.location)
        return none

/-- The plan of a number that may be something else. -/
def numberPlan (delims : List UInt8) : LiteralPlan (Option Value) :=
  Plan.onFork do
    match ← numeralPlan delims with
    | none => return none
    | some n =>
      let _ ← Reading.skipWhitespace
      match ← Reading.lookahead with
      | none => return some n.toValue
      | some c => return if delims.contains c then some n.toValue else none

/-- The plan of a quoted string. -/
def quotedPlan : LiteralPlan (Outcome String) := do
  Reading.resetPeek
  let start ← Reading.offset
  match ← Reading.read with
  | some q =>
    if isQuote q then Call.ask (.quoted q start #[] true)
    else
      Reading.error "Expected quote" (← Reading.locationFrom start)
      return .bad ""
  | none =>
    Reading.error "Expected quote" (← Reading.locationFrom start)
    return .bad ""

/-- The plan of unquoted text. -/
def unquotedPlan (delims : List UInt8) : LiteralPlan String := do
  let _ ← Reading.skipWhitespace
  let out ← Call.ask (.unquoted delims #[])
  return Text.trimBlankEnd (textOf out)

/-- The plan of a value without quotes. -/
def wordPlan (delims : List UInt8) (start : Nat) : LiteralPlan (Outcome Value) := do
  let s ← unquotedPlan delims
  if s == "" then
    Reading.error "Expected value" (← Reading.locationFrom start)
    return .bad .null
  else return .good (wordValue s)

/-- The plan of a container, after a character that may have opened it. -/
def openedPlan (limits : Limits) (depth start : Nat) : Option UInt8 → LiteralPlan (Outcome Value)
  | none => do
    Reading.error "Expected '[' or '\x7b'" (← Reading.locationFrom start)
    return .bad .null
  | some close => do
    if limits.complexDepth.toNat ≤ depth then
      Reading.error "Maximum nesting depth exceeded" (← Reading.locationFrom start)
      return .bad (emptyContainer close)
    else
      let c ← Call.ask (.entries close start depth {})
      return ⟨c.ok, c.value close⟩

/-- The plan of what comes after an entry. -/
def nextPlan (close : UInt8) (start depth : Nat) (c : Container) : LiteralPlan Container := do
  let c ← checkMixture start c
  let separated ← readSeparator close
  Call.ask (.entries close start depth { c with ok := c.ok && separated })

/-- The plan of what makes an entry of a value: an item, or the key of another value. -/
def entryPlan (close : UInt8) (start depth : Nat) (c : Container) (first : Value) :
    LiteralPlan Container := do
  let _ ← Reading.skipWhitespace
  let mark ← Reading.peek
  if mark == some equalsSign || mark == some colon then
    Reading.consumePeek
    let place ← Reading.location
    let key ← keyOf first place
    let value ← Call.ask (.value [comma, close] (depth + 1))
    if Entries.hasKey key.value c.entries then
      Reading.warning s!"Duplicate key \"{key.value}\"" place
    nextPlan close start depth { c with
      ok := c.ok && key.ok && value.ok
      entries := Entries.insert key.value value.value c.entries }
  else
    Reading.resetPeek
    nextPlan close start depth { c with items := first :: c.items }

/-- The plan of a round of a quoted string, when what has been read is not too long. -/
def roundPlan (quote : UInt8) (start : Nat) (out : Array UInt8) (ok : Bool) :
    LiteralPlan (Outcome String) := do
  match ← Reading.read with
  | none =>
    Reading.error "Unterminated string literal" (← Reading.locationFrom start)
    return .bad (textOf out)
  | some c =>
    if c == quote then return ⟨ok, textOf out⟩
    else if c == lineFeed then
      Reading.error "Unterminated string literal, unexpected line break"
        (← Reading.locationFrom start)
      return .bad (textOf out)
    else if c == backslash then
      let escapeStart := (← Reading.offset) - 1
      match ← Reading.read with
      | none => Call.ask (.quoted quote start out ok)
      | some e =>
        let escape ← readEscape escapeStart e
        Call.ask (.quoted quote start (out ++ escape.value) (ok && escape.ok))
    else Call.ask (.quoted quote start (out.push c) ok)

namespace Call

/-- What a call does. -/
def plan (limits : Limits) : ∀ c : Call, LiteralPlan c.Answer
  | value delims depth => do
    let _ ← Reading.skipWhitespace
    let start ← Reading.offset
    match ← Reading.lookahead with
    | none =>
      Reading.error "Unexpected end of input, expected value" (← Reading.location)
      return .bad .null
    | some c =>
      if isQuote c then return (← quotedPlan).map .string
      else if c == openBracket || c == openBrace then Call.ask (.container depth)
      else if startsNumber c then
        match ← numberPlan delims with
        | some v => return .good v
        | none => wordPlan delims start
      else wordPlan delims start
  | container depth => do
    Reading.resetPeek
    let start ← Reading.offset
    openedPlan limits depth start ((← Reading.read).bind closerOf?)
  | entries close start depth c => do
    if !(← Reading.skipWhitespace) then
      let closer := String.ofList [Char.ofNat close.toNat]
      Reading.error s!"Unexpected end of input, expected '{closer}'" (← Reading.locationFrom start)
      return { c with ok := false }
    else if (← Reading.peek) == some close then
      Reading.consumePeek
      return c
    else
      Reading.resetPeek
      let first ← Call.ask (.value [comma, close, equalsSign, colon] (depth + 1))
      entryPlan close start depth { c with ok := c.ok && first.ok } first.value
  | quoted quote start out ok => do
    let long := limits.stringLength.toNat < out.size
    if long && ok then
      Reading.error "String literal too long" (← Reading.locationFrom start)
    roundPlan quote start (if long then out.extract 0 limits.stringLength.toNat else out)
      (ok && !long)
  | unquoted delims out => do
    match ← Reading.peek with
    | some c =>
      if delims.contains c then
        Reading.resetPeek
        return out
      else
        Reading.consumePeek
        Call.ask (.unquoted delims (out.push c))
    | none =>
      Reading.resetPeek
      return out
  | number delims s => do
    match ← Reading.peek with
    | none =>
      Reading.resetPeek
      return some s
    | some c =>
      if Text.isBlankByte c || delims.contains c then
        Reading.resetPeek
        return some s
      else
        match s.step c with
        | some s =>
          Reading.consumePeek
          Call.ask (.number delims s)
        | none =>
          Reading.resetPeek
          Reading.error s!"Unexpected character '{Text.escapeByte c}' in number"
            (← Reading.location)
          return none

end Call

/-! ## Plans and what they are plans of -/

lemma Call.run_ask (f : ∀ c : Call, Reading c.Answer) (c : Call) : c.ask.run f = f c :=
  Plan.run_ask f c

section Loops

variable {limits : Limits} {f : ∀ c : Call, Reading c.Answer}
  (hf : ∀ c, c.isLoop = true → f c = c.run limits)
include hf

lemma run_numeralPlan (delims : List UInt8) :
    (numeralPlan delims).run f = Numeral.read delims := by
  have hloop : f (.number delims {}) = Reading.rounds >>= fun n => Numeral.scanWith delims n {} :=
    hf _ rfl
  refine Plan.run_act fun _ => ?_
  refine (Plan.run_call hloop fun s => ?_).trans (bind_assoc _ _ _)
  cases s with
  | none => rfl
  | some s =>
    dsimp only
    cases s.finish with
    | none => rfl
    | some n =>
      dsimp only
      split <;> rfl

lemma run_numberPlan (delims : List UInt8) : (numberPlan delims).run f = readNumber? delims := by
  rw [numberPlan, readNumber?, Plan.run_onFork]
  refine congrArg Reading.attempt (Plan.run_then (run_numeralPlan hf delims) fun n => ?_)
  cases n with
  | none => rfl
  | some n =>
    refine Plan.run_act fun _ => Plan.run_act fun c => ?_
    cases c <;> rfl

lemma run_quotedPlan : quotedPlan.run f = readQuoted limits.stringLength := by
  refine Plan.run_act fun _ => Plan.run_act fun start => Plan.run_act fun q => ?_
  cases q with
  | none => rfl
  | some q =>
    have hloop : f (.quoted q start #[] true) = Reading.rounds >>= fun n =>
        readQuotedRest limits.stringLength q start n #[] true := hf _ rfl
    dsimp only
    split
    · exact (Call.run_ask f _).trans hloop
    · rfl

lemma run_unquotedPlan (delims : List UInt8) : (unquotedPlan delims).run f = readUnquoted delims := by
  have hloop : f (.unquoted delims #[]) = Reading.rounds >>= fun n => collectUntil delims n #[] :=
    hf _ rfl
  refine Plan.run_act fun _ => ?_
  exact (Plan.run_call hloop fun _ => rfl).trans (bind_assoc _ _ _)

lemma run_wordPlan (delims : List UInt8) (start : Nat) :
    (wordPlan delims start).run f = readWord delims start := by
  refine Plan.run_then (run_unquotedPlan hf delims) fun s => ?_
  split <;> rfl

end Loops

namespace Call

variable (limits : Limits) (n : Nat)

lemma answer_of_isLoop {c : Call} (hc : c.isLoop = false) (d : Call) (hd : d.isLoop = true) :
    c.answer limits n d = d.run limits := by
  rw [answer, if_neg (by rw [hc, hd]; exact Bool.noConfusion)]

lemma run_value (delims : List UInt8) (depth : Nat) :
    ((value delims depth).plan limits).run ((value delims depth).answer limits n) =
      readValueAt limits delims (n + 1) depth := by
  have hf := answer_of_isLoop limits n (c := .value delims depth) rfl
  rw [readValueAt]
  refine Plan.run_act fun _ => Plan.run_act fun start => Plan.run_act fun c => ?_
  cases c with
  | none => rfl
  | some c =>
    dsimp only
    split
    · exact Plan.run_then (run_quotedPlan hf) fun _ => rfl
    · split
      · exact run_ask _ _
      · split
        · refine Plan.run_then (run_numberPlan hf delims) fun v => ?_
          cases v with
          | some v => rfl
          | none => exact run_wordPlan hf delims start
        · exact run_wordPlan hf delims start

lemma run_container (depth : Nat) :
    ((container depth).plan limits).run ((container depth).answer limits n) =
      readContainerAt limits (n + 1) depth := by
  rw [readContainerAt]
  refine Plan.run_act fun _ => Plan.run_act fun start => Plan.run_act fun c => ?_
  cases c.bind closerOf? with
  | none => rfl
  | some close =>
    rw [openedPlan]
    dsimp only
    split
    · rfl
    · rfl

section Entries

variable {close : UInt8} {start depth : Nat} {f : ∀ c : Call, Reading c.Answer}
  (hself : ∀ c, f (.entries close start depth c) = readEntries limits close start n depth c)
include hself

lemma run_nextPlan (c : Container) : (nextPlan close start depth c).run f = (do
    let c ← checkMixture start c
    let separated ← readSeparator close
    readEntries limits close start n depth { c with ok := c.ok && separated }) :=
  Plan.run_act fun _ => Plan.run_act fun _ => (run_ask _ _).trans (hself _)

end Entries

lemma run_entries (close : UInt8) (start depth : Nat) (c : Container) :
    ((entries close start depth c).plan limits).run ((entries close start depth c).answer limits n) =
      readEntries limits close start (n + 1) depth c := by
  have hvalue : ∀ delims depth', answer limits (.entries close start depth c) n
      (.value delims depth') = readValueAt limits delims n depth' := fun _ _ => rfl
  have hself : ∀ c', answer limits (.entries close start depth c) n
      (.entries close start depth c') = readEntries limits close start n depth c' := fun _ => rfl
  have hnext := run_nextPlan limits n hself
  rw [readEntries]
  refine Plan.run_act fun more => ?_
  split
  · rfl
  · refine Plan.run_act fun p => ?_
    split
    · rfl
    · refine Plan.run_act fun _ => Plan.run_call (hvalue _ _) fun first => ?_
      refine Plan.run_act fun _ => Plan.run_act fun mark => ?_
      dsimp only
      split
      · refine Plan.run_act fun _ => Plan.run_act fun place => Plan.run_act fun key => ?_
        refine Plan.run_call (hvalue _ _) fun value => ?_
        split
        · refine Plan.run_act fun _ => ?_
          rw [pure_bind]
          exact hnext _
        · rw [pure_bind]
          exact hnext _
      · refine Plan.run_act fun _ => ?_
        rw [pure_bind]
        exact hnext _

lemma run_quoted (quote : UInt8) (start : Nat) (out : Array UInt8) (ok : Bool) :
    ((quoted quote start out ok).plan limits).run ((quoted quote start out ok).answer limits n) =
      readQuotedRest limits.stringLength quote start (n + 1) out ok := by
  have hself : ∀ out' ok', (quoted quote start out ok).answer limits n (.quoted quote start out' ok') =
      readQuotedRest limits.stringLength quote start n out' ok' := fun _ _ => rfl
  rw [readQuotedRest, plan]
  dsimp only
  -- The round is the same whether or not an error was reported before it.
  split
  on_goal 1 => refine Plan.run_act fun _ => Plan.run_act fun _ => ?_
  all_goals
    refine Plan.run_act fun c => ?_
    cases c with
    | none => rfl
    | some c =>
      dsimp only
      split
      · rfl
      · split
        · rfl
        · split
          · refine Plan.run_act fun _ => Plan.run_act fun e => ?_
            cases e with
            | none => exact (run_ask _ _).trans (hself _ _)
            | some e => exact Plan.run_act fun escape => (run_ask _ _).trans (hself _ _)
          · exact (run_ask _ _).trans (hself _ _)

lemma run_unquoted (delims : List UInt8) (out : Array UInt8) :
    ((unquoted delims out).plan limits).run ((unquoted delims out).answer limits n) =
      collectUntil delims (n + 1) out := by
  rw [collectUntil]
  refine Plan.run_act fun c => ?_
  cases c with
  | none => rfl
  | some c =>
    dsimp only
    split
    · rfl
    · exact Plan.run_act fun _ => run_ask _ _

lemma run_number (delims : List UInt8) (s : Numeral.Scan) :
    ((number delims s).plan limits).run ((number delims s).answer limits n) =
      Numeral.scanWith delims (n + 1) s := by
  rw [Numeral.scanWith]
  refine Plan.run_act fun c => ?_
  cases c with
  | none => rfl
  | some c =>
    dsimp only
    split
    · rfl
    · cases s.step c with
      | none => rfl
      | some s => exact Plan.run_act fun _ => run_ask _ _

/-- With one more round or step, a call does what its plan says. -/
theorem runWith_succ (c : Call) :
    c.runWith limits (n + 1) = (c.plan limits).run (c.answer limits n) := by
  cases c with
  | value delims depth => exact (run_value limits n delims depth).symm
  | container depth => exact (run_container limits n depth).symm
  | entries close start depth c => exact (run_entries limits n close start depth c).symm
  | quoted quote start out ok => exact (run_quoted limits n quote start out ok).symm
  | unquoted delims out => exact (run_unquoted limits n delims out).symm
  | number delims s => exact (run_number limits n delims s).symm

end Call

end Semdoc.Literal
