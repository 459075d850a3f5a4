import Semdoc.Parse.Stack
import Semdoc.Proofs.Log.Computations

/-!
# Who hears what

What handlers hear from a stack of elements is told by a record.  The elements are numbered in the
order in which they begin, and every turn of the record keeps what the stack is told, where it
stands, and which handler hears of it.  What a turn does to the session and to the log is what that
handler does, whatever the handlers do.
-/

namespace Semdoc

variable {σ : Type}

/-! ## Reports -/

/-- What a stack of elements is told. -/
inductive Report where
  | start (name : String) (args : Entries Value) (l : Location)
  | finish
  | data (v : Value) (field : Nat)
  | fieldStart (isDefault : Bool) (field : Nat)
  | fieldFinish
  | annotationStart (className : String) (args : Entries Value)
  | annotationFinish (className name : String)
  | token (t : Value)

namespace Report

def isStart : Report → Bool
  | start .. => true
  | _ => false

def isFinish : Report → Bool
  | finish => true
  | _ => false

/-- The arguments of an element that begins. -/
def args : Report → Entries Value
  | start _ args _ => args
  | _ => []

/-- The report with other arguments for the element that begins. -/
def withArgs (r : Report) (args : Entries Value) : Report :=
  match r with
  | start name _ l => start name args l
  | r => r

variable {r : Report}

lemma args_of_not_start (hr : r.isStart = false) : r.args = [] := by
  cases r with
  | start => cases hr
  | _ => rfl

lemma withArgs_of_not_start (hr : r.isStart = false) (args : Entries Value) :
    r.withArgs args = r := by
  cases r with
  | start => cases hr
  | _ => rfl

@[simp] lemma isStart_withArgs (args : Entries Value) : (r.withArgs args).isStart = r.isStart := by
  cases r <;> rfl

lemma eq_finish (hr : r.isFinish = true) : r = finish := by
  cases r with
  | finish => rfl
  | _ => cases hr

lemma isStart_of_isFinish (hr : r.isFinish = true) : r.isStart = false := by
  rw [eq_finish hr]
  rfl

end Report

/-- A handler hears of something.  It answers, and may change the arguments of its element. -/
def Handler.hear (h : Handler σ) : Report → Handling σ (Bool × Entries Value)
  | .start _ args _ => h.start args
  | .finish => (fun _ => (true, [])) <$> h.finish
  | .data v field => (·, []) <$> h.data v field
  | .fieldStart isDefault field => (·, []) <$> h.fieldStart isDefault field
  | .fieldFinish => (fun _ => (true, [])) <$> h.fieldFinish
  | .annotationStart className args => (·, []) <$> h.annotationStart className args
  | .annotationFinish className name => (·, []) <$> h.annotationFinish className name
  | .token t => (·, []) <$> h.token t

lemma Handler.args_hear {r : Report} (hr : r.isStart = false) (h : Handler σ)
    (session : Session σ) : (h.hear r session).value.1.2 = [] := by
  cases r with
  | start => cases hr
  | _ => rfl

/-- What a stack gives back. -/
structure StackReply (σ : Type) where
  answer : Except Failure Bool
  /-- What has become of the arguments of an element that begins. -/
  args : Entries Value
  stack : ElementStack σ

namespace ElementStack

/-- What a stack gives back that stays as it is. -/
def reply {α : Type} (s : ElementStack σ) (yes : α → Bool) (answer : Except Failure α) : StackReply σ :=
  ⟨yes <$> answer, [], s⟩

/-- Tells a stack something. -/
def perform (s : ElementStack σ) : Report → Handling σ (StackReply σ)
  | .start name args l =>
    (fun r => ⟨(fun _ => true) <$> r.1, r.2.1, r.2.2⟩) <$> s.start name args l
  | .finish => (fun r => r.2.reply (fun _ => true) r.1) <$> s.finish
  | .data v field => s.reply id <$> s.data v field
  | .fieldStart isDefault field => s.reply id <$> s.fieldStart isDefault field
  | .fieldFinish => s.reply (fun _ => true) <$> s.fieldFinish
  | .annotationStart className args => s.reply id <$> s.annotationStart className args
  | .annotationFinish className name => s.reply id <$> s.annotationFinish className name
  | .token t => s.reply id <$> s.token t

def push (s : ElementStack σ) (e : Element σ) : ElementStack σ :=
  { s with elements := e :: s.elements }

def signature (s : ElementStack σ) (command : CommandId) : Signature :=
  ((s.table.get? command).map (·.signature)).getD .unknown

/-- Whether a handler is asked to accept an element that begins. -/
def asks (s : ElementStack σ) : Bool :=
  ((s.elements.head?).map (·.valid)).getD true

/-- The element that begins and its handler, unless none may begin. -/
def begun? (s : ElementStack σ) (name : String) (l : Location) :
    Option (ElementInfo × Handler σ) :=
  if s.most ≤ s.depth then none
  else (s.target? name).map fun target =>
    let info := { name, command := target.1, location := l : ElementInfo }
    (info, target.2 info)

/-! ## What the stack does -/

section Start

variable {s : ElementStack σ} {name : String} {l : Location}

lemma perform_start_of_none (h : s.begun? name l = none) (args : Entries Value)
    (session : Session σ) :
    ∃ f, s.perform (.start name args l) session = ⟨(⟨.error f, args, s⟩, session), []⟩ := by
  rw [perform, Logged.run_map, start]
  cases ht : s.target? name with
  | none => exact ⟨_, rfl⟩
  | some target =>
    by_cases hdeep : s.most ≤ s.depth
    · simp only [if_pos hdeep]
      exact ⟨_, rfl⟩
    · rw [begun?, if_neg hdeep, ht] at h
      cases h

end Start

section Told

variable {α : Type} {s : ElementStack σ} {e : Element σ} {rest : List (Element σ)} {r : Report}

lemma run_finish_cons (h : s.elements = e :: rest) (session : Session σ) :
    s.finish session =
      let heard := if e.valid then e.handler.finish session else ⟨((), session), []⟩
      ⟨((.ok (), { s with elements := rest }), heard.value.2), heard.events⟩ := by
  rw [finish, h]
  cases hv : e.valid with
  | false => simp [hv]
  | true => simp [hv]

lemma run_deliver_nil (h : s.elements = []) (what : String) (otherwise : α)
    (f : Handler σ → Handling σ α) (session : Session σ) :
    s.deliver what otherwise f session =
      ⟨(.error (StackFault.noReceiver what).failure, session), []⟩ := by
  rw [deliver, h]
  rfl

lemma run_deliver_cons (h : s.elements = e :: rest) (what : String) (otherwise : α)
    (f : Handler σ → Handling σ α) (session : Session σ) :
    s.deliver what otherwise f session =
      let heard := if e.valid then f e.handler session else ⟨(otherwise, session), []⟩
      ⟨(.ok heard.value.1, heard.value.2), heard.events⟩ := by
  rw [deliver, h]
  cases hv : e.valid with
  | false => simp [hv]
  | true => simp [hv]

lemma run_reply_deliver (yes : α → Bool) (what : String) (otherwise : α)
    (f : Handler σ → Handling σ α) (session : Session σ) :
    (s.reply yes <$> s.deliver what otherwise f) session =
      (s.reply Prod.fst <$> s.deliver what (yes otherwise, ([] : Entries Value))
        fun h => (fun a => (yes a, [])) <$> f h) session := by
  rw [Logged.run_map, Logged.run_map]
  cases h : s.elements with
  | nil =>
    rw [run_deliver_nil h, run_deliver_nil h]
    rfl
  | cons e rest =>
    rw [run_deliver_cons h, run_deliver_cons h, Logged.run_map]
    cases e.valid <;> rfl

/-- What is told within an element is delivered to its handler. -/
lemma exists_deliver (hs : r.isStart = false) (hf : r.isFinish = false) (session : Session σ) :
    ∃ what otherwise, s.perform r session =
      (s.reply Prod.fst <$> s.deliver what (otherwise, []) (Handler.hear · r)) session := by
  cases r with
  | start => cases hs
  | finish => cases hf
  | fieldFinish => exact ⟨_, _, run_reply_deliver (fun _ => true) ..⟩
  | _ => exact ⟨_, _, run_reply_deliver id ..⟩

lemma perform_of_nil (hr : r.isStart = false) (h : s.elements = []) (session : Session σ) :
    ∃ f, s.perform r session = ⟨(⟨.error f, [], s⟩, session), []⟩ := by
  cases r with
  | start => cases hr
  | finish =>
    rw [perform, Logged.run_map, finish, h]
    exact ⟨_, rfl⟩
  | _ =>
    obtain ⟨what, otherwise, hp⟩ := exists_deliver hr rfl session
    rw [hp, Logged.run_map, run_deliver_nil h]
    exact ⟨_, rfl⟩

/-- The innermost element hears what the stack is told, if its handler has accepted it. -/
lemma perform_of_cons (hr : r.isStart = false) (h : s.elements = e :: rest) (session : Session σ) :
    ∃ otherwise, s.perform r session =
      let heard := if e.valid then e.handler.hear r session else ⟨((otherwise, []), session), []⟩
      ⟨(⟨.ok heard.value.1.1, [], if r.isFinish then { s with elements := rest } else s⟩,
        heard.value.2), heard.events⟩ := by
  cases r with
  | start => cases hr
  | finish =>
    refine ⟨true, ?_⟩
    rw [perform, Logged.run_map, run_finish_cons h, Handler.hear, Logged.run_map]
    cases e.valid <;> rfl
  | _ =>
    obtain ⟨what, otherwise, hp⟩ := exists_deliver hr rfl session
    refine ⟨otherwise, ?_⟩
    rw [hp, Logged.run_map, run_deliver_cons h]
    cases e.valid <;> rfl

end Told

end ElementStack

/-! ## The record -/

/-- A handler hears of something. -/
structure Hearing (σ : Type) where
  /-- The number of the element that is handled. -/
  number : Nat
  handler : Handler σ
  report : Report
  /-- The session in which the handler hears of it. -/
  session : Session σ

namespace Hearing

/-- What the handler does. -/
def outcome (x : Hearing σ) : Logged ((Bool × Entries Value) × Session σ) :=
  x.handler.hear x.report x.session

def answer (x : Hearing σ) : Bool := x.outcome.value.1.1

def args (x : Hearing σ) : Entries Value := x.outcome.value.1.2

/-- The session that the handler leaves. -/
def after (x : Hearing σ) : Session σ := x.outcome.value.2

def events (x : Hearing σ) : List LogEvent := x.outcome.events

end Hearing

/-- Where a stack stands. -/
structure Moment (σ : Type) where
  stack : ElementStack σ
  session : Session σ
  /-- How many elements have begun. -/
  begun : Nat := 0
  /-- The numbers of the open elements, the innermost first. -/
  numbers : List Nat := []

namespace Moment

/-- The open elements with their numbers, the innermost first. -/
def opened (m : Moment σ) : List (Nat × Element σ) := m.numbers.zip m.stack.elements

/-- The innermost element hears what is told within it, if its handler has accepted it. -/
def told? (m : Moment σ) (r : Report) : Option (Hearing σ) :=
  (m.opened.head?.filter (·.2.valid)).map fun p => ⟨p.1, p.2.handler, r, m.session⟩

/-- The handler that hears of it if the stack is told something. -/
def hearing? (m : Moment σ) (r : Report) : Option (Hearing σ) :=
  match r with
  | .start name args l =>
    (m.stack.begun? name l).bind fun e =>
      let checked := ((m.stack.signature e.1.command).checkMap args true).value.value
      if m.stack.asks then some ⟨m.begun, e.2, .start name checked l, m.session⟩ else none
  | r => m.told? r

end Moment

/-- A stack is told something, and a handler may hear of it. -/
structure Turn (σ : Type) extends Moment σ where
  report : Report
  heard : Option (Hearing σ)

namespace Turn

/-- What the stack does. -/
def outcome (t : Turn σ) : Logged (StackReply σ × Session σ) := t.stack.perform t.report t.session

def reply (t : Turn σ) : StackReply σ := t.outcome.value.1

def events (t : Turn σ) : List LogEvent := t.outcome.events

def begins (t : Turn σ) : Bool := t.report.isStart && t.reply.answer.isOk

def ends (t : Turn σ) : Bool := t.report.isFinish && t.reply.answer.isOk

/-- Where the stack stands afterwards. -/
def next (t : Turn σ) : Moment σ where
  stack := t.reply.stack
  session := t.outcome.value.2
  begun := if t.begins then t.begun + 1 else t.begun
  numbers := if t.begins then t.begun :: t.numbers else if t.ends then t.numbers.tail else t.numbers

/-- What the check of its command makes of the arguments of an element that begins. -/
def checked (t : Turn σ) : Logged (Entries Value) :=
  if t.begins then
    let outcome := (t.stack.signature t.next.stack.current).checkMap t.report.args true
    ⟨outcome.value.value, outcome.events⟩
  else ⟨t.report.args, []⟩

/-- All that a turn does is what the handler does that hears of it, after a check of arguments. -/
structure Accounted (t : Turn σ) : Prop where
  told : ∀ x ∈ t.heard, x.report = t.report.withArgs t.checked.value ∧ x.session = t.session
  answer : t.report.isStart = false → ∀ x ∈ t.heard, t.reply.answer = .ok x.answer
  session : t.next.session = t.heard.elim t.session Hearing.after
  args : t.reply.args = t.heard.elim t.checked.value Hearing.args
  events : t.events = t.checked.events ++ t.heard.elim [] Hearing.events

/-- What becomes of the elements in a turn. -/
inductive Effect (t : Turn σ) : Prop where
  | begins (e : Element σ) (begins : t.begins = true) (stack : t.next.stack = t.stack.push e)
    (heard : t.heard = if t.stack.asks then
      some ⟨t.begun, e.handler, t.report.withArgs t.checked.value, t.session⟩ else none)
    (valid : e.valid = t.heard.elim false Hearing.answer)
  | ends (e : Element σ) (begins : t.begins = false) (ends : t.ends = true)
    (stack : t.stack = t.next.stack.push e) (heard : t.heard = t.told? t.report)
  | stays (begins : t.begins = false) (ends : t.ends = false) (stack : t.next.stack = t.stack)
    (heard : t.heard = if t.report.isStart then none else t.told? t.report)
    (empty : t.report.isFinish = true → t.stack.elements = [])

/-! ## What a turn does -/

variable {t : Turn σ}

/-- What is refused changes nothing. -/
lemma refused {f : Failure}
    (hout : t.outcome = ⟨(⟨.error f, t.report.args, t.stack⟩, t.session), []⟩)
    (hheard : t.heard = none) (hempty : t.report.isStart = true ∨ t.stack.elements = []) :
    t.Accounted ∧ t.Effect := by
  have hbegins : t.begins = false := by simp [begins, reply, hout, Except.isOk, Except.toBool]
  have hends : t.ends = false := by simp [ends, reply, hout, Except.isOk, Except.toBool]
  refine ⟨⟨?_, ?_, ?_, ?_, ?_⟩, .stays hbegins hends ?_ ?_ fun hf => ?_⟩
  · simp [hheard]
  · simp [hheard]
  · simp [next, hout, hheard]
  · simp [reply, checked, hout, hheard, hbegins]
  · simp [events, checked, hout, hheard, hbegins]
  · simp [next, reply, hout]
  · -- nobody hears of a start that is refused, and without elements nobody is there
    rcases hempty with hs | he
    · rw [if_pos hs, hheard]
    · rw [Moment.told?, Moment.opened, he, List.zip_nil_right, hheard]
      exact (ite_self none).symm
  · refine hempty.resolve_left fun hs => ?_
    rw [Report.isStart_of_isFinish hf] at hs
    cases hs

lemma opens {info : ElementInfo} {handler : Handler σ} {args : Logged (Outcome (Entries Value))}
    (hs : t.report.isStart = true)
    (hargs : (t.stack.signature info.command).checkMap t.report.args true = args)
    (hheard : t.heard = if t.stack.asks then
      some ⟨t.begun, handler, t.report.withArgs args.value.value, t.session⟩ else none)
    (hout : t.outcome =
      ⟨(⟨.ok true, t.heard.elim args.value.value Hearing.args,
        t.stack.push ⟨info, handler, t.heard.elim false Hearing.answer⟩⟩,
        t.heard.elim t.session Hearing.after), args.events ++ t.heard.elim [] Hearing.events⟩) :
    t.Accounted ∧ t.Effect := by
  have hbegins : t.begins = true := by simp [begins, reply, hs, hout, Except.isOk, Except.toBool]
  have hnext : t.next.stack = t.stack.push ⟨info, handler, t.heard.elim false Hearing.answer⟩ := by
    simp [next, reply, hout]
  have hchecked : t.checked = ⟨args.value.value, args.events⟩ := by
    rw [checked, if_pos hbegins, hnext, ← hargs]
    rfl
  refine ⟨⟨?_, ?_, ?_, ?_, ?_⟩, .begins _ hbegins hnext ?_ rfl⟩
  · rw [hheard, hchecked]
    simp
  · simp [hs]
  · simp [next, hout]
  · simp [reply, hchecked, hout]
  · simp [events, hchecked, hout]
  · rw [hheard, hchecked]

/-- Something is told within an element, or the element ends. -/
lemma tells {e : Element σ} {rest : List (Element σ)} {otherwise : Bool}
    (hs : t.report.isStart = false) (he : t.stack.elements = e :: rest)
    (hheard : t.heard = t.told? t.report)
    (hout : t.outcome =
      ⟨(⟨.ok (t.heard.elim otherwise Hearing.answer), [],
        if t.report.isFinish then { t.stack with elements := rest } else t.stack⟩,
        t.heard.elim t.session Hearing.after), t.heard.elim [] Hearing.events⟩) :
    t.Accounted ∧ t.Effect := by
  have hbegins : t.begins = false := by simp [begins, hs]
  have hchecked : t.checked = ⟨[], []⟩ := by
    simp [checked, hbegins, Report.args_of_not_start hs]
  have hx : ∀ x ∈ t.heard, x.report = t.report ∧ x.session = t.session := by
    rw [hheard]
    rintro x hx
    obtain ⟨p, _, rfl⟩ := Option.map_eq_some_iff.1 hx
    exact ⟨rfl, rfl⟩
  refine ⟨⟨?_, ?_, ?_, ?_, ?_⟩, ?_⟩
  · rw [Report.withArgs_of_not_start hs]
    exact hx
  · intro _ x hx
    simp [reply, hout, Option.mem_def.1 hx]
  · simp [next, hout]
  · rw [reply, hout, hchecked]
    cases h : t.heard with
    | none => rfl
    | some x => exact (Handler.args_hear ((hx x h).1 ▸ hs) x.handler x.session).symm
  · simp [events, hchecked, hout]
  · cases hf : t.report.isFinish with
    | false =>
      refine .stays hbegins ?_ ?_ ?_ ?_
      · simp [ends, hf]
      · simp [next, reply, hout, hf]
      · rw [hs, hheard]
        rfl
      · simp [hf]
    | true =>
      refine .ends e hbegins ?_ ?_ hheard
      · simp [ends, hf, reply, hout, Except.isOk, Except.toBool]
      · simp [next, reply, hout, hf, ElementStack.push, ← he]

end Turn

/-- The turn in which the stack is told something. -/
def Moment.turn (m : Moment σ) (r : Report) : Turn σ :=
  { m with report := r, heard := m.hearing? r }

namespace Moment

variable {m : Moment σ} {r : Report}

lemma hearing?_of_not_start (hr : r.isStart = false) : m.hearing? r = m.told? r := by
  cases r with
  | start => cases hr
  | _ => rfl

section Start

variable {name : String} {args : Entries Value} {l : Location} {info : ElementInfo}
  {handler : Handler σ}

lemma hearing?_start (h : m.stack.begun? name l = some (info, handler)) :
    m.hearing? (.start name args l) =
      let checked := (m.stack.signature info.command).checkMap args true
      if m.stack.asks then
        some ⟨m.begun, handler, .start name checked.value.value l, m.session⟩ else none := by
  rw [hearing?, h, Option.bind_some]

/-- The arguments of an element that begins are checked, then its handler may hear of it. -/
lemma perform_start (h : m.stack.begun? name l = some (info, handler)) :
    m.stack.perform (.start name args l) m.session =
      let checked := (m.stack.signature info.command).checkMap args true
      let heard := m.hearing? (.start name args l)
      ⟨(⟨.ok true, heard.elim checked.value.value Hearing.args,
        m.stack.push ⟨info, handler, heard.elim false Hearing.answer⟩⟩,
        heard.elim m.session Hearing.after),
        checked.events ++ heard.elim [] Hearing.events⟩ := by
  rw [hearing?_start h]
  obtain ⟨hdeep, h⟩ := Option.ite_none_left_eq_some.1 h
  obtain ⟨⟨command, make⟩, ht, he⟩ := Option.map_eq_some_iff.1 h
  cases he
  rw [ElementStack.perform, Logged.run_map]
  unfold ElementStack.start ElementStack.asks
  simp only [ht, if_neg hdeep, Logged.run_bind, Logged.run_lift]
  -- whether the handler hears of it depends on the innermost element only
  cases ((m.stack.elements.head?).map (·.valid)).getD true with
  | false => rfl
  | true => exact Logged.ext rfl (congrArg (_ ++ ·) (List.append_nil _))

end Start

lemma perform_innermost {e : Element σ} {rest : List (Element σ)} (hr : r.isStart = false)
    (hlen : m.numbers.length = m.stack.elements.length) (h : m.stack.elements = e :: rest) :
    ∃ otherwise, m.stack.perform r m.session =
      let heard := m.told? r
      ⟨(⟨.ok (heard.elim otherwise Hearing.answer), [],
        if r.isFinish then { m.stack with elements := rest } else m.stack⟩,
        heard.elim m.session Hearing.after), heard.elim [] Hearing.events⟩ := by
  obtain ⟨otherwise, hrun⟩ := ElementStack.perform_of_cons hr h m.session
  rw [h] at hlen
  obtain ⟨k, ks, hk⟩ := List.exists_cons_of_length_eq_add_one hlen
  refine ⟨otherwise, hrun.trans ?_⟩
  rw [told?, opened, h, hk, List.zip_cons_cons, List.head?_cons, Option.filter_some]
  cases e.valid <;> rfl

/-- What the handlers hear accounts for all that a turn does. -/
lemma turn_spec (hlen : m.numbers.length = m.stack.elements.length) (r : Report) :
    (m.turn r).Accounted ∧ (m.turn r).Effect := by
  cases hs : r.isStart with
  | false =>
    have hheard : (m.turn r).heard = m.told? r := hearing?_of_not_start hs
    cases he : m.stack.elements with
    | nil =>
      obtain ⟨f, hout⟩ := ElementStack.perform_of_nil hs he m.session
      rw [← Report.args_of_not_start hs] at hout
      refine Turn.refused hout (hheard.trans ?_) (.inr he)
      rw [told?, opened, he, List.zip_nil_right]
      rfl
    | cons e rest =>
      obtain ⟨otherwise, hout⟩ := perform_innermost hs hlen he
      rw [← hearing?_of_not_start hs] at hout
      exact Turn.tells hs he hheard hout
  | true =>
    cases r with
    | start name args l =>
      cases hb : m.stack.begun? name l with
      | none =>
        obtain ⟨f, hout⟩ := ElementStack.perform_start_of_none hb args m.session
        refine Turn.refused hout ?_ (.inl hs)
        rw [turn, hearing?, hb, Option.bind_none]
      | some p => exact Turn.opens hs rfl (hearing?_start hb) (perform_start hb)
    | _ => cases hs

end Moment

end Semdoc
