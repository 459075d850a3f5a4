import Semdoc.Proofs.Parse.Hearings

/-!
# The discipline of handlers

A handler hears that its element begins if all outer elements have been accepted, and hears no more
unless it accepts.  Then it hears what is told while its element is the innermost one, and last and
once that the element ends.  This holds of every turn of a record, since what holds where the stack
stands is kept by each of them.
-/

namespace Semdoc

variable {σ : Type}

/-! ## Turns -/

namespace Turn

variable {t : Turn σ}

lemma isStart_of_begins (h : t.begins = true) : t.report.isStart = true :=
  (Bool.and_eq_true_iff.1 h).1

lemma isFinish_of_ends (h : t.ends = true) : t.report.isFinish = true :=
  (Bool.and_eq_true_iff.1 h).1

lemma isStart_of_ends (h : t.ends = true) : t.report.isStart = false :=
  Report.isStart_of_isFinish (isFinish_of_ends h)

lemma next_numbers_of_begins (h : t.begins = true) : t.next.numbers = t.begun :: t.numbers :=
  if_pos h

lemma next_begun_of_begins (h : t.begins = true) : t.next.begun = t.begun + 1 := if_pos h

lemma next_begun_of_not_begins (h : t.begins = false) : t.next.begun = t.begun :=
  if_neg (Bool.eq_false_iff.1 h)

lemma next_numbers_of_ends (h : t.begins = false) (he : t.ends = true) :
    t.next.numbers = t.numbers.tail := by
  simp [next, h, he]

lemma next_numbers_of_stays (h : t.begins = false) (he : t.ends = false) :
    t.next.numbers = t.numbers := by
  simp [next, h, he]

lemma begun_le_next (t : Turn σ) : t.begun ≤ t.next.begun := by
  cases h : t.begins with
  | true => exact next_begun_of_begins h ▸ Nat.le_succ _
  | false => exact Nat.le_of_eq (next_begun_of_not_begins h).symm

lemma of_mem_next_numbers {k : Nat} (hk : k ∈ t.next.numbers) : k ∈ t.numbers ∨ k = t.begun := by
  simp only [next] at hk
  split at hk
  · exact (List.mem_cons.1 hk).symm
  · split at hk
    · exact .inl (List.mem_of_mem_tail hk)
    · exact .inl hk

/-- The handler of an element that begins hears that it begins. -/
lemma of_mem_heard_of_begins {handler : Handler σ} (h : t.begins = true)
    (hheard : t.heard = if t.stack.asks then
      some ⟨t.begun, handler, t.report.withArgs t.checked.value, t.session⟩ else none) :
    ∀ x ∈ t.heard, x.number = t.begun ∧ x.handler = handler ∧ x.report.isStart = true := by
  intro x hx
  rw [hheard] at hx
  obtain ⟨_, hx⟩ := Option.ite_none_right_eq_some.1 hx
  cases hx
  exact ⟨rfl, rfl, (Report.isStart_withArgs _).trans (isStart_of_begins h)⟩

end Turn

lemma Moment.of_mem_told {m : Moment σ} {r : Report} {x : Hearing σ} (hx : x ∈ m.told? r) :
    x.report = r ∧
      ∃ e, m.opened.head? = some (x.number, e) ∧ e.valid = true ∧ x.handler = e.handler := by
  obtain ⟨⟨k, e⟩, hp, rfl⟩ := Option.map_eq_some_iff.1 hx
  obtain ⟨hp, hv⟩ := Option.filter_eq_some_iff.1 hp
  exact ⟨rfl, e, hp, hv, rfl⟩

/-- A handler hears that its element begins, or the innermost one hears what is told. -/
lemma Turn.Effect.of_mem_heard {t : Turn σ} (ht : t.Effect) {x : Hearing σ} (hx : x ∈ t.heard) :
    (t.begins = true ∧ x.report.isStart = true ∧ x.number = t.begun ∧
      ∃ e, t.next.opened.head? = some (x.number, e) ∧ x.handler = e.handler) ∨
    t.begins = false ∧ x.report.isStart = false ∧ x ∈ t.told? t.report := by
  cases ht with
  | begins e hbegins hstack hheard _ =>
    obtain ⟨hnumber, hhandler, hs⟩ := Turn.of_mem_heard_of_begins hbegins hheard x hx
    refine .inl ⟨hbegins, hs, hnumber, e, ?_, hhandler⟩
    rw [Moment.opened, next_numbers_of_begins hbegins, hstack, hnumber]
    rfl
  | ends e hbegins hends _ hheard =>
    rw [hheard] at hx
    exact .inr ⟨hbegins, (Moment.of_mem_told hx).1 ▸ isStart_of_ends hends, hx⟩
  | stays hbegins _ _ hheard _ =>
    rw [hheard] at hx
    obtain ⟨hs, hx⟩ := Option.ite_none_left_eq_some.1 hx
    exact .inr ⟨hbegins, (Moment.of_mem_told hx).1 ▸ Bool.eq_false_iff.2 hs, hx⟩

/-! ## What a record keeps -/

/-- What the handlers of a record hear. -/
def heardIn (turns : List (Turn σ)) : List (Hearing σ) := turns.filterMap Turn.heard

/-- The handler of an element has accepted it. -/
def Accepted (heard : List (Hearing σ)) (p : Nat × Element σ) : Prop :=
  ∃ x ∈ heard, x.number = p.1 ∧ x.handler = p.2.handler ∧ x.report.isStart = true ∧ x.answer = true

section Accepted

variable {heard new : List (Hearing σ)} {p : Nat × Element σ}

lemma accepted_append : Accepted (heard ++ new) p ↔ Accepted heard p ∨ Accepted new p := by
  simp only [Accepted, List.mem_append, or_and_right, exists_or]

lemma not_accepted_of_number (h : ∀ x ∈ heard, x.number ≠ p.1) : ¬ Accepted heard p :=
  fun ⟨x, hx, hnumber, _⟩ => h x hx hnumber

lemma not_accepted_of_isStart (h : ∀ x ∈ heard, x.report.isStart = false) : ¬ Accepted heard p :=
  fun ⟨x, hx, _, _, hs, _⟩ => by
    rw [h x hx] at hs
    cases hs

end Accepted

/-- What holds where a stack stands, after its handlers have heard something. -/
structure Kept (heard : List (Hearing σ)) (m : Moment σ) : Prop where
  length : m.numbers.length = m.stack.elements.length
  lt_begun : ∀ k ∈ m.numbers, k < m.begun
  nodup : m.numbers.Nodup
  heard_lt : ∀ x ∈ heard, x.number < m.begun
  accepted : ∀ p ∈ m.opened, p.2.valid = true ↔ Accepted heard p
  nested : m.stack.elements.Pairwise fun inner outer => inner.valid = true → outer.valid = true
  finished : ∀ x ∈ heard, x.report.isFinish = true → x.number ∉ m.numbers

namespace Kept

variable {heard : List (Hearing σ)} {m : Moment σ} {t : Turn σ}

/-- An element is asked for if all outer ones are accepted. -/
lemma asks_eq (hk : Kept heard m) : m.stack.asks = m.stack.elements.all (·.valid) := by
  have hnested := hk.nested
  rw [ElementStack.asks]
  cases h : m.stack.elements with
  | nil => rfl
  | cons e rest =>
    rw [h] at hnested
    rw [List.head?_cons, Option.map_some, Option.getD_some, List.all_cons]
    cases he : e.valid with
    | false => rfl
    | true => exact (List.all_eq_true.2 fun f hf => List.rel_of_pairwise_cons hnested hf he).symm

lemma mem_numbers {p : Nat × Element σ} (hp : p ∈ m.opened) : p.1 ∈ m.numbers :=
  (List.of_mem_zip hp).1

/-- An element that begins gets a number that nobody has had. -/
lemma next_of_begins (hk : Kept heard t.toMoment) {e : Element σ} (hbegins : t.begins = true)
    (hstack : t.next.stack = t.stack.push e)
    (hheard : t.heard = if t.stack.asks then
      some ⟨t.begun, e.handler, t.report.withArgs t.checked.value, t.session⟩ else none)
    (hvalid : e.valid = t.heard.elim false Hearing.answer) :
    Kept (heard ++ t.heard.toList) t.next := by
  have hnumbers := Turn.next_numbers_of_begins hbegins
  have hbegun := Turn.next_begun_of_begins hbegins
  have helements : t.next.stack.elements = e :: t.stack.elements := by
    rw [hstack]
    rfl
  have hnew : ∀ x ∈ t.heard.toList, x.number = t.begun ∧ x.handler = e.handler ∧
      x.report.isStart = true := fun x hx =>
    Turn.of_mem_heard_of_begins hbegins hheard x (Option.mem_toList.1 hx)
  refine ⟨?_, ?_, ?_, ?_, ?_, ?_, ?_⟩
  · rw [hnumbers, helements, List.length_cons, List.length_cons, hk.length]
  · rw [hnumbers, hbegun, List.forall_mem_cons]
    exact ⟨Nat.lt_succ_self _, fun k hmem => Nat.lt_succ_of_lt (hk.lt_begun k hmem)⟩
  · rw [hnumbers, List.nodup_cons]
    exact ⟨fun hmem => Nat.lt_irrefl _ (hk.lt_begun _ hmem), hk.nodup⟩
  · rw [hbegun, List.forall_mem_append]
    exact ⟨fun x hmem => Nat.lt_succ_of_lt (hk.heard_lt x hmem),
      fun x hmem => (hnew x hmem).1 ▸ Nat.lt_succ_self _⟩
  · rw [Moment.opened, hnumbers, helements, List.zip_cons_cons, List.forall_mem_cons]
    -- the number is new, so that nothing heard before counts for it, and it counts for no other
    constructor
    · rw [accepted_append, or_iff_right (not_accepted_of_number fun x hmem =>
        Nat.ne_of_lt (hk.heard_lt x hmem)), hvalid]
      cases ht : t.heard with
      | none => simp [Accepted]
      | some x =>
        obtain ⟨h₁, h₂, h₃⟩ := hnew x (by simp [ht])
        simp [Accepted, h₁, h₂, h₃]
    · intro p hp
      rw [hk.accepted p hp, accepted_append, or_iff_left (not_accepted_of_number fun x hmem =>
        (hnew x hmem).1 ▸ Nat.ne_of_gt (hk.lt_begun _ (mem_numbers hp)))]
  · rw [helements, List.pairwise_cons]
    refine ⟨fun f hf he => ?_, hk.nested⟩
    rw [hvalid, hheard, hk.asks_eq] at he
    by_cases hall : t.stack.elements.all (·.valid) = true
    · exact List.all_eq_true.1 hall f hf
    · rw [if_neg hall] at he
      cases he
  · rw [hnumbers, List.forall_mem_append]
    refine ⟨fun x hmem hf => ?_, fun x hmem hf => ?_⟩
    · exact List.not_mem_cons_of_ne_of_not_mem (Nat.ne_of_lt (hk.heard_lt x hmem))
        (hk.finished x hmem hf)
    · have hs := (hnew x hmem).2.2
      rw [Report.isStart_of_isFinish hf] at hs
      cases hs

/-- The innermost element is the one that ends. -/
lemma opened_of_ends (hk : Kept heard t.toMoment) {e : Element σ} (hbegins : t.begins = false)
    (hends : t.ends = true) (hstack : t.stack = t.next.stack.push e) :
    ∃ k, t.numbers = k :: t.next.numbers ∧ t.stack.elements = e :: t.next.stack.elements ∧
      t.opened = (k, e) :: t.next.opened := by
  have helements : t.stack.elements = e :: t.next.stack.elements := by
    rw [hstack]
    rfl
  have hlen := hk.length
  rw [helements] at hlen
  obtain ⟨k, ks, hnumbers⟩ := List.exists_cons_of_length_eq_add_one hlen
  have htail : t.next.numbers = ks := by
    rw [Turn.next_numbers_of_ends hbegins hends, hnumbers, List.tail_cons]
  refine ⟨k, htail ▸ hnumbers, helements, ?_⟩
  rw [Moment.opened, hnumbers, helements, List.zip_cons_cons, ← htail]
  rfl

lemma next_of_ends (hk : Kept heard t.toMoment) {e : Element σ} (hbegins : t.begins = false)
    (hends : t.ends = true) (hstack : t.stack = t.next.stack.push e)
    (hheard : t.heard = t.told? t.report) : Kept (heard ++ t.heard.toList) t.next := by
  obtain ⟨k, hnumbers, helements, hopened⟩ := opened_of_ends hk hbegins hends hstack
  have hnodup := hk.nodup
  rw [hnumbers, List.nodup_cons] at hnodup
  have hlt := hk.lt_begun
  rw [hnumbers, List.forall_mem_cons] at hlt
  have hnested := hk.nested
  rw [helements, List.pairwise_cons] at hnested
  have hlen := hk.length
  rw [hnumbers, helements] at hlen
  have hbegun := Turn.next_begun_of_not_begins hbegins
  have hnew : ∀ x ∈ t.heard.toList, x.number = k ∧ x.report.isStart = false := by
    intro x hx
    rw [hheard] at hx
    obtain ⟨hreport, f, hp, -⟩ := Moment.of_mem_told (Option.mem_toList.1 hx)
    rw [hopened] at hp
    cases hp
    exact ⟨rfl, hreport ▸ Turn.isStart_of_ends hends⟩
  refine ⟨Nat.succ.inj hlen, hbegun ▸ hlt.2, hnodup.2, ?_, ?_, hnested.2, ?_⟩
  · rw [hbegun, List.forall_mem_append]
    exact ⟨hk.heard_lt, fun x hx => (hnew x hx).1 ▸ hlt.1⟩
  · intro p hp
    rw [hk.accepted p (hopened ▸ List.mem_cons_of_mem _ hp), accepted_append,
      or_iff_left (not_accepted_of_isStart fun x hx => (hnew x hx).2)]
  · rw [List.forall_mem_append]
    refine ⟨fun x hx hf hmem => hk.finished x hx hf ?_, fun x hx _ => (hnew x hx).1 ▸ hnodup.1⟩
    rw [hnumbers]
    exact List.mem_cons_of_mem _ hmem

lemma next_of_stays (hk : Kept heard t.toMoment) (hbegins : t.begins = false)
    (hends : t.ends = false) (hstack : t.next.stack = t.stack)
    (hheard : t.heard = if t.report.isStart then none else t.told? t.report)
    (hempty : t.report.isFinish = true → t.stack.elements = []) :
    Kept (heard ++ t.heard.toList) t.next := by
  have hnumbers := Turn.next_numbers_of_stays hbegins hends
  have hbegun := Turn.next_begun_of_not_begins hbegins
  have hopened : t.next.opened = t.opened := by
    rw [Moment.opened, hnumbers, hstack]
    rfl
  have hnew : ∀ x ∈ t.heard.toList, x.number ∈ t.numbers ∧ x.report.isStart = false ∧
      x.report.isFinish = false := by
    intro x hx
    rw [Option.mem_toList, hheard] at hx
    obtain ⟨hs, hx⟩ := Option.ite_none_left_eq_some.1 hx
    obtain ⟨hreport, e, hp, -⟩ := Moment.of_mem_told hx
    refine ⟨mem_numbers (List.mem_of_mem_head? hp), ?_, ?_⟩
    · rw [hreport]
      exact Bool.eq_false_iff.2 hs
    · rw [hreport, Bool.eq_false_iff]
      intro hf
      rw [Moment.opened, hempty hf, List.zip_nil_right] at hp
      cases hp
  refine ⟨?_, ?_, ?_, ?_, ?_, ?_, ?_⟩
  · rw [hnumbers, hstack, hk.length]
  · rw [hnumbers, hbegun]
    exact hk.lt_begun
  · rw [hnumbers]
    exact hk.nodup
  · rw [hbegun, List.forall_mem_append]
    exact ⟨hk.heard_lt, fun x hx => hk.lt_begun _ (hnew x hx).1⟩
  · intro p hp
    rw [hk.accepted p (hopened ▸ hp), accepted_append,
      or_iff_left (not_accepted_of_isStart fun x hx => (hnew x hx).2.1)]
  · rw [hstack]
    exact hk.nested
  · rw [hnumbers, List.forall_mem_append]
    refine ⟨hk.finished, fun x hx hf => ?_⟩
    rw [(hnew x hx).2.2] at hf
    cases hf

/-- What holds where a stack stands holds after the next turn. -/
lemma next (hk : Kept heard t.toMoment) (ht : t.Effect) :
    Kept (heard ++ t.heard.toList) t.next := by
  cases ht with
  | begins e hbegins hstack hheard hvalid => exact hk.next_of_begins hbegins hstack hheard hvalid
  | ends e hbegins hends hstack hheard => exact hk.next_of_ends hbegins hends hstack hheard
  | stays hbegins hends hstack hheard hempty =>
    exact hk.next_of_stays hbegins hends hstack hheard hempty

end Kept

/-! ## Discipline -/

/-- Every turn begins where the one before has left the stack, and accounts for all that it does. -/
def Recorded : Moment σ → List (Turn σ) → Prop
  | _, [] => True
  | m, t :: rest => t.toMoment = m ∧ t.Accounted ∧ Recorded t.next rest

/-- How often the handler of an element hears something. -/
def timesHeard (turns : List (Turn σ)) (number : Nat) (what : Report → Bool) : Nat :=
  (heardIn turns).countP fun x => x.number == number && what x.report

/-- What goes on between a stack and its handlers in a turn, given the earlier and the later ones. -/
structure Disciplined (earlier : List (Turn σ)) (t : Turn σ) (later : List (Turn σ)) : Prop where
  /-- The open elements have numbers. -/
  numbered : t.opened.map (·.2) = t.stack.elements
  /-- The valid elements are those that their handlers have accepted. -/
  accepted : ∀ p ∈ t.opened, p.2.valid = true ↔ Accepted (heardIn earlier) p
  pushes : t.begins = true → ∃ e, t.next.stack = t.stack.push e
  /-- A start that is refused changes nothing. -/
  refuses : t.report.isStart = true → t.begins = false →
    t.next.stack = t.stack ∧ t.reply.args = t.report.args ∧ t.next.session = t.session ∧
      t.events = []
  pops : t.ends = true → ∃ e, t.stack = t.next.stack.push e
  empty : t.report.isFinish = true → (t.ends = false ↔ t.stack.elements = [])
  /-- A handler hears once that its element begins if all outer ones are valid, and else never. -/
  once : t.begins = true → timesHeard (earlier ++ t :: later) t.begun Report.isStart =
    if t.stack.elements.all (·.valid) then 1 else 0
  starts : ∀ x ∈ t.heard, x.report.isStart = true → t.begins = true ∧ x.number = t.begun ∧
    ∃ e, t.next.opened.head? = some (t.begun, e) ∧ x.handler = e.handler
  /-- Anything else is heard by the innermost element if its handler has accepted it. -/
  listens : ∀ x ∈ t.heard, x.report.isStart = false →
    ∃ e, t.opened.head? = some (x.number, e) ∧ x.handler = e.handler ∧
      Accepted (heardIn earlier) (x.number, e)
  /-- A handler that has accepted its element hears once that it ends, and nothing more. -/
  finishes : t.ends = true → ∀ p ∈ t.opened.head?, Accepted (heardIn earlier) p →
    t.heard = some ⟨p.1, p.2.handler, .finish, t.session⟩ ∧
    timesHeard (earlier ++ t :: later) p.1 Report.isFinish = 1 ∧
    ∀ x ∈ heardIn later, x.number ≠ p.1

/-- The record of what a stack is told. -/
def Moment.record (m : Moment σ) : List Report → List (Turn σ)
  | [] => []
  | r :: rest => m.turn r :: (m.turn r).next.record rest

lemma heardIn_cons (t : Turn σ) (rest : List (Turn σ)) :
    heardIn (t :: rest) = t.heard.toList ++ heardIn rest := by
  cases ht : t.heard <;> simp [heardIn, ht]

/-- What is heard from a moment on is heard by elements that are open then, or begin later. -/
def HeardFrom (m : Moment σ) (heard : List (Hearing σ)) : Prop :=
  ∀ x ∈ heard, x.number ∈ m.numbers ∧ x.report.isStart = false ∨ m.begun ≤ x.number

lemma Kept.heardFrom_record {heard : List (Hearing σ)} {m : Moment σ} (hk : Kept heard m)
    (reports : List Report) : HeardFrom m (heardIn (m.record reports)) := by
  induction reports generalizing heard m with
  | nil => exact List.forall_mem_nil _
  | cons r rest ih =>
    have heffect := (m.turn_spec hk.length r).2
    rw [Moment.record, heardIn_cons, HeardFrom, List.forall_mem_append]
    constructor
    · intro x hx
      obtain ⟨_, _, hnumber, _⟩ | ⟨_, hs, hx⟩ := heffect.of_mem_heard (Option.mem_toList.1 hx)
      · exact .inr (Nat.le_of_eq hnumber.symm)
      · obtain ⟨_, e, hp, -⟩ := Moment.of_mem_told hx
        exact .inl ⟨mem_numbers (List.mem_of_mem_head? hp), hs⟩
    · intro x hx
      obtain ⟨hmem, hs⟩ | hle := ih (hk.next (t := m.turn r) heffect) x hx
      · exact (Turn.of_mem_next_numbers hmem).imp (⟨·, hs⟩) fun h => Nat.le_of_eq h.symm
      · exact .inr (Nat.le_trans (m.turn r).begun_le_next hle)

section Times

variable {earlier later : List (Turn σ)} {t : Turn σ} {k : Nat} {what : Report → Bool}

lemma timesHeard_append_cons : timesHeard (earlier ++ t :: later) k what =
    (heardIn earlier).countP (fun x => x.number == k && what x.report) +
      (t.heard.toList.countP (fun x => x.number == k && what x.report) +
        (heardIn later).countP (fun x => x.number == k && what x.report)) := by
  rw [timesHeard, ← List.countP_append, ← heardIn_cons, ← List.countP_append, heardIn, heardIn,
    heardIn, List.filterMap_append]

/-- What is heard neither before nor after a turn is counted in the turn. -/
lemma timesHeard_eq (hearlier : ∀ x ∈ heardIn earlier, x.number = k → what x.report = false)
    (hlater : ∀ x ∈ heardIn later, x.number = k → what x.report = false) :
    timesHeard (earlier ++ t :: later) k what =
      t.heard.toList.countP (fun x => x.number == k && what x.report) := by
  have hzero {heard : List (Hearing σ)} (h : ∀ x ∈ heard, x.number = k → what x.report = false) :
      heard.countP (fun x => x.number == k && what x.report) = 0 := by
    rw [List.countP_eq_zero]
    intro x hx
    simpa using h x hx
  rw [timesHeard_append_cons, hzero hearlier, hzero hlater, Nat.zero_add, Nat.add_zero]

end Times

namespace Turn.Effect

variable {t : Turn σ}

lemma exists_push (ht : t.Effect) (hbegins : t.begins = true) :
    ∃ e, t.next.stack = t.stack.push e ∧ t.heard = if t.stack.asks then
      some ⟨t.begun, e.handler, t.report.withArgs t.checked.value, t.session⟩ else none := by
  cases ht with
  | begins e _ hstack hheard _ => exact ⟨e, hstack, hheard⟩
  | ends _ h | stays h =>
    rw [hbegins] at h
    cases h

lemma exists_pop (ht : t.Effect) (hends : t.ends = true) :
    ∃ e, t.begins = false ∧ t.stack = t.next.stack.push e ∧ t.heard = t.told? t.report := by
  cases ht with
  | begins e h =>
    have hs := isStart_of_begins h
    rw [isStart_of_ends hends] at hs
    cases hs
  | ends e hbegins _ hstack hheard => exact ⟨e, hbegins, hstack, hheard⟩
  | stays _ h =>
    rw [hends] at h
    cases h

/-- A start that is refused changes nothing. -/
lemma refuses (ht : t.Effect) (ha : t.Accounted) (hs : t.report.isStart = true)
    (hbegins : t.begins = false) :
    t.next.stack = t.stack ∧ t.reply.args = t.report.args ∧ t.next.session = t.session ∧
      t.events = [] := by
  cases ht with
  | begins _ h =>
    rw [hbegins] at h
    cases h
  | ends _ _ hends =>
    rw [isStart_of_ends hends] at hs
    cases hs
  | stays _ _ hstack hheard _ =>
    rw [if_pos hs] at hheard
    have hchecked : t.checked = ⟨t.report.args, []⟩ := if_neg (Bool.eq_false_iff.1 hbegins)
    refine ⟨hstack, ?_, ?_, ?_⟩
    · rw [ha.args, hheard, hchecked]
      rfl
    · rw [ha.session, hheard]
      rfl
    · rw [ha.events, hheard, hchecked]
      rfl

/-- An end is refused if no element is open, and only then. -/
lemma ends_eq_false_iff (ht : t.Effect) (hf : t.report.isFinish = true) :
    t.ends = false ↔ t.stack.elements = [] := by
  cases ht with
  | begins e h =>
    have hs := isStart_of_begins h
    rw [Report.isStart_of_isFinish hf] at hs
    cases hs
  | ends e _ hends hstack _ =>
    rw [hends, hstack]
    exact ⟨fun h => absurd h Bool.noConfusion, fun h => absurd h (List.cons_ne_nil _ _)⟩
  | stays _ hends _ _ hempty => exact ⟨fun _ => hempty hf, fun _ => hends⟩

end Turn.Effect

namespace Kept

variable {earlier later : List (Turn σ)} {t : Turn σ}

/-- A handler hears once that its element begins if all outer elements are accepted. -/
lemma timesHeard_isStart (hk : Kept (heardIn earlier) t.toMoment) (ht : t.Effect)
    (hlater : HeardFrom t.next (heardIn later)) (hbegins : t.begins = true) :
    timesHeard (earlier ++ t :: later) t.begun Report.isStart =
      if t.stack.elements.all (·.valid) then 1 else 0 := by
  obtain ⟨e, _, hheard⟩ := ht.exists_push hbegins
  have hbegun := Turn.next_begun_of_begins hbegins
  rw [timesHeard_eq, hheard, hk.asks_eq]
  · have hs := Turn.isStart_of_begins hbegins
    split <;> simp [hs]
  · intro x hx hnumber
    exact absurd hnumber (Nat.ne_of_lt (hk.heard_lt x hx))
  · intro x hx hnumber
    obtain ⟨_, hs⟩ | hle := hlater x hx
    · exact hs
    · -- it begins later, with a greater number
      omega

/-- An element that has been accepted hears once that it ends, and nothing more. -/
lemma finished_once (hk : Kept (heardIn earlier) t.toMoment) (ht : t.Effect)
    (hlater : HeardFrom t.next (heardIn later)) (hends : t.ends = true) {p : Nat × Element σ}
    (hp : p ∈ t.opened.head?) (haccepted : Accepted (heardIn earlier) p) :
    t.heard = some ⟨p.1, p.2.handler, .finish, t.session⟩ ∧
      timesHeard (earlier ++ t :: later) p.1 Report.isFinish = 1 ∧
      ∀ x ∈ heardIn later, x.number ≠ p.1 := by
  obtain ⟨e, hbegins, hstack, hheard⟩ := ht.exists_pop hends
  obtain ⟨k, hnumbers, _, hopened⟩ := hk.opened_of_ends hbegins hends hstack
  have hvalid := (hk.accepted p (List.mem_of_mem_head? hp)).2 haccepted
  have hsome : t.heard = some ⟨p.1, p.2.handler, .finish, t.session⟩ := by
    rw [hheard, Moment.told?, Option.mem_def.1 hp, Option.filter_some, if_pos hvalid,
      Report.eq_finish (Turn.isFinish_of_ends hends), Option.map_some]
  rw [hopened] at hp
  cases hp
  have hnodup := hk.nodup
  rw [hnumbers, List.nodup_cons] at hnodup
  have hlt := hk.lt_begun
  rw [hnumbers, List.forall_mem_cons] at hlt
  have hnever : ∀ x ∈ heardIn later, x.number ≠ k := by
    rintro x hx rfl
    obtain ⟨hmem, _⟩ | hle := hlater x hx
    · exact hnodup.1 hmem
    · rw [Turn.next_begun_of_not_begins hbegins] at hle
      exact Nat.not_le_of_lt hlt.1 hle
  refine ⟨hsome, ?_, hnever⟩
  rw [timesHeard_eq, hsome]
  · simp [Report.isFinish]
  · rintro x hx rfl
    rw [Bool.eq_false_iff]
    intro hf
    refine hk.finished x hx hf ?_
    rw [hnumbers]
    exact List.mem_cons_self
  · exact fun x hx hnumber => absurd hnumber (hnever x hx)

/-- A turn is disciplined if what holds before it holds and what comes later is a record. -/
lemma disciplined (hk : Kept (heardIn earlier) t.toMoment) (ha : t.Accounted) (ht : t.Effect)
    (reports : List Report) : Disciplined earlier t (t.next.record reports) := by
  have hlater := (hk.next ht).heardFrom_record reports
  refine ⟨List.map_snd_zip (Nat.le_of_eq hk.length.symm), hk.accepted, ?_, ht.refuses ha, ?_,
    ht.ends_eq_false_iff, hk.timesHeard_isStart ht hlater, ?_, ?_,
    fun hends p hp => hk.finished_once ht hlater hends hp⟩
  · intro hbegins
    obtain ⟨e, hstack, _⟩ := ht.exists_push hbegins
    exact ⟨e, hstack⟩
  · intro hends
    obtain ⟨e, _, hstack, _⟩ := ht.exists_pop hends
    exact ⟨e, hstack⟩
  · intro x hx hs
    obtain ⟨hbegins, _, hnumber, e, hp, hh⟩ | ⟨_, hs', _⟩ := ht.of_mem_heard hx
    · exact ⟨hbegins, hnumber, e, hnumber ▸ hp, hh⟩
    · rw [hs'] at hs
      cases hs
  · intro x hx hs
    obtain ⟨_, hs', _⟩ | ⟨_, _, hx⟩ := ht.of_mem_heard hx
    · rw [hs'] at hs
      cases hs
    · obtain ⟨_, e, hp, hvalid, hh⟩ := Moment.of_mem_told hx
      exact ⟨e, hp, hh, (hk.accepted _ (List.mem_of_mem_head? hp)).1 hvalid⟩

end Kept

namespace Moment

variable {m : Moment σ} {before : List (Turn σ)}

lemma map_report_record (m : Moment σ) (reports : List Report) :
    (m.record reports).map Turn.report = reports := by
  induction reports generalizing m with
  | nil => rfl
  | cons r rest ih => rw [record, List.map_cons, ih, turn]

lemma kept_turn (hk : Kept (heardIn before) m) (r : Report) :
    Kept (heardIn (before ++ [m.turn r])) (m.turn r).next := by
  rw [heardIn, List.filterMap_append, ← heardIn, ← heardIn, heardIn_cons]
  exact (List.append_nil (m.turn r).heard.toList).symm ▸
    hk.next (t := m.turn r) (m.turn_spec hk.length r).2

lemma recorded_record (hk : Kept (heardIn before) m) (reports : List Report) :
    Recorded m (m.record reports) := by
  induction reports generalizing m before with
  | nil => trivial
  | cons r rest ih => exact ⟨rfl, (m.turn_spec hk.length r).1, ih (kept_turn hk r)⟩

/-- Every turn of a record is disciplined. -/
lemma disciplined_of_record (hk : Kept (heardIn before) m) {reports : List Report}
    {earlier later : List (Turn σ)} {t : Turn σ} (h : m.record reports = earlier ++ t :: later) :
    Disciplined (before ++ earlier) t later := by
  induction earlier generalizing m before reports with
  | nil =>
    cases reports with
    | nil => cases h
    | cons r rest =>
      cases h
      obtain ⟨ha, ht⟩ := m.turn_spec hk.length r
      rw [List.append_nil]
      exact hk.disciplined (t := m.turn r) ha ht rest
  | cons u earlier ih =>
    cases reports with
    | nil => cases h
    | cons r rest =>
      rw [record, List.cons_append] at h
      obtain ⟨rfl, hrest⟩ := List.cons.inj h
      rw [← List.singleton_append, ← List.append_assoc]
      exact ih (kept_turn hk r) hrest

end Moment

/-- Whatever a stack is told and whatever its handlers do, there is a record that accounts for all
that happens and in which every turn is disciplined. -/
theorem exists_disciplined_record (table : CommandTable σ) (limits : Limits) (session : Session σ)
    (reports : List Report) :
    ∃ turns, turns.map Turn.report = reports ∧
      Recorded { stack := .empty table limits, session } turns ∧
      ∀ earlier t later, turns = earlier ++ t :: later → Disciplined earlier t later := by
  have hk : Kept (heardIn []) ({ stack := .empty table limits, session } : Moment σ) :=
    ⟨rfl, List.forall_mem_nil _, List.nodup_nil, List.forall_mem_nil _, List.forall_mem_nil _, .nil,
      List.forall_mem_nil _⟩
  refine ⟨Moment.record _ reports, Moment.map_report_record _ reports,
    Moment.recorded_record hk reports, fun earlier t later h => ?_⟩
  exact Moment.disciplined_of_record hk h

end Semdoc
