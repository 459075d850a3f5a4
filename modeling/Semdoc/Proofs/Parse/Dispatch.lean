import Semdoc.Proofs.Parse.Descent
import Semdoc.Proofs.Parse.Hearings
import Semdoc.Proofs.Value.Entries

/-!
# Dispatch of commands

An element is begun by the first registered command of its name that may appear where the stack stands, and
if there is none by the handler for everything else of the current command.  The names that are announced are
those of the commands that may appear, so that an element begins if its name is announced or there is such a
handler, and never otherwise.
-/

namespace Semdoc

variable {σ : Type}

namespace CommandTable

variable {t : CommandTable σ} {name : String} {outer : CommandId} {e : CommandId × Command σ}

/-! ## Names that are announced -/

lemma pairwise_sortedNames (names : List String) :
    (sortedNames names).Pairwise fun a b => Text.compareTexts a b = .lt := by
  rw [sortedNames, List.pairwise_map]
  exact Entries.sorted_ofPairs _

lemma mem_sortedNames {names : List String} : name ∈ sortedNames names ↔ name ∈ names := by
  rw [sortedNames, Entries.mem_keys_ofPairs, List.map_map]
  exact iff_of_eq (congrArg (name ∈ ·) (List.map_id names))

/-- A name is announced if some registered command of that name may appear. -/
lemma mem_expected_iff :
    name ∈ t.expected outer ↔ ∃ e ∈ t.real, e.2.name = name ∧ e.2.Admits outer := by
  rw [expected, mem_sortedNames, List.mem_map]
  constructor
  · rintro ⟨e, he, rfl⟩
    obtain ⟨hreal, haccepts⟩ := List.mem_filter.1 he
    exact ⟨e, hreal, rfl, Command.accepts_iff.1 haccepts⟩
  · rintro ⟨e, hreal, rfl, hadmits⟩
    exact ⟨e, List.mem_filter.2 ⟨hreal, Command.accepts_iff.2 hadmits⟩, rfl⟩

/-! ## The first command of a name -/

/-- Of all registered commands of a name that may appear under another one, this was registered first. -/
structure IsFirst (t : CommandTable σ) (name : String) (outer : CommandId)
    (e : CommandId × Command σ) : Prop where
  real : e ∈ t.real
  named : e.2.name = name
  admits : e.2.Admits outer
  first : ∀ d ∈ t.real, d.2.name = name → d.2.Admits outer → e.1.index ≤ d.1.index

/-- Commands with the same number are the same. -/
lemma eq_of_index_eq {d : CommandId × Command σ} (hd : d ∈ t.real) (he : e ∈ t.real)
    (h : d.1.index = e.1.index) : d = e := by
  obtain ⟨i, hi, hci⟩ := exists_of_mem_real hd
  obtain ⟨k, hk, hck⟩ := exists_of_mem_real he
  obtain ⟨⟨n⟩, c⟩ := d
  obtain ⟨⟨m⟩, b⟩ := e
  cases hi
  cases hk
  cases h
  cases hci.symm.trans hck
  rfl

lemma mem_named_iff : e ∈ t.named name ↔ e ∈ t.real ∧ e.2.name = name := by
  rw [named, List.mem_filter, beq_iff_eq]

lemma isFirst_of_find?_named
    (h : ((t.named name).find? fun e => e.2.accepts outer) = some e) : t.IsFirst name outer e := by
  obtain ⟨haccepts, before, after, hnamed, hnone⟩ := List.find?_eq_some_iff_append.1 h
  have he : e ∈ t.named name := hnamed ▸ List.mem_append_right _ List.mem_cons_self
  have horder : ((t.named name).map (·.1)).Pairwise (·.index < ·.index) :=
    pairwise_numbers.sublist (List.filter_sublist.map _)
  rw [hnamed, List.map_append, List.map_cons, List.pairwise_append, List.pairwise_cons] at horder
  refine ⟨(mem_named_iff.1 he).1, (mem_named_iff.1 he).2, Command.accepts_iff.1 haccepts, ?_⟩
  intro d hreal hname hadmits
  have hd := mem_named_iff.2 ⟨hreal, hname⟩
  rw [hnamed, List.mem_append, List.mem_cons] at hd
  rcases hd with hd | rfl | hd
  · -- what was registered before may not appear here
    have hmiss := hnone d hd
    rw [Command.accepts_iff.2 hadmits] at hmiss
    cases hmiss
  · exact Nat.le_refl _
  · exact Nat.le_of_lt (horder.2.1.1 d.1 (List.mem_map_of_mem hd))

lemma exists_find?_named (hreal : e ∈ t.real) (hname : e.2.name = name) (hadmits : e.2.Admits outer) :
    ∃ d, ((t.named name).find? fun e => e.2.accepts outer) = some d := by
  apply Option.isSome_iff_exists.1
  apply List.find?_isSome.2
  exact ⟨e, mem_named_iff.2 ⟨hreal, hname⟩, Command.accepts_iff.2 hadmits⟩

lemma find?_named_eq_some_iff :
    ((t.named name).find? fun e => e.2.accepts outer) = some e ↔ t.IsFirst name outer e := by
  constructor
  · exact isFirst_of_find?_named
  · intro h
    obtain ⟨d, hd⟩ := exists_find?_named h.real h.named h.admits
    have hfirst := isFirst_of_find?_named hd
    have hindex : d.1.index = e.1.index := by
      apply Nat.le_antisymm
      · exact hfirst.first e h.real h.named h.admits
      · exact h.first d hfirst.real hfirst.named hfirst.admits
    rw [hd, eq_of_index_eq hfirst.real h.real hindex]

/-- A name is announced if there is a first command of that name. -/
lemma mem_expected_iff_exists_isFirst :
    name ∈ t.expected outer ↔ ∃ e, t.IsFirst name outer e := by
  rw [mem_expected_iff]
  constructor
  · rintro ⟨e, hreal, hname, hadmits⟩
    obtain ⟨d, hd⟩ := exists_find?_named hreal hname hadmits
    exact ⟨d, isFirst_of_find?_named hd⟩
  · rintro ⟨e, h⟩
    exact ⟨e, h.real, h.named, h.admits⟩

/-- A table that has come about by adding commands and parents of commands. -/
inductive Registered : CommandTable σ → Prop where
  | new : Registered {}
  | register {t : CommandTable σ} (c : Command σ) : Registered t → Registered (t.register c).2
  | addParent {t : CommandTable σ} (c parent : CommandId) :
      Registered t → Registered (t.addParent c parent)

/-- The empty stack takes nothing but commands. -/
lemma Registered.child_outside (h : t.Registered) : ∃ c, t.get? .outside = some c ∧ c.child = none := by
  induction h with
  | new => exact ⟨_, rfl, rfl⟩
  | @register t c _ ih =>
    obtain ⟨d, hd, hchild⟩ := ih
    refine ⟨d, ?_, hchild⟩
    have hlt := (List.getElem?_eq_some_iff.1 hd).1
    exact (List.getElem?_append_left hlt).trans hd
  | @addParent t c parent _ ih =>
    obtain ⟨d, hd, hchild⟩ := ih
    have hget : (t.addParent c parent).get? .outside =
        (t.get? .outside).map fun d => if c.index = 0 then d.addParent parent else d :=
      List.getElem?_modify _ _ _ _
    rw [hd] at hget
    refine ⟨_, hget, ?_⟩
    show Command.child (if c.index = 0 then d.addParent parent else d) = none
    rw [← hchild]
    split
    · rw [Command.addParent]
      split <;> rfl
    · rfl

end CommandTable

/-! ## Elements that begin -/

namespace ElementStack

variable {s : ElementStack σ} {name : String} {l : Location}

/-- The handler in the current command for everything that is no command there. -/
def otherwise? (s : ElementStack σ) : Option (HandlerMaker σ) :=
  (s.table.get? s.current).bind (·.child)

/-- The command and the handler of an element that begins with a name: those of the first command of that
name that may appear, or else the current command and its handler for everything else. -/
inductive Dispatched (s : ElementStack σ) (name : String) (e : Element σ) : Prop where
  | command (c : CommandId × Command σ) (first : s.table.IsFirst name s.current c)
      (number : e.info.command = c.1) (handler : e.handler = (c.2.element.getD Handler.plain) e.info)
  | otherwise (make : HandlerMaker σ)
      (none : ∀ c ∈ s.table.real, c.2.name = name → ¬ c.2.Admits s.current)
      (child : s.otherwise? = some make) (number : e.info.command = s.current)
      (handler : e.handler = make e.info)

lemma command?_eq_none_iff : s.command? name = none ↔ name ∉ s.expected := by
  rw [expected, CommandTable.mem_expected_iff_exists_isFirst, not_exists,
    Option.eq_none_iff_forall_ne_some]
  exact forall_congr' fun e => not_congr CommandTable.find?_named_eq_some_iff

lemma target?_of_command?_eq_none (h : s.command? name = none) :
    s.target? name = s.otherwise?.map (s.current, ·) := by
  rw [target?, show (s.table.named name).find? _ = none from h, otherwise?]
  cases s.table.get? s.current <;> rfl

/-- There is somebody to handle a name if it is announced or everything else is handled. -/
lemma target?_eq_none_iff :
    s.target? name = none ↔ ¬ (name ∈ s.expected ∨ s.otherwise?.isSome = true) := by
  cases hc : s.command? name with
  | none =>
    rw [target?_of_command?_eq_none hc, or_iff_right (command?_eq_none_iff.1 hc)]
    cases s.otherwise? <;> simp
  | some e =>
    have hname : name ∈ s.expected := by
      apply Decidable.of_not_not
      intro hnot
      rw [command?_eq_none_iff.2 hnot] at hc
      cases hc
    rw [target?_of_command? hc]
    simp [hname]

lemma start_of_target?_eq_none (h : s.target? name = none) (args : Entries Value)
    (session : Session σ) :
    (s.start name args l session).value.1 =
      (.error ((StackFault.unexpectedCommand name s.expected).failure.withLocation l), args, s) := by
  unfold start
  simp only [h]
  rfl

lemma start_of_most_le (h : s.target? name ≠ none) (hdeep : s.most ≤ s.depth) (args : Entries Value)
    (session : Session σ) :
    (s.start name args l session).value.1 =
      (.error ((StackFault.tooDeep s.most).failure.withLocation l), args, s) := by
  obtain ⟨target, htarget⟩ := Option.ne_none_iff_exists'.1 h
  unfold start
  simp only [htarget, if_pos hdeep]
  rfl

/-- An element begins with the handler that is found for it. -/
lemma start_of_begun? {info : ElementInfo} {handler : Handler σ}
    (h : s.begun? name l = some (info, handler)) (args : Entries Value) (session : Session σ) :
    (s.start name args l session).value.1.1 = .ok () ∧
      ∃ valid, (s.start name args l session).value.1.2.2 = s.push ⟨info, handler, valid⟩ := by
  have hrun : s.perform (.start name args l) session = _ :=
    Moment.perform_start (m := { stack := s, session }) h
  rw [perform, Logged.run_map] at hrun
  have hreply := congrArg (fun x => (x.value.1.answer, x.value.1.stack)) hrun
  obtain ⟨hanswer, hstack⟩ := Prod.mk.inj hreply
  refine ⟨?_, _, hstack⟩
  cases hout : (s.start name args l session).value.1.1 with
  | ok => rfl
  | error f =>
    rw [hout] at hanswer
    cases hanswer

lemma dispatched_of_begun? {info : ElementInfo} {handler : Handler σ}
    (h : s.begun? name l = some (info, handler)) (valid : Bool) :
    info.name = name ∧ info.location = l ∧ s.Dispatched name ⟨info, handler, valid⟩ := by
  obtain ⟨-, h⟩ := Option.ite_none_left_eq_some.1 h
  obtain ⟨⟨command, make⟩, htarget, hinfo⟩ := Option.map_eq_some_iff.1 h
  cases hinfo
  refine ⟨rfl, rfl, ?_⟩
  cases hc : s.command? name with
  | none =>
    rw [target?_of_command?_eq_none hc] at htarget
    obtain ⟨make, hmake, heq⟩ := Option.map_eq_some_iff.1 htarget
    cases heq
    refine .otherwise make (fun c hreal hname hadmits => ?_) hmake rfl rfl
    exact command?_eq_none_iff.1 hc (CommandTable.mem_expected_iff.2 ⟨c, hreal, hname, hadmits⟩)
  | some c =>
    rw [target?_of_command? hc] at htarget
    cases htarget
    exact .command c (CommandTable.find?_named_eq_some_iff.1 hc) rfl rfl

/-- What is there for a name begins as long as there is room. -/
lemma exists_begun? (hroom : s.depth < s.most) (h : s.target? name ≠ none) :
    ∃ p, s.begun? name l = some p := by
  obtain ⟨target, htarget⟩ := Option.ne_none_iff_exists'.1 h
  exact ⟨_, by rw [begun?, if_neg (Nat.not_le_of_lt hroom), htarget, Option.map_some]⟩

lemma room_of_start_ok {args : Entries Value} {session : Session σ}
    (h : (s.start name args l session).value.1.1 = .ok ()) :
    s.depth < s.most ∧ s.target? name ≠ none := by
  have htarget : s.target? name ≠ none := by
    intro hnone
    rw [start_of_target?_eq_none hnone] at h
    cases h
  refine ⟨Nat.lt_of_not_le fun hle => ?_, htarget⟩
  rw [start_of_most_le htarget hle] at h
  cases h

/-- Nothing but commands begins on the empty stack. -/
lemma otherwise?_of_nil (h : s.table.Registered) (hnil : s.elements = []) : s.otherwise? = none := by
  obtain ⟨c, hc, hchild⟩ := h.child_outside
  have hcurrent : s.current = .outside := by
    rw [current, hnil]
    rfl
  rw [otherwise?, hcurrent, hc, Option.bind_some, hchild]

/-- Below the depth limit an element begins if its name is announced or the current command has a handler for
everything else, and never otherwise.  It gets the first registered command of its name that may appear, or
else the current one.  What is refused changes nothing.  The names that are announced are those of the
commands that may appear, in order and without repetition, and nothing else begins on the empty stack. -/
theorem begins_iff_announced (s : ElementStack σ) (name : String) (args : Entries Value) (l : Location)
    (session : Session σ) :
    let out := (s.start name args l session).value.1
    let offered := name ∈ s.expected ∨ s.otherwise?.isSome = true
    (out.1 = .ok () ↔ s.depth < s.most ∧ offered) ∧
    (out.1 = .ok () → ∃ e, out.2.2 = s.push e ∧ e.info.name = name ∧ e.info.location = l ∧
      s.Dispatched name e) ∧
    (¬ offered → out =
      (.error ((StackFault.unexpectedCommand name s.expected).failure.withLocation l), args, s)) ∧
    (offered → s.most ≤ s.depth → out =
      (.error ((StackFault.tooDeep s.most).failure.withLocation l), args, s)) ∧
    s.expected.Pairwise (fun a b => Text.compareTexts a b = .lt) ∧
    (∀ n, n ∈ s.expected ↔ ∃ c ∈ s.table.real, c.2.name = n ∧ c.2.Admits s.current) ∧
    (s.table.Registered → s.elements = [] → s.otherwise? = none) := by
  intro out offered
  have htarget : s.target? name ≠ none ↔ offered := by
    rw [ne_eq, target?_eq_none_iff, Decidable.not_not]
  refine ⟨⟨?_, ?_⟩, ?_, ?_, ?_, CommandTable.pairwise_sortedNames _,
    fun n => CommandTable.mem_expected_iff, otherwise?_of_nil⟩
  · intro h
    obtain ⟨hroom, hfound⟩ := room_of_start_ok h
    exact ⟨hroom, htarget.1 hfound⟩
  · rintro ⟨hroom, hoffered⟩
    obtain ⟨p, hp⟩ := exists_begun? hroom (htarget.2 hoffered)
    exact (start_of_begun? hp args session).1
  · intro h
    obtain ⟨hroom, hfound⟩ := room_of_start_ok h
    obtain ⟨p, hp⟩ := exists_begun? hroom hfound
    obtain ⟨valid, hstack⟩ := (start_of_begun? hp args session).2
    exact ⟨_, hstack, dispatched_of_begun? hp valid⟩
  · intro hnot
    exact start_of_target?_eq_none (target?_eq_none_iff.2 hnot) args session
  · intro hoffered hdeep
    exact start_of_most_le (htarget.2 hoffered) hdeep args session

end ElementStack

end Semdoc
