import Mathlib.Algebra.Group.Nat.Defs
import Mathlib.Data.List.TakeWhile
import Semdoc.Proofs.Literal.Endings
import Semdoc.Proofs.Log.Computations

/-!
# Verdicts on literals

A literal is good if and only if nothing wrong was reported while it was read.  Every reading carries the
verdict so far, and each error that it reports makes the verdict a bad one.
-/

namespace Semdoc

/-- The result of a reading tells whether all was well before it and it has reported no error. -/
def Reading.Tells {α : Type} (before : Bool) (x : Reading α) (ok : α → Bool) : Prop :=
  ∀ r, ok (x r).value.1 = (before && !hasError (x r).events)

/-- A reading reports no error. -/
def Reading.Silent {α : Type} (x : Reading α) : Prop := ∀ r, hasError (x r).events = false

lemma Reading.Silent.bind {α β : Type} {x : Reading α} {f : α → Reading β} (hx : x.Silent)
    (hf : ∀ a, (f a).Silent) : (x >>= f).Silent := by
  intro r
  rw [Logged.run_bind, hasError_append, hx r, hf _ _, Bool.or_self]

/-- Nothing is reported of an attempt that fails. -/
lemma Reading.Silent.attempt {α : Type} {x : Reading (Option α)}
    (h : ∀ r, (x r).value.1.isSome = true → hasError (x r).events = false) :
    (Reading.attempt x).Silent := by
  intro r
  have hx := h r.fork
  unfold Reading.attempt
  dsimp only
  split
  · next e =>
    rw [e] at hx
    exact hx rfl
  · rfl

/-- An attempt is silent if its errors leave it without a result. -/
lemma Reading.Silent.attempt_bind {α β : Type} {x : Reading (Option α)}
    {f : Option α → Reading (Option β)} (hx : Reading.Tells true x Option.isSome)
    (hnone : f none = pure none)
    (hsome : ∀ a, (f (some a)).Silent) : (Reading.attempt (x >>= f)).Silent := by
  refine .attempt fun r h => ?_
  have htells := hx r
  rw [Logged.run_bind] at h ⊢
  rw [hasError_append]
  cases ha : (x r).value.1 with
  | none =>
    rw [ha, hnone] at h
    cases h
  | some a =>
    rw [ha] at htells
    rw [hsome a, Bool.or_false]
    simpa using htells.symm

namespace Reading.Tells

variable {α β : Type} {before : Bool} {x : Reading α} {ok : α → Bool}

lemma pure {a : α} (h : ok a = before) : Tells before (Pure.pure a) ok := fun _ => by
  show ok a = (before && !false)
  rw [h, Bool.not_false, Bool.and_true]

lemma bind {f : α → Reading β} {ok' : β → Bool} (hx : Tells before x ok)
    (hf : ∀ a, Tells (ok a) (f a) ok') : Tells before (x >>= f) ok' := by
  intro r
  have h := hf (x r).value.1 (x r).value.2
  rw [hx r] at h
  show ok' (f (x r).value.1 (x r).value.2).value.1 =
    (before && !hasError ((x r).events ++ (f (x r).value.1 (x r).value.2).events))
  rw [h, hasError_append, Bool.not_or, Bool.and_assoc]

/-- What was wrong before stays wrong. -/
lemma and (h : Tells true x ok) : Tells before x fun a => before && ok a := by
  intro r
  show (before && ok (x r).value.1) = _
  rw [h r, Bool.true_and]

/-- A reading that reports no error tells nothing new. -/
lemma silent (h : x.Silent) : Tells before x fun _ => before := by
  intro r
  rw [h r, Bool.not_false, Bool.and_true]

/-- What comes after a reading that reports no error. -/
lemma silent_bind {f : α → Reading β} {ok : β → Bool} (h : x.Silent)
    (hf : ∀ a, Tells before (f a) ok) : Tells before (x >>= f) ok := bind (silent h) hf

lemma error {text : String} {l : Location} : Tells before (Reading.error text l) fun _ => false := by
  intro r
  exact (Bool.and_false before).symm

lemma error_pure {text : String} {l : Location} {a : α} (h : ok a = false) :
    Tells before (Reading.error text l >>= fun _ => Pure.pure a) ok := bind error fun _ => pure h

lemma locationFrom_error {text : String} {start : Nat} {a : α} (h : ok a = false) :
    Tells before (Reading.locationFrom start >>= fun l => Reading.error text l >>= fun _ => Pure.pure a)
      ok := silent_bind (fun _ => rfl) fun _ => error_pure h

lemma location_error {text : String} {a : α} (h : ok a = false) :
    Tells before (Reading.location >>= fun l => Reading.error text l >>= fun _ => Pure.pure a) ok :=
  silent_bind (fun _ => rfl) fun _ => error_pure h

/-- An error is reported if there is none so far. -/
lemma report_once {wrong : Bool} {text : String} {start : Nat}
    (h : Tells (before && !wrong) x ok) :
    Tells before (if wrong && before then
        Reading.locationFrom start >>= fun l => Reading.error text l >>= fun _ => x
      else x) ok := by
  cases wrong with
  | false =>
    rw [Bool.not_false, Bool.and_true] at h
    exact h
  | true =>
    rw [Bool.not_true, Bool.and_false] at h
    cases before with
    | false => exact h
    | true => exact silent_bind (fun _ => rfl) fun _ => bind error fun _ => h

end Reading.Tells

open Reading (Tells)

/-! ## Numbers -/

namespace Numeral

lemma digit_lt {base : Nat} {c : UInt8} {d : Nat} (h : digitOf? base c = some d) : d < base := by
  simpa using (Option.filter_eq_some_iff.1 h).2

lemma scanWith_tells (delims : List UInt8) (n : Nat) (s : Scan) :
    Tells true (scanWith delims n s) Option.isSome := by
  induction n generalizing s with
  | zero => exact .pure rfl
  | succ n ih =>
    rw [scanWith]
    refine .silent_bind (fun _ => rfl) fun c => ?_
    cases c with
    | none => exact .silent_bind (fun _ => rfl) fun _ => .pure rfl
    | some c =>
      dsimp only
      split
      · exact .silent_bind (fun _ => rfl) fun _ => .pure rfl
      · cases s.step c with
        | none => exact .silent_bind (fun _ => rfl) fun _ => .location_error rfl
        | some s => exact .silent_bind (fun _ => rfl) fun _ => ih s

lemma read_tells (delims : List UInt8) : Tells true (read delims) Option.isSome := by
  refine .silent_bind (fun _ => rfl) fun _ => .silent_bind (fun _ => rfl) fun n => ?_
  refine (scanWith_tells delims n {}).bind fun s => ?_
  cases s with
  | none => exact .pure rfl
  | some s =>
    dsimp only
    cases s.finish with
    | none => exact .location_error rfl
    | some n =>
      dsimp only
      split
      · exact .pure rfl
      · exact .location_error rfl

/-- So few digits are never too many for 32 bits. -/
lemma readFixedFrom_tells {length base count value : Nat}
    (h : (value + 1) * base ^ count ≤ 2 ^ 32) :
    Tells true (readFixedFrom length base count value) Option.isSome := by
  induction count generalizing value with
  | zero => exact .pure rfl
  | succ count ih =>
    rw [readFixedFrom]
    refine .silent_bind (fun _ => rfl) fun start => .silent_bind (fun _ => rfl) fun c => ?_
    cases hd : c.bind (digitOf? base) with
    | none => exact .silent_bind (fun _ => rfl) fun _ => .locationFrom_error rfl
    | some d =>
      obtain ⟨c, -, hc⟩ := Option.bind_eq_some_iff.1 hd
      have hlt : d < base := digit_lt hc
      have hnext : value * base + d + 1 ≤ (value + 1) * base := by
        rw [Nat.add_mul]
        omega
      have hbound : (value * base + d + 1) * base ^ count ≤ 2 ^ 32 :=
        calc (value * base + d + 1) * base ^ count ≤ (value + 1) * base * base ^ count :=
              Nat.mul_le_mul_right _ hnext
          _ = (value + 1) * base ^ (count + 1) := by rw [Nat.mul_assoc, Nat.pow_succ']
          _ ≤ 2 ^ 32 := h
      have hpos : 0 < base ^ count := Nat.pow_pos (by omega)
      refine .silent_bind (fun _ => rfl) fun _ => ?_
      rw [if_pos ?_]
      · exact ih hbound
      · exact (Nat.le_mul_of_pos_right _ hpos).trans hbound

lemma readFixed_tells {length base : Nat} (h : base ^ length ≤ 2 ^ 32) :
    Tells true (readFixed length base) Option.isSome :=
  readFixedFrom_tells (by rwa [Nat.zero_add, Nat.one_mul])

end Numeral

namespace Literal

open scoped Plan

variable {limits : Limits}

/-! ## Strings -/

lemma readEscape_tells (start : Nat) (c : UInt8) : Tells true (readEscape start c) Outcome.ok := by
  have hhex : Tells true (Numeral.readFixed 2 16) Option.isSome := Numeral.readFixed_tells (by decide)
  have hunicode : Tells true (Numeral.readFixed 4 16) Option.isSome :=
    Numeral.readFixed_tells (by decide)
  have hoctal : Tells true (Numeral.readFixed 2 8) Option.isSome := Numeral.readFixed_tells (by decide)
  unfold readEscape
  cases simpleEscape? c with
  | some b => exact .pure rfl
  | none =>
    dsimp only
    split
    · exact .pure rfl
    · split
      · refine hhex.bind fun v => ?_
        cases v <;> exact .pure rfl
      · split
        · refine hunicode.bind fun v => ?_
          cases v with
          | none => exact .pure rfl
          | some v =>
            dsimp only
            cases codePoint? v with
            | none => exact .locationFrom_error rfl
            | some c => exact .pure rfl
        · split
          · refine hoctal.bind fun v => ?_
            cases v with
            | none => exact .pure rfl
            | some low =>
              dsimp only
              split
              · exact .pure rfl
              · exact .locationFrom_error rfl
          · exact .locationFrom_error rfl

/-- A round of a string goes on with the verdict so far. -/
lemma readQuotedRest_tells (limit : UInt64) (quote : UInt8) (start n : Nat) (out : Array UInt8)
    (ok : Bool) : Tells ok (readQuotedRest limit quote start n out ok) Outcome.ok := by
  induction n generalizing out ok with
  | zero => exact .locationFrom_error rfl
  | succ n ih =>
    rw [readQuotedRest]
    refine .report_once ?_
    refine .silent_bind (fun _ => rfl) fun c => ?_
    cases c with
    | none => exact .locationFrom_error rfl
    | some c =>
      dsimp only
      split
      · exact .pure rfl
      · split
        · exact .locationFrom_error rfl
        · split
          · refine .silent_bind (fun _ => rfl) fun o => .silent_bind (fun _ => rfl) fun e => ?_
            cases e with
            | none => exact ih _ _
            | some e => exact (readEscape_tells _ e).and.bind fun escape => ih _ _
          · exact ih _ _

lemma readQuoted_tells (limit : UInt64) : Tells true (readQuoted limit) Outcome.ok := by
  refine .silent_bind (fun _ => rfl) fun _ => .silent_bind (fun _ => rfl) fun start => ?_
  refine .silent_bind (fun _ => rfl) fun q => ?_
  cases q with
  | none => exact .locationFrom_error rfl
  | some q =>
    dsimp only
    split
    · exact .silent_bind (fun _ => rfl) fun n => readQuotedRest_tells limit q start n #[] true
    · exact .locationFrom_error rfl

/-- Nothing is wrong with text without quotes. -/
lemma collectUntil_silent (delims : List UInt8) (n : Nat) (out : Array UInt8) :
    (collectUntil delims n out).Silent := by
  induction n generalizing out with
  | zero => exact fun _ => rfl
  | succ n ih =>
    rw [collectUntil]
    refine .bind (fun _ => rfl) fun c => ?_
    cases c with
    | none => exact fun _ => rfl
    | some c =>
      dsimp only
      split
      · exact fun _ => rfl
      · exact .bind (fun _ => rfl) fun _ => ih _

lemma readUnquoted_silent (delims : List UInt8) : (readUnquoted delims).Silent :=
  .bind (fun _ => rfl) fun _ => .bind (fun _ => rfl) fun n =>
    .bind (collectUntil_silent delims n #[]) fun _ _ => rfl

lemma readWord_tells (delims : List UInt8) (start : Nat) :
    Tells true (readWord delims start) Outcome.ok := by
  refine .silent_bind (readUnquoted_silent delims) fun s => ?_
  split
  · exact .locationFrom_error rfl
  · exact .pure rfl

/-- What is wrong with a number that is none is not reported. -/
lemma readNumber?_silent (delims : List UInt8) : (readNumber? delims).Silent := by
  unfold readNumber?
  refine .attempt_bind (Numeral.read_tells delims) rfl fun n => ?_
  refine .bind (fun _ => rfl) fun _ => .bind (fun _ => rfl) fun c => ?_
  cases c <;> exact fun _ => rfl

/-! ## Values -/

lemma keyOf_tells (v : Value) (l : Location) : Tells true (keyOf v l) Outcome.ok := by
  cases v with
  | string | magic => exact .pure rfl
  | null | bool | int | double | array | map | object | function => exact .error_pure rfl

lemma readSeparator_tells (close : UInt8) : Tells true (readSeparator close) id := by
  refine .silent_bind (fun _ => rfl) fun _ => .silent_bind (fun _ => rfl) fun c => ?_
  cases c with
  | none => exact .silent_bind (fun _ => rfl) fun _ => .pure rfl
  | some c =>
    dsimp only
    split
    · exact .silent_bind (fun _ => rfl) fun _ => .pure rfl
    · split
      · exact .silent_bind (fun _ => rfl) fun _ => .pure rfl
      · refine .silent_bind (fun _ => rfl) fun _ => .silent_bind (fun _ => rfl) fun l => ?_
        exact .bind .error fun _ => .silent_bind (fun _ => rfl) fun _ => .pure rfl

lemma checkMixture_tells (start : Nat) (c : Container) :
    Tells c.ok (checkMixture start c) Container.ok := by
  unfold checkMixture
  split
  · exact .locationFrom_error rfl
  · exact .pure rfl

/-- With so much fuel, verdicts on values, containers and entries are right. -/
structure Truthful (limits : Limits) (n : Nat) : Prop where
  value : ∀ delims depth, Tells true (readValueAt limits delims n depth) Outcome.ok
  container : ∀ depth, Tells true (readContainerAt limits n depth) Outcome.ok
  entries : ∀ close start depth c, Tells c.ok (readEntries limits close start n depth c) Container.ok

namespace Truthful

variable {n : Nat}

lemma value_succ (h : Truthful limits n) (delims : List UInt8) (depth : Nat) :
    Tells true (readValueAt limits delims (n + 1) depth) Outcome.ok := by
  rw [readValueAt]
  refine .silent_bind (fun _ => rfl) fun _ => .silent_bind (fun _ => rfl) fun start => ?_
  refine .silent_bind (fun _ => rfl) fun c => ?_
  cases c with
  | none => exact .location_error rfl
  | some c =>
    dsimp only
    split
    · exact (readQuoted_tells _).bind fun _ => .pure rfl
    · split
      · exact h.container depth
      · split
        · refine .silent_bind (readNumber?_silent delims) fun v => ?_
          cases v with
          | none => exact readWord_tells delims start
          | some v => exact .pure rfl
        · exact readWord_tells delims start

lemma container_succ (h : Truthful limits n) (depth : Nat) :
    Tells true (readContainerAt limits (n + 1) depth) Outcome.ok := by
  rw [readContainerAt]
  refine .silent_bind (fun _ => rfl) fun _ => .silent_bind (fun _ => rfl) fun start => ?_
  refine .silent_bind (fun _ => rfl) fun c => ?_
  cases c.bind closerOf? with
  | none => exact .locationFrom_error rfl
  | some close =>
    dsimp only
    split
    · exact .locationFrom_error rfl
    · exact (h.entries close start depth {}).bind fun _ => .pure rfl

/-- After an entry, the verdict on the container is the verdict on all entries so far. -/
lemma entries_next (h : Truthful limits n) (close : UInt8) (start depth : Nat) (c : Container) :
    Tells c.ok (do
      let c ← checkMixture start c
      let separated ← readSeparator close
      readEntries limits close start n depth { c with ok := c.ok && separated }) Container.ok :=
  (checkMixture_tells start c).bind fun _ => (readSeparator_tells close).and.bind fun _ =>
    h.entries close start depth _

lemma entries_succ (h : Truthful limits n) (close : UInt8) (start depth : Nat) (c : Container) :
    Tells c.ok (readEntries limits close start (n + 1) depth c) Container.ok := by
  rw [readEntries]
  refine .silent_bind (fun _ => rfl) fun more => ?_
  split
  · exact .locationFrom_error rfl
  · refine .silent_bind (fun _ => rfl) fun p => ?_
    split
    · exact .silent_bind (fun _ => rfl) fun _ => .pure rfl
    · refine .silent_bind (fun _ => rfl) fun _ => (h.value _ _).and.bind fun first => ?_
      refine .silent_bind (fun _ => rfl) fun _ => .silent_bind (fun _ => rfl) fun mark => ?_
      dsimp only
      split
      · refine .silent_bind (fun _ => rfl) fun _ => .silent_bind (fun _ => rfl) fun place => ?_
        refine (keyOf_tells _ _).and.bind fun key => (h.value _ _).and.bind fun value => ?_
        split
        · refine .silent_bind (fun _ => rfl) fun _ => ?_
          rw [pure_bind]
          exact h.entries_next close start depth _
        · rw [pure_bind]
          exact h.entries_next close start depth _
      · refine .silent_bind (fun _ => rfl) fun _ => ?_
        rw [pure_bind]
        exact h.entries_next close start depth _

end Truthful

lemma truthful (limits : Limits) (n : Nat) : Truthful limits n := by
  induction n with
  | zero =>
    refine ⟨fun delims depth => ?_, fun depth => ?_, fun close start depth c => ?_⟩
    · rw [readValueAt]
      exact .location_error rfl
    · rw [readContainerAt]
      exact .location_error rfl
    · rw [readEntries]
      exact .locationFrom_error rfl
  | succ n ih => exact ⟨ih.value_succ, ih.container_succ, ih.entries_succ⟩

/-! ## Forms -/

lemma readValue_tells (limits : Limits) (delims : List UInt8) :
    Tells true (readValue limits delims) Outcome.ok :=
  .silent_bind (fun _ => rfl) fun n => (truthful limits n).value delims 0

lemma readContainer_tells (limits : Limits) : Tells true (readContainer limits) Outcome.ok :=
  .silent_bind (fun _ => rfl) fun _ => .silent_bind (fun _ => rfl) fun n =>
    (truthful limits n).container 0

lemma readArray_tells (limits : Limits) : Tells true (readArray limits) Outcome.ok := by
  refine .silent_bind (fun _ => rfl) fun _ => .silent_bind (fun _ => rfl) fun start => ?_
  refine .silent_bind (fun _ => rfl) fun c => ?_
  split
  · exact .locationFrom_error rfl
  · refine .silent_bind (fun _ => rfl) fun n => ((truthful limits n).container 0).bind fun v => ?_
    split
    · exact .pure rfl
    · exact .locationFrom_error rfl

lemma readMap_tells (limits : Limits) : Tells true (readMap limits) Outcome.ok := by
  refine .silent_bind (fun _ => rfl) fun _ => .silent_bind (fun _ => rfl) fun start => ?_
  refine .silent_bind (fun _ => rfl) fun c => ?_
  split
  · exact .locationFrom_error rfl
  · refine .silent_bind (fun _ => rfl) fun n => ((truthful limits n).container 0).bind fun v => ?_
    split
    · exact .pure rfl
    · exact .pure rfl
    · exact .locationFrom_error rfl

lemma readInteger_tells (delims : List UInt8) : Tells true (readInteger delims) Outcome.ok := by
  refine .silent_bind (fun _ => rfl) fun _ => .silent_bind (fun _ => rfl) fun start => ?_
  refine (Numeral.read_tells delims).bind fun n => ?_
  cases n with
  | none => exact .pure rfl
  | some n =>
    dsimp only
    split
    · exact .pure rfl
    · exact .locationFrom_error rfl

lemma readDouble_tells (delims : List UInt8) : Tells true (readDouble delims) Outcome.ok := by
  refine .silent_bind (fun _ => rfl) fun _ => (Numeral.read_tells delims).bind fun n => ?_
  cases n <;> exact .pure rfl

lemma readKeyword_tells (kind : ValueKind) (delims : List UInt8) (start : Nat)
    (words : Entries Value) (substitute : Value) :
    Tells true (readKeyword kind delims start words substitute) Outcome.ok := by
  refine .silent_bind (readUnquoted_silent delims) fun s => ?_
  cases words.get? s with
  | none => exact .locationFrom_error rfl
  | some v => exact .pure rfl

lemma readTyped_tells (limits : Limits) (kind : ValueKind) (delims : List UInt8) :
    Tells true (readTyped limits kind delims) Outcome.ok := by
  refine .silent_bind (fun _ => rfl) fun _ => .silent_bind (fun _ => rfl) fun start => ?_
  cases kind with
  | int => exact (readInteger_tells delims).bind fun _ => .pure rfl
  | double => exact (readDouble_tells delims).bind fun _ => .pure rfl
  | bool | null => exact readKeyword_tells _ delims start _ _
  | string | magic =>
    refine .silent_bind (fun _ => rfl) fun c => ?_
    split
    · exact (readQuoted_tells _).bind fun _ => .pure rfl
    · exact .silent_bind (readUnquoted_silent delims) fun _ => .pure rfl
  | array | map =>
    refine (readContainer_tells limits).bind fun v => ?_
    split
    · exact .pure rfl
    · exact .locationFrom_error rfl
  | object | function => exact readValue_tells limits delims

/-- Every form of literals is read with a right verdict. -/
theorem Form.read_tells (limits : Limits) (f : Form) : Tells true (f.read limits) Outcome.ok := by
  cases f with
  | any delims => exact readValue_tells limits delims
  | quoted => exact readQuoted_tells _
  | unquoted delims => exact .silent_bind (readUnquoted_silent delims) fun _ => .pure rfl
  | integer delims => exact readInteger_tells delims
  | double delims => exact readDouble_tells delims
  | array => exact readArray_tells limits
  | map => exact readMap_tells limits
  | container => exact readContainer_tells limits
  | typed kind delims => exact readTyped_tells limits kind delims

lemma readText_ok (limits : Limits) (text : String) (source : UInt32) :
    (readText limits text source).value.ok = !hasError (readText limits text source).events := by
  unfold readText
  dsimp only
  split
  · rfl
  · split
    · rfl
    · exact (readValue_tells limits [] _).trans (Bool.true_and _)

end Literal

/-! ## Texts that are one value -/

namespace CharReader

/-- Blanks end at the end if and only if there is nothing else. -/
lemma blanksEnd_lt_iff {bytes : List UInt8} {o : Nat} (ho : o ≤ bytes.length) :
    blanksEnd bytes o < bytes.length ↔ ¬ ∀ b ∈ bytes.drop o, Text.isBlankByte b = true := by
  have hlen : (bytes.drop o).length = bytes.length - o := List.length_drop
  have hpre := List.takeWhile_prefix Text.isBlankByte (l := bytes.drop o)
  rw [← List.takeWhile_eq_self_iff, blanksEnd]
  refine ⟨fun h e => ?_, fun h => ?_⟩
  · rw [e] at h
    omega
  · have hlt := lt_of_le_of_ne hpre.length_le fun e => h (hpre.eq_of_length e)
    omega

lemma On.consumeWhitespace_fst {bytes : List UInt8} {p : Progress} {r : CharReader}
    (h : r.On bytes p) :
    r.consumeWhitespace.1 = false ↔ ∀ b ∈ bytes.drop r.offset, Text.isBlankByte b = true := by
  have hlead : Reading.skipWhitespace.Leads bytes p fun more _ =>
      more = decide (blanksEnd bytes p.read < bytes.length) :=
    .skipWhitespace fun q hq _ _ _ => by rw [hq]
  obtain ⟨-, -, -, -, hmore⟩ := hlead r h
  have hmore' : r.consumeWhitespace.1 = decide (blanksEnd bytes p.read < bytes.length) := hmore
  rw [hmore', h.offset, decide_eq_false_iff_not, blanksEnd_lt_iff (h.le.1.trans h.le.2), not_not]

end CharReader

namespace Literal

/-- A text is read as a value if and only if the value is good and nothing but blanks follows. -/
lemma read_eq_ok_iff (options : ReaderOptions) (text : String) (v : Value) :
    read options text = .ok v ↔
      (readValue options.limits [] (.ofString text 0)).value.1 = .good v ∧
        ∀ b ∈ (Text.utf8Bytes text).drop
          (readValue options.limits [] (.ofString text 0)).value.2.offset,
          Text.isBlankByte b = true := by
  have htells := readValue_tells options.limits [] (.ofString text 0)
  have hon : ∃ q, (readValue options.limits [] (.ofString text 0)).value.2.On
      (Text.utf8Bytes text) q := (Form.any []).read_on (CharReader.on_ofBytes _ 0)
  obtain ⟨q, hq⟩ := hon
  have hrest := hq.consumeWhitespace_fst
  unfold read
  dsimp only
  generalize readValue options.limits [] (.ofString text 0) = y at *
  rw [← hrest]
  obtain ⟨⟨⟨ok, a⟩, r⟩, events⟩ := y
  have hok : ok = !hasError events := htells.trans (Bool.true_and _)
  have hvalue := Logged.toExcept_eq_ok_iff .malformed (⟨a, events⟩ : Logged Value)
  dsimp only at hvalue ⊢
  cases hdone : Logged.toExcept .malformed (⟨a, events⟩ : Logged Value) with
  | error e =>
    rw [hdone] at hvalue
    refine ⟨nofun, fun h => ?_⟩
    have hgood : ok = true := congrArg Outcome.ok h.1
    have herror : hasError events = false := by simpa [hok] using hgood
    exact nomatch (hvalue a).2 ⟨herror, rfl⟩
  | ok a' =>
    obtain ⟨herror, rfl⟩ := (hvalue a').1 hdone
    have hgood : ok = true := by rw [hok, herror, Bool.not_false]
    subst hgood
    cases r.consumeWhitespace.1 with
    | true => exact ⟨nofun, fun h => nomatch h.2⟩
    | false =>
      refine ⟨fun h => ⟨?_, rfl⟩, fun h => ?_⟩
      · exact congrArg Outcome.good (Except.ok.inj h)
      · exact congrArg Except.ok (congrArg Outcome.value h.1)

/-- Whatever is read, its verdict is good if and only if no error was reported on the way: a literal of any
form, at any place of any input; and a text as a whole.  Hence a text is one value if and only if the value
is good and nothing but blanks follows. -/
theorem verdict_exact :
    (∀ limits (f : Form) r,
        (f.read limits r).value.1.ok = true ↔ hasError (f.read limits r).events = false) ∧
      (∀ limits text source, (readText limits text source).value.ok = true ↔
        hasError (readText limits text source).events = false) ∧
      ∀ options text v, read options text = .ok v ↔
        (readValue options.limits [] (.ofString text 0)).value.1 = .good v ∧
          ∀ b ∈ (Text.utf8Bytes text).drop
            (readValue options.limits [] (.ofString text 0)).value.2.offset,
            Text.isBlankByte b = true := by
  refine ⟨fun limits f r => ?_, fun limits text source => ?_, read_eq_ok_iff⟩
  · rw [f.read_tells limits r, Bool.true_and, Bool.not_eq_true']
  · rw [readText_ok, Bool.not_eq_true']

end Literal

end Semdoc
