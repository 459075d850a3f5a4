import Mathlib.Logic.Basic
import Mathlib.Tactic.Lemma
import Semdoc.Literal.Reading
import Semdoc.Log.Sink

/-!
# Computations that report

Whether an error is among the events of a computation depends on the computations that it is made of.  A
receiver that keeps the first error finds one if and only if there is one.

A computation that may report and has a state is run on a state.  What it leaves is the state that
the last of its parts leaves, and what it reports are the reports of its parts one after the other.

Computations that report errors and say by their outcome how they went can be done one after the other.
Together they are good if each of them is, and they leave what each of them leaves and tell what each of
them tells.
-/

namespace Semdoc

lemma hasError_append (xs ys : List LogEvent) :
    hasError (xs ++ ys) = (hasError xs || hasError ys) := List.any_append

namespace Logged

variable {α β : Type}

lemma ext {x y : Logged α} (hv : x.value = y.value) (he : x.events = y.events) : x = y := by
  cases x
  cases y
  cases hv
  cases he
  rfl

/-- No error has been reported if all messages are less serious. -/
lemma failed_eq_false_iff (x : Logged α) :
    x.failed = false ↔ ∀ m ∈ messagesOf x.events, m.severity.isError = false := by
  have hevent : ∀ e : LogEvent,
      e.isError = false ↔ ∀ m, e.message? = some m → m.severity.isError = false := by
    rintro (m | l | - | l) <;> simp [LogEvent.isError, LogEvent.message?]
  rw [failed, hasError, List.any_eq_false]
  simp only [Bool.not_eq_true, hevent, messagesOf, List.mem_filterMap]
  exact ⟨fun h m ⟨e, he, hm⟩ => h e he m hm, fun h e he m hm => h m ⟨e, he, hm⟩⟩

@[simp] lemma failed_pure (a : α) : (pure a : Logged α).failed = false := rfl

@[simp] lemma failed_bind (x : Logged α) (f : α → Logged β) :
    (x >>= f).failed = (x.failed || (f x.value).failed) :=
  List.any_append

@[simp] lemma failed_report (severity : Severity) (text : String) (l : Location) :
    (report severity text l).failed = severity.isError := Bool.or_false _

@[simp] lemma failed_error (text : String) (l : Location) : (error text l).failed = true := rfl

/-- A default location is no error. -/
@[simp] lemma failed_within (l : Location) (x : Logged α) : (within l x).failed = x.failed := by
  show hasError (.pushLocation l :: (x.events ++ [.popLocation])) = _
  rw [← List.singleton_append, hasError_append, hasError_append]
  exact (Bool.false_or _).trans (Bool.or_false _)

end Logged

/-! ## The first error -/

lemma FirstError.isSome_recordAll (f : FirstError) (events : List LogEvent) :
    (f.recordAll events).failure.isSome = (f.failure.isSome || hasError events) := by
  induction events generalizing f with
  | nil => exact (Bool.or_false _).symm
  | cons e events ih =>
    have hcons : f.recordAll (e :: events) = (f.record e).recordAll events := rfl
    have hrecord : (f.record e).failure.isSome = (f.failure.isSome || e.isError) := by
      cases e with
      | message m =>
        unfold FirstError.record
        cases hf : f.failure <;> cases hm : m.severity.isError <;> simp [hf, hm, LogEvent.isError]
      | pushLocation | popLocation | setLocation => exact (Bool.or_false _).symm
    rw [hcons, ih, hrecord, Bool.or_assoc]
    rfl

/-- A computation succeeds with its value if and only if it has reported no error. -/
lemma Logged.toExcept_eq_ok_iff {α : Type} (kind : FailureKind) (x : Logged α) (a : α) :
    x.toExcept kind = .ok a ↔ hasError x.events = false ∧ x.value = a := by
  have h := FirstError.isSome_recordAll { kind } x.events
  rw [Option.isSome_none, Bool.false_or] at h
  rw [← h, Logged.toExcept, FirstError.result]
  cases (({ kind } : FirstError).recordAll x.events).failure with
  | none => simp
  | some e => simp

namespace Logged

/-! ## Runs with a state -/

section Runs

variable {τ α β : Type}

@[simp] lemma run_pure (a : α) (t : τ) : (pure a : StateT τ Logged α) t = ⟨(a, t), []⟩ := rfl

@[simp] lemma run_get (t : τ) : (get : StateT τ Logged τ) t = ⟨(t, t), []⟩ := rfl

@[simp] lemma run_bind (x : StateT τ Logged α) (f : α → StateT τ Logged β) (t : τ) :
    (x >>= f) t = ⟨(f (x t).value.1 (x t).value.2).value,
      (x t).events ++ (f (x t).value.1 (x t).value.2).events⟩ := rfl

@[simp] lemma run_lift (x : Logged α) (t : τ) :
    (StateT.lift x : StateT τ Logged α) t = ⟨(x.value, t), x.events⟩ :=
  ext rfl (List.append_nil _)

@[simp] lemma run_map (f : α → β) (x : StateT τ Logged α) (t : τ) :
    (f <$> x) t = ⟨(f (x t).value.1, (x t).value.2), (x t).events⟩ :=
  ext rfl (List.append_nil _)

/-- Reports one after the other leave the state as it is. -/
lemma run_forM_report (items : List α) (report : α → StateT τ Logged Unit) (event : α → LogEvent)
    (h : ∀ a t, report a t = ⟨((), t), [event a]⟩) (t : τ) :
    items.forM report t = ⟨((), t), items.map event⟩ := by
  induction items with
  | nil => rfl
  | cons a r ih =>
    rw [List.forM, run_bind, h, ih]
    rfl

end Runs

end Logged

/-! ## Results one after the other -/

namespace Logged

variable {α β : Type}

@[simp] lemma failed_errors (texts : List String) :
    (forM texts fun text => error text).failed = !texts.isEmpty := by
  cases texts with
  | nil => rfl
  | cons text r => rfl

lemma forM_map (f : α → β) (g : β → Logged Unit) (as : List α) :
    (as.map f).forM g = as.forM fun a => g (f a) := by
  induction as with
  | nil => rfl
  | cons a r ih => rw [List.map_cons, List.forM, ih]; rfl

/-- Results one after the other.  They are good together if each of them is. -/
def gather : List (Logged (Outcome α)) → Logged (Outcome (List α))
  | [] => pure (.good [])
  | x :: r => do
    let v ← x
    let vs ← gather r
    return ⟨v.ok && vs.ok, v.value :: vs.value⟩

@[simp] lemma gather_ok (xs : List (Logged (Outcome α))) :
    (gather xs).value.ok = xs.all (·.value.ok) := by
  induction xs with
  | nil => rfl
  | cons x r ih => rw [List.all_cons, ← ih]; rfl

@[simp] lemma gather_value (xs : List (Logged (Outcome α))) :
    (gather xs).value.value = xs.map (·.value.value) := by
  induction xs with
  | nil => rfl
  | cons x r ih => rw [List.map_cons, ← ih]; rfl

@[simp] lemma failed_gather (xs : List (Logged (Outcome α))) :
    (gather xs).failed = xs.any (·.failed) := by
  induction xs with
  | nil => rfl
  | cons x r ih => simp [gather, ih]

@[simp] lemma gather_events (xs : List (Logged (Outcome α))) :
    (gather xs).events = xs.flatMap (·.events) := by
  induction xs with
  | nil => rfl
  | cons x r ih =>
    rw [List.flatMap_cons, ← ih, gather, events_bind, events_bind, events_pure, List.append_nil]

/-- What a good and silent result is made of. -/
lemma eq_good_iff {x : Logged (Outcome α)} {a : α} :
    x = pure (.good a) ↔ x.value.ok = true ∧ x.value.value = a ∧ x.events = [] := by
  constructor
  · rintro rfl
    exact ⟨rfl, rfl, rfl⟩
  · obtain ⟨⟨ok, value⟩, events⟩ := x
    rintro ⟨rfl, rfl, rfl⟩
    rfl

/-- Results are good and silent together if each of them is. -/
lemma gather_map_eq_good_iff (items : List β) (f : β → Logged (Outcome α)) (g : β → α) :
    gather (items.map f) = pure (.good (items.map g)) ↔ ∀ b ∈ items, f b = pure (.good (g b)) := by
  rw [eq_good_iff, gather_ok, gather_value, gather_events]
  simp only [List.all_map, List.all_eq_true, List.map_map, List.map_inj_left, List.flatMap_map,
    List.flatMap_eq_nil_iff, Function.comp_apply, ← forall_and, eq_good_iff]

/-- An outcome is candid if it is good exactly when no error has been reported. -/
def Candid (x : Logged (Outcome α)) : Prop := x.value.ok = !x.failed

namespace Candid

lemma good (a : α) : Candid (pure (.good a)) := rfl

/-- What is made of a result does not change whether it is good. -/
lemma map {x : Logged (Outcome α)} (h : x.Candid) (f : α → β) :
    Candid (x >>= fun o => pure (o.map f)) := by
  rw [Candid, failed_bind, failed_pure, Bool.or_false]
  exact h

/-- Two outcomes that tell what has been reported are good together if both of them are. -/
lemma both {γ : Type} {x : Logged (Outcome α)} {y : Outcome α → Logged (Outcome β)}
    (f : α → β → γ) (hx : x.Candid) (hy : ∀ o, (y o).Candid) :
    Candid (x >>= fun o => y o >>= fun r => pure ⟨o.ok && r.ok, f o.value r.value⟩) := by
  have hy := hy x.value
  unfold Candid at hx hy ⊢
  rw [value_bind, value_bind, value_pure, failed_bind, failed_bind, failed_pure, Bool.or_false, hx,
    hy, Bool.not_or]

end Candid

lemma candid_gather {xs : List (Logged (Outcome α))} (h : ∀ x ∈ xs, x.Candid) :
    (gather xs).Candid := by
  rw [Candid, gather_ok, failed_gather, List.not_any_eq_all_not, Bool.eq_iff_iff,
    List.all_eq_true, List.all_eq_true]
  exact forall₂_congr fun x hx => by rw [h x hx]

end Logged

end Semdoc
