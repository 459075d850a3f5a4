import Mathlib.Data.List.Induction
import Semdoc.Proofs.Parse.Descent
import Semdoc.Proofs.Parse.Hearings

/-!
# The depth of the stack of elements

A command begins an element only as long as fewer are open than may be.  A deduction does not look at how many
there are.  So whatever is open beyond the limit has been opened by deductions, and the limit holds unless a
deduction has opened an element when there were as many as may be, and that element is still open.
-/

namespace Semdoc

variable {σ : Type}

/-- What is asked of a stack of elements. -/
inductive StackCall where
  | tell (r : Report)
  | deduce

namespace ElementStack

/-- The stack after it has been asked something in a session. -/
def call (s : ElementStack σ) (session : Session σ) : StackCall → ElementStack σ
  | .tell r => (s.perform r session).value.1.stack
  | .deduce => (s.deduce session).value.1.2

/-- The stack after calls, each of them in a session of its own. -/
def after (s : ElementStack σ) (calls : List (Session σ × StackCall)) : ElementStack σ :=
  calls.foldl (fun s c => s.call c.1 c.2) s

lemma after_concat (s : ElementStack σ) (calls : List (Session σ × StackCall))
    (c : Session σ × StackCall) : s.after (calls ++ [c]) = (s.after calls).call c.1 c.2 :=
  List.foldl_concat _ _ _ _

/-- The commands that are deduced in a session. -/
def candidates (s : ElementStack σ) (session : Session σ) : List CommandId :=
  s.table.deduce (session.scope.signature session.world.store)

/-! ## What a call does -/

/-- What becomes of the elements in a call. -/
inductive Moves (s : ElementStack σ) (c : StackCall) : ElementStack σ → Prop where
  | stays : Moves s c s
  | opens (e : Element σ) (room : s.depth < s.most ∨ c = .deduce) : Moves s c (s.push e)
  | closes (e : Element σ) (rest : List (Element σ)) (innermost : s.elements = e :: rest) :
      Moves s c { s with elements := rest }

section Call

variable (s : ElementStack σ) (session : Session σ)

lemma moves_tell (r : Report) : s.Moves (.tell r) (s.call session (.tell r)) := by
  cases hr : r.isStart with
  | true =>
    cases r with
    | start name args l =>
      cases hb : s.begun? name l with
      | none =>
        obtain ⟨f, hrun⟩ := perform_start_of_none hb args session
        rw [call, hrun]
        apply Moves.stays
      | some p =>
        have hrun : s.perform (.start name args l) session = _ :=
          Moment.perform_start (m := { stack := s, session }) hb
        rw [call, hrun]
        apply Moves.opens
        exact .inl (Nat.lt_of_not_le (Option.ite_none_left_eq_some.1 hb).1)
    | _ => cases hr
  | false =>
    cases he : s.elements with
    | nil =>
      obtain ⟨f, hrun⟩ := perform_of_nil hr he session
      rw [call, hrun]
      apply Moves.stays
    | cons e rest =>
      obtain ⟨otherwise, hrun⟩ := perform_of_cons hr he session
      rw [call, hrun]
      cases r.isFinish with
      | false => exact .stays
      | true => exact .closes e rest he

/-- A deduction opens an element if it finds one command, whatever the depth. -/
lemma call_deduce_of_eq {command : CommandId} (h : s.candidates session = [command]) :
    ∃ e, s.call session .deduce = s.push e := by
  rw [candidates] at h
  rw [call, deduce, Logged.run_bind, Logged.run_get]
  simp only [h]
  exact ⟨_, rfl⟩

lemma call_deduce_of_ne (h : ∀ command, s.candidates session ≠ [command]) :
    s.call session .deduce = s := by
  rw [call, deduce, Logged.run_bind, Logged.run_get]
  match hc : s.candidates session with
  | [] =>
    rw [candidates] at hc
    simp only [hc]
    rfl
  | [command] => exact absurd hc (h command)
  | c :: d :: rest =>
    rw [candidates] at hc
    simp only [hc]
    rfl

lemma moves_call (c : StackCall) : s.Moves c (s.call session c) := by
  cases c with
  | tell r => exact moves_tell s session r
  | deduce =>
    by_cases h : ∃ command, s.candidates session = [command]
    · obtain ⟨command, hc⟩ := h
      obtain ⟨e, he⟩ := call_deduce_of_eq s session hc
      rw [he]
      exact .opens e (.inr rfl)
    · rw [call_deduce_of_ne s session (not_exists.1 h)]
      exact .stays

end Call

section Moves

variable {s t : ElementStack σ} {c : StackCall}

lemma Moves.most_eq (h : s.Moves c t) : t.most = s.most := by
  cases h with
  | stays | opens | closes => rfl

lemma most_after (s : ElementStack σ) (calls : List (Session σ × StackCall)) :
    (s.after calls).most = s.most := by
  induction calls using List.reverseRecOn with
  | nil => rfl
  | append_singleton calls c ih =>
    rw [after_concat, (moves_call _ c.1 c.2).most_eq, ih]

end Moves

/-! ## Elements that were deduced -/

/-- A deduction has opened an element inside of `k` others, which has been open since. -/
def DeducedAt (s : ElementStack σ) (calls : List (Session σ × StackCall)) (k : Nat) : Prop :=
  ∃ before session later, calls = before ++ (session, .deduce) :: later ∧ (s.after before).depth = k ∧
    ∀ n, k < (s.after (before ++ (session, .deduce) :: later.take n)).depth

section Run

variable {s : ElementStack σ} {calls : List (Session σ × StackCall)} {k : Nat}

lemma DeducedAt.lt_depth (h : s.DeducedAt calls k) : k < (s.after calls).depth := by
  obtain ⟨before, session, later, rfl, -, hopen⟩ := h
  have hall := hopen later.length
  rwa [List.take_length] at hall

/-- A deduced element goes on to be open as long as calls leave the stack deeper. -/
lemma DeducedAt.concat (h : s.DeducedAt calls k) {c : Session σ × StackCall}
    (hdeep : k < (s.after (calls ++ [c])).depth) : s.DeducedAt (calls ++ [c]) k := by
  obtain ⟨before, session, later, rfl, hdepth, hopen⟩ := h
  refine ⟨before, session, later ++ [c], ?_, hdepth, ?_⟩
  · rw [List.append_assoc, List.cons_append]
  · intro n
    obtain hlt | hle := Nat.lt_or_ge later.length n
    · have htake : (later ++ [c]).take n = later ++ [c] := by
        apply List.take_of_length_le
        rw [List.length_append, List.length_singleton]
        exact hlt
      rwa [htake, ← List.cons_append, ← List.append_assoc]
    · rw [List.take_append_of_le_length hle]
      exact hopen n

/-- Whatever is open beyond the limit has been deduced. -/
lemma deducedAt_of_most_le (hs : s.depth ≤ s.most) (hk : s.most ≤ k)
    (hdeep : k < (s.after calls).depth) : s.DeducedAt calls k := by
  induction calls using List.reverseRecOn with
  | nil => exact absurd (Nat.lt_of_le_of_lt hk hdeep) (Nat.not_lt_of_le hs)
  | append_singleton calls c ih =>
    obtain ⟨session, c⟩ := c
    have hearlier : k < (s.after calls).depth → s.DeducedAt (calls ++ [(session, c)]) k :=
      fun h => (ih h).concat hdeep
    rw [after_concat] at hdeep
    generalize hnext : (s.after calls).call session c = t at hdeep
    cases hnext ▸ moves_call (s.after calls) session c with
    | stays => exact hearlier hdeep
    | closes e rest he =>
      apply hearlier
      rw [depth, he]
      exact Nat.lt_succ_of_lt hdeep
    | opens e room =>
      obtain hlt | rfl := Nat.lt_or_eq_of_le (Nat.le_of_lt_succ hdeep)
      · exact hearlier hlt
      · -- there was no room, so that it has just been deduced
        rw [most_after] at room
        obtain rfl := room.resolve_left (Nat.not_lt_of_le hk)
        refine ⟨calls, session, [], rfl, rfl, fun n => ?_⟩
        rw [List.take_nil, after_concat, hnext]
        exact hdeep

end Run

/-- What is told to a stack with as many elements as may be open begins none. -/
lemma depth_call_tell_le {s : ElementStack σ} (hfull : s.most ≤ s.depth) (session : Session σ)
    (r : Report) : (s.call session (.tell r)).depth ≤ s.depth := by
  generalize hnext : s.call session (.tell r) = t
  cases hnext ▸ moves_tell s session r with
  | stays => exact Nat.le_refl _
  | opens e room =>
    rcases room with hlt | hdeduce
    · exact absurd hlt (Nat.not_lt_of_le hfull)
    · cases hdeduce
  | closes e rest he =>
    rw [depth, depth, he]
    exact Nat.le_succ _

lemma depth_call_deduce_iff (s : ElementStack σ) (session : Session σ) :
    (s.call session .deduce).depth = s.depth + 1 ↔
      ∃ command, s.candidates session = [command] := by
  constructor
  · intro h
    apply Classical.byContradiction
    intro hnone
    rw [call_deduce_of_ne s session (not_exists.1 hnone)] at h
    exact absurd h (Nat.ne_of_lt (Nat.lt_succ_self _))
  · rintro ⟨command, hc⟩
    obtain ⟨e, he⟩ := call_deduce_of_eq s session hc
    rw [he]
    rfl

/-- In every run the depth stays within the limit unless an element is open that was deduced when there were
as many as may be.  All elements beyond the limit have been deduced: nothing that is told to a stack at the
limit begins another one, but a deduction that finds one command opens it at any depth. -/
theorem depth_le_most_unless_deduced (table : CommandTable σ) (l : Limits)
    (calls : List (Session σ × StackCall)) :
    let most := l.stackDepth.toNat
    let s := (empty table l).after calls
    (s.depth ≤ most ↔ ∀ k, most ≤ k → ¬ (empty table l).DeducedAt calls k) ∧
    (∀ k, most ≤ k → k < s.depth → (empty table l).DeducedAt calls k) ∧
    (∀ session r, most ≤ s.depth → (s.call session (.tell r)).depth ≤ s.depth) ∧
    ∀ session, (s.call session .deduce).depth = s.depth + 1 ↔
      ∃ command, s.candidates session = [command] := by
  intro most s
  have hbeyond : ∀ k, most ≤ k → k < s.depth → (empty table l).DeducedAt calls k :=
    fun k hk hdeep => deducedAt_of_most_le (Nat.zero_le _) hk hdeep
  have hmost : s.most = most := most_after (empty table l) calls
  refine ⟨⟨?_, ?_⟩, hbeyond, ?_, depth_call_deduce_iff s⟩
  · intro hle k hk hdeduced
    exact absurd hdeduced.lt_depth (Nat.not_lt_of_le (Nat.le_trans hle hk))
  · intro hnone
    apply Nat.le_of_not_lt
    intro hlt
    exact hnone most (Nat.le_refl _) (hbeyond most (Nat.le_refl _) hlt)
  · intro session r hfull
    exact depth_call_tell_le (hmost ▸ hfull) session r

/-- With a limit of one, an ontology is deduced inside another one. -/
theorem most_lt_depth_deducedOntology :
    let table : CommandTable Unit := { commands := [{ name := "$none" }, { name := "$all" },
      { name := "ontology", parents := [⟨0⟩], creates := [.ontology] }] }
    let l : Limits := { stackDepth := 1 }
    let session := openedIn ⟨7, 1⟩
    let s := (empty table l).after [(session, .tell (.start "ontology" [] .unknown)), (session, .deduce)]
    s.depth = 2 ∧ l.stackDepth.toNat = 1 := by
  decide +kernel

end ElementStack

end Semdoc
