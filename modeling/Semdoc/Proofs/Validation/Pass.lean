import Semdoc.Proofs.Store.Views
import Semdoc.Validation

/-!
# Passes of validation

What validation finds, apart from its reports, as a function of the store with its marks and of the
results so far.
-/

namespace Semdoc

namespace Validating

open Store (SameNodes)

/-- The store with its marks, and the results so far. -/
abbrev State := Store × Verdicts

/-- What is found at a node, and the state after that. -/
def pass (depth : Nat) (h : NodeHandle) (st : State) : Bool × State :=
  ((node depth h).run st).value

/-- What is found at some nodes in order, given what has been found before. -/
def passAll (depth : Nat) (hs : List NodeHandle) (r : Bool × State) : Bool × State :=
  hs.foldl (fun r h => (r.1 && (pass depth h r.2).1, (pass depth h r.2).2)) r

/-- The state after a node has been looked at with some result. -/
def settle (h : NodeHandle) (r : Bool × State) : Bool × State :=
  (r.1, if r.1 then r.2.1.modify h fun n => { n with validated := true } else r.2.1,
    (h, r.1) :: r.2.2)

lemma value_settle (h : NodeHandle) (r : Bool × State) :
    ((do
      record h r.1
      if r.1 then mark h
      return r.1 : Validating Bool).run r.2).value = settle h r := by
  obtain ⟨ok, s, v⟩ := r
  cases ok <;> rfl

lemma value_foldlM (depth : Nat) (hs : List NodeHandle) (ok : Bool) (st : State) :
    ((hs.foldlM (fun ok below => do
        let fine ← node depth below
        return ok && fine) ok : Validating Bool).run st).value = passAll depth hs (ok, st) := by
  induction hs generalizing ok st with
  | nil => rfl
  | cons h r ih => exact ih _ _

/-- What is done about a node in a state. -/
lemma node_succ (depth : Nat) (h : NodeHandle) (s : Store) (v : Verdicts) :
    node (depth + 1) h (s, v) =
      (match s.get? h with
      | none => check fun _ => Check.demand false "Dangling reference" .unknown
      | some n =>
        if n.validated then return true
        else
          match verdict? v h with
          | some ok => return ok
          | none => do
            record h true
            let ok ← within n.location do
              let sound ← check fun s => s.checkNode h n
              (s.neededBy h n).foldlM (fun ok below => do
                let fine ← node depth below
                return ok && fine) sound
            record h ok
            if ok then mark h
            return ok : Validating Bool) (s, v) := rfl

/-- The rounds of validation: what is marked is valid, what has a result keeps it, and anything else
counts as valid while it and what it needs are looked at. -/
lemma pass_succ (depth : Nat) (h : NodeHandle) (s : Store) (v : Verdicts) :
    pass (depth + 1) h (s, v) =
      match s.get? h with
      | none => (false, s, v)
      | some n =>
        if n.validated then (true, s, v)
        else
          match verdict? v h with
          | some ok => (ok, s, v)
          | none =>
            settle h (passAll depth (s.neededBy h n)
              ((s.checkNode h n).value, s, (h, true) :: v)) := by
  have hpass : pass (depth + 1) h (s, v) = (node (depth + 1) h (s, v)).value := rfl
  rw [hpass, node_succ]
  cases hn : s.get? h with
  | none => rfl
  | some n =>
    dsimp only
    split
    · rfl
    · cases hv : verdict? v h with
      | some ok => rfl
      | none =>
        rw [← value_foldlM]
        exact value_settle h _

/-! ## Marks -/

lemma sameNodes_settle (h : NodeHandle) (r : Bool × State) :
    SameNodes r.2.1 (settle h r).2.1 := by
  unfold settle
  dsimp only
  split
  · exact .modify _ h fun _ => rfl
  · exact .refl _

lemma sameNodes_passAll {depth : Nat}
    (hp : ∀ h st, SameNodes st.1 (pass depth h st).2.1) (hs : List NodeHandle)
    (r : Bool × State) : SameNodes r.2.1 (passAll depth hs r).2.1 := by
  induction hs generalizing r with
  | nil => exact .refl _
  | cons h rest ih =>
    exact (hp h r.2).trans (ih (r.1 && (pass depth h r.2).1, (pass depth h r.2).2))

/-- Validation changes marks only. -/
lemma sameNodes_pass (depth : Nat) (h : NodeHandle) (st : State) :
    SameNodes st.1 (pass depth h st).2.1 := by
  induction depth generalizing h st with
  | zero => exact .refl _
  | succ depth ih =>
    obtain ⟨s, v⟩ := st
    rw [pass_succ]
    split
    · exact .refl s
    · split
      · exact .refl s
      · split
        · exact .refl s
        · next n _ _ _ _ =>
          have hall := sameNodes_passAll ih (s.neededBy h n)
            ((s.checkNode h n).value, s, (h, true) :: v)
          exact hall.trans (sameNodes_settle h _)

end Validating

lemma Store.value_validate (s : Store) (h : NodeHandle) :
    (s.validate h).value =
      ((Validating.pass (s.bound + 1) h (s, [])).1,
        (Validating.pass (s.bound + 1) h (s, [])).2.1) := rfl

lemma Store.sameNodes_validate (s : Store) (h : NodeHandle) :
    SameNodes s (s.validate h).value.2 := by
  rw [value_validate]
  exact Validating.sameNodes_pass _ h (s, [])

end Semdoc
