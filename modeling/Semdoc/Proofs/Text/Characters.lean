import Mathlib.Data.List.DropRight
import Mathlib.Order.Defs.LinearOrder
import Mathlib.Tactic.Lemma
import Semdoc.Text.Blank
import Semdoc.Text.Order

/-!
# Texts as lists of characters

Texts are ordered as the lists of the numbers of their characters, so that their comparison is a total
order.  Trimming takes the characters of a class off both ends of a text, as many as there are.
-/

namespace Semdoc.Text

/-! ## Order -/

/-- Texts are compared by the numbers of their characters. -/
lemma compareTexts_eq_compareOn :
    compareTexts = compareOn fun s : String => s.toList.map Char.toNat := by
  have h : ∀ a b : List Char, compareChars a b = compare (a.map Char.toNat) (b.map Char.toNat) := by
    intro a
    induction a with
    | nil => intro b; cases b <;> rfl
    | cons c r ih =>
      intro b
      cases b with
      | nil => rfl
      | cons d t =>
        rw [compareChars, ih, List.map_cons, List.map_cons, List.compare_cons_cons]
        split
        · next hc => rw [Nat.compare_eq_lt.2 hc, Ordering.lt_then]
        · split
          · next hd => rw [Nat.compare_eq_gt.2 hd, Ordering.gt_then]
          · rw [Nat.compare_eq_eq.2 (by omega), Ordering.eq_then]
  funext s t
  exact h s.toList t.toList

instance : Std.TransCmp compareTexts := by
  rw [compareTexts_eq_compareOn]
  infer_instance

/-- Comparing two texts the other way round turns the result. -/
lemma compareTexts_swap (a b : String) : (compareTexts a b).swap = compareTexts b a :=
  Std.OrientedCmp.eq_swap.symm

/-! ## Trimming -/

variable {p : Char → Bool} {cs : List Char}

/-- Nothing is taken off a text that neither starts nor ends with a character of the class. -/
lemma trimChars_eq_self (hfirst : ∀ c ∈ cs.head?, p c = false)
    (hlast : ∀ c ∈ cs.getLast?, p c = false) : trimChars p cs = cs := by
  cases cs with
  | nil => rfl
  | cons c cs =>
    rw [trimChars, List.dropWhile_cons_of_neg (by simp [hfirst c rfl])]
    refine List.rdropWhile_eq_self_iff.2 fun hne => ?_
    simp [hlast _ (List.getLast?_eq_some_getLast hne)]

section List

variable {α : Type} {p : α → Bool} {a b : List α}

/-- A list that is of a class is all that is taken before something that is not. -/
lemma takeWhile_append_eq_left (ha : ∀ c ∈ a, p c = true) (hb : ∀ c ∈ b.head?, p c = false) :
    (a ++ b).takeWhile p = a := by
  rw [List.takeWhile_append_of_pos ha]
  cases b with
  | nil => exact List.append_nil a
  | cons c b => rw [List.takeWhile_cons_of_neg (by simp [hb c rfl]), List.append_nil]

/-- What is of a class is dropped behind something that is not. -/
lemma rdropWhile_append_eq_left (ha : ∀ c ∈ a.getLast?, p c = false) (hb : ∀ c ∈ b, p c = true) :
    (a ++ b).rdropWhile p = a := by
  have hself : a.rdropWhile p = a := by
    refine List.rdropWhile_eq_self_iff.2 fun hne => ?_
    simp [ha _ (List.getLast?_eq_some_getLast hne)]
  rw [List.rdropWhile, List.reverse_append,
    List.dropWhile_append_of_pos fun c hc => hb c (List.mem_reverse.1 hc)]
  exact hself

end List

lemma trimEndChars_append_rtakeWhile (p : Char → Bool) (cs : List Char) :
    trimEndChars p cs ++ cs.rtakeWhile p = cs := by
  rw [trimEndChars, List.rtakeWhile, ← List.reverse_append, List.takeWhile_append_dropWhile,
    List.reverse_reverse]

/-- What is taken off the end is of the class, and what is left does not end with a character of it. -/
lemma exists_dropWhile_eq_trimChars_append (p : Char → Bool) (cs : List Char) : ∃ after,
    cs.dropWhile p = trimChars p cs ++ after ∧ (∀ c ∈ after, p c = true) ∧
      ∀ c ∈ (trimChars p cs).getLast?, p c = false := by
  refine ⟨(cs.dropWhile p).rtakeWhile p, (trimEndChars_append_rtakeWhile p _).symm,
    fun c hc => List.mem_rtakeWhile_imp hc, fun c hc => ?_⟩
  have hne : trimChars p cs ≠ [] := fun e => by simp [e] at hc
  have hlast := List.rdropWhile_last_not p (cs.dropWhile p) hne
  rw [List.getLast?_eq_some_getLast hne, Option.mem_some_iff] at hc
  rw [← hc]
  exact Bool.eq_false_iff.2 hlast

/-- What is left starts with what it starts with before the end is trimmed. -/
lemma trimChars_trimChars (p : Char → Bool) (cs : List Char) :
    trimChars p (trimChars p cs) = trimChars p cs := by
  obtain ⟨after, hcs, -, hlast⟩ := exists_dropWhile_eq_trimChars_append p cs
  refine trimChars_eq_self (fun c hc => ?_) hlast
  have hfirst : (cs.dropWhile p).head? = some c := by
    rw [hcs, List.head?_append, Option.mem_def.1 hc]
    rfl
  simpa [hfirst] using List.head?_dropWhile_not p cs

end Semdoc.Text
