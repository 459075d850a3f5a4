import Semdoc.Literal.Reading
import Semdoc.Proofs.Stream.Desk

/-!
# Readings that report nothing

A reading of a text in memory that gives a result without any report, and moves the reader from one
place to another, whichever text the places are in and whoever else reads it.
-/

namespace Semdoc

open CharReader (At next? afterNext skipped)

/-- What is left of a text where a reader stands, and where it peeks. -/
abbrev Spot := List UInt8 × List UInt8

/-- A reading gives a result and nothing else, and moves every reader from one spot to another. -/
def Moves {α : Type} (x : Reading α) (p : Spot) (a : α) (q : Spot) : Prop :=
  ∀ d r, At d p.1 p.2 r → ∃ r', x r = ⟨(a, r'), []⟩ ∧ At d q.1 q.2 r'

namespace Moves

variable {α β : Type} {x : Reading α} {p q s : Spot} {a : α} {b : β} {rest ahead : List UInt8}

lemma pure (a : α) (p : Spot) : Moves (Pure.pure a) p a p := fun _ r h => ⟨r, rfl, h⟩

lemma bind {f : α → Reading β} (hx : Moves x p a q) (hf : Moves (f a) q b s) :
    Moves (x >>= f) p b s := by
  intro d r h
  obtain ⟨r', hx, h'⟩ := hx d r h
  obtain ⟨r'', hf, h''⟩ := hf d r' h'
  refine ⟨r'', ?_, h''⟩
  show (x r >>= fun y : α × CharReader => f y.1 y.2) = _
  rw [hx]
  show (⟨(f a r').value, [] ++ (f a r').events⟩ : Logged (β × CharReader)) = _
  rw [hf]
  rfl

/-- What happens for every number of rounds that is enough. -/
lemma rounds_bind {f : Nat → Reading β}
    (hf : ∀ n, p.1.length < n → Moves (f n) p b q) : Moves (Reading.rounds >>= f) p b q := by
  intro d r h
  have hlen := h.suffix.length_le
  have hn : p.1.length < r.buffer.extent + 2 := by
    rw [h.holds.extent]
    omega
  exact hf _ hn d r h

/-- What happens wherever the reader stands. -/
lemma offset_bind {f : Nat → Reading β} (hf : ∀ n, Moves (f n) p b q) :
    Moves (Reading.offset >>= f) p b q :=
  fun d r h => hf _ d r h

lemma location_bind {f : Location → Reading β} (hf : ∀ l, Moves (f l) p b q) :
    Moves (Reading.location >>= f) p b q :=
  fun d r h => hf _ d r h

lemma read (rest : List UInt8) :
    Moves Reading.read (rest, rest) ((next? rest).map (·.1)) (afterNext rest, afterNext rest) := by
  intro d r h
  obtain ⟨r', hr, h'⟩ := h.read
  exact ⟨r', congrArg Pure.pure hr, h'⟩

lemma peek (rest ahead : List UInt8) :
    Moves Reading.peek (rest, ahead) ((next? ahead).map (·.1)) (rest, afterNext ahead) := by
  intro d r h
  obtain ⟨r', hr, h'⟩ := h.peek
  exact ⟨r', congrArg Pure.pure hr, h'⟩

lemma resetPeek (rest ahead : List UInt8) :
    Moves Reading.resetPeek (rest, ahead) () (rest, rest) :=
  fun _ r h => ⟨r.resetPeek, rfl, h.resetPeek⟩

lemma consumePeek (rest ahead : List UInt8) :
    Moves Reading.consumePeek (rest, ahead) () (ahead, ahead) :=
  fun _ r h => ⟨r.consumePeek, rfl, h.consumePeek⟩

lemma skipWhitespace (rest ahead : List UInt8) :
    Moves Reading.skipWhitespace (rest, ahead) (!(skipped rest).isEmpty)
      (skipped rest, skipped rest) := by
  intro d r h
  obtain ⟨r', hr, h'⟩ := h.consumeWhitespace
  exact ⟨r', congrArg Pure.pure hr, h'⟩

lemma lookahead (rest : List UInt8) :
    Moves Reading.lookahead (rest, rest) ((next? rest).map (·.1)) (rest, rest) :=
  (peek rest rest).bind ((resetPeek rest _).bind (pure _ _))

/-! ## Characters that are no line breaks -/

lemma read_cons {c : UInt8} (hc : CharReader.isBreak c = false) (t : List UInt8) :
    Moves Reading.read (c :: t, c :: t) (some c) (t, t) := by
  have h := read (c :: t)
  rwa [CharReader.afterNext_cons, next?, hc] at h

lemma peek_cons {c : UInt8} (hc : CharReader.isBreak c = false) (rest t : List UInt8) :
    Moves Reading.peek (rest, c :: t) (some c) (rest, t) := by
  have h := peek rest (c :: t)
  rwa [CharReader.afterNext_cons, next?, hc] at h

lemma lookahead_cons {c : UInt8} (hc : CharReader.isBreak c = false) (t : List UInt8) :
    Moves Reading.lookahead (c :: t, c :: t) (some c) (c :: t, c :: t) := by
  have h := lookahead (c :: t)
  rwa [next?, hc] at h

lemma peek_nil (rest : List UInt8) : Moves Reading.peek (rest, []) none (rest, []) := peek rest []

/-- What is tried with a result is done. -/
lemma attempt {x : Reading (Option α)} (hx : Moves x p (some a) q) :
    Moves (Reading.attempt x) p (some a) q := by
  intro d r h
  obtain ⟨f, hf, h'⟩ := hx _ _ h.fork
  refine ⟨f.commit r, ?_, h.commit h'⟩
  rw [Reading.attempt, hf]

end Moves

end Semdoc
