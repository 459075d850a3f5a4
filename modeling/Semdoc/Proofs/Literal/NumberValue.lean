import Semdoc.Proofs.Literal.Container
import Semdoc.Proofs.Literal.NumberText
import Semdoc.Value.Convert

/-!
# Numbers among values

A text can be read as a number or as any value, where it is tried as a number only if it starts like one, and
taken as a word if that fails.  Both ways find the same numbers, and so does a conversion of the text.
-/

namespace Semdoc

open CharReader (skipped)

/-- The double that a number is or is converted to. -/
def Value.double? : Value → Option Double
  | .int i => some (.ofInt i.toInt)
  | .double d => some d
  | _ => none

/-- Every result of a reading is of a kind. -/
def Reading.Yields {α : Type} (x : Reading α) (P : α → Prop) : Prop := ∀ r, P (x r).value.1

lemma Reading.Yields.pure {α : Type} {a : α} {P : α → Prop} (h : P a) :
    (Pure.pure a : Reading α).Yields P := fun _ => h

lemma Reading.Yields.bind {α β : Type} {x : Reading α} {f : α → Reading β} {P : β → Prop}
    (hf : ∀ a, (f a).Yields P) : (x >>= f).Yields P := by
  intro r
  rw [Logged.run_bind]
  exact hf _ _

lemma Reading.Yields.meets {α : Type} {x : Reading α} {P : α → Prop} (h : x.Yields P) (p : Spot) :
    Meets x p fun y => P y.value.1 := fun _ r _ => h r

/-- Something else is read where there is no result. -/
lemma Refuses.meets_bind {α β : Type} {x : Reading (Option α)} {f : Option α → Reading β} {p : Spot}
    {Q : List LogEvent → Prop} {P : β → Prop} (hx : Refuses x p Q) (hf : (f none).Yields P) :
    Meets (x >>= f) p fun y => P y.value.1 := by
  intro d r h
  rw [Logged.run_bind, (hx d r h).1]
  exact hf _

namespace Literal

variable {limits : Limits} {delims p t u : List UInt8} {o : Outcome Value} {text : String}

/-! ## Values that are no numbers -/

/-- What is read is no number. -/
def NoNumber (o : Outcome Value) : Prop := o.value.double? = none

lemma noNumber_wordValue (s : String) : NoNumber (.good (wordValue s)) := by
  unfold wordValue
  split_ifs <;> rfl

lemma noNumber_emptyContainer (close : UInt8) (ok : Bool) : NoNumber ⟨ok, emptyContainer close⟩ := by
  unfold emptyContainer
  split <;> rfl

lemma noNumber_container (c : Container) (close : UInt8) : NoNumber ⟨c.ok, c.value close⟩ := by
  unfold Container.value
  split
  · rfl
  · split
    · rfl
    · exact noNumber_emptyContainer close c.ok

lemma yields_readWord (delims : List UInt8) (start : Nat) :
    (readWord delims start).Yields NoNumber := by
  refine .bind fun s => ?_
  split
  · exact .bind fun _ => .bind fun _ => .pure rfl
  · exact .pure (noNumber_wordValue s)

lemma yields_readContainerAt (limits : Limits) (fuel depth : Nat) :
    (readContainerAt limits fuel depth).Yields NoNumber := by
  cases fuel with
  | zero =>
    rw [readContainerAt]
    exact .bind fun _ => .bind fun _ => .pure rfl
  | succ fuel =>
    rw [readContainerAt]
    refine .bind fun _ => .bind fun start => .bind fun c => ?_
    cases c.bind closerOf? with
    | none => exact .bind fun _ => .bind fun _ => .pure rfl
    | some close =>
      dsimp only
      split
      · exact .bind fun _ => .bind fun _ => .pure (noNumber_emptyContainer close false)
      · exact .bind fun c => .pure (noNumber_container c close)

/-- Where a number is refused, none is read. -/
lemma meets_readValueAt {Q : List LogEvent → Prop}
    (h : Refuses (readNumber? delims) (skipped p, skipped p) Q) (fuel depth : Nat) :
    Meets (readValueAt limits delims fuel depth) (p, p) fun y => NoNumber y.value.1 := by
  cases fuel with
  | zero =>
    rw [readValueAt]
    apply Reading.Yields.meets (P := NoNumber)
    exact .bind fun _ => .bind fun _ => .pure rfl
  | succ fuel =>
    rw [readValueAt]
    refine (Moves.skipWhitespace p p).meets_bind (.offset_bind fun start => ?_)
    refine (Moves.lookahead _).meets_bind ?_
    cases (CharReader.next? (skipped p)).map (·.1) with
    | none =>
      apply Reading.Yields.meets (P := NoNumber)
      exact .bind fun _ => .bind fun _ => .pure rfl
    | some c =>
      dsimp only
      split
      · apply Reading.Yields.meets (P := NoNumber)
        exact .bind fun _ => .pure rfl
      · split
        · exact (yields_readContainerAt limits fuel depth).meets _
        · split
          · exact h.meets_bind (yields_readWord delims start)
          · exact (yields_readWord delims start).meets _

lemma meets_readValue {Q : List LogEvent → Prop}
    (h : Refuses (readNumber? delims) (skipped p, skipped p) Q) :
    Meets (readValue limits delims) (p, p) fun y => NoNumber y.value.1 := by
  have hrounds : Meets (Reading.rounds >>= fun n => readValueAt limits delims (4 * n) 0) (p, p)
      fun y => NoNumber y.value.1 := .rounds_bind fun n _ => meets_readValueAt h (4 * n) 0
  exact hrounds

/-! ## Numbers that are tried -/

section Word

variable {bytes : List UInt8} {n : Numeral} (hblank : ∀ c ∈ bytes, Text.isBlankByte c = false)
  (ht : Stops [] t)
include ht

lemma refuses_readNumber?_of_rest (hn : Numeral.ofBytes? bytes = some n) (hrange : n.inRange = true)
    (hrest : skipped t ≠ []) : Refuses (readNumber? []) (bytes ++ t, bytes ++ t) (· = []) := by
  refine Refuses.attempt (Q := fun _ => True) ?_
  refine (Numeral.moves_read_of_inRange ht hn hrange).meets_bind ?_
  refine (Moves.skipWhitespace t t).meets_bind ?_
  obtain ⟨c, r, hc⟩ := List.exists_cons_of_ne_nil hrest
  have hbreak := not_isBreak_of_not_isBlankByte (CharReader.not_isBlankByte_of_skipped hc)
  rw [hc]
  exact (Moves.lookahead_cons hbreak r).meets_bind fun _ _ _ => ⟨rfl, trivial⟩

lemma refuses_readNumber?_of_not_inRange (hn : Numeral.ofBytes? bytes = some n)
    (hrange : n.inRange = false) : Refuses (readNumber? []) (bytes ++ t, bytes ++ t) (· = []) := by
  apply Refuses.attempt
  exact (Numeral.refuses_read_of_not_inRange ht hn hrange).bind rfl

include hblank in
lemma refuses_readNumber?_of_none (hn : Numeral.ofBytes? bytes = none) :
    Refuses (readNumber? []) (bytes ++ t, bytes ++ t) (· = []) := by
  apply Refuses.attempt
  exact (Numeral.refuses_read hblank ht hn).bind rfl

end Word

/-! ## Texts -/

/-- A text is one value if nothing but blanks is left behind it. -/
lemma readText_of_moves {source : UInt32} (hp : skipped (Text.utf8Bytes text) ≠ [])
    (hu : skipped u = [])
    (h : Moves (readValue limits [])
      (skipped (Text.utf8Bytes text), skipped (Text.utf8Bytes text)) o (u, u)) :
    readText limits text source = ⟨o, []⟩ := by
  obtain ⟨r₁, hsome, h₁⟩ := (CharReader.at_ofString text source).consumeWhitespace
  obtain ⟨r₂, hread, h₂⟩ := h _ _ h₁
  obtain ⟨r₃, hnone, -⟩ := h₂.consumeWhitespace
  rw [List.isEmpty_eq_false_iff.2 hp] at hsome
  rw [hu] at hnone
  rw [readText, hsome]
  dsimp only
  rw [hread]
  dsimp only
  rw [hnone]
  rfl

/-- A text that is no number is not read as one. -/
lemma noNumber_readText {source : UInt32} {Q : List LogEvent → Prop}
    (h : Refuses (readNumber? [])
      (skipped (Text.utf8Bytes text), skipped (Text.utf8Bytes text)) Q) :
    NoNumber (readText limits text source).value := by
  obtain ⟨r₁, hsome, h₁⟩ := (CharReader.at_ofString text source).consumeWhitespace
  rw [← CharReader.skipped_skipped] at h
  have hvalue : Meets (readValue limits []) _ _ := meets_readValue h
  have hread := hvalue _ _ h₁
  rw [readText, hsome]
  dsimp only
  split
  · rfl
  · split
    · rfl
    · exact hread

/-- A number that is alone in a text is read as a value. -/
lemma readText_of_inRange {source : UInt32} {bytes : List UInt8} {n : Numeral}
    (hsplit : skipped (Text.utf8Bytes text) = bytes ++ t) (hn : Numeral.ofBytes? bytes = some n)
    (hrange : n.inRange = true) (hrest : skipped t = []) :
    readText limits text source = ⟨.good n.toValue, []⟩ := by
  obtain ⟨s, hs, hfinish⟩ := Option.bind_eq_some_iff.1 hn
  have hbytes : bytes ≠ [] := by
    rintro rfl
    cases hs
    cases hfinish
  have hp : skipped (Text.utf8Bytes text) ≠ [] :=
    hsplit ▸ List.append_ne_nil_of_left_ne_nil hbytes t
  have hcloses : Closes [] t := ⟨List.nil_subset _, fun c r h => by simp [hrest] at h⟩
  refine readText_of_moves hp (u := skipped t) ?_ (moves_readValue fun fuel hfuel => ?_)
  · rw [hrest]
    rfl
  · have hlen := List.length_pos_of_ne_nil hp
    obtain ⟨k, rfl⟩ := Nat.exists_eq_add_of_le' (Nat.le_trans (by omega) hfuel : 1 ≤ fuel)
    exact moves_readValueAt_numeral ((CharReader.skipped_skipped _).trans hsplit) hs hfinish hrange
      hcloses

/-- What a text is read as, a number or something else, is the same in both ways. -/
lemma readText_ofText (limits : Limits) (text : String) (source : UInt32) :
    (∃ n, (Numeral.ofText text).value = some n ∧ n.inRange = true ∧
        readText limits text source = ⟨.good n.toValue, []⟩) ∨
      (Numeral.ofText text).value = none ∧ NoNumber (readText limits text source).value := by
  obtain ⟨bytes, t, hsplit, hblank, ht⟩ := Numeral.exists_word (skipped (Text.utf8Bytes text))
  cases hn : Numeral.ofBytes? bytes with
  | none =>
    exact .inr ⟨(Numeral.ofText_of_none hsplit hblank ht hn).1,
      noNumber_readText (hsplit ▸ refuses_readNumber?_of_none hblank ht hn)⟩
  | some n =>
    cases hrange : n.inRange with
    | false =>
      exact .inr ⟨(Numeral.ofText_of_not_inRange hsplit ht hn hrange).1,
        noNumber_readText (hsplit ▸ refuses_readNumber?_of_not_inRange ht hn hrange)⟩
    | true =>
      by_cases hrest : skipped t = []
      · have hread := Numeral.ofText_of_inRange hsplit ht hn hrange hrest
        exact .inl ⟨n, congrArg Logged.value hread, hrange,
          readText_of_inRange hsplit hn hrange hrest⟩
      · exact .inr ⟨(Numeral.ofText_of_rest hsplit ht hn hrange hrest).1,
          noNumber_readText (hsplit ▸ refuses_readNumber?_of_rest ht hn hrange hrest)⟩

end Literal

/-! ## Conversions -/

namespace Convert

lemma value_numberOf? (s : String) : (numberOf? s).value = (Numeral.ofText s).value := by
  unfold numberOf?
  generalize Numeral.ofText s = tried
  dsimp only
  split <;> rfl

lemma value_textToDouble (s : String) : (textToDouble s).value =
    match (Numeral.ofText s).value with
    | some n => .good (.double n.toDouble)
    | none => .bad (.double .zero) := by
  rw [textToDouble, Logged.value_bind, value_numberOf?]
  cases (Numeral.ofText s).value <;> rfl

end Convert

/-- The double of a number is that of its value. -/
lemma Numeral.double?_toValue {n : Numeral} (h : n.inRange = true) :
    n.toValue.double? = some n.toDouble := by
  cases n with
  | integer negative magnitude =>
    have hint := toInt_toInt64 rfl ((inRange_iff_fits (integer negative magnitude)).1 h)
    exact congrArg (fun i => some (Double.ofInt i)) hint
  | decimal => rfl

/-- Reading a text as a number and reading it as any value find the same number, or none; and converting the
text to a double, if any loss will do, finds the double of that number, or fails. -/
theorem Literal.number_texts_agree (limits : Limits) (text : String) (source : UInt32)
    (inner : TypeTag) :
    ((Numeral.ofText text).value.isSome = true ↔
      (∃ i, (readText limits text source).value.value = .int i) ∨
        ∃ d, (readText limits text source).value.value = .double d) ∧
    (∀ n, (Numeral.ofText text).value = some n → readText limits text source =
      ⟨.good (if n.isInteger then .int n.toInt64 else .double n.toDouble), []⟩) ∧
    (Convert.convert .double inner .all (.string text)).value =
      match (readText limits text source).value.value with
      | .int i => .good (.double (.ofInt i.toInt))
      | .double d => .good (.double d)
      | _ => .bad (.double .zero) := by
  have hconvert : (Convert.convert .double inner .all (.string text)).value =
      (Convert.textToDouble text).value := rfl
  rw [hconvert, Convert.value_textToDouble]
  rcases readText_ofText limits text source with ⟨n, hn, hrange, hread⟩ | ⟨hn, hread⟩
  · have hdouble := Numeral.double?_toValue hrange
    rw [hn, hread]
    refine ⟨iff_of_true rfl ?_, ?_, ?_⟩
    · cases n with
      | integer => exact .inl ⟨_, rfl⟩
      | decimal => exact .inr ⟨_, rfl⟩
    · rintro _ ⟨⟩
      rfl
    · cases n with
      | integer =>
        exact congrArg (fun d => Outcome.good (Value.double d)) (Option.some_inj.1 hdouble).symm
      | decimal => rfl
  · rw [hn]
    generalize (readText limits text source).value = o at hread ⊢
    obtain ⟨ok, v⟩ := o
    refine ⟨iff_of_false nofun ?_, nofun, ?_⟩
    · rintro (⟨i, h⟩ | ⟨d, h⟩)
      · rw [NoNumber, h] at hread
        cases hread
      · rw [NoNumber, h] at hread
        cases hread
    · cases v with
      | int | double => cases hread
      | null | bool | string | magic | array | map | object | function => rfl

end Semdoc
