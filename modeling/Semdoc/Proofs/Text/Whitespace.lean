import Mathlib.Data.List.Chain
import Semdoc.Proofs.Text.Characters
import Semdoc.Proofs.Text.Utf8
import Semdoc.Text.Whitespace

/-!
# Trimming and collapsing

Collapsing goes through a text once and remembers whether blanks have been passed since the last
character that it has written.  It finds what trimming finds, and one space for each gap inside.
-/

namespace Semdoc.Text

/-! ## Blank bytes -/

lemma isBlankByte_of_beyond {b : UInt8} (hb : 0x80 ≤ b.toNat) : isBlankByte b = false := by
  revert b
  apply forall_byte
  decide +kernel

lemma isBlankByte_ofNat_toNat {c : Char} (hc : c.toNat ≤ 0x7f) :
    isBlankByte (UInt8.ofNat c.toNat) = isBlankAscii c := by
  revert c
  apply forall_ascii
  decide +kernel

/-- The bytes of a character are blank if and only if it is a blank ASCII character. -/
lemma isBlankByte_of_mem_utf8EncodeChar {c : Char} {b : UInt8} (hb : b ∈ String.utf8EncodeChar c) :
    isBlankByte b = isBlankAscii c := by
  rcases Nat.lt_or_ge 0x7f c.toNat with hc | hc
  · rw [isBlankByte_of_beyond (le_of_mem_utf8EncodeChar hc hb), isBlankAscii, eq_comm,
      Bool.or_eq_false_iff, Bool.and_eq_false_iff, beq_eq_false_iff_ne, decide_eq_false_iff_not,
      decide_eq_false_iff_not]
    omega
  · rw [utf8EncodeChar_of_ascii hc, List.mem_singleton] at hb
    rw [hb]
    exact isBlankByte_ofNat_toNat hc

lemma isBlankByte_of_mem_flatMap {cs : List Char} (hcs : ∀ c ∈ cs, isBlankAscii c = true)
    {b : UInt8} (hb : b ∈ cs.flatMap String.utf8EncodeChar) : isBlankByte b = true := by
  obtain ⟨c, hc, hb⟩ := List.mem_flatMap.1 hb
  rw [isBlankByte_of_mem_utf8EncodeChar hb, hcs c hc]

/-- All bytes of a text are blank if and only if all its characters are. -/
lemma isBlankText_iff {s : String} :
    isBlankText s = true ↔ ∀ c ∈ s.toList, isBlankAscii c = true := by
  rw [isBlankText, List.all_eq_true, utf8Bytes_eq]
  refine ⟨fun h c hc => ?_, fun h b hb => isBlankByte_of_mem_flatMap h hb⟩
  obtain ⟨b, hb⟩ := List.exists_mem_of_ne_nil _ (String.utf8EncodeChar_ne_nil (c := c))
  rw [← isBlankByte_of_mem_utf8EncodeChar hb]
  exact h b (List.mem_flatMap.2 ⟨c, hc, hb⟩)

/-! ## Characters that are kept -/

/-- The characters that are not blank. -/
def inked (cs : List Char) : List Char := cs.filter fun c => !isBlankAscii c

/-- No blanks around it, and inside only spaces that stand alone. -/
structure IsCollapsed (cs : List Char) : Prop where
  first : ∀ c ∈ cs.head?, isBlankAscii c = false
  last : ∀ c ∈ cs.getLast?, isBlankAscii c = false
  spaces : ∀ c ∈ cs, isBlankAscii c = true → c = ' '
  alone : cs.IsChain fun c d => isBlankAscii c = true → isBlankAscii d = false

/-- Where only blanks, or nothing, stand between two characters of `cs`, the same characters of `ds`
have a single space, or nothing, between them. -/
def KeepsGaps (cs ds : List Char) : Prop :=
  ∀ a x gap y b, isBlankAscii x = false → isBlankAscii y = false →
    (∀ c ∈ gap, isBlankAscii c = true) → cs = a ++ x :: (gap ++ y :: b) →
      ∃ a' b', ds = a' ++ x :: ((if gap = [] then [] else [' ']) ++ y :: b') ∧
        inked a' = inked a ∧ inked b' = inked b

variable {started pending : Bool} {cs gap : List Char} {x y : Char}

lemma inked_cons_of_blank (hx : isBlankAscii x = true) : inked (x :: cs) = inked cs :=
  List.filter_cons_of_neg (by simp [hx])

lemma inked_cons (hx : isBlankAscii x = false) : inked (x :: cs) = x :: inked cs :=
  List.filter_cons_of_pos (by simp [hx])

lemma inked_eq_nil_iff : inked cs = [] ↔ ∀ c ∈ cs, isBlankAscii c = true := by
  simp [inked]

/-! ## One pass -/

lemma collapseChars_cons_of_blank (hx : isBlankAscii x = true) :
    collapseChars started pending (x :: cs) = collapseChars started started cs :=
  if_pos hx

/-- A character is written with one space before it if blanks have been passed. -/
lemma collapseChars_cons (hx : isBlankAscii x = false) :
    collapseChars started pending (x :: cs) =
      (if pending then [' '] else []) ++ x :: collapseChars true false cs := by
  rw [collapseChars, if_neg (Bool.eq_false_iff.1 hx)]
  cases pending <;> rfl

/-- Of blanks only is remembered that there were any. -/
lemma collapseChars_blanks_append (hgap : ∀ c ∈ gap, isBlankAscii c = true) :
    collapseChars started pending (gap ++ cs) =
      collapseChars started (if gap = [] then pending else started) cs := by
  induction gap generalizing pending with
  | nil => rfl
  | cons c gap ih =>
    obtain ⟨hc, hgap⟩ := List.forall_mem_cons.1 hgap
    rw [List.cons_append, collapseChars_cons_of_blank hc, ih hgap, ite_self,
      if_neg (List.cons_ne_nil c gap)]

lemma collapseChars_blanks (hgap : ∀ c ∈ gap, isBlankAscii c = true) :
    collapseChars started pending gap = [] := by
  rw [← List.append_nil gap, collapseChars_blanks_append hgap]
  rfl

/-- Blanks at the end are not written. -/
lemma collapseChars_append_blanks (hgap : ∀ c ∈ gap, isBlankAscii c = true) :
    collapseChars started pending (cs ++ gap) = collapseChars started pending cs := by
  induction cs generalizing started pending with
  | nil => exact collapseChars_blanks hgap
  | cons c cs ih =>
    cases hc : isBlankAscii c with
    | true =>
      rw [List.cons_append, collapseChars_cons_of_blank hc, collapseChars_cons_of_blank hc, ih]
    | false => rw [List.cons_append, collapseChars_cons hc, collapseChars_cons hc, ih]

/-- The gap between two characters becomes a single space. -/
lemma collapseChars_gap (hgap : ∀ c ∈ gap, isBlankAscii c = true) (hy : isBlankAscii y = false) :
    collapseChars true false (gap ++ y :: cs) =
      (if gap = [] then [] else [' ']) ++ y :: collapseChars true false cs := by
  rw [collapseChars_blanks_append hgap, collapseChars_cons hy]
  by_cases h : gap = [] <;> simp [h]

lemma inked_collapseChars (started pending : Bool) (cs : List Char) :
    inked (collapseChars started pending cs) = inked cs := by
  induction cs generalizing started pending with
  | nil => rfl
  | cons c cs ih =>
    cases hc : isBlankAscii c with
    | true => rw [collapseChars_cons_of_blank hc, inked_cons_of_blank hc, ih]
    | false =>
      have hspace : ∀ r, inked ((if pending then [' '] else []) ++ r) = inked r := by
        intro r
        cases pending <;> rfl
      rw [collapseChars_cons hc, hspace, inked_cons hc, inked_cons hc, ih]

/-- What is written before a character does not depend on what follows it. -/
lemma exists_collapseChars_append (started pending : Bool) (a : List Char)
    (hx : isBlankAscii x = false) : ∃ a',
    (∀ r, collapseChars started pending (a ++ x :: r) = a' ++ x :: collapseChars true false r) ∧
      inked a' = inked a := by
  induction a generalizing started pending with
  | nil =>
    refine ⟨if pending then [' '] else [], fun r => collapseChars_cons hx, ?_⟩
    cases pending <;> rfl
  | cons c a ih =>
    cases hc : isBlankAscii c with
    | true =>
      obtain ⟨a', ha, hink⟩ := ih started started
      refine ⟨a', fun r => ?_, by rw [hink, inked_cons_of_blank hc]⟩
      rw [List.cons_append, collapseChars_cons_of_blank hc, ha]
    | false =>
      obtain ⟨a', ha, hink⟩ := ih true false
      refine ⟨(if pending then [' '] else []) ++ c :: a', fun r => ?_, ?_⟩
      · rw [List.cons_append, collapseChars_cons hc, ha, List.append_assoc, List.cons_append]
      · cases pending
        · exact (inked_cons hc).trans ((congrArg _ hink).trans (inked_cons hc).symm)
        · exact (inked_cons hc).trans ((congrArg _ hink).trans (inked_cons hc).symm)

lemma keepsGaps_collapseChars : KeepsGaps cs (collapseChars started pending cs) := by
  rintro a x gap y b hx hy hgap rfl
  obtain ⟨a', ha, hink⟩ := exists_collapseChars_append started pending a hx
  refine ⟨a', collapseChars true false b, ?_, hink, inked_collapseChars true false b⟩
  rw [ha, collapseChars_gap hgap hy]

/-! ## What is written -/

namespace IsCollapsed

lemma nil : IsCollapsed [] where
  first := fun _ h => nomatch h
  last := fun _ h => nomatch h
  spaces := fun _ h => nomatch h
  alone := .nil

lemma singleton (hx : isBlankAscii x = false) : IsCollapsed [x] where
  first := by simpa using hx
  last := by simpa using hx
  spaces := by simp [hx]
  alone := .singleton x

lemma cons (hx : isBlankAscii x = false) (h : IsCollapsed (y :: cs)) :
    IsCollapsed (x :: y :: cs) where
  first := by simpa using hx
  last := by simpa using h.last
  spaces := List.forall_mem_cons.2 ⟨by simp [hx], h.spaces⟩
  alone := .cons_cons (by simp [hx]) h.alone

lemma cons_space (hx : isBlankAscii x = false) (h : IsCollapsed (y :: cs)) :
    IsCollapsed (x :: ' ' :: y :: cs) where
  first := by simpa using hx
  last := by simpa using h.last
  spaces := List.forall_mem_cons.2 ⟨by simp [hx], List.forall_mem_cons.2 ⟨fun _ => rfl, h.spaces⟩⟩
  alone := .cons_cons (by simp [hx]) (.cons_cons (fun _ => h.first y rfl) h.alone)

end IsCollapsed

/-- Behind a character that is written, all is written as it should be, a space that is due included. -/
lemma isCollapsed_cons_collapseChars (hx : isBlankAscii x = false) :
    IsCollapsed (x :: collapseChars true pending cs) := by
  induction cs generalizing x pending with
  | nil => exact .singleton hx
  | cons c cs ih =>
    cases hc : isBlankAscii c with
    | true =>
      rw [collapseChars_cons_of_blank hc]
      exact ih hx
    | false =>
      rw [collapseChars_cons hc]
      cases pending
      · exact .cons hx (ih hc)
      · exact .cons_space hx (ih hc)

lemma isCollapsed_collapseChars : IsCollapsed (collapseChars false false cs) := by
  induction cs with
  | nil => exact .nil
  | cons c cs ih =>
    cases hc : isBlankAscii c with
    | true =>
      rw [collapseChars_cons_of_blank hc]
      exact ih
    | false =>
      rw [collapseChars_cons hc]
      exact isCollapsed_cons_collapseChars hc

/-- A space that is due when nothing is written yet would be lost in a second pass. -/
lemma collapseChars_collapseChars (started pending : Bool) (cs : List Char)
    (hpending : pending = true → started = true) :
    collapseChars started false (collapseChars started pending cs) =
      collapseChars started pending cs := by
  induction cs generalizing started pending with
  | nil => rfl
  | cons c cs ih =>
    cases hc : isBlankAscii c with
    | true =>
      rw [collapseChars_cons_of_blank hc]
      exact ih started started id
    | false =>
      have hrest := ih true false fun _ => rfl
      rw [collapseChars_cons hc]
      cases pending with
      | false =>
        rw [if_neg Bool.false_ne_true, List.nil_append, collapseChars_cons hc, hrest]
        rfl
      | true =>
        have hspace : ∀ c ∈ [' '], isBlankAscii c = true := List.forall_mem_singleton.2 rfl
        rw [hpending rfl, if_pos rfl, collapseChars_gap hspace hc, hrest]
        rfl

/-- Blanks around a text do not matter to what is written. -/
lemma collapseChars_trimChars :
    collapseChars false false (trimChars isBlankAscii cs) = collapseChars false false cs := by
  obtain ⟨after, hcs, hafter, -⟩ := exists_dropWhile_eq_trimChars_append isBlankAscii cs
  have hbefore : ∀ c ∈ cs.takeWhile isBlankAscii, isBlankAscii c = true :=
    fun c hc => List.mem_takeWhile_imp hc
  conv_rhs =>
    rw [← List.takeWhile_append_dropWhile (p := isBlankAscii) (l := cs),
      collapseChars_blanks_append hbefore, ite_self, hcs, collapseChars_append_blanks hafter]

lemma collapseChars_eq_nil_iff :
    collapseChars false false cs = [] ↔ ∀ c ∈ cs, isBlankAscii c = true := by
  refine ⟨fun h => ?_, collapseChars_blanks⟩
  rw [← inked_eq_nil_iff, ← inked_collapseChars false false cs, h]
  rfl

/-- Every mode leaves alone what it has made; a trimmed text collapses to what the text collapses to.  A
collapsed text has the characters of the text that are not blank, with a single space where the text has
blanks between two of them, and no other blanks; it is empty if and only if the text is blank. -/
theorem normalize_laws (t : String) :
    (∀ mode, normalize mode (normalize mode t) = normalize mode t) ∧
      normalize .collapse (normalize .trim t) = normalize .collapse t ∧
      IsCollapsed (normalize .collapse t).toList ∧
      inked (normalize .collapse t).toList = inked t.toList ∧
      KeepsGaps t.toList (normalize .collapse t).toList ∧
      (isBlankText t = true ↔ normalize .collapse t = "") := by
  have hcollapse : (normalize .collapse t).toList = collapseChars false false t.toList :=
    String.toList_ofList
  refine ⟨fun mode => ?_, ?_, ?_, ?_, ?_, ?_⟩
  · cases mode with
    | preserve => rfl
    | trim => simp only [normalize, String.toList_ofList, trimChars_trimChars]
    | collapse =>
      simp only [normalize, String.toList_ofList, collapseChars_collapseChars false false _ id]
  · simp only [normalize, String.toList_ofList, collapseChars_trimChars]
  · rw [hcollapse]
    exact isCollapsed_collapseChars
  · rw [hcollapse, inked_collapseChars]
  · rw [hcollapse]
    exact keepsGaps_collapseChars
  · rw [isBlankText_iff, ← collapseChars_eq_nil_iff, ← hcollapse, String.toList_eq_nil_iff]

/-- Between `a` and `é` are a tab and a line break, between `é` and `b` is nothing. -/
theorem normalize_laws_gaps :
    normalize .collapse (String.ofList [' ', 'a', '\t', '\n', 'é', 'b', ' ']) =
        String.ofList ['a', ' ', 'é', 'b'] ∧
      ∃ a' b', ['a', ' ', 'é', 'b'] = a' ++ 'a' :: ([' '] ++ 'é' :: b') ∧
        inked a' = inked [' '] ∧ inked b' = inked ['b', ' '] := by
  have hvalue : normalize .collapse (String.ofList [' ', 'a', '\t', '\n', 'é', 'b', ' ']) =
      String.ofList ['a', ' ', 'é', 'b'] := by
    rw [normalize, String.toList_ofList]
    rfl
  have hgaps := (normalize_laws (String.ofList [' ', 'a', '\t', '\n', 'é', 'b', ' '])).2.2.2.2.1
  rw [hvalue, String.toList_ofList, String.toList_ofList] at hgaps
  exact ⟨hvalue, hgaps [' '] 'a' ['\t', '\n'] 'é' ['b', ' '] rfl rfl
    (List.forall_mem_cons.2 ⟨rfl, List.forall_mem_singleton.2 rfl⟩) rfl⟩

end Semdoc.Text
