import Semdoc.Proofs.Text.Boundaries
import Semdoc.Source.Excerpt

/-!
# Lines of a text

A text is split into lines at its breaks: a line feed, a carriage return, or one of each in either order.
The offsets at which a source looks up its lines are those at which the lines of its characters start, and a
line ends where its break does not yet stand.
-/

namespace Semdoc.SourceText

open String (utf8EncodeChar utf8Len)

/-- A line without the break that ends it, and this break. -/
structure Line where
  chars : List Char
  ending : List Char
  deriving DecidableEq

/-- What a line takes of the text. -/
def Line.whole (l : Line) : List Char := l.chars ++ l.ending

/-- Lines one after the other. -/
def joined (lines : List Line) : List Char := lines.flatMap Line.whole

lemma utf8Len_whole (l : Line) : utf8Len l.whole = utf8Len l.chars + utf8Len l.ending :=
  String.utf8Len_append _ _

def isBreakChar (c : Char) : Bool := c == '\n' || c == '\r'

/-- The lines of a text. -/
def splitLines : List Char → List Line
  | [] => [⟨[], []⟩]
  | [c] => if isBreakChar c then [⟨[], [c]⟩, ⟨[], []⟩] else [⟨[c], []⟩]
  | c :: d :: cs =>
    if isBreakChar c then
      if isBreakChar d && d != c then ⟨[], [c, d]⟩ :: splitLines cs
      else ⟨[], [c]⟩ :: splitLines (d :: cs)
    else (splitLines (d :: cs)).modifyHead fun l => { l with chars := c :: l.chars }

/-- The offsets at which lines start, for lines of which the first starts at `o`. -/
def startsFrom (o : Nat) : List Line → List Nat
  | [] => []
  | l :: ls => o :: startsFrom (o + utf8Len l.whole) ls

/-- What ends a line: a character that breaks it, or a pair of two different ones. -/
inductive IsBreak : List Char → Prop where
  | single {c : Char} (hc : isBreakChar c = true) : IsBreak [c]
  | pair {c d : Char} (hc : isBreakChar c = true) (hd : isBreakChar d = true) (hne : d ≠ c) : IsBreak [c, d]

/-- Lines as they are split: no break stands inside one, and each but the last is ended by one. -/
inductive Broken : List Line → Prop where
  | last {chars : List Char} (hchars : ∀ c ∈ chars, isBreakChar c = false) : Broken [⟨chars, []⟩]
  | cons {chars ending : List Char} {lines : List Line} (hchars : ∀ c ∈ chars, isBreakChar c = false)
      (hending : IsBreak ending) (hlines : Broken lines) : Broken (⟨chars, ending⟩ :: lines)

variable {cs : List Char} {c d : Char} {b : UInt8} {o s : Nat} {line : Line}
  {lines before after : List Line}

/-! ## Splitting -/

lemma splitLines_ne_nil (cs : List Char) : splitLines cs ≠ [] := by
  fun_induction splitLines cs with
  | case6 c d cs _ ih => exact fun h => ih (List.modifyHead_eq_nil_iff.1 h)
  | _ => exact List.cons_ne_nil _ _

/-- The lines make up the text. -/
lemma joined_splitLines (cs : List Char) : joined (splitLines cs) = cs := by
  fun_induction splitLines cs with
  | case1 | case2 | case3 => rfl
  | case4 c d cs _ _ ih => exact congrArg (c :: d :: ·) ih
  | case5 c d cs _ _ ih => exact congrArg (c :: ·) ih
  | case6 c d cs _ ih =>
    cases hlines : splitLines (d :: cs) with
    | nil => exact absurd hlines (splitLines_ne_nil _)
    | cons l ls =>
      rw [hlines] at ih
      exact congrArg (c :: ·) ih

lemma broken_splitLines (cs : List Char) : Broken (splitLines cs) := by
  fun_induction splitLines cs with
  | case1 => exact .last nofun
  | case2 c hc => exact .cons nofun (.single hc) (.last nofun)
  | case3 c hc => exact .last (List.forall_mem_singleton.2 (Bool.not_eq_true _ ▸ hc))
  | case4 c d cs hc hpair ih =>
    rw [Bool.and_eq_true, bne_iff_ne] at hpair
    exact .cons nofun (.pair hc hpair.1 hpair.2) ih
  | case5 c d cs hc _ ih => exact .cons nofun (.single hc) ih
  | case6 c d cs hc ih =>
    rw [Bool.not_eq_true] at hc
    generalize splitLines (d :: cs) = lines at ih ⊢
    cases ih with
    | last hchars => exact .last (List.forall_mem_cons.2 ⟨hc, hchars⟩)
    | cons hchars hending hlines => exact .cons (List.forall_mem_cons.2 ⟨hc, hchars⟩) hending hlines

/-- Each of the lines is the last one or ended by a break, with no break inside. -/
lemma Broken.parts (h : Broken lines) (hlines : lines = before ++ line :: after) :
    (∀ c ∈ line.chars, isBreakChar c = false) ∧
      (line.ending = [] ∧ after = [] ∨ IsBreak line.ending ∧ after ≠ []) := by
  induction h generalizing before with
  | last hchars =>
    obtain ⟨rfl, hrest⟩ | ⟨_, rfl, hrest⟩ := List.cons_eq_append_iff.1 hlines
    · cases hrest
      exact ⟨hchars, .inl ⟨rfl, rfl⟩⟩
    · exact absurd hrest.symm (List.append_ne_nil_of_right_ne_nil _ (List.cons_ne_nil _ _))
  | cons hchars hending hrest ih =>
    obtain ⟨rfl, hsplit⟩ | ⟨_, rfl, hsplit⟩ := List.cons_eq_append_iff.1 hlines
    · cases hsplit
      refine ⟨hchars, .inr ⟨hending, ?_⟩⟩
      rintro rfl
      cases hrest
    · exact ih hsplit

/-! ## Offsets of lines -/

lemma joined_append (lines lines' : List Line) :
    joined (lines ++ lines') = joined lines ++ joined lines' := List.flatMap_append

lemma joined_cons (line : Line) (lines : List Line) :
    joined (line :: lines) = line.whole ++ joined lines := List.flatMap_cons

lemma startsFrom_append (o : Nat) (lines lines' : List Line) :
    startsFrom o (lines ++ lines') =
      startsFrom o lines ++ startsFrom (o + utf8Len (joined lines)) lines' := by
  induction lines generalizing o with
  | nil => rfl
  | cons l ls ih =>
    rw [List.cons_append, startsFrom, ih, startsFrom, joined_cons, String.utf8Len_append, Nat.add_assoc]
    rfl

lemma length_startsFrom (o : Nat) (lines : List Line) : (startsFrom o lines).length = lines.length := by
  induction lines generalizing o with
  | nil => rfl
  | cons l ls ih => rw [startsFrom, List.length_cons, ih, List.length_cons]

/-- Lines start where the first one starts or later, and not behind all of them. -/
lemma mem_startsFrom_bounds (h : s ∈ startsFrom o lines) : o ≤ s ∧ s ≤ o + utf8Len (joined lines) := by
  induction lines generalizing o with
  | nil => cases h
  | cons l ls ih =>
    rw [joined_cons, String.utf8Len_append]
    obtain rfl | h := List.mem_cons.1 h
    · omega
    · have hrest := ih h
      omega

/-- The bytes of a character are breaks of lines if the character is one. -/
lemma isBreak_of_mem (hb : b ∈ utf8EncodeChar c) : isBreak b = isBreakChar c := by
  obtain hc | hc := Nat.lt_or_ge 0x7f c.toNat
  · have hle := Text.le_of_mem_utf8EncodeChar hc hb
    have hbyte : isBreak b = false := by
      rw [isBreak, Bool.or_eq_false_iff, beq_eq_false_iff_ne, beq_eq_false_iff_ne]
      constructor
      all_goals
        rintro rfl
        exact absurd hle (by decide)
    have hchar : isBreakChar c = false := by
      rw [isBreakChar, Bool.or_eq_false_iff, beq_eq_false_iff_ne, beq_eq_false_iff_ne]
      constructor
      all_goals
        rintro rfl
        exact absurd hc (by decide)
    rw [hbyte, hchar]
  · rw [Text.utf8EncodeChar_of_ascii hc, List.mem_singleton] at hb
    subst hb
    exact Text.forall_ascii (P := fun c => isBreak (UInt8.ofNat c.toNat) = isBreakChar c) (by decide) hc

/-- A character that breaks a line has one byte. -/
lemma utf8EncodeChar_of_isBreakChar (hc : isBreakChar c = true) :
    utf8EncodeChar c = [UInt8.ofNat c.toNat] := by
  obtain h | h := Bool.or_eq_true_iff.1 hc
  all_goals
    rw [eq_of_beq h]
    rfl

lemma isBreak_ofNat (hc : isBreakChar c = true) : isBreak (UInt8.ofNat c.toNat) = true := by
  rw [← hc]
  exact isBreak_of_mem (utf8EncodeChar_of_isBreakChar hc ▸ List.mem_singleton_self _)

lemma utf8Len_cons_of_isBreakChar (hc : isBreakChar c = true) (cs : List Char) :
    utf8Len (c :: cs) = utf8Len cs + 1 := by
  rw [String.utf8Len_cons, ← String.length_utf8EncodeChar, utf8EncodeChar_of_isBreakChar hc,
    List.length_singleton]

/-- A line ends before the bytes of a break. -/
lemma takeWhile_of_isBreakChar (hc : isBreakChar c = true) (cs : List Char) :
    ((c :: cs).flatMap utf8EncodeChar).takeWhile (fun b => !isBreak b) = [] := by
  rw [List.flatMap_cons, utf8EncodeChar_of_isBreakChar hc, List.singleton_append,
    List.takeWhile_cons_of_neg (by rw [isBreak_ofNat hc]; exact Bool.false_ne_true)]

lemma lineStartsFrom_of_not_breaks {bs : List UInt8} (h : ∀ b ∈ bs, isBreak b = false) (o : Nat)
    (rest : List UInt8) : lineStartsFrom o (bs ++ rest) = lineStartsFrom (o + bs.length) rest := by
  induction bs generalizing o with
  | nil => rfl
  | cons b bs ih =>
    rw [List.forall_mem_cons] at h
    rw [List.length_cons, Nat.add_comm bs.length, ← Nat.add_assoc, ← ih h.2, List.cons_append]
    cases bs ++ rest with
    | nil => rw [lineStartsFrom, lineStartsFrom, if_neg (Bool.eq_false_iff.1 h.1)]
    | cons d r => rw [lineStartsFrom, if_neg (Bool.eq_false_iff.1 h.1)]

/-- A character pairs with the one before it as its first byte does. -/
lemma pairs_eq {bs : List UInt8} (hc : isBreakChar c = true) (hd : utf8EncodeChar d = b :: bs) :
    (isBreak b && b != UInt8.ofNat c.toNat) = (isBreakChar d && d != c) := by
  have hb : b ∈ utf8EncodeChar d := hd ▸ List.mem_cons_self
  rw [isBreak_of_mem hb]
  cases hbreak : isBreakChar d with
  | false => rfl
  | true =>
    rw [utf8EncodeChar_of_isBreakChar hbreak] at hd
    cases hd
    obtain hc | hc := Bool.or_eq_true_iff.1 hc
    all_goals
      obtain hd | hd := Bool.or_eq_true_iff.1 hbreak
      all_goals
        rw [eq_of_beq hc, eq_of_beq hd]
        rfl

lemma lineStartsFrom_single (hc : isBreakChar c = true)
    (hnext : ∀ d ∈ cs.head?, (isBreakChar d && d != c) = false) (o : Nat) :
    lineStartsFrom o ((c :: cs).flatMap utf8EncodeChar) =
      (o + 1) :: lineStartsFrom (o + 1) (cs.flatMap utf8EncodeChar) := by
  rw [List.flatMap_cons, utf8EncodeChar_of_isBreakChar hc]
  cases cs with
  | nil => exact if_pos (isBreak_ofNat hc)
  | cons d cs =>
    obtain ⟨b, bs, hd, -⟩ := Text.exists_utf8EncodeChar_eq d
    have hpair : ¬ (isBreak b && b != UInt8.ofNat c.toNat) = true := by
      rw [pairs_eq hc hd, hnext d rfl]
      exact Bool.false_ne_true
    rw [List.flatMap_cons, hd]
    exact (if_pos (isBreak_ofNat hc)).trans (if_neg hpair)

lemma lineStartsFrom_pair (hc : isBreakChar c = true) (hpair : (isBreakChar d && d != c) = true)
    (o : Nat) (cs : List Char) :
    lineStartsFrom o ((c :: d :: cs).flatMap utf8EncodeChar) =
      (o + 2) :: lineStartsFrom (o + 2) (cs.flatMap utf8EncodeChar) := by
  have hd := utf8EncodeChar_of_isBreakChar (Bool.and_eq_true_iff.1 hpair).1
  rw [← pairs_eq hc hd] at hpair
  rw [List.flatMap_cons, List.flatMap_cons, utf8EncodeChar_of_isBreakChar hc, hd]
  exact (if_pos (isBreak_ofNat hc)).trans (if_pos hpair)

lemma lineStartsFrom_of_not_break (hc : isBreakChar c = false) (o : Nat) (cs : List Char) :
    lineStartsFrom o ((c :: cs).flatMap utf8EncodeChar) =
      lineStartsFrom (o + c.utf8Size) (cs.flatMap utf8EncodeChar) := by
  rw [List.flatMap_cons, lineStartsFrom_of_not_breaks fun b hb => (isBreak_of_mem hb).trans hc,
    String.length_utf8EncodeChar]

/-- The lines of a text start where its bytes say. -/
lemma lineStartsFrom_eq (o : Nat) (cs : List Char) :
    o :: lineStartsFrom o (cs.flatMap utf8EncodeChar) = startsFrom o (splitLines cs) := by
  fun_induction splitLines cs generalizing o with
  | case1 => rfl
  | case2 c hc =>
    have hsize : utf8Len [c] = 1 := utf8Len_cons_of_isBreakChar hc []
    rw [lineStartsFrom_single hc (fun _ hd => by cases hd), startsFrom, utf8Len_whole, hsize]
    rfl
  | case3 c hc =>
    rw [lineStartsFrom_of_not_break (Bool.not_eq_true _ ▸ hc)]
    rfl
  | case4 c d cs hc hpair ih =>
    have hsize : utf8Len [c, d] = 2 := by
      rw [utf8Len_cons_of_isBreakChar hc, utf8Len_cons_of_isBreakChar (Bool.and_eq_true_iff.1 hpair).1]
      rfl
    rw [lineStartsFrom_pair hc hpair, ih, startsFrom, utf8Len_whole, hsize]
    rfl
  | case5 c d cs hc hpair ih =>
    have hsize : utf8Len [c] = 1 := utf8Len_cons_of_isBreakChar hc []
    have hnext : ∀ e ∈ (d :: cs).head?, (isBreakChar e && e != c) = false := by
      intro e he
      cases he
      exact Bool.not_eq_true _ ▸ hpair
    rw [lineStartsFrom_single hc hnext, ih, startsFrom, utf8Len_whole, hsize]
    rfl
  | case6 c d cs hc ih =>
    -- the character is put before the first line, so that all others start later by its size
    have hrest := ih (o + c.utf8Size)
    rw [lineStartsFrom_of_not_break (Bool.not_eq_true _ ▸ hc)]
    cases hlines : splitLines (d :: cs) with
    | nil => exact absurd hlines (splitLines_ne_nil _)
    | cons l ls =>
      rw [hlines, startsFrom, List.cons.injEq, utf8Len_whole] at hrest
      have hsize : o + (utf8Len (c :: l.chars) + utf8Len l.ending) =
          o + c.utf8Size + (utf8Len l.chars + utf8Len l.ending) := by
        rw [String.utf8Len_cons]
        omega
      rw [hrest.2, List.modifyHead_cons, startsFrom, utf8Len_whole, hsize]

lemma bytes_eq (s : SourceText) : s.bytes = s.text.toList.flatMap utf8EncodeChar :=
  Text.utf8Bytes_eq s.text

lemma length_bytes (s : SourceText) : s.bytes.length = utf8Len s.text.toList := by
  rw [bytes_eq, Text.length_flatMap_utf8EncodeChar]

lemma isBoundary_utf8Len {s : SourceText} (cs rest : List Char) (h : s.text.toList = cs ++ rest) :
    s.isBoundary (utf8Len cs) = true := by
  rw [isBoundary, bytes_eq, h]
  exact Text.isBoundary_utf8Len cs rest

/-! ## The line at an offset -/

/-- The line that holds the offset `o` and the lines around it: it starts there or before, and the next one
starts later.  The last line also holds the end of the text. -/
structure LineAt (lines : List Line) (o : Nat) (before : List Line) (line : Line) (after : List Line) :
    Prop where
  split : lines = before ++ line :: after
  start_le : utf8Len (joined before) ≤ o
  le_end : o ≤ utf8Len (joined before ++ line.whole)
  lt_next : after ≠ [] → o < utf8Len (joined before ++ line.whole)

lemma LineAt.cons (h : LineAt lines o before line after) (l : Line) :
    LineAt (l :: lines) (utf8Len l.whole + o) (l :: before) line after := by
  have hend := h.le_end
  have hnext := h.lt_next
  rw [String.utf8Len_append] at hend hnext
  refine ⟨by rw [h.split, List.cons_append], ?_, ?_, fun hafter => ?_⟩
  · rw [joined_cons, String.utf8Len_append]
    exact Nat.add_le_add_left h.start_le _
  · rw [joined_cons, String.utf8Len_append, String.utf8Len_append]
    omega
  · have hlt := hnext hafter
    rw [joined_cons, String.utf8Len_append, String.utf8Len_append]
    omega

/-- Every offset in the text is in a line. -/
lemma exists_lineAt (hne : lines ≠ []) (ho : o ≤ utf8Len (joined lines)) :
    ∃ before line after, LineAt lines o before line after := by
  induction lines generalizing o with
  | nil => exact absurd rfl hne
  | cons l ls ih =>
    rw [joined_cons, String.utf8Len_append] at ho
    obtain hlt | hle := Nat.lt_or_ge o (utf8Len l.whole)
    · exact ⟨[], l, ls, rfl, Nat.zero_le _, hlt.le, fun _ => hlt⟩
    · cases ls with
      | nil => exact ⟨[], l, [], rfl, Nat.zero_le _, ho, absurd rfl⟩
      | cons l' ls =>
        obtain ⟨rest, rfl⟩ := Nat.exists_eq_add_of_le hle
        obtain ⟨before, line, after, h⟩ := ih (List.cons_ne_nil _ _) (Nat.le_of_add_le_add_left ho)
        exact ⟨l :: before, line, after, h.cons l⟩

/-- The line that holds an offset is the last one that starts there or before. -/
lemma lineOf_eq_of_split {s : SourceText} {earlier later : List Nat} {last : Nat}
    (hsplit : s.lineStarts = earlier ++ last :: later) (hearlier : ∀ i ∈ earlier, i ≤ o)
    (hlast : last ≤ o) (hlater : ∀ i ∈ later, o < i) :
    s.lineOf o = earlier.length ∧ s.startOfLine earlier.length = last := by
  have hcount : earlier.countP (· ≤ o) = earlier.length :=
    List.countP_eq_length.2 fun i hi => decide_eq_true (hearlier i hi)
  have hnone : later.countP (· ≤ o) = 0 :=
    List.countP_eq_zero.2 fun i hi => by
      rw [decide_eq_true_eq]
      exact Nat.not_le.2 (hlater i hi)
  constructor
  · rw [lineOf, hsplit, List.countP_append, List.countP_cons, hcount, hnone,
      if_pos (decide_eq_true hlast), Nat.zero_add, Nat.add_sub_cancel]
  · rw [startOfLine, hsplit, List.getD_eq_getElem?_getD, List.getElem?_append_right le_rfl, Nat.sub_self]
    rfl

namespace LineAt

variable {s : SourceText}

lemma toList_eq (h : LineAt (splitLines s.text.toList) o before line after) :
    s.text.toList = joined before ++ line.chars ++ (line.ending ++ joined after) := by
  rw [← joined_splitLines s.text.toList, h.split, joined_append, joined_cons, Line.whole]
  simp only [List.append_assoc]

lemma lineOf_eq (h : LineAt (splitLines s.text.toList) o before line after) :
    s.lineOf o = before.length ∧ s.startOfLine before.length = utf8Len (joined before) := by
  have hstarts : s.lineStarts = startsFrom 0 before ++
      utf8Len (joined before) :: startsFrom (utf8Len (joined before ++ line.whole)) after := by
    rw [lineStarts, s.bytes_eq, lineStartsFrom_eq, h.split, startsFrom_append, startsFrom, Nat.zero_add,
      String.utf8Len_append]
  have hlater : ∀ i ∈ startsFrom (utf8Len (joined before ++ line.whole)) after, o < i := by
    intro i hi
    have hne : after ≠ [] := by
      rintro rfl
      cases hi
    exact (h.lt_next hne).trans_le (mem_startsFrom_bounds hi).1
  have hearlier : ∀ i ∈ startsFrom 0 before, i ≤ o := by
    intro i hi
    have hle := (mem_startsFrom_bounds hi).2
    have hstart := h.start_le
    omega
  have hline := lineOf_eq_of_split hstarts hearlier h.start_le hlater
  rwa [length_startsFrom] at hline

lemma endOfLine_eq (h : LineAt (splitLines s.text.toList) o before line after) :
    s.endOfLine before.length = utf8Len (joined before ++ line.chars) := by
  obtain ⟨hchars, hending⟩ := (broken_splitLines s.text.toList).parts h.split
  have hinside : ∀ b ∈ line.chars.flatMap utf8EncodeChar, (!isBreak b) = true := by
    intro b hb
    obtain ⟨c, hc, hbc⟩ := List.mem_flatMap.1 hb
    rw [isBreak_of_mem hbc, hchars c hc]
    rfl
  have hbehind : ((line.ending ++ joined after).flatMap utf8EncodeChar).takeWhile (fun b => !isBreak b) =
      [] := by
    obtain ⟨hending, rfl⟩ | ⟨hending, -⟩ := hending
    · rw [hending]
      rfl
    · generalize line.ending = ending at hending ⊢
      cases hending with
      | single hc | pair hc => exact takeWhile_of_isBreakChar hc _
  rw [endOfLine, h.lineOf_eq.2, s.bytes_eq, h.toList_eq, List.append_assoc, List.flatMap_append,
    ← Text.length_flatMap_utf8EncodeChar, List.drop_left, List.flatMap_append,
    List.takeWhile_append_of_pos hinside, hbehind, List.append_nil, Text.length_flatMap_utf8EncodeChar,
    Text.length_flatMap_utf8EncodeChar, String.utf8Len_append]

/-- An offset in a line is at most on the second byte of the break, and then between two characters. -/
lemma le_succ (h : LineAt (splitLines s.text.toList) o before line after) :
    o ≤ utf8Len (joined before ++ line.chars) ∨
      o = utf8Len (joined before ++ line.chars) + 1 ∧ s.isBoundary o = true := by
  obtain ⟨-, hending⟩ := (broken_splitLines s.text.toList).parts h.split
  have hend := h.le_end
  have hnext := h.lt_next
  have htext := h.toList_eq
  rw [Line.whole, ← List.append_assoc, String.utf8Len_append] at hend hnext
  obtain ⟨hnone, -⟩ | ⟨hbreak, hafter⟩ := hending
  · rw [hnone] at hend
    exact .inl hend
  · have hlt := hnext hafter
    generalize line.ending = ending at hbreak hlt htext
    cases hbreak with
    | single hc =>
      rw [utf8Len_cons_of_isBreakChar hc, String.utf8Len_nil] at hlt
      exact .inl (Nat.le_of_lt_succ hlt)
    | @pair c d hc hd =>
      rw [utf8Len_cons_of_isBreakChar hc, utf8Len_cons_of_isBreakChar hd, String.utf8Len_nil] at hlt
      obtain hbehind | hle := Nat.lt_or_ge (utf8Len (joined before ++ line.chars)) o
      · have ho : o = utf8Len (joined before ++ line.chars ++ [c]) := by
          rw [String.utf8Len_append _ [c], utf8Len_cons_of_isBreakChar hc, String.utf8Len_nil]
          omega
        refine .inr ⟨by omega, ho ▸ isBoundary_utf8Len _ (d :: joined after) ?_⟩
        rw [htext, List.append_assoc _ [c]]
        rfl
      · exact .inl hle

end LineAt

end Semdoc.SourceText
