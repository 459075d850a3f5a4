import Mathlib.Order.Bounds.Defs
import Semdoc.Proofs.Source.Lines

/-!
# What an excerpt shows of a line

An excerpt is cut out of the line in which its location starts.  The window for it holds as many bytes as are
wanted at most and is then moved out to the next boundaries of characters, so that an excerpt can be longer
than wanted by what is seen of its first and last character outside of the window.
-/

namespace Semdoc

open String (utf8EncodeChar utf8Len)

/-- The most bytes of a character that can stand on one side of a place inside it. -/
def overhang (c : Option Char) : Nat := c.elim 0 fun c => c.utf8Size - 1

/-- What an excerpt shows of a line in which its location is from `place` up to `stop`. -/
structure Excerpt.Shows (e : Excerpt) (line : List Char) (place stop limit : Nat) : Prop where
  /-- What is left out of the line on both sides is what the marks and numbers say. -/
  part : ∃ left right, line = left ++ e.text.toList ++ right ∧
    (e.truncatedStart = true ↔ left ≠ []) ∧ (e.truncatedEnd = true ↔ right ≠ []) ∧
    utf8Len left + e.position = place ∧ e.length = min stop (utf8Len (left ++ e.text.toList)) - place
  /-- The location ends inside the excerpt, unless it starts behind the first byte of a break. -/
  inside : e.position + e.length ≤ utf8Len e.text.toList ↔ place ≤ utf8Len line
  /-- It has at most as many bytes as wanted, but for the outer bytes of its first and last character. -/
  bounded : utf8Len e.text.toList ≤
    limit + overhang e.text.toList.head? + overhang e.text.toList.getLast?
  whole : utf8Len line ≤ limit → e.text.toList = line
  /-- On a side on which the line is cut, half of the limit is shown before or after the place. -/
  around : (e.truncatedStart = true → limit / 2 ≤ e.position) ∧
    (e.truncatedEnd = true → e.position + limit / 2 ≤ utf8Len e.text.toList)

namespace SourceText

variable {s : SourceText} {first last o limit a b i k least steps : Nat}
  {before cs after : List Char}

/-! ## The nearest boundaries -/

lemma boundaryBelow_isGreatest (hle : least ≤ i) (hleast : s.isBoundary least = true) :
    IsGreatest {k | k ≤ i ∧ s.isBoundary k = true} (s.boundaryBelow least i) := by
  induction i with
  | zero =>
    rw [Nat.le_zero.1 hle] at hleast
    exact ⟨⟨le_rfl, hleast⟩, fun k hk => hk.1⟩
  | succ i ih =>
    rw [boundaryBelow]
    split
    · next hnot =>
      rw [Bool.and_eq_true, decide_eq_true_eq, Bool.not_eq_true'] at hnot
      have hbelow := ih (Nat.le_of_lt_succ hnot.1)
      refine ⟨⟨Nat.le_succ_of_le hbelow.1.1, hbelow.1.2⟩, fun k ⟨hk, hboundary⟩ => ?_⟩
      obtain hk | rfl := Nat.le_succ_iff.1 hk
      · exact hbelow.2 ⟨hk, hboundary⟩
      · rw [hnot.2] at hboundary
        cases hboundary
    · next hnot =>
      refine ⟨⟨le_rfl, ?_⟩, fun k hk => hk.1⟩
      rw [Bool.and_eq_true, decide_eq_true_eq, Bool.not_eq_true', not_and, Bool.not_eq_false] at hnot
      obtain hlt | heq := Nat.lt_or_eq_of_le hle
      · exact hnot hlt
      · rwa [← heq]

lemma boundaryAbove_isLeast (hlast : s.isBoundary (i + steps) = true) :
    IsLeast {k | i ≤ k ∧ s.isBoundary k = true} (s.boundaryAbove steps i) := by
  induction steps generalizing i with
  | zero => exact ⟨⟨le_rfl, hlast⟩, fun k hk => hk.1⟩
  | succ steps ih =>
    rw [boundaryAbove]
    split
    · next hboundary => exact ⟨⟨le_rfl, hboundary⟩, fun k hk => hk.1⟩
    · next hnot =>
      rw [← Nat.add_assoc, Nat.add_right_comm] at hlast
      have habove := ih hlast
      refine ⟨⟨(Nat.le_succ i).trans habove.1.1, habove.1.2⟩, fun k ⟨hk, hboundary⟩ => ?_⟩
      obtain hk | rfl := Nat.lt_or_eq_of_le hk
      · exact habove.2 ⟨hk, hboundary⟩
      · exact absurd hboundary hnot

/-- Less than the first character lies between a place and the boundary below it. -/
lemma le_overhang_head (htext : s.text.toList = before ++ cs ++ after) (hne : cs ≠ [])
    (h : IsGreatest {k | k ≤ i ∧ s.isBoundary k = true} (utf8Len before)) :
    i ≤ utf8Len before + overhang cs.head? := by
  cases cs with
  | nil => exact absurd rfl hne
  | cons c cs =>
    have hboundary : s.isBoundary (utf8Len before + c.utf8Size) = true := by
      have hnext := isBoundary_utf8Len (before ++ [c]) (cs ++ after) (by simpa using htext)
      simpa using hnext
    have hbehind : i < utf8Len before + c.utf8Size := by
      refine Nat.lt_of_not_le fun hle => ?_
      have hmax := h.2 ⟨hle, hboundary⟩
      have hpos := c.utf8Size_pos
      omega
    show i ≤ utf8Len before + (c.utf8Size - 1)
    omega

/-- Less than the last character lies between a place and the boundary above it. -/
lemma le_overhang_getLast (htext : s.text.toList = before ++ cs ++ after) (hne : cs ≠ [])
    (h : IsLeast {k | i ≤ k ∧ s.isBoundary k = true} (utf8Len (before ++ cs))) :
    utf8Len (before ++ cs) ≤ i + overhang cs.getLast? := by
  obtain rfl | ⟨cs, c, rfl⟩ := List.eq_nil_or_concat cs
  · exact absurd rfl hne
  · rw [List.concat_eq_append] at htext h ⊢
    have hsize : utf8Len (before ++ (cs ++ [c])) = utf8Len (before ++ cs) + c.utf8Size := by
      simp [Nat.add_assoc]
    have hboundary : s.isBoundary (utf8Len (before ++ cs)) = true :=
      isBoundary_utf8Len _ (c :: after) (by simpa using htext)
    have hbefore : utf8Len (before ++ cs) < i := by
      refine Nat.lt_of_not_le fun hle => ?_
      have hmin := h.2 ⟨hle, hboundary⟩
      have hpos := c.utf8Size_pos
      omega
    rw [List.getLast?_append, List.getLast?_singleton]
    show _ ≤ i + (c.utf8Size - 1)
    omega

/-! ## The window -/

/-- A window on the line from `first` to `last` for the place `o`, before it is moved out to boundaries. -/
structure Aimed (first last o limit a b : Nat) : Prop where
  first_le : first ≤ a
  le_place : a ≤ o
  le_last : b ≤ last
  le_limit : b ≤ a + limit
  reach_back : first < a → a + limit / 2 ≤ o
  reach_on : b < last → o + limit / 2 ≤ b
  whole : last - first ≤ limit → a = first ∧ b = last
  order : a ≤ b ∨ limit < 2 ∧ limit < last - first ∧ o = last + 1
  /-- With a limit below two there is no room to reach back from the place. -/
  at_place : limit < 2 → limit < last - first → a = o

lemma exists_aimed (hfirst : first ≤ o) (hlast : o ≤ last + 1) (hline : first ≤ last) (limit : Nat) :
    ∃ a b, s.window first last o limit = (s.boundaryBelow first a, s.boundaryAbove (last - b) b) ∧
      Aimed first last o limit a b := by
  rw [window]
  split
  next a b hwindow =>
  refine ⟨a, b, rfl, ?_⟩
  split at hwindow
  · next hlong =>
    cases hwindow
    constructor <;> omega
  · next hshort =>
    cases hwindow
    constructor <;> omega

/-- The window from `a` to `b` on the line from `first` to `last` for the place `o`: no character is cut, and
less than a character at each end is outside of a window that has at most `limit` bytes. -/
structure Framed (s : SourceText) (first last o limit a b : Nat) : Prop where
  first_le : first ≤ a
  le_place : a ≤ o
  le_last : b ≤ last
  reach_back : first < a → a + limit / 2 ≤ o
  reach_on : b < last → o + limit / 2 ≤ b
  whole : last - first ≤ limit → a = first ∧ b = last
  order : b < a ↔ limit < 2 ∧ limit < last - first ∧ o = last + 1
  near : ∃ i j, j ≤ i + limit ∧ IsGreatest {k | k ≤ i ∧ s.isBoundary k = true} a ∧
    IsLeast {k | j ≤ k ∧ s.isBoundary k = true} b

lemma framed_window (hfirst : s.isBoundary first = true) (hlast : s.isBoundary last = true)
    (hline : first ≤ last) (hfrom : first ≤ o)
    (hto : o ≤ last ∨ o = last + 1 ∧ s.isBoundary o = true) (limit : Nat) :
    Framed s first last o limit (s.window first last o limit).1 (s.window first last o limit).2 := by
  have hsucc : o ≤ last + 1 := by omega
  obtain ⟨i, j, hwindow, haimed⟩ := exists_aimed (s := s) hfrom hsucc hline limit
  have hbelow : IsGreatest {k | k ≤ i ∧ s.isBoundary k = true} (s.boundaryBelow first i) :=
    boundaryBelow_isGreatest haimed.first_le hfirst
  have habove : IsLeast {k | j ≤ k ∧ s.isBoundary k = true} (s.boundaryAbove (last - j) j) :=
    boundaryAbove_isLeast (by rwa [Nat.add_sub_cancel' haimed.le_last])
  rw [hwindow]
  generalize s.boundaryBelow first i = a at hbelow
  generalize s.boundaryAbove (last - j) j = b at habove
  have hfirst_le : first ≤ a := hbelow.2 ⟨haimed.first_le, hfirst⟩
  have hle_last : b ≤ last := habove.2 ⟨haimed.le_last, hlast⟩
  exact {
    first_le := hfirst_le
    le_place := hbelow.1.1.trans haimed.le_place
    le_last := hle_last
    reach_back := fun hcut =>
      (Nat.add_le_add_right hbelow.1.1 _).trans (haimed.reach_back (hcut.trans_le hbelow.1.1))
    reach_on := fun hcut => (haimed.reach_on (habove.1.1.trans_lt hcut)).trans habove.1.1
    whole := fun hshort => by
      obtain ⟨rfl, rfl⟩ := haimed.whole hshort
      exact ⟨Nat.le_antisymm hbelow.1.1 hfirst_le, Nat.le_antisymm hle_last habove.1.1⟩
    order := by
      constructor
      · intro hlt
        have hji : j < i := habove.1.1.trans_lt (hlt.trans_le hbelow.1.1)
        exact haimed.order.resolve_left (Nat.not_le.2 hji)
      · -- the window starts at the place, which is a boundary, and ends with the line before it
        rintro ⟨hlimit, hlong, rfl⟩
        have hboundary : s.isBoundary (last + 1) = true :=
          (hto.resolve_left (Nat.not_succ_le_self last)).2
        have hplace : last + 1 ≤ a := hbelow.2 ⟨(haimed.at_place hlimit hlong).ge, hboundary⟩
        exact Nat.lt_of_le_of_lt hle_last hplace
    near := ⟨i, j, haimed.le_limit, hbelow, habove⟩ }

/-- A window that does not end before it starts splits the line. -/
lemma Framed.exists_parts (htext : s.text.toList = before ++ cs ++ after)
    (h : Framed s (utf8Len before) (utf8Len (before ++ cs)) o limit a b) (hab : a ≤ b) :
    ∃ left shown right, cs = left ++ shown ++ right ∧ utf8Len (before ++ left) = a ∧
      utf8Len (before ++ left ++ shown) = b := by
  obtain ⟨i, j, -, hbelow, habove⟩ := h.near
  have hstart := hbelow.1.2
  have hstop := habove.1.2
  rw [isBoundary, bytes_eq, htext] at hstart hstop
  obtain ⟨left, rest, rfl, hleft⟩ :=
    Text.exists_append_of_between hstart h.first_le (hab.trans h.le_last)
  have hlast := h.le_last
  rw [← List.append_assoc before] at hstop hlast
  obtain ⟨shown, right, rfl, hshown⟩ := Text.exists_append_of_between hstop (hleft.trans_le hab) hlast
  exact ⟨left, shown, right, (List.append_assoc _ _ _).symm, hleft, hshown⟩

lemma decode_slice {left shown right : List Char} (htext : s.text.toList = left ++ shown ++ right) :
    Text.decodeUtf8 (s.slice (utf8Len left) (utf8Len (left ++ shown))) = String.ofList shown := by
  have hslice : s.slice (utf8Len left) (utf8Len (left ++ shown)) = shown.flatMap utf8EncodeChar := by
    rw [slice, bytes_eq, htext, String.utf8Len_append, Nat.add_sub_cancel_left, List.append_assoc,
      List.flatMap_append, ← Text.length_flatMap_utf8EncodeChar left, List.drop_left, List.flatMap_append,
      ← Text.length_flatMap_utf8EncodeChar shown, List.take_left]
  rw [hslice, ← Text.utf8Bytes_ofList, Text.decodeUtf8_utf8Bytes]

/-- What is shown has more bytes than wanted only in its first and its last character. -/
lemma Framed.le_limit {left shown right : List Char} (htext : s.text.toList = left ++ shown ++ right)
    (h : Framed s first last o limit (utf8Len left) (utf8Len (left ++ shown))) :
    utf8Len shown ≤ limit + overhang shown.head? + overhang shown.getLast? := by
  obtain ⟨i, j, hlimit, hbelow, habove⟩ := h.near
  cases shown with
  | nil => exact Nat.zero_le _
  | cons c cs =>
    have hhead := le_overhang_head htext (List.cons_ne_nil c cs) hbelow
    have hlast := le_overhang_getLast htext (List.cons_ne_nil c cs) habove
    rw [String.utf8Len_append] at hlast
    omega

/-! ## Excerpts -/

lemma lt_utf8Len_append (cs cs' : List Char) : utf8Len cs < utf8Len (cs ++ cs') ↔ cs' ≠ [] := by
  rw [String.utf8Len_append, Nat.lt_add_right_iff_pos, Nat.pos_iff_ne_zero, ne_eq, String.utf8Len_eq_zero]

/-- An excerpt that is cut out by a window shows its part of the line. -/
lemma Framed.shows {e : Excerpt} {stop : Nat} (htext : s.text.toList = before ++ cs ++ after)
    (h : Framed s (utf8Len before) (utf8Len (before ++ cs)) o limit a b) (hab : a ≤ b) (hstop : o ≤ stop)
    (hshown : e.text = Text.decodeUtf8 (s.slice a b)) (hposition : e.position = o - a)
    (hlength : e.length = min stop b - o) (hstart : e.truncatedStart = decide (utf8Len before < a))
    (hend : e.truncatedEnd = decide (b < utf8Len (before ++ cs))) :
    e.Shows cs (o - utf8Len before) (stop - utf8Len before) limit := by
  obtain ⟨left, shown, right, rfl, rfl, rfl⟩ := h.exists_parts htext hab
  have htext' : s.text.toList = before ++ left ++ shown ++ (right ++ after) := by
    rw [htext]
    simp only [List.append_assoc]
  rw [decode_slice htext'] at hshown
  have hlist : e.text.toList = shown := by rw [hshown, String.toList_ofList]
  have hline : before ++ (left ++ shown ++ right) = before ++ left ++ shown ++ right := by
    simp only [List.append_assoc]
  have hleft := String.utf8Len_append before left
  have hstop' := String.utf8Len_append (before ++ left) shown
  have hright := String.utf8Len_append (before ++ left ++ shown) right
  have hpart := String.utf8Len_append left shown
  have hall := String.utf8Len_append (left ++ shown) right
  have hplace := h.le_place
  constructor
  · rw [hlist, hstart, hend, decide_eq_true_eq, decide_eq_true_eq, hline, hposition, hlength]
    refine ⟨left, right, rfl, lt_utf8Len_append _ _, lt_utf8Len_append _ _, ?_, ?_⟩
    · omega
    · rw [hpart]
      omega
  · have hinside := h.reach_on
    rw [hline] at hinside
    rw [hlist, hposition, hlength, hall]
    omega
  · rw [hlist]
    exact h.le_limit htext'
  · intro hshort
    have hwhole := h.whole
    rw [hline] at hwhole
    have hends := hwhole (by omega)
    have hnil : left = [] ∧ right = [] := by
      rw [← String.utf8Len_eq_zero, ← String.utf8Len_eq_zero]
      omega
    rw [hlist, hnil.1, hnil.2, List.nil_append, List.append_nil]
  · rw [hlist, hstart, hend, decide_eq_true_eq, decide_eq_true_eq, hposition]
    constructor
    · intro hcut
      have hback := h.reach_back hcut
      omega
    · intro hcut
      have hon := h.reach_on hcut
      omega

/-- The place in the text that an offset stands for: the end if the offset is behind it. -/
def clamp (s : SourceText) (offset : UInt32) : Nat := min offset.toNat (Text.byteLength s.text)

lemma clamp_eq (s : SourceText) (offset : UInt32) : min offset.toNat s.bytes.length = s.clamp offset := by
  rw [bytes, Text.length_utf8Bytes, clamp]

lemma Framed.canCut_eq (h : Framed s first last o limit a b) : s.canCut a b = decide (a ≤ b) := by
  obtain ⟨i, j, -, hbelow, habove⟩ := h.near
  rw [canCut, hbelow.1.2, habove.1.2, Bool.and_true, Bool.and_true]

lemma excerpt?_of_valid {l : Location} (hl : l.isValid = true) (limit : Nat) :
    s.excerpt? l limit = if s.canCut (s.shown l limit).1 (s.shown l limit).2 then some (s.excerpt l limit)
      else none := by
  rw [excerpt?, hl]
  cases s.canCut (s.shown l limit).1 (s.shown l limit).2 <;> rfl

/-- The excerpt for a valid location is cut out where the window says. -/
lemma excerpt_of_valid {l : Location} (hl : l.isValid = true) (limit : Nat) :
    s.excerpt l limit =
      { file := s.name
        startLine := s.lineOf (s.clamp l.start) + 1
        startColumn := s.columnOf (s.lineOf (s.clamp l.start)) (s.clamp l.start)
        endLine := s.lineOf (s.clamp l.stop) + 1
        endColumn := s.columnOf (s.lineOf (s.clamp l.stop)) (s.clamp l.stop)
        text := Text.decodeUtf8 (s.slice (s.shown l limit).1 (s.shown l limit).2)
        position := s.clamp l.start - (s.shown l limit).1
        length := min (s.clamp l.stop) (s.shown l limit).2 - s.clamp l.start
        truncatedStart := s.startOfLine (s.lineOf (s.clamp l.start)) < (s.shown l limit).1
        truncatedEnd := (s.shown l limit).2 < s.endOfLine (s.lineOf (s.clamp l.start)) } := by
  rw [excerpt, if_pos hl, shown]
  simp only [clamp_eq]

/-- For every valid location there is a line in which it starts.  The excerpt is cut out of it, unless the
limit leaves no room to reach back to the line from the second byte of a break. -/
theorem excerpt?_shows (s : SourceText) {l : Location} (hl : l.isValid = true) (limit : Nat) :
    ∃ before line after, LineAt (splitLines s.text.toList) (s.clamp l.start) before line after ∧
      (s.excerpt? l limit = none ↔
        limit < 2 ∧ limit < utf8Len line.chars ∧
          s.clamp l.start = utf8Len (joined before ++ line.chars) + 1) ∧
      ∀ e ∈ s.excerpt? l limit, e.startLine = before.length + 1 ∧
        e.Shows line.chars (s.clamp l.start - utf8Len (joined before))
          (s.clamp l.stop - utf8Len (joined before)) limit := by
  have hsize : s.clamp l.start ≤ utf8Len (joined (splitLines s.text.toList)) := by
    rw [joined_splitLines, ← length_bytes, ← clamp_eq]
    exact Nat.min_le_right _ _
  obtain ⟨before, line, after, hline⟩ := exists_lineAt (splitLines_ne_nil _) hsize
  refine ⟨before, line, after, hline, ?_⟩
  have htext := hline.toList_eq
  have hlength := String.utf8Len_append (joined before) line.chars
  have hframed : Framed s (utf8Len (joined before)) (utf8Len (joined before ++ line.chars))
      (s.clamp l.start) limit (s.shown l limit).1 (s.shown l limit).2 := by
    have hfirst := isBoundary_utf8Len _ _ (htext.trans (List.append_assoc _ _ _))
    rw [shown, clamp_eq, hline.lineOf_eq.1, hline.lineOf_eq.2, hline.endOfLine_eq]
    exact framed_window hfirst (isBoundary_utf8Len _ _ htext) (by omega) hline.start_le hline.le_succ limit
  have hroom := hframed.order
  rw [hlength, Nat.add_sub_cancel_left, ← hlength] at hroom
  rw [excerpt?_of_valid hl, hframed.canCut_eq, ← hroom]
  by_cases hab : (s.shown l limit).1 ≤ (s.shown l limit).2
  · rw [if_pos (decide_eq_true hab)]
    refine ⟨iff_of_false (Option.some_ne_none _) (Nat.not_lt.2 hab), ?_⟩
    rintro e ⟨⟩
    have hstop : s.clamp l.start ≤ s.clamp l.stop :=
      min_le_min_right _ (UInt32.le_iff_toNat_le.1 l.ordered)
    rw [excerpt_of_valid hl, hline.lineOf_eq.1, hline.lineOf_eq.2, hline.endOfLine_eq]
    exact ⟨rfl, hframed.shows htext hab hstop rfl rfl rfl rfl rfl⟩
  · rw [if_neg (by rwa [decide_eq_true_eq])]
    exact ⟨iff_of_true rfl (Nat.not_le.1 hab), nofun⟩

theorem excerpt?_shows_secondLine :
    let s : SourceText := ⟨"", "x\néa"⟩
    let l := Location.point 0 2
    l.isValid = true ∧ (s.excerpt? l 1).map (·.text) = some "é" ∧
      ∃ before line after, LineAt (splitLines s.text.toList) 2 before line after ∧
        ∀ e ∈ s.excerpt? l 1, e.startLine = before.length + 1 ∧
          e.Shows line.chars (2 - utf8Len (joined before)) (2 - utf8Len (joined before)) 1 := by
  intro s l
  have hl : l.isValid = true := by decide
  have hstart : s.clamp l.start = 2 := by decide +kernel
  have hstop : s.clamp l.stop = 2 := by decide +kernel
  obtain ⟨before, line, after, hline, -, hshows⟩ := excerpt?_shows s hl 1
  rw [hstart] at hline hshows
  rw [hstop] at hshows
  exact ⟨hl, by decide +kernel, before, line, after, hline, hshows⟩

/-- Both ends of the window are inside characters, and the excerpt gets longer than wanted.  With a limit of
zero the second byte of a break is beyond the line that should be shown for it. -/
theorem limit_lt_length_wideCharacters :
    (∃ e, (⟨"", "éééé"⟩ : SourceText).excerpt? (Location.point 0 4) 5 = some e ∧ e.text = "ééé" ∧
        5 < utf8Len e.text.toList) ∧
      (⟨"", "a\r\n"⟩ : SourceText).excerpt? (Location.point 0 2) 0 = none :=
  ⟨⟨(⟨"", "éééé"⟩ : SourceText).excerpt (Location.point 0 4) 5, by decide +kernel, by decide +kernel,
    by decide +kernel⟩, by decide +kernel⟩

end SourceText

end Semdoc
