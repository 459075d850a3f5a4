import Semdoc.Proofs.Stream.Progress

/-!
# Single readers

Every operation on a reader of a stream answers as the model says and leaves the reader where the model
says, with all other cursors of the buffer where they were.
-/

namespace Semdoc.CharReader

open Buffer (Serves)

variable {bytes : List UInt8} {r r' r'' : CharReader} {o t : Nat} {cs ds : List UInt8}

/-- Lines and columns have nothing to do with where the peek cursor is. -/
lemma account_syncPeek (r : CharReader) (c : UInt8) :
    r.syncPeek.account c = (r.account c).syncPeek := by
  unfold account syncPeek
  split
  · rfl
  · split <;> rfl

/-- A reader has passed some bytes up to an offset, and nothing else has changed. -/
structure Passes (bytes : List UInt8) (r r' : CharReader) (o : Nat) (cs : List UInt8) : Prop where
  window : r'.buffer.Window bytes
  place? : r'.buffer.place? = Function.update r.buffer.place? r.readCursor (some o)
  readCursor : r'.readCursor = r.readCursor
  peekCursor : r'.peekCursor = r.peekCursor
  coherent : r'.coherent = r.coherent
  tally : ∀ passed, (r.line, r.column) = tally passed → (r'.line, r'.column) = tally (passed ++ cs)

namespace Passes

lemma refl (hw : r.buffer.Window bytes) (ho : r.buffer.place? r.readCursor = some o) :
    Passes bytes r r o [] := by
  refine ⟨hw, ?_, rfl, rfl, rfl, fun passed h => by rwa [List.append_nil]⟩
  rw [← ho, Function.update_eq_self]

lemma trans (h : Passes bytes r r' o cs) (h' : Passes bytes r' r'' t ds) :
    Passes bytes r r'' t (cs ++ ds) := by
  refine ⟨h'.window, ?_, h'.readCursor.trans h.readCursor, h'.peekCursor.trans h.peekCursor,
    h'.coherent.trans h.coherent, fun passed e => ?_⟩
  · rw [h'.place?, h.place?, h.readCursor, Function.update_idem]
  · rw [← List.append_assoc]
    exact h'.tally _ (h.tally passed e)

/-- The reader has moved without passing anything. -/
lemma of_serves {b : Buffer}
    (h : Serves bytes r.buffer b (Function.update r.buffer.place? r.readCursor (some o))) :
    Passes bytes r { r with buffer := b } o [] :=
  ⟨h.window, h.place?, rfl, rfl, rfl, fun passed e => by rwa [List.append_nil]⟩

lemma account (h : Passes bytes r r' o []) (c : UInt8) : Passes bytes r (r'.account c) o [c] := by
  have hsame : (r'.account c).buffer = r'.buffer ∧ (r'.account c).readCursor = r'.readCursor ∧
      (r'.account c).peekCursor = r'.peekCursor ∧ (r'.account c).coherent = r'.coherent := by
    unfold CharReader.account
    split
    · exact ⟨rfl, rfl, rfl, rfl⟩
    · split <;> exact ⟨rfl, rfl, rfl, rfl⟩
  obtain ⟨h1, h2, h3, h4⟩ := hsame
  refine ⟨h1 ▸ h.window, h1 ▸ h.place?, h2.trans h.readCursor, h3.trans h.peekCursor,
    h4.trans h.coherent, fun passed e => ?_⟩
  have ht := h.tally passed e
  rw [List.append_nil] at ht
  rw [tally_append, ← ht]
  unfold CharReader.account
  simp only [beq_iff_eq]
  split
  · rfl
  · split <;> rfl

lemma self (h : Passes bytes r r' o cs) : r'.buffer.place? r'.readCursor = some o := by
  rw [h.place?, h.readCursor, Function.update_self]

lemma peek (h : Passes bytes r r' o cs) (ha : r.readCursor ≠ r.peekCursor) :
    r'.buffer.place? r'.peekCursor = r.buffer.place? r.peekCursor := by
  rw [h.place?, h.peekCursor, Function.update_of_ne ha.symm]

lemma becomes (h : Passes bytes r r' o cs) : Becomes bytes r r' :=
  ⟨h.window, h.readCursor, h.peekCursor, fun k hk _ => by
    rw [h.place?, Function.update_of_ne hk]⟩

end Passes

/-- Reading a character at the read cursor passes it. -/
lemma passes_readAt (hw : r.buffer.Window bytes) (ho : r.buffer.place? r.readCursor = some o)
    {c : UInt8} (hc : step? bytes o = some (c, t)) :
    ∃ b, readAt r.buffer r.readCursor = (some c, b) ∧
      Passes bytes r (CharReader.account { r with buffer := b } c) t [c] := by
  obtain ⟨b, hb, hs⟩ := readAt_spec hw ho
  rw [hc] at hb hs
  exact ⟨b, hb, (Passes.of_serves hs).account c⟩

/-- Putting the peek cursor at the read cursor. -/
lemma Passes.syncPeek (h : Passes bytes r r' o cs) (ha : r.readCursor ≠ r.peekCursor)
    (hp : (r.buffer.place? r.peekCursor).isSome = true) :
    Becomes bytes r r'.syncPeek ∧
      r'.syncPeek.buffer.place? r'.syncPeek.readCursor = some o ∧
      r'.syncPeek.buffer.place? r'.syncPeek.peekCursor = some o := by
  have hlive : (r'.buffer.place? r'.peekCursor).isSome = true := by rw [h.peek ha, hp]
  have hs := h.window.copy h.self hlive
  have ha' : r'.readCursor ≠ r'.peekCursor := by rwa [h.readCursor, h.peekCursor]
  refine ⟨h.becomes.trans ⟨hs.window, rfl, rfl, fun k _ hk => ?_⟩, ?_, ?_⟩
  · exact (congrFun hs.place? k).trans (Function.update_of_ne hk _ _)
  · exact (congrFun hs.place? _).trans ((Function.update_of_ne ha' _ _).trans h.self)
  · exact (congrFun hs.place? _).trans (Function.update_self _ _ _)

section Shows

variable {p : Progress} (hw : r.buffer.Window bytes) (h : Shows bytes p r)
include hw h

lemma Shows.le : p.read ≤ p.peek ∧ p.peek ≤ bytes.length := by
  obtain ⟨cs, hcs⟩ := h.ahead
  exact ⟨hcs.bounds.1, (hw.place?_mem h.peek).2⟩

omit hw in
/-- What was passed is read, and the peek cursor is put at the read cursor. -/
lemma Shows.syncPeek (hp : Passes bytes r r' o cs) :
    Shows bytes { read := o, peek := o, passed := p.passed ++ cs } r'.syncPeek ∧
      Becomes bytes r r'.syncPeek := by
  obtain ⟨hb, h1, h2⟩ := hp.syncPeek h.apart (by rw [h.peek]; rfl)
  refine ⟨⟨?_, h1, h2, ⟨[], .refl o⟩, fun _ => rfl, ?_⟩, hb⟩
  · rw [hb.readCursor, hb.peekCursor]
    exact h.apart
  · exact hp.tally p.passed h.tally

/-- Peeking moves the peek cursor over the next character. -/
lemma Shows.peek_spec :
    ∃ r', r.peek = ((step? bytes p.peek).map (·.1), r') ∧
      Shows bytes { p with peek := ((step? bytes p.peek).map (·.2)).getD p.peek } r' ∧
      Becomes bytes r r' := by
  obtain ⟨b, hb, hs⟩ := readAt_spec hw h.peek
  unfold CharReader.peek
  rw [hb]
  have hread : b.place? r.readCursor = some p.read := by
    rw [hs.place?, Function.update_of_ne h.apart, h.read]
  refine ⟨_, rfl, ⟨h.apart, hread, ?_, ?_, fun hc => ?_, h.tally⟩, hs.window, rfl, rfl,
    fun k _ hk => ?_⟩
  · exact (congrFun hs.place? _).trans (Function.update_self _ _ _)
  · obtain ⟨cs, hcs⟩ := h.ahead
    cases hst : step? bytes p.peek with
    | none => exact ⟨cs, hcs⟩
    | some q => exact ⟨_, hcs.tail hst⟩
  · obtain ⟨hc, hn⟩ := (Bool.and_eq_true _ _).mp hc
    cases hst : step? bytes p.peek with
    | none => exact h.coherent hc
    | some q =>
      rw [hst] at hn
      cases hn
  · exact (congrFun hs.place? k).trans (Function.update_of_ne hk _ _)

lemma Shows.resetPeek_spec :
    Shows bytes { p with peek := p.read } r.resetPeek ∧ Becomes bytes r r.resetPeek := by
  unfold CharReader.resetPeek
  split
  · next hc =>
    rw [Progress.eq_of_peek_eq (h.coherent hc)]
    exact ⟨h, hw, rfl, rfl, fun _ _ _ => rfl⟩
  · have hs := h.syncPeek (.refl hw h.read)
    rwa [List.append_nil] at hs

omit h in
/-- Reading up to an offset passes the characters on the way. -/
lemma passes_readUpTo {rounds : Nat} (ho : r.buffer.place? r.readCursor = some o)
    (hs : Steps bytes o cs t) (hr : t - o ≤ rounds) :
    Passes bytes r (readUpTo t rounds r) t cs := by
  induction hs generalizing r rounds with
  | refl o =>
    have hend : readUpTo o rounds r = r := by
      cases rounds with
      | zero => rfl
      | succ rounds => rw [readUpTo, CharReader.offset, offset_eq ho, if_neg (Nat.lt_irrefl o)]
    rw [hend]
    exact .refl hw ho
  | @head o o' t c cs hst hs ih =>
    have hb := step?_bounds hst
    have ht := hs.bounds.1
    obtain ⟨rounds, rfl⟩ := Nat.exists_eq_succ_of_ne_zero (show rounds ≠ 0 by omega)
    obtain ⟨b, hb', hp⟩ := passes_readAt hw ho hst
    rw [readUpTo, CharReader.offset, offset_eq ho, if_pos (by omega), hb']
    exact hp.trans (ih hp.window hp.self (by omega))

/-- Reading what was peeked. -/
lemma Shows.consumePeek_spec (hs : Steps bytes p.read cs p.peek) :
    Shows bytes { read := p.peek, peek := p.peek, passed := p.passed ++ cs } r.consumePeek ∧
      Becomes bytes r r.consumePeek := by
  unfold CharReader.consumePeek
  split
  · next hc =>
    have he := h.coherent hc
    rw [← he] at hs
    -- nothing lies between an offset and itself
    obtain rfl : cs = [] := by
      cases hs with
      | refl => rfl
      | head hst hs =>
        have h1 := step?_bounds hst
        have h2 := hs.bounds.1
        omega
    rw [List.append_nil, he, Progress.eq_of_peek_eq he]
    exact ⟨h, hw, rfl, rfl, fun _ _ _ => rfl⟩
  · have ho : r.offset = p.read := offset_eq h.read
    have hpo : r.peekOffset = p.peek := offset_eq h.peek
    rw [ho, hpo]
    have hp := passes_readUpTo hw h.read hs le_rfl
    have hpeek := hp.peek h.apart
    refine ⟨⟨?_, hp.self, ?_, ⟨[], .refl _⟩, fun _ => rfl, hp.tally _ h.tally⟩, hp.becomes.trans
      ⟨hp.window, rfl, rfl, fun _ _ _ => rfl⟩⟩
    · show (readUpTo p.peek (p.peek - p.read) r).readCursor ≠
        (readUpTo p.peek (p.peek - p.read) r).peekCursor
      rw [hp.readCursor, hp.peekCursor]
      exact h.apart
    · exact hpeek.trans h.peek

omit hw in
/-- What was passed is read, and what was peeked further on stays peeked. -/
lemma Shows.account_of_lt {c : UInt8} (hst : step? bytes p.read = some (c, o)) (hlt : o < p.peek)
    (hp : Passes bytes r r' o []) :
    Shows bytes { read := o, peek := p.peek, passed := p.passed ++ [c] } (r'.account c) ∧
      Becomes bytes r (r'.account c) := by
  have hread := (step?_bounds hst).1
  obtain ⟨cs, hcs⟩ := h.ahead
  obtain ⟨c', o', ds, hst', -, hds⟩ := hcs.of_ne (by omega)
  rw [hst] at hst'
  cases hst'
  have hacc := hp.account c
  refine ⟨⟨?_, hacc.self, (hacc.peek h.apart).trans h.peek, ⟨ds, hds⟩, fun hc => ?_,
    hacc.tally _ h.tally⟩, hacc.becomes⟩
  · rw [hacc.readCursor, hacc.peekCursor]
    exact h.apart
  · rw [hacc.coherent] at hc
    have := h.coherent hc
    omega

/-- Reading the next character.  What was peeked further on stays peeked. -/
lemma Shows.read_spec :
    match step? bytes p.read with
    | none => ∃ r', r.read = (none, r') ∧ Shows bytes p r' ∧ Becomes bytes r r'
    | some (c, o) => ∃ r', r.read = (some c, r') ∧
        Shows bytes { read := o, peek := max p.peek o, passed := p.passed ++ [c] } r' ∧
        Becomes bytes r r' := by
  obtain ⟨hle, hend⟩ := h.le hw
  obtain ⟨b, hb, hs⟩ := readAt_spec hw h.read
  have hpass := Passes.of_serves hs
  have hoff : ({ r with buffer := b } : CharReader).offset =
      ((step? bytes p.read).map (·.2)).getD p.read := offset_eq hpass.self
  have hpeek : ({ r with buffer := b } : CharReader).peekOffset = p.peek :=
    offset_eq ((hpass.peek h.apart).trans h.peek)
  unfold CharReader.read
  rw [hb]
  cases hst : step? bytes p.read with
  | none =>
    rw [hst] at hoff hpass
    -- at the end there is nothing ahead
    have he : p.peek = p.read := by
      have := step?_eq_none_iff.1 hst
      omega
    have hsync : ({ r with buffer := b } : CharReader).peekOffset ≤
        ({ r with buffer := b } : CharReader).offset := by
      rw [hpeek, hoff, he]
      rfl
    simp only [hsync, decide_true, Bool.or_true, if_true]
    have hres := h.syncPeek hpass
    rw [List.append_nil, Option.map_none, Option.getD_none, Progress.eq_of_peek_eq he] at hres
    exact ⟨_, rfl, hres⟩
  | some q =>
    obtain ⟨c, o⟩ := q
    rw [hst] at hoff hpass
    dsimp only [Option.map_some]
    by_cases hsync : p.peek ≤ o
    · have hcond : (r.coherent || decide (({ r with buffer := b } : CharReader).peekOffset ≤
          ({ r with buffer := b } : CharReader).offset)) = true := by
        rw [hpeek, hoff]
        simp [hsync]
      rw [if_pos hcond, Nat.max_eq_right hsync]
      refine ⟨_, rfl, ?_⟩
      rw [CharReader.account_syncPeek]
      exact h.syncPeek (hpass.account c)
    · have hlt : o < p.peek := Nat.lt_of_not_le hsync
      have hcoh : r.coherent = false := by
        by_contra hc
        have hstep := (step?_bounds hst).1
        have := h.coherent (by simpa using hc)
        omega
      have hcond : ¬ (r.coherent || decide (({ r with buffer := b } : CharReader).peekOffset ≤
          ({ r with buffer := b } : CharReader).offset)) = true := by
        rw [hpeek, hoff, hcoh]
        simpa using hsync
      rw [if_neg hcond, Nat.max_eq_left hlt.le]
      exact ⟨_, rfl, h.account_of_lt hst hlt hpass⟩

end Shows

/-- Skipping blanks passes all of them, if there are more rounds than bytes left. -/
lemma Shows.skipBlanks_spec {rounds : Nat} {passed : List UInt8} (hw : r.buffer.Window bytes)
    (h : Shows bytes { read := o, peek := o, passed } r) (hr : bytes.length - o < rounds) :
    ∃ cs r', Steps bytes o cs (blanksEnd bytes o) ∧
      skipBlanks rounds r = (decide (blanksEnd bytes o < bytes.length), r') ∧
      Shows bytes
        { read := blanksEnd bytes o, peek := blanksEnd bytes o, passed := passed ++ cs } r' ∧
      Becomes bytes r r' := by
  induction rounds generalizing r o passed with
  | zero => exact absurd hr (Nat.not_lt_zero _)
  | succ rounds ih =>
    obtain ⟨r1, hp, h1, hb1⟩ := h.peek_spec hw
    dsimp only at hp h1
    rw [skipBlanks, hp]
    have hend : o ≤ bytes.length := (h.le hw).2
    cases hst : step? bytes o with
    | none =>
      have hlen := step?_eq_none_iff.1 hst
      have hbl := blanksEnd_bounds hend
      have he : blanksEnd bytes o = o := by omega
      obtain ⟨h2, hb2⟩ := h1.resetPeek_spec hb1.window
      rw [he]
      refine ⟨[], r1.resetPeek, .refl o, ?_, by rwa [List.append_nil], hb1.trans hb2⟩
      rw [decide_eq_false (by omega)]
      rfl
    | some q =>
      obtain ⟨c, o'⟩ := q
      have hbounds := step?_bounds hst
      have hblank := step?_blank hst
      rw [hst] at h1
      have h1 : Shows bytes { read := o, peek := o', passed } r1 := h1
      cases hc : Text.isBlankByte c with
      | true =>
        rw [hc, if_pos rfl] at hblank
        obtain ⟨h2, hb2⟩ := h1.consumePeek_spec hb1.window (.head hst (.refl o'))
        dsimp only at h2
        obtain ⟨cs, r3, hcs, hskip, h3, hb3⟩ := ih hb2.window h2 (by omega)
        rw [hblank] at hcs hskip h3
        refine ⟨c :: cs, r3, .head hst hcs, ?_, ?_, hb1.trans (hb2.trans hb3)⟩
        · simp only [Option.map_some, hc, if_true]
          exact hskip
        · rwa [List.append_assoc] at h3
      | false =>
        rw [hc, if_neg Bool.false_ne_true] at hblank
        obtain ⟨h2, hb2⟩ := h1.resetPeek_spec hb1.window
        rw [hblank]
        refine ⟨[], r1.resetPeek, .refl o, ?_, by rwa [List.append_nil], hb1.trans hb2⟩
        rw [decide_eq_true (by omega)]
        simp only [Option.map_some, hc, Bool.false_eq_true, if_false]

/-- Reading bytes as they are passes them. -/
lemma passes_readRawFrom (n : Nat) (done : List UInt8) (hw : r.buffer.Window bytes)
    (ho : r.buffer.place? r.readCursor = some o) :
    ∃ r', readRawFrom n done r = (done.reverse ++ (bytes.drop o).take n, r') ∧
      Passes bytes r r' (min (o + n) bytes.length) ((bytes.drop o).take n) := by
  have hend := (hw.place?_mem ho).2
  induction n generalizing r o done with
  | zero =>
    rw [readRawFrom, List.take_zero, List.append_nil, Nat.add_zero, Nat.min_eq_left hend]
    exact ⟨r, rfl, .refl hw ho⟩
  | succ n ih =>
    obtain ⟨b, hb, hs⟩ := hw.read ho
    rw [readRawFrom, hb]
    cases hc : bytes[o]? with
    | none =>
      have hlen := List.getElem?_eq_none_iff.1 hc
      have e1 : min (o + 1) bytes.length = o := by omega
      have e2 : min (o + (n + 1)) bytes.length = o := by omega
      rw [e1] at hs
      rw [List.drop_eq_nil_of_le hlen, List.take_nil, List.append_nil, e2]
      exact ⟨_, rfl, .of_serves hs⟩
    | some c =>
      obtain ⟨hlt, rfl⟩ := List.getElem?_eq_some_iff.1 hc
      rw [Nat.min_eq_left hlt] at hs
      have hp := (Passes.of_serves hs).account bytes[o]
      obtain ⟨r', hr, hp'⟩ := ih (bytes[o] :: done) hp.window hp.self hlt
      rw [List.drop_eq_getElem_cons hlt, List.take_succ_cons]
      refine ⟨r', ?_, ?_⟩
      · simp only [hr, List.reverse_cons, List.append_assoc, List.singleton_append]
      · have e : min (o + (n + 1)) bytes.length = min (o + 1 + n) bytes.length := by omega
        rw [e]
        exact hp.trans hp'

/-- Every operation on a reader is one of the model. -/
theorem Shows.perform {p : Progress} (hw : r.buffer.Window bytes) (h : Shows bytes p r)
    (op : ReaderOp) :
    ∃ p', Progress.Step bytes p op (r.perform op).1 p' ∧ Shows bytes p' (r.perform op).2 ∧
      Becomes bytes r (r.perform op).2 := by
  cases op with
  | read =>
    have hr := h.read_spec hw
    cases hst : step? bytes p.read with
    | none =>
      rw [hst] at hr
      obtain ⟨r', hr, hs, hb⟩ := hr
      rw [CharReader.perform, hr]
      exact ⟨_, .read_end hst, hs, hb⟩
    | some q =>
      rw [hst] at hr
      obtain ⟨r', hr, hs, hb⟩ := hr
      rw [CharReader.perform, hr]
      exact ⟨_, .read hst, hs, hb⟩
  | peek =>
    obtain ⟨r', hr, hs, hb⟩ := h.peek_spec hw
    rw [CharReader.perform, hr]
    cases hst : step? bytes p.peek with
    | none =>
      rw [hst] at hs
      exact ⟨_, .peek_end hst, hs, hb⟩
    | some q =>
      rw [hst] at hs
      exact ⟨_, .peek hst, hs, hb⟩
  | resetPeek =>
    obtain ⟨hs, hb⟩ := h.resetPeek_spec hw
    exact ⟨_, .resetPeek p, hs, hb⟩
  | consumePeek =>
    obtain ⟨cs, hcs⟩ := h.ahead
    obtain ⟨hs, hb⟩ := h.consumePeek_spec hw hcs
    exact ⟨_, .consumePeek hcs, hs, hb⟩
  | consumeWhitespace =>
    obtain ⟨h1, hb1⟩ := h.resetPeek_spec hw
    have hrounds : bytes.length - p.read < r.buffer.extent + 1 := by
      have h2 := hw.length_sub_le_extent
      have h3 := (hw.place?_mem h.read).1
      omega
    obtain ⟨cs, r', hcs, hr, hs, hb⟩ := h1.skipBlanks_spec hb1.window hrounds
    rw [CharReader.perform, consumeWhitespace, hr]
    exact ⟨_, .consumeWhitespace hcs, hs, hb1.trans hb⟩
  | readRaw n =>
    obtain ⟨r', hr, hp⟩ := passes_readRawFrom n [] hw h.read
    obtain ⟨hs, hb⟩ := h.syncPeek hp
    rw [CharReader.perform, readRaw, hr]
    exact ⟨_, .readRaw p n, hs, hb⟩
  | atEnd =>
    obtain ⟨b, hr, hs⟩ := hw.atEnd h.read
    rw [CharReader.perform, atEnd, hr]
    refine ⟨p, .atEnd p, ⟨h.apart, ?_, ?_, h.ahead, h.coherent, h.tally⟩, hs.window, rfl, rfl,
      fun k _ _ => congrFun hs.place? k⟩
    · exact (congrFun hs.place? _).trans h.read
    · exact (congrFun hs.place? _).trans h.peek

end Semdoc.CharReader
