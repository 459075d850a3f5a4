import Semdoc.Proofs.Stream.Window

/-!
# Cursors in a window

What the operations on a cursor give, and where they leave it, in terms of its offset and of the stream.
Each of them leaves all other cursors where they are.
-/

namespace Semdoc.Buffer

variable {b : Buffer} {bytes : List UInt8} (hb : b.Window bytes) {id : CursorId} {o : Nat}
include hb

/-- Making sure that there is a byte at a cursor succeeds exactly if the stream goes on there. -/
lemma Window.ensure (ho : b.place? id = some o) :
    ∃ b', b.ensure id = (decide (o < bytes.length), b') ∧ Serves bytes b b' b.place? ∧
      (o < bytes.length → ∃ c, b'.cursor? id = some c ∧ (b'.byteAt? c).isSome = true) := by
  obtain ⟨c, hc, rfl⟩ := exists_cursor_of_place? ho
  have hst := hb.stands_of_cursor? hc
  obtain ⟨hs, hoff, -⟩ := hb.settle_spec hst
  have h1 := hb.setCursor hs (by rw [ho]; rfl)
  rw [hoff, ← ho, Function.update_eq_self] at h1
  have hbyte : (b.setCursor id (b.settle c)).byteAt? = b.byteAt? := rfl
  have hcur : (b.setCursor id (b.settle c)).cursor? id = some (b.settle c) := by
    rw [cursor?_setCursor, if_pos rfl, hc]
    rfl
  unfold Buffer.ensure
  simp only [hc, hbyte]
  rcases hb.byteAt?_settle hst with hsome | ⟨hnone, -, hend⟩
  · obtain ⟨chunk, hch, -⟩ := hs
    have hlt : b.offsetOf c < bytes.length := by
      have hi := (isSome_byteAt? hch).1 hsome
      rw [hb.byteAt?_eq hch hi, hoff] at hsome
      simpa using hsome
    rw [if_pos hsome, decide_eq_true hlt]
    exact ⟨_, rfl, h1, fun _ => ⟨_, hcur, hsome⟩⟩
  · rw [hnone]
    obtain ⟨b', hp, hs', hgrow⟩ := h1.window.pull
    have hstop : (b.setCursor id (b.settle c)).stop = b.stop := rfl
    rw [hstop, ← hend] at hgrow hp
    rw [hp]
    by_cases hlt : b.offsetOf c < bytes.length
    · -- the new chunk holds the byte
      rw [h1.place?] at hs'
      have hplace : b'.place? id = some (b.offsetOf c) := by rw [hs'.place?, ho]
      obtain ⟨c', hc', ho'⟩ := exists_cursor_of_place? hplace
      have hst' := hs'.window.stands_of_cursor? hc'
      obtain ⟨hss, hoff', -⟩ := hs'.window.settle_spec hst'
      have hsome : (b'.byteAt? (b'.settle c')).isSome = true := by
        refine (hs'.window.byteAt?_settle hst').resolve_right fun h => ?_
        have hg := hgrow hlt
        rw [ho'] at h
        omega
      have h2 := hs'.window.setCursor hss (by rw [hplace]; rfl)
      rw [hoff', ho', ← hplace, Function.update_eq_self, hs'.place?] at h2
      simp only [decide_eq_true hlt, hc', hsome, Option.isSome_none, Bool.false_eq_true, if_false]
      refine ⟨_, rfl, h1.trans (hs'.trans h2), fun _ => ⟨b'.settle c', ?_, hsome⟩⟩
      rw [cursor?_setCursor, if_pos rfl, hc']
      rfl
    · rw [decide_eq_false hlt]
      rw [h1.place?] at hs'
      exact ⟨b', rfl, h1.trans hs', fun h => (hlt h).elim⟩

lemma Window.atEnd (ho : b.place? id = some o) :
    ∃ b', b.atEnd id = (decide (o = bytes.length), b') ∧ Serves bytes b b' b.place? := by
  obtain ⟨b', he, hs, -⟩ := hb.ensure ho
  refine ⟨b', ?_, hs⟩
  have hle := (hb.place?_mem ho).2
  have hd : (!decide (o < bytes.length)) = decide (o = bytes.length) := by
    rw [← decide_not, decide_eq_decide]
    omega
  rw [Buffer.atEnd, he, ← hd]

/-- The byte at a cursor.  If there is one it is in the chunk in which the cursor stands then. -/
lemma Window.fetch (ho : b.place? id = some o) :
    ∃ b', b.fetch id = (bytes[o]?, b') ∧ Serves bytes b b' b.place? ∧
      (o < bytes.length → ∃ c, b'.cursor? id = some c ∧ (b'.byteAt? c).isSome = true) := by
  obtain ⟨b', he, hs, hbyte⟩ := hb.ensure ho
  refine ⟨b', ?_, hs, hbyte⟩
  unfold Buffer.fetch
  rw [he]
  by_cases hlt : o < bytes.length
  · obtain ⟨c, hc, hsome⟩ := hbyte hlt
    have hoff : b'.offsetOf c = o := by
      have hp : b'.place? id = some o := by rw [hs.place?, ho]
      rw [place?, hc] at hp
      exact Option.some.inj hp
    obtain ⟨chunk, hch, -⟩ := hs.window.stands_of_cursor? hc
    have hi := (isSome_byteAt? hch).1 hsome
    simp only [decide_eq_true hlt, if_true, hc, Option.bind_some, hs.window.byteAt?_eq hch hi, hoff]
  · simp only [decide_eq_false hlt, Bool.false_eq_true, if_false,
      List.getElem?_eq_none (not_lt.1 hlt)]

/-- A cursor before a byte of its chunk moves forward inside the chunk, at most to its end. -/
lemma Window.step {c : Cursor} (hc : b.cursor? id = some c) {k : Nat}
    (hk : c.index + k ≤ b.chunkLength c.chunk) :
    Serves bytes b (b.setCursor id { c with index := c.index + k })
      (Function.update b.place? id (some (b.offsetOf c + k))) := by
  obtain ⟨chunk, hch, -⟩ := hb.stands_of_cursor? hc
  rw [chunkLength_eq hch] at hk
  have hs : b.Stands { c with index := c.index + k } := ⟨chunk, hch, hk⟩
  have hlive : (b.place? id).isSome = true := by
    rw [place?, hc]
    rfl
  have h := hb.setCursor hs hlive
  have hoff : b.offsetOf { c with index := c.index + k } = b.offsetOf c + k := by
    rw [offsetOf_eq hch, offsetOf_eq (c := { c with index := c.index + k }) hch, Nat.add_assoc]
  rwa [hoff] at h

/-- Reading gives the byte at the cursor and moves it past that byte. -/
lemma Window.read (ho : b.place? id = some o) :
    ∃ b', b.read id = (bytes[o]?, b') ∧
      Serves bytes b b' (Function.update b.place? id (some (min (o + 1) bytes.length))) := by
  obtain ⟨b1, hf, hs, hbyte⟩ := hb.fetch ho
  have hle := (hb.place?_mem ho).2
  unfold Buffer.read
  rw [hf]
  by_cases hlt : o < bytes.length
  · obtain ⟨c, hc, hsome⟩ := hbyte hlt
    have hoff : b1.offsetOf c = o := by
      have hp : b1.place? id = some o := by rw [hs.place?, ho]
      rw [place?, hc] at hp
      exact Option.some.inj hp
    obtain ⟨chunk, hch, -⟩ := hs.window.stands_of_cursor? hc
    have hstep := hs.window.step (k := 1) hc (by
      rw [chunkLength_eq hch]
      exact (isSome_byteAt? hch).1 hsome)
    rw [hoff, hs.place?] at hstep
    simp only [List.getElem?_eq_getElem hlt, hc]
    rw [Nat.min_eq_left hlt]
    exact ⟨_, rfl, hs.trans hstep⟩
  · have e : o = bytes.length := by omega
    rw [List.getElem?_eq_none (not_lt.1 hlt)]
    refine ⟨b1, rfl, ?_⟩
    rwa [Nat.min_eq_right (by omega), ← e, ← ho, Function.update_eq_self]

/-- Putting a live cursor where another one is. -/
lemma Window.copy {target : CursorId} (ho : b.place? id = some o)
    (ht : (b.place? target).isSome = true) :
    Serves bytes b (b.copy id target) (Function.update b.place? target (some o)) := by
  obtain ⟨c, hc, rfl⟩ := exists_cursor_of_place? ho
  rw [Buffer.copy, hc]
  exact hb.setCursor (hb.stands_of_cursor? hc) ht

/-- A new cursor where another one is. -/
lemma Window.createFrom (ho : b.place? id = some o) :
    (b.createFrom id).1 = b.nextCursor ∧ (b.createFrom id).2.Window bytes ∧
      (b.createFrom id).2.place? = Function.update b.place? b.nextCursor (some o) := by
  obtain ⟨c, hc, rfl⟩ := exists_cursor_of_place? ho
  rw [Buffer.createFrom, hc, Option.getD_some]
  exact ⟨rfl, hb.addCursor (hb.stands_of_cursor? hc)⟩

/-- A new cursor at the oldest byte held. -/
lemma Window.create :
    b.create.1 = b.nextCursor ∧ b.create.2.Window bytes ∧
      b.create.2.place? = Function.update b.place? b.nextCursor (some b.firstOffset) := by
  obtain ⟨hs, ho⟩ := hb.stands_first
  rw [← ho]
  exact ⟨rfl, hb.addCursor hs⟩

omit hb in
/-- The name of a cursor that exists is older than that of the next one. -/
lemma Fresh.lt_of_place? (hf : b.Fresh) (ho : b.place? id = some o) : id < b.nextCursor := by
  by_contra hn
  rw [place?, hf id (Nat.le_of_not_lt hn)] at ho
  cases ho

/-! ## Moving -/

/-- The rounds of a move forward are enough if they exceed what is left of the stream. -/
lemma Window.advanceBy {rounds : Nat} (distance : Nat) (ho : b.place? id = some o)
    (hr : bytes.length - o < rounds) :
    ∃ b', Buffer.advanceBy id rounds distance b = (min distance (bytes.length - o), b') ∧
      Serves bytes b b'
        (Function.update b.place? id (some (o + min distance (bytes.length - o)))) := by
  induction rounds generalizing b o distance with
  | zero => exact absurd hr (Nat.not_lt_zero _)
  | succ rounds ih =>
    cases distance with
    | zero =>
      simp only [Nat.zero_min, Nat.add_zero]
      rw [← ho, Function.update_eq_self]
      exact ⟨b, rfl, .refl hb⟩
    | succ distance =>
      obtain ⟨b1, he, hs, hbyte⟩ := hb.ensure ho
      have hle := (hb.place?_mem ho).2
      rw [Buffer.advanceBy, he]
      by_cases hlt : o < bytes.length
      · obtain ⟨c, hc, hsome⟩ := hbyte hlt
        have hoff : b1.offsetOf c = o := by
          have hp : b1.place? id = some o := by rw [hs.place?, ho]
          rw [place?, hc] at hp
          exact Option.some.inj hp
        obtain ⟨chunk, hch, -⟩ := hs.window.stands_of_cursor? hc
        have hi := (isSome_byteAt? hch).1 hsome
        rw [decide_eq_true hlt]
        simp only [hc, chunkLength_eq hch]
        generalize hk : min (chunk.data.size - c.index) (distance + 1) = k
        have hstep := hs.window.step (k := k) hc (by rw [chunkLength_eq hch]; omega)
        rw [hoff, hs.place?] at hstep
        have hplace : (b1.setCursor id { c with index := c.index + k }).place? id =
            some (o + k) := by
          rw [hstep.place?, Function.update_self]
        have hend := (hstep.window.place?_mem hplace).2
        obtain ⟨b2, ha, hs2⟩ := ih hstep.window (distance + 1 - k) hplace (by omega)
        rw [ha]
        have hsum : k + min (distance + 1 - k) (bytes.length - (o + k)) =
            min (distance + 1) (bytes.length - o) := by omega
        refine ⟨b2, by rw [hsum], (hs.trans hstep).trans ?_⟩
        rwa [hstep.place?, Function.update_idem, Nat.add_assoc, hsum] at hs2
      · have e : bytes.length - o = 0 := by omega
        simp only [decide_eq_false hlt, e, Nat.min_zero, Nat.add_zero]
        rw [← ho, Function.update_eq_self]
        exact ⟨b1, rfl, hs⟩

/-- What is held and what is still delivered reaches to the end of the stream. -/
lemma Window.length_sub_le_extent : bytes.length - b.firstOffset ≤ b.extent := by
  have hfold : ∀ (l : List Chunk) (n : Nat),
      l.foldl (fun n c => n + c.data.size) n = n + (l.map (·.data.size)).sum := by
    intro l
    induction l with
    | nil => exact fun n => rfl
    | cons c r ih =>
      intro n
      rw [List.foldl_cons, ih, List.map_cons, List.sum_cons, Nat.add_assoc]
  have hsum : ∀ (l : List Chunk) (c : Chunk), (c :: l).IsChain (fun c d => d.start = c.stop) →
      ((c :: l).getLast (List.cons_ne_nil _ _)).stop = c.start + ((c :: l).map (·.data.size)).sum := by
    intro l
    induction l with
    | nil => exact fun c _ => rfl
    | cons d r ih =>
      intro c h
      rw [List.isChain_cons_cons] at h
      rw [List.getLast_cons_cons, ih d h.2, h.1, List.map_cons (a := c), List.sum_cons,
        Chunk.stop, Nat.add_assoc]
  obtain ⟨c, l, hc⟩ := List.exists_cons_of_ne_nil hb.ne_nil
  have hchain := hb.chained
  have hstop : b.stop = b.firstOffset + (b.chunks.map (·.data.size)).sum := by
    rw [hc] at hchain
    rw [Buffer.stop, hc, List.getLast?_eq_some_getLast (List.cons_ne_nil _ _)]
    rw [firstOffset, chunkStart, hc]
    exact hsum l c hchain
  have hcoming : bytes.length - b.stop ≤ b.feed.size := by
    rw [← List.length_drop, hb.coming]
    split
    · exact Nat.zero_le _
    · exact b.feed.length_content_le
  have := hb.stop_le
  rw [Buffer.extent, hfold]
  omega

lemma Window.forward (distance : Nat) (ho : b.place? id = some o) :
    ∃ b', b.forward id distance = (min distance (bytes.length - o), b') ∧
      Serves bytes b b'
        (Function.update b.place? id (some (o + min distance (bytes.length - o)))) := by
  have h1 := (hb.place?_mem ho).1
  have h2 := hb.length_sub_le_extent
  exact hb.advanceBy distance ho (by omega)

/-- Going back crosses the chunks down to the oldest byte held. -/
lemma Window.placeBefore {i index : Nat} {chunk : Chunk} (distance : Nat)
    (hc : b.chunks[i]? = some chunk) (hi : index ≤ chunk.data.size) :
    ∃ c, b.placeBefore i index distance =
        (min distance (chunk.start + index - b.firstOffset), c) ∧ b.Stands c ∧
      b.offsetOf c = chunk.start + index - min distance (chunk.start + index - b.firstOffset) := by
  induction i generalizing chunk index distance with
  | zero =>
    have hfirst : b.firstOffset = chunk.start := by rw [firstOffset, chunkStart, hc]
    rw [Buffer.placeBefore]
    split
    · next h =>
      refine ⟨⟨0, index - distance⟩, ?_, ⟨chunk, hc, by dsimp only; omega⟩, ?_⟩
      · rw [hfirst, Nat.add_sub_cancel_left, Nat.min_eq_left h]
      · rw [offsetOf_eq (c := ⟨0, _⟩) hc, hfirst]
        dsimp only
        omega
    · next h =>
      refine ⟨⟨0, 0⟩, ?_, ⟨chunk, hc, Nat.zero_le _⟩, ?_⟩
      · rw [hfirst, Nat.add_sub_cancel_left, Nat.min_eq_right (by omega)]
      · rw [offsetOf_eq (c := ⟨0, _⟩) hc, hfirst]
        dsimp only
        omega
  | succ i ih =>
    have hlt := (List.getElem?_eq_some_iff.1 hc).1
    have hprev := List.getElem?_eq_getElem (Nat.lt_of_succ_lt hlt)
    have hstart := hb.start_succ hprev hc
    have hfirst := hb.firstOffset_le (List.mem_of_getElem? hprev)
    generalize b.chunks[i] = previous at hprev hstart hfirst
    rw [Chunk.stop] at hstart
    rw [Buffer.placeBefore]
    split
    · next h =>
      refine ⟨⟨i + 1, index - distance⟩, ?_, ⟨chunk, hc, by dsimp only; omega⟩, ?_⟩
      · rw [Nat.min_eq_left (by omega)]
      · rw [offsetOf_eq (c := ⟨i + 1, _⟩) hc]
        dsimp only
        omega
    · next h =>
      obtain ⟨c, hp, hs, ho⟩ := ih (distance - index) hprev le_rfl
      rw [chunkLength_eq hprev, hp]
      refine ⟨c, ?_, hs, ?_⟩
      · dsimp only
        congr 1
        omega
      · rw [ho]
        omega

lemma Window.backward (distance : Nat) (ho : b.place? id = some o) :
    ∃ b', b.backward id distance = (min distance (o - b.firstOffset), b') ∧
      Serves bytes b b'
        (Function.update b.place? id (some (o - min distance (o - b.firstOffset)))) ∧
      b'.firstOffset = b.firstOffset := by
  obtain ⟨c, hc, rfl⟩ := exists_cursor_of_place? ho
  obtain ⟨chunk, hch, hi⟩ := hb.stands_of_cursor? hc
  obtain ⟨c', hp, hs, hoff⟩ := hb.placeBefore distance hch hi
  have hlive : (b.place? id).isSome = true := by
    rw [ho]
    rfl
  have h := hb.setCursor hs hlive
  rw [hoff] at h
  rw [offsetOf_eq hch]
  simp only [Buffer.backward, hc, hp]
  exact ⟨_, rfl, h, rfl⟩

end Semdoc.Buffer
