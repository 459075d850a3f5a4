import Mathlib.Data.List.Chain
import Mathlib.Data.List.Infix
import Semdoc.Proofs.Stream.Memory

/-!
# Windows on a stream

What a buffer holds is a part of its stream: the chunks follow each other, and what its feed still
delivers is what comes after them.  Every cursor stands in a chunk or at the end of one.  Fetching and
dropping chunks moves the window along the stream and leaves every cursor at its offset.
-/

namespace Semdoc

namespace Feed

/-- The bytes that a feed delivers before its end. -/
def content : Feed → List UInt8
  | [] => []
  | .interrupted :: r => content r
  | .failed :: _ => []
  | .bytes data :: r => if data.isEmpty then [] else data ++ content r

/-- The content is what is delivered to one request after the other, up to the first that gets
nothing. -/
lemma content_eq {limit : Nat} (hl : 0 < limit) (f : Feed) :
    f.content =
      if (f.pull limit).1.isEmpty then [] else (f.pull limit).1 ++ (f.pull limit).2.content := by
  induction f with
  | nil => rfl
  | cons d r ih =>
    cases d with
    | interrupted => exact ih
    | failed => rfl
    | bytes data =>
      rw [pull]
      split
      · next h =>
        -- the part that is left of the delivery is delivered next
        have hdata : data.isEmpty = false := by
          rw [List.isEmpty_eq_false_iff]
          rintro rfl
          exact Nat.not_lt_zero _ h
        have htake : (data.take limit).isEmpty = false := by
          rw [List.isEmpty_eq_false_iff, ne_eq, List.take_eq_nil_iff, not_or]
          exact ⟨hl.ne', List.isEmpty_eq_false_iff.1 hdata⟩
        have hdrop : (data.drop limit).isEmpty = false := by
          rw [List.isEmpty_eq_false_iff, ne_eq, List.drop_eq_nil_iff, not_le]
          exact h
        simp only [content, hdata, htake, hdrop, Bool.false_eq_true, if_false,
          ← List.append_assoc, List.take_append_drop]
      · rfl

lemma length_pull_le (limit : Nat) (f : Feed) : (f.pull limit).1.length ≤ limit := by
  induction f with
  | nil => exact Nat.zero_le _
  | cons d r ih =>
    cases d with
    | interrupted => exact ih
    | failed => exact Nat.zero_le _
    | bytes data =>
      rw [pull]
      split
      · exact List.length_take_le _ _
      · next h => exact Nat.not_lt.1 h

/-- Adding up as many as each delivery has bytes gives no less than the length of the content. -/
lemma length_content_le_foldl {g : Nat → Delivery → Nat}
    (hb : ∀ n data, g n (.bytes data) = n + data.length) (hi : ∀ n, g n .interrupted = n)
    (hf : ∀ n, g n .failed = n) (f : Feed) (n : Nat) : n + f.content.length ≤ f.foldl g n := by
  induction f generalizing n with
  | nil => exact le_rfl
  | cons d r ih =>
    rw [List.foldl_cons]
    cases d with
    | interrupted =>
      rw [hi]
      exact ih n
    | failed =>
      rw [hf]
      exact le_trans (Nat.add_le_add_left (Nat.zero_le _) n) (ih n)
    | bytes data =>
      rw [hb, content]
      refine le_trans ?_ (ih (n + data.length))
      split
      · rw [List.length_nil]
        omega
      · rw [List.length_append]
        omega

lemma length_content_le (f : Feed) : f.content.length ≤ f.size := by
  have h : 0 + f.content.length ≤ f.size :=
    length_content_le_foldl (fun _ _ => rfl) (fun _ => rfl) (fun _ => rfl) f 0
  rwa [Nat.zero_add] at h

end Feed

namespace Buffer

/-- A cursor stands at a byte of a chunk or at the end of one. -/
def Stands (b : Buffer) (c : Cursor) : Prop :=
  ∃ chunk, b.chunks[c.chunk]? = some chunk ∧ c.index ≤ chunk.data.size

/-- The offset of a live cursor. -/
def place? (b : Buffer) (id : CursorId) : Option Nat := (b.cursor? id).map b.offsetOf

/-- A buffer is a window on a stream. -/
structure Window (b : Buffer) (bytes : List UInt8) : Prop where
  ne_nil : b.chunks ≠ []
  chained : b.chunks.IsChain fun c d => d.start = c.stop
  shown : ∀ c ∈ b.chunks, c.data.toList <+: bytes.drop c.start
  stop_le : b.stop ≤ bytes.length
  coming : bytes.drop b.stop = if b.ended then [] else b.feed.content
  chunkSize : 0 < b.chunkSize
  stands : ∀ e ∈ b.cursors, b.Stands e.2
  fresh : b.Fresh

section Places

variable {b : Buffer} {c : Cursor} {chunk : Chunk}

lemma offsetOf_eq (h : b.chunks[c.chunk]? = some chunk) :
    b.offsetOf c = chunk.start + c.index := by
  rw [offsetOf, chunkStart, h]

lemma chunkLength_eq {i : Nat} (h : b.chunks[i]? = some chunk) :
    b.chunkLength i = chunk.data.size := by
  rw [chunkLength, h]

lemma isSome_byteAt? (h : b.chunks[c.chunk]? = some chunk) :
    (b.byteAt? c).isSome = true ↔ c.index < chunk.data.size := by
  rw [Buffer.byteAt?, h]
  show (chunk.data[c.index]?).isSome = true ↔ _
  simp

/-- Offsets depend on the chunks only. -/
lemma offsetOf_congr {b b' : Buffer} (h : b'.chunks = b.chunks) : b'.offsetOf = b.offsetOf := by
  funext c
  simp only [offsetOf, chunkStart, h]

lemma mem_cursors_of_cursor? {id : CursorId} (h : b.cursor? id = some c) :
    (id, c) ∈ b.cursors := by
  unfold cursor? at h
  generalize b.cursors = l at h ⊢
  induction l with
  | nil => cases h
  | cons e r ih =>
    obtain ⟨k, p⟩ := e
    rw [List.lookup_cons] at h
    cases hk : id == k with
    | true =>
      rw [hk] at h
      obtain rfl : id = k := by simpa using hk
      cases h
      exact List.mem_cons_self
    | false =>
      rw [hk] at h
      exact List.mem_cons_of_mem _ (ih h)

end Places

namespace Window

variable {b : Buffer} {bytes : List UInt8} (hb : b.Window bytes) {c : Cursor} {chunk : Chunk}
  {i : Nat} {id : CursorId}
include hb

lemma stands_of_cursor? (h : b.cursor? id = some c) : b.Stands c :=
  hb.stands _ (mem_cursors_of_cursor? h)

/-- Of two chunks the earlier one ends where the later one starts, or before. -/
lemma ordered : b.chunks.Pairwise fun c d => c.stop ≤ d.start := by
  have hc : b.chunks.IsChain fun c d => c.stop ≤ d.start :=
    hb.chained.imp fun c d h => h.ge
  have ht : IsTrans Chunk fun c d => c.stop ≤ d.start := by
    refine ⟨fun c d e hcd hde => hcd.trans (le_trans ?_ hde)⟩
    exact Nat.le_add_right _ _
  exact List.isChain_iff_pairwise.1 hc

lemma chunk_stop_le (h : chunk ∈ b.chunks) : chunk.stop ≤ b.stop := by
  have hl : b.stop = (b.chunks.getLast hb.ne_nil).stop := by
    rw [Buffer.stop, List.getLast?_eq_some_getLast hb.ne_nil]
  have hord := hb.ordered
  rw [hl]
  rw [← List.dropLast_append_getLast hb.ne_nil, List.mem_append, List.mem_singleton] at h
  rw [← List.dropLast_append_getLast hb.ne_nil, List.pairwise_append] at hord
  rcases h with h | rfl
  · exact (hord.2.2 _ h _ (List.mem_singleton_self _)).trans (Nat.le_add_right _ _)
  · exact le_rfl

lemma firstOffset_le (h : chunk ∈ b.chunks) : b.firstOffset ≤ chunk.start := by
  have hord := hb.ordered
  unfold firstOffset chunkStart
  cases hc : b.chunks with
  | nil => exact Nat.zero_le _
  | cons first r =>
    rw [hc] at h hord
    rcases List.mem_cons.1 h with rfl | h
    · exact le_rfl
    · exact (Nat.le_add_right _ _).trans ((List.pairwise_cons.1 hord).1 _ h)

/-- Every cursor is between the oldest byte held and the end of the stream. -/
lemma offsetOf_mem (h : b.Stands c) :
    b.firstOffset ≤ b.offsetOf c ∧ b.offsetOf c ≤ b.stop := by
  obtain ⟨chunk, hc, hi⟩ := h
  have hm := List.mem_of_getElem? hc
  rw [offsetOf_eq hc]
  refine ⟨(hb.firstOffset_le hm).trans (Nat.le_add_right _ _), ?_⟩
  exact (Nat.add_le_add_left hi _).trans (hb.chunk_stop_le hm)

lemma place?_mem {o : Nat} (h : b.place? id = some o) : b.firstOffset ≤ o ∧ o ≤ bytes.length := by
  obtain ⟨c, hc, rfl⟩ := Option.map_eq_some_iff.1 h
  have hm := hb.offsetOf_mem (hb.stands_of_cursor? hc)
  exact ⟨hm.1, hm.2.trans hb.stop_le⟩

/-- A byte that a chunk holds is the byte of the stream at its offset. -/
lemma byteAt?_eq (hc : b.chunks[c.chunk]? = some chunk) (hi : c.index < chunk.data.size) :
    b.byteAt? c = bytes[b.offsetOf c]? := by
  obtain ⟨t, ht⟩ := hb.shown _ (List.mem_of_getElem? hc)
  rw [offsetOf_eq hc, ← List.getElem?_drop, ← ht, Buffer.byteAt?, hc]
  rw [List.getElem?_append_left (by simpa using hi), Array.getElem?_toList]
  rfl

/-- Where the end of a chunk is the start of the next one. -/
lemma start_succ {next : Chunk} (hc : b.chunks[i]? = some chunk)
    (hn : b.chunks[i + 1]? = some next) : next.start = chunk.stop := by
  obtain ⟨hi, rfl⟩ := List.getElem?_eq_some_iff.1 hn
  obtain ⟨hi', rfl⟩ := List.getElem?_eq_some_iff.1 hc
  exact List.isChain_iff_getElem.1 hb.chained i hi

/-- A settled place is at a byte, or at the end of all that is held. -/
lemma settle_spec (h : b.Stands c) :
    b.Stands (b.settle c) ∧ b.offsetOf (b.settle c) = b.offsetOf c ∧
      ((b.settle c).index < b.chunkLength (b.settle c).chunk ∨
        (b.settle c).chunk + 1 = b.chunks.length ∧ b.offsetOf c = b.stop) := by
  induction c using Buffer.settle.induct b with
  | case1 c hi =>
    rw [Buffer.settle, if_pos hi]
    exact ⟨h, rfl, .inl hi⟩
  | case2 c hi hn ih =>
    obtain ⟨chunk, hc, hle⟩ := h
    have hnext := List.getElem?_eq_getElem hn
    rw [chunkLength_eq hc, not_lt] at hi
    obtain ⟨hs, ho, hend⟩ := ih ⟨_, hnext, Nat.zero_le _⟩
    have hoff : b.offsetOf ⟨c.chunk + 1, 0⟩ = b.offsetOf c := by
      rw [offsetOf_eq hc, offsetOf_eq hnext, hb.start_succ hc hnext]
      show chunk.start + chunk.data.size + 0 = chunk.start + c.index
      omega
    rw [Buffer.settle, if_neg (by rw [chunkLength_eq hc]; omega), if_pos hn, ← hoff]
    exact ⟨hs, ho, hend⟩
  | case3 c hi hn =>
    obtain ⟨chunk, hc, hle⟩ := h
    rw [Buffer.settle, if_neg hi, if_neg hn]
    rw [chunkLength_eq hc, not_lt] at hi
    have hlt : c.chunk < b.chunks.length := (List.getElem?_eq_some_iff.1 hc).1
    refine ⟨⟨chunk, hc, hle⟩, rfl, .inr ⟨by omega, ?_⟩⟩
    have hlast : b.chunks.getLast? = some chunk := by
      rw [List.getLast?_eq_getElem?, show b.chunks.length - 1 = c.chunk by omega, hc]
    rw [Buffer.stop, hlast, offsetOf_eq hc]
    show chunk.start + c.index = chunk.start + chunk.data.size
    omega

/-- There is a byte at a settled place exactly if the stream goes on there. -/
lemma byteAt?_settle (h : b.Stands c) :
    (b.byteAt? (b.settle c)).isSome = true ∨ b.byteAt? (b.settle c) = none ∧
      (b.settle c).chunk + 1 = b.chunks.length ∧ b.offsetOf c = b.stop := by
  obtain ⟨⟨chunk, hc, hle⟩, -, hend⟩ := hb.settle_spec h
  rw [chunkLength_eq hc] at hend
  by_cases hi : (b.settle c).index < chunk.data.size
  · exact .inl ((isSome_byteAt? hc).2 hi)
  · refine .inr ⟨?_, hend.resolve_left hi⟩
    rwa [← isSome_byteAt? hc, Bool.not_eq_true, Option.isSome_eq_false_iff,
      Option.isNone_iff_eq_none] at hi

end Window

/-- A buffer has become another window on the same stream, which has not moved back, and its cursors
are at some offsets. -/
structure Serves (bytes : List UInt8) (b b' : Buffer) (places : CursorId → Option Nat) : Prop where
  window : b'.Window bytes
  place? : b'.place? = places
  first : b.firstOffset ≤ b'.firstOffset
  nextCursor : b'.nextCursor = b.nextCursor

namespace Serves

variable {b b' b'' : Buffer} {bytes : List UInt8} {places places' : CursorId → Option Nat}

lemma refl (hb : b.Window bytes) : Serves bytes b b b.place? := ⟨hb, rfl, le_rfl, rfl⟩

lemma trans (h : Serves bytes b b' places) (h' : Serves bytes b' b'' places') :
    Serves bytes b b'' places' :=
  ⟨h'.window, h'.place?, h.first.trans h'.first, h'.nextCursor.trans h.nextCursor⟩

end Serves

section Cursors

variable {b : Buffer} {bytes : List UInt8} {c : Cursor} {id : CursorId} {o : Nat}

lemma exists_cursor_of_place? (h : b.place? id = some o) :
    ∃ c, b.cursor? id = some c ∧ b.offsetOf c = o :=
  Option.map_eq_some_iff.1 h

/-- Putting a live cursor elsewhere. -/
lemma Window.setCursor (hb : b.Window bytes) (hc : b.Stands c) (hid : (b.place? id).isSome = true) :
    Serves bytes b (b.setCursor id c) (Function.update b.place? id (some (b.offsetOf c))) := by
  have hlive : (b.cursor? id).isSome = true := by simpa [place?] using hid
  have hm : Moved b (b.setCursor id c) id c := .setCursor hlive
  refine ⟨⟨hb.ne_nil, hb.chained, hb.shown, hb.stop_le, hb.coming, hb.chunkSize, ?_,
    hm.fresh hb.fresh hlive⟩, ?_, le_rfl, rfl⟩
  · intro e he
    obtain ⟨e', he', rfl⟩ := List.mem_map.1 he
    split
    · exact hc
    · exact hb.stands e' he'
  · funext k
    rw [place?, hm.cursor?, Function.update_apply, offsetOf_congr hm.chunks]
    split <;> rfl

/-- Adding a cursor. -/
lemma Window.addCursor (hb : b.Window bytes) (hc : b.Stands c) :
    (b.addCursor c).2.Window bytes ∧
      (b.addCursor c).2.place? = Function.update b.place? b.nextCursor (some (b.offsetOf c)) := by
  refine ⟨⟨hb.ne_nil, hb.chained, hb.shown, hb.stop_le, hb.coming, hb.chunkSize, ?_,
    hb.fresh.addCursor c⟩, ?_⟩
  · intro e he
    rcases List.mem_append.1 he with he | he
    · exact hb.stands e he
    · rw [List.mem_singleton.1 he]
      exact hc
  · funext k
    rw [place?, hb.fresh.cursor?_addCursor, Function.update_apply]
    split <;> rfl

/-- Deleting a cursor. -/
lemma Window.delete (hb : b.Window bytes) (id : CursorId) :
    Serves bytes b (b.delete id) (Function.update b.place? id none) := by
  refine ⟨⟨hb.ne_nil, hb.chained, hb.shown, hb.stop_le, hb.coming, hb.chunkSize, ?_,
    hb.fresh.delete id⟩, ?_, le_rfl, rfl⟩
  · exact fun e he => hb.stands e (List.mem_filter.1 he).1
  · funext k
    rw [place?, cursor?_delete, Function.update_apply]
    split <;> rfl

/-- The oldest byte held is a place. -/
lemma Window.stands_first (hb : b.Window bytes) :
    b.Stands {} ∧ b.offsetOf {} = b.firstOffset := by
  obtain ⟨chunk, r, h⟩ := List.exists_cons_of_ne_nil hb.ne_nil
  exact ⟨⟨chunk, by rw [h]; rfl, Nat.zero_le _⟩, rfl⟩

end Cursors

/-! ## Fetching and dropping chunks -/

lemma lookup_map_snd (f : Cursor → Cursor) (l : List (CursorId × Cursor)) (k : CursorId) :
    (l.map fun e => (e.1, f e.2)).lookup k = (l.lookup k).map f := by
  induction l with
  | nil => rfl
  | cons e r ih =>
    rw [List.map_cons, List.lookup_cons, List.lookup_cons, ih]
    split <;> rfl

section Pull

variable {b : Buffer} {bytes : List UInt8} (hb : b.Window bytes)
include hb

/-- The first chunk is dropped only if every cursor has left it. -/
lemma Window.dropFront (h : b.canDropFront = true) :
    Serves bytes b b.dropFront b.place? ∧ b.dropFront.stop = b.stop := by
  obtain ⟨hlen, hclear⟩ := (Bool.and_eq_true _ _).mp h
  have hclear' : ∀ e ∈ b.cursors, 0 < e.2.chunk := by
    intro e he
    have := List.all_eq_true.1 hclear e he
    rw [isClearOfFront, Bool.and_eq_true, decide_eq_true_eq] at this
    exact this.1
  obtain ⟨first, second, r, hc⟩ : ∃ first second r, b.chunks = first :: second :: r := by
    rcases hcs : b.chunks with _ | ⟨first, _ | ⟨second, r⟩⟩
    · simp [hcs] at hlen
    · simp [hcs] at hlen
    · exact ⟨first, second, r, rfl⟩
  have hdrop : b.dropFront.chunks = second :: r := by rw [Buffer.dropFront, hc]; rfl
  have hget : ∀ i, 0 < i → b.dropFront.chunks[i - 1]? = b.chunks[i]? := by
    intro i hi
    obtain ⟨j, rfl⟩ := Nat.exists_eq_succ_of_ne_zero hi.ne'
    rw [hdrop, hc]
    rfl
  have hcur : ∀ k, b.dropFront.cursor? k =
      (b.cursor? k).map fun c => { c with chunk := c.chunk - 1 } :=
    fun k => lookup_map_snd (fun c => { c with chunk := c.chunk - 1 }) b.cursors k
  have hstop : b.dropFront.stop = b.stop := by
    rw [Buffer.stop, Buffer.stop, hdrop, hc, List.getLast?_cons_cons]
  refine ⟨⟨⟨?_, ?_, ?_, ?_, ?_, hb.chunkSize, ?_, ?_⟩, ?_, ?_, rfl⟩, hstop⟩
  · rw [hdrop]
    exact List.cons_ne_nil _ _
  · have := hb.chained
    rw [hc] at this
    rw [hdrop]
    exact this.tail
  · intro c hm
    rw [hdrop] at hm
    exact hb.shown c (by rw [hc]; exact List.mem_cons_of_mem _ hm)
  · rw [hstop]
    exact hb.stop_le
  · rw [hstop]
    exact hb.coming
  · intro e he
    obtain ⟨e', he', rfl⟩ := List.mem_map.1 he
    obtain ⟨chunk, hch, hle⟩ := hb.stands e' he'
    exact ⟨chunk, by rw [hget _ (hclear' e' he'), hch], hle⟩
  · intro k hk
    rw [hcur, hb.fresh k hk]
    rfl
  · funext k
    rw [place?, hcur, place?, Option.map_map]
    cases hk : b.cursor? k with
    | none => rfl
    | some c =>
      have hpos := hclear' _ (mem_cursors_of_cursor? hk)
      simp only [Option.map_some, Function.comp_apply, offsetOf, chunkStart, hget _ hpos]
  · have hm : second ∈ b.chunks := by simp [hc]
    have : b.dropFront.firstOffset = second.start := by
      rw [firstOffset, chunkStart, hdrop]
      rfl
    rw [this]
    exact hb.firstOffset_le hm

/-- The next bytes of the stream are held behind the last ones. -/
lemma Window.append {data : List UInt8} {feed : Feed} (hd : bytes.drop b.stop = data ++ feed.content)
    (he : b.ended = false) :
    Serves bytes b { b with feed, chunks := b.chunks ++ [⟨b.stop, data.toArray⟩] } b.place? ∧
      ({ b with feed, chunks := b.chunks ++ [⟨b.stop, data.toArray⟩] } : Buffer).stop =
        b.stop + data.length := by
  have hget : ∀ c, b.Stands c → (b.chunks ++ [⟨b.stop, data.toArray⟩])[c.chunk]? =
      b.chunks[c.chunk]? := by
    rintro c ⟨chunk, hc, -⟩
    rw [List.getElem?_append_left (List.getElem?_eq_some_iff.1 hc).1]
  have hstop : ({ b with feed, chunks := b.chunks ++ [⟨b.stop, data.toArray⟩] } : Buffer).stop =
      b.stop + data.length := by
    rw [Buffer.stop, List.getLast?_append_of_ne_nil _ (List.cons_ne_nil _ _)]
    rfl
  have hlen := congrArg List.length hd
  rw [List.length_drop, List.length_append] at hlen
  have hle := hb.stop_le
  refine ⟨⟨⟨?_, ?_, ?_, ?_, ?_, hb.chunkSize, ?_, hb.fresh⟩, ?_, ?_, rfl⟩, hstop⟩
  · simp
  · refine List.isChain_append.2 ⟨hb.chained, .singleton _, ?_⟩
    intro c hc d hd
    cases hd
    rw [Buffer.stop, hc]
  · intro c hc
    rcases List.mem_append.1 hc with hc | hc
    · exact hb.shown c hc
    · rw [List.mem_singleton.1 hc]
      exact ⟨feed.content, hd.symm⟩
  · rw [hstop]
    omega
  · rw [hstop, he, ← List.drop_drop, hd, List.drop_left]
    rfl
  · intro e hm
    obtain ⟨chunk, hc, hi⟩ := hb.stands e hm
    exact ⟨chunk, by rw [hget _ ⟨chunk, hc, hi⟩, hc], hi⟩
  · funext k
    rw [place?, place?]
    show (b.cursor? k).map _ = _
    cases hk : b.cursor? k with
    | none => rfl
    | some c =>
      simp only [Option.map_some, offsetOf, chunkStart, hget c (hb.stands_of_cursor? hk)]
  · obtain ⟨first, r, h⟩ := List.exists_cons_of_ne_nil hb.ne_nil
    rw [firstOffset, firstOffset, chunkStart, chunkStart, h]
    rfl

/-- Fetching a chunk succeeds exactly if the stream goes on behind what is held. -/
lemma Window.pull :
    ∃ b', b.pull = (decide (b.stop < bytes.length), b') ∧ Serves bytes b b' b.place? ∧
      (b.stop < bytes.length → b.stop < b'.stop) := by
  have hend : bytes.drop b.stop = [] → ¬ b.stop < bytes.length := by
    intro h
    rwa [List.drop_eq_nil_iff, ← not_lt] at h
  unfold Buffer.pull
  cases he : b.ended with
  | true =>
    have hn := hend (by rw [hb.coming, he, if_pos rfl])
    rw [decide_eq_false hn]
    exact ⟨b, rfl, .refl hb, fun h => (hn h).elim⟩
  | false =>
    simp only [Bool.false_eq_true, if_false]
    have hfront : ∃ b1, (if b.canDropFront then b.dropFront else b) = b1 ∧
        Serves bytes b b1 b.place? ∧ b1.stop = b.stop ∧ b1.ended = false ∧ b1.feed = b.feed ∧
          b1.chunkSize = b.chunkSize := by
      by_cases hdrop : b.canDropFront = true
      · obtain ⟨h1, h2⟩ := hb.dropFront hdrop
        rw [if_pos hdrop]
        exact ⟨_, rfl, h1, h2, he, rfl, rfl⟩
      · rw [if_neg hdrop]
        exact ⟨_, rfl, .refl hb, rfl, he, rfl, rfl⟩
    obtain ⟨b1, h1, hs, hstop, he1, hf1, hc1⟩ := hfront
    rw [h1, ← hstop]
    have hcom := hs.window.coming
    rw [he1, if_neg Bool.false_ne_true, Feed.content_eq hs.window.chunkSize] at hcom
    cases hdata : (b1.feed.pull b1.chunkSize).1.isEmpty with
    | true =>
      rw [hdata, if_pos rfl] at hcom
      have hn : ¬ b1.stop < bytes.length := by
        rw [hstop] at hcom ⊢
        exact hend hcom
      rw [decide_eq_false hn, if_pos rfl]
      have hw := hs.window
      refine ⟨_, rfl, ⟨⟨hw.ne_nil, hw.chained, hw.shown, hw.stop_le, ?_, hw.chunkSize, hw.stands,
        hw.fresh⟩, hs.place?, hs.first, hs.nextCursor⟩, fun h => (hn h).elim⟩
      rw [if_pos rfl]
      exact hcom
    | false =>
      rw [hdata, if_neg Bool.false_ne_true] at hcom
      obtain ⟨ha, hastop⟩ := hs.window.append hcom he1
      have hpos : 0 < (b1.feed.pull b1.chunkSize).1.length := by
        rw [List.length_pos_iff, ← List.isEmpty_eq_false_iff]
        exact hdata
      have hlt : b1.stop < bytes.length := by
        have := ha.window.stop_le
        omega
      rw [decide_eq_true hlt, if_neg Bool.false_ne_true]
      rw [hs.place?] at ha
      exact ⟨_, rfl, hs.trans ha, fun _ => by omega⟩

end Pull

end Buffer

end Semdoc
