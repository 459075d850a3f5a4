import Mathlib.Algebra.Group.Nat.Defs
import Semdoc.Proofs.Stream.Tape
import Semdoc.Stream.CharReader

/-!
# Lookback

A buffer drops a chunk only when every cursor has left it behind by at least the lookback.  So a cursor that
was there before anything was dropped, and has not been moved back, can be moved back that far, or to the
start of the stream.  The test whether a chunk may be dropped counts in 64 bits; nothing wraps around there,
whatever the lookback is.
-/

namespace Semdoc.Buffer

/-! ## Fetching and dropping -/

lemma firstOffset_dropFront (b : Buffer) : b.dropFront.firstOffset = b.chunkStart 1 := by
  rw [firstOffset, chunkStart, Buffer.dropFront, List.getElem?_tail, ← chunkStart]

section Dropping

variable {b : Buffer} {bytes : List UInt8} (hb : b.Window bytes)
include hb

lemma Window.chunkStart_le (i : Nat) : b.chunkStart i ≤ b.stop := by
  unfold chunkStart
  split
  · next chunk hc => exact (Nat.le_add_right _ _).trans (hb.chunk_stop_le (List.mem_of_getElem? hc))
  · exact Nat.zero_le _

/-- As long as nothing wraps around, the first chunk may be dropped if every cursor is past it by at least the
lookback. -/
lemma Window.canDropFront_iff (hstop : b.stop < 2 ^ 64)
    (hsum : 2 ≤ b.chunks.length → b.chunkStart 1 + b.lookback.toNat < 2 ^ 64) :
    b.canDropFront = true ↔ 2 ≤ b.chunks.length ∧
      ∀ e ∈ b.cursors, 0 < e.2.chunk ∧ b.chunkStart 1 + b.lookback.toNat ≤ b.offsetOf e.2 := by
  rw [canDropFront, Bool.and_eq_true, decide_eq_true_eq, List.all_eq_true]
  refine and_congr_right fun hlen => forall₂_congr fun e he => ?_
  have hsum := hsum hlen
  have hoffset := (hb.offsetOf_mem (hb.stands e he)).2
  rw [isClearOfFront, Bool.and_eq_true, decide_eq_true_eq, decide_eq_true_eq, UInt64.le_iff_toNat_le,
    UInt64.toNat_add, UInt64.toNat_ofNat', UInt64.toNat_ofNat',
    Nat.mod_eq_of_lt (a := b.chunkStart 1) (by omega), Nat.mod_eq_of_lt hsum, Nat.mod_eq_of_lt (by omega)]

end Dropping

/-- What is fetched is put behind what is left. -/
inductive Pulls (b : Buffer) : Buffer → Prop where
  | same {b' : Buffer} (hchunks : b'.chunks = b.chunks) (hsize : b'.chunkSize = b.chunkSize)
      (hlookback : b'.lookback = b.lookback) : Pulls b b'
  | more {b' : Buffer} {data : List UInt8} (hchunks : b'.chunks = b.chunks ++ [⟨b.stop, data.toArray⟩])
      (hdata : data.length ≤ b.chunkSize) (hsize : b'.chunkSize = b.chunkSize)
      (hlookback : b'.lookback = b.lookback) : Pulls b b'

lemma pulls_pull (b : Buffer) : Pulls b b.pull.2 ∨ b.canDropFront = true ∧ Pulls b.dropFront b.pull.2 := by
  unfold Buffer.pull
  split
  · exact .inl (.same rfl rfl rfl)
  · dsimp only
    cases hdrop : b.canDropFront with
    | false =>
      rw [if_neg Bool.false_ne_true]
      split
      · exact .inl (.same rfl rfl rfl)
      · exact .inl (.more rfl (Feed.length_pull_le _ _) rfl rfl)
    | true =>
      rw [if_pos rfl]
      split
      · exact .inr ⟨rfl, .same rfl rfl rfl⟩
      · exact .inr ⟨rfl, .more rfl (Feed.length_pull_le _ _) rfl rfl⟩

namespace Pulls

variable {b b' : Buffer} (h : Pulls b b')
include h

lemma chunkSize : b'.chunkSize = b.chunkSize := by
  cases h with
  | same _ hsize _ => exact hsize
  | more _ _ hsize _ => exact hsize

lemma lookback : b'.lookback = b.lookback := by
  cases h with
  | same _ _ hlookback => exact hlookback
  | more _ _ _ hlookback => exact hlookback

lemma chunks_prefix : b.chunks <+: b'.chunks := by
  cases h with
  | same hchunks _ _ => rw [hchunks]
  | more hchunks _ _ _ =>
    rw [hchunks]
    exact List.prefix_append _ _

lemma stop_le : b.stop ≤ b'.stop := by
  cases h with
  | same hchunks _ _ => rw [stop, stop, hchunks]
  | @more data hchunks _ _ _ =>
    have hstop : b'.stop = b.stop + data.length := by
      rw [stop, hchunks, List.getLast?_concat]
      rfl
    rw [hstop]
    exact Nat.le_add_right _ _

lemma first (hne : b.chunks ≠ []) :
    b'.firstOffset = b.firstOffset ∧ b'.chunkLength 0 = b.chunkLength 0 := by
  obtain ⟨rest, hrest⟩ := h.chunks_prefix
  have hfirst : b'.chunks[0]? = b.chunks[0]? := by
    rw [← hrest, List.getElem?_append_left (List.length_pos_iff.2 hne)]
  exact ⟨by rw [firstOffset, firstOffset, chunkStart, hfirst, chunkStart],
    by rw [chunkLength, hfirst, chunkLength]⟩

end Pulls

/-! ## Nothing is dropped too early -/

/-- A buffer has become another one.  If anything was dropped on the way, every cursor is past it by at least
the lookback. -/
structure Clears (b b' : Buffer) : Prop where
  lookback : b'.lookback = b.lookback
  clear : b'.firstOffset = b.firstOffset ∨
    ∀ id o, b'.place? id = some o → b'.firstOffset + b.lookback.toNat ≤ o

/-- What is dropped is behind every cursor, and cursors go forward only. -/
structure Guards (b b' : Buffer) : Prop extends Clears b b' where
  forward : ∀ id o, b'.place? id = some o → ∃ o₀, b.place? id = some o₀ ∧ o₀ ≤ o

namespace Guards

variable {b b' b'' : Buffer}

lemma refl (b : Buffer) : Guards b b := ⟨⟨rfl, .inl rfl⟩, fun _ o h => ⟨o, h, le_rfl⟩⟩

lemma trans (h : Guards b b') (h' : Guards b' b'') : Guards b b'' := by
  refine ⟨⟨h'.lookback.trans h.lookback, ?_⟩, fun id o ho => ?_⟩
  · have hclear' := h'.clear
    rw [h.lookback] at hclear'
    obtain hsame' | hclear' := hclear'
    · obtain hsame | hclear := h.clear
      · exact .inl (hsame'.trans hsame)
      · -- what was dropped before is further behind the cursors now
        refine .inr fun id o ho => ?_
        obtain ⟨o', ho', hle'⟩ := h'.forward id o ho
        rw [hsame']
        exact (hclear id o' ho').trans hle'
    · exact .inr hclear'
  · obtain ⟨o', ho', hle'⟩ := h'.forward id o ho
    obtain ⟨o₀, ho₀, hle⟩ := h.forward id o' ho'
    exact ⟨o₀, ho₀, hle.trans hle'⟩

end Guards

section Guards

variable {b b' : Buffer} {bytes : List UInt8} {id : CursorId} {o o' : Nat} {c : Cursor}

/-- All cursors stay. -/
lemma Serves.guards_of_clears (h : Serves bytes b b' b.place?) (hc : Clears b b') : Guards b b' :=
  ⟨hc, fun _ o ho => ⟨o, by rwa [← h.place?], le_rfl⟩⟩

/-- A cursor goes forward and nothing is dropped. -/
lemma Serves.guards (h : Serves bytes b b' (Function.update b.place? id (some o')))
    (ho : b.place? id = some o) (hle : o ≤ o') (hfirst : b'.firstOffset = b.firstOffset)
    (hlookback : b'.lookback = b.lookback) : Guards b b' := by
  refine ⟨⟨hlookback, .inl hfirst⟩, fun k p hp => ?_⟩
  rw [h.place?, Function.update_apply] at hp
  split at hp
  · next hk =>
    subst hk
    cases hp
    exact ⟨o, ho, hle⟩
  · exact ⟨p, hp, le_rfl⟩

variable (hb : b.Window bytes)
include hb

/-- Of a stream that is so short, a chunk is dropped only if every cursor is past it by at least the lookback. -/
lemma Window.guards_dropFront (hfit : bytes.length + b.lookback.toNat < 2 ^ 64)
    (h : b.canDropFront = true) : Guards b b.dropFront := by
  obtain ⟨hserves, -⟩ := hb.dropFront h
  have hstop := hb.stop_le
  have hsecond := hb.chunkStart_le 1
  obtain ⟨-, hclear⟩ := (hb.canDropFront_iff (by omega) fun _ => by omega).1 h
  refine hserves.guards_of_clears ⟨rfl, .inr fun id o ho => ?_⟩
  rw [hserves.place?] at ho
  obtain ⟨c, hc, rfl⟩ := exists_cursor_of_place? ho
  rw [firstOffset_dropFront]
  exact (hclear _ (mem_cursors_of_cursor? hc)).2

lemma Window.guards_pull (hfit : bytes.length + b.lookback.toNat < 2 ^ 64) : Guards b b.pull.2 := by
  obtain ⟨b', hp, hs, -⟩ := hb.pull
  have hpulls := pulls_pull b
  rw [hp] at hpulls ⊢
  obtain hpulls | ⟨hdrop, hpulls⟩ := hpulls
  · exact hs.guards_of_clears ⟨hpulls.lookback, .inl (hpulls.first hb.ne_nil).1⟩
  · obtain ⟨hserves, -⟩ := hb.dropFront hdrop
    have hclear := (hb.guards_dropFront hfit hdrop).clear
    rw [hserves.place?, ← hs.place?, ← (hpulls.first hserves.window.ne_nil).1] at hclear
    exact hs.guards_of_clears ⟨hpulls.lookback, hclear⟩

end Guards

lemma fetch_snd (b : Buffer) (id : CursorId) : (b.fetch id).2 = (b.ensure id).2 := by
  rw [Buffer.fetch]
  dsimp only
  split <;> rfl

/-- Cursors that are there go forward, and chunks are fetched for them. -/
inductive Advances (b : Buffer) : Buffer → Prop where
  | refl : Advances b b
  | forward {b' : Buffer} {id : CursorId} {c c' : Cursor} (h : Advances b b')
      (hc : b'.cursor? id = some c) (hstands : b'.Stands c') (hle : b'.offsetOf c ≤ b'.offsetOf c') :
      Advances b (b'.setCursor id c')
  | pull {b' : Buffer} (h : Advances b b') (hlive : b'.cursors ≠ []) : Advances b b'.pull.2

namespace Advances

variable {b b' : Buffer} {bytes : List UInt8} {id : CursorId} {c : Cursor}

lemma window (h : Advances b b') (hb : b.Window bytes) : b'.Window bytes := by
  induction h with
  | refl => exact hb
  | forward _ hc hstands _ hw => exact (hw.setCursor hstands (by rw [place?, hc]; rfl)).window
  | pull _ _ hw =>
    obtain ⟨b', hp, hs, -⟩ := hw.pull
    rw [hp]
    exact hs.window

lemma guards (h : Advances b b') (hb : b.Window bytes)
    (hfit : bytes.length + b.lookback.toNat < 2 ^ 64) : Guards b b' := by
  induction h with
  | refl => exact .refl b
  | @forward b' id c c' h hc hstands hle hg =>
    have ho : b'.place? id = some (b'.offsetOf c) := by rw [place?, hc, Option.map_some]
    have hserves := (h.window hb).setCursor hstands (by rw [ho]; rfl)
    exact hg.trans (hserves.guards ho hle rfl rfl)
  | pull h _ hg => exact hg.trans ((h.window hb).guards_pull (hg.lookback ▸ hfit))

variable (h : Advances b b') (hb : b'.Window bytes)
include h hb

/-- A settled cursor is at the same offset. -/
lemma settle (hc : b'.cursor? id = some c) : Advances b (b'.setCursor id (b'.settle c)) := by
  obtain ⟨hs, hoff, -⟩ := hb.settle_spec (hb.stands_of_cursor? hc)
  exact h.forward hc hs hoff.ge

/-- A cursor goes forward inside its chunk. -/
lemma step (hc : b'.cursor? id = some c) {k : Nat} (hk : c.index + k ≤ b'.chunkLength c.chunk) :
    Advances b (b'.setCursor id { c with index := c.index + k }) := by
  obtain ⟨chunk, hch, -⟩ := hb.stands_of_cursor? hc
  rw [chunkLength_eq hch] at hk
  exact h.forward hc ⟨chunk, hch, hk⟩ (Nat.add_le_add_left (Nat.le_add_right _ _) _)

/-- Before a chunk is fetched for a cursor, this cursor is settled. -/
lemma ensure (id : CursorId) : Advances b (b'.ensure id).2 := by
  unfold Buffer.ensure
  cases hc : b'.cursor? id with
  | none => exact h
  | some c =>
    have hset := h.settle hb hc
    have hw := (Advances.refl.settle hb hc).window hb
    have hlive : (b'.setCursor id (b'.settle c)).cursors ≠ [] :=
      List.map_eq_nil_iff.not.2 (List.ne_nil_of_mem (mem_cursors_of_cursor? hc))
    have hpull := hset.pull hlive
    obtain ⟨b'', hp, hs, -⟩ := hw.pull
    dsimp only
    split
    · exact hset
    · rw [hp] at hpull ⊢
      cases decide (_ < bytes.length) with
      | false => exact hpull
      | true =>
        dsimp only
        cases hc' : b''.cursor? id with
        | none => exact hpull
        | some c' => exact hpull.settle hs.window hc'

lemma read (id : CursorId) : Advances b (b'.read id).2 := by
  cases ho : b'.place? id with
  | none =>
    rw [(read_of_place?_none ho).2.2]
    exact h
  | some o =>
    have hensure := h.ensure hb id
    obtain ⟨b'', hf, hs, hbyte⟩ := hb.fetch ho
    rw [← fetch_snd, hf] at hensure
    rw [Buffer.read, hf]
    cases hc : bytes[o]? with
    | none => exact hensure
    | some byte =>
      obtain ⟨c, hc, hsome⟩ := hbyte (List.getElem?_eq_some_iff.1 hc).1
      obtain ⟨chunk, hch, -⟩ := hs.window.stands_of_cursor? hc
      have hindex := (isSome_byteAt? hch).1 hsome
      dsimp only
      rw [hc]
      exact hensure.step hs.window hc (by rwa [chunkLength_eq hch])

lemma advanceBy (id : CursorId) (rounds distance : Nat) :
    Advances b (Buffer.advanceBy id rounds distance b').2 := by
  induction rounds generalizing b' distance with
  | zero => exact h
  | succ rounds ih =>
    cases distance with
    | zero => exact h
    | succ distance =>
      rw [Buffer.advanceBy]
      cases ho : b'.place? id with
      | none =>
        rw [(read_of_place?_none ho).1]
        exact h
      | some o =>
        have hensure := h.ensure hb id
        obtain ⟨b'', he, hs, hbyte⟩ := hb.ensure ho
        rw [he] at hensure ⊢
        by_cases hlt : o < bytes.length
        · obtain ⟨c, hc, hsome⟩ := hbyte hlt
          obtain ⟨chunk, hch, -⟩ := hs.window.stands_of_cursor? hc
          have hindex := (isSome_byteAt? hch).1 hsome
          rw [decide_eq_true hlt]
          simp only [hc, chunkLength_eq hch]
          generalize hk : min (chunk.data.size - c.index) (distance + 1) = k
          have hk' : c.index + k ≤ b''.chunkLength c.chunk := by
            rw [chunkLength_eq hch]
            omega
          exact ih (hensure.step hs.window hc hk') (hs.window.step hc hk').window _
        · rw [decide_eq_false hlt]
          exact hensure

end Advances

section Perform

variable {b : Buffer} {bytes : List UInt8}

lemma clears_backward (b : Buffer) (id : CursorId) (distance : Nat) :
    Clears b (b.backward id distance).2 := by
  rw [Buffer.backward]
  split <;> exact ⟨rfl, .inl rfl⟩

lemma clears_copy (b : Buffer) (source target : CursorId) :
    Clears b (b.copy source target) ∧ (b.copy source target).firstOffset = b.firstOffset := by
  rw [Buffer.copy]
  split <;> exact ⟨⟨rfl, .inl rfl⟩, rfl⟩

/-- No operation drops anything unless every cursor is past it by at least the lookback. -/
lemma Window.clears_perform (hb : b.Window bytes) (hfit : bytes.length + b.lookback.toNat < 2 ^ 64)
    (op : CursorOp) : Clears b (b.perform op).2 := by
  have hclears : ∀ {b'}, Advances b b' → Clears b b' := fun h => (h.guards hb hfit).toClears
  cases op with
  | create | createFrom | delete => exact ⟨rfl, .inl rfl⟩
  | copy source target => exact (clears_copy b source target).1
  | read id => exact hclears (Advances.refl.read hb id)
  | fetch id =>
    rw [Buffer.perform, fetch_snd]
    exact hclears (Advances.refl.ensure hb id)
  | atEnd id => exact hclears (Advances.refl.ensure hb id)
  | move id delta =>
    rw [Buffer.perform, Buffer.move]
    split
    · exact hclears (Advances.refl.advanceBy hb id (b.extent + 1) delta.toNat)
    · exact clears_backward b id delta.natAbs

end Perform

/-! ## Cursors that only go forward -/

/-- The buffer after some operations. -/
def after (ops : List CursorOp) (b : Buffer) : Buffer := (performAll ops b).2

lemma after_append (ops rest : List CursorOp) (b : Buffer) :
    after (ops ++ rest) b = after rest (after ops b) := by
  induction ops generalizing b with
  | nil => rfl
  | cons op ops ih => exact ih (b.perform op).2

lemma after_concat (ops : List CursorOp) (op : CursorOp) (b : Buffer) :
    after (ops ++ [op]) b = ((after ops b).perform op).2 := after_append ops [op] b

/-- A cursor that has been there before anything was dropped, or was created or put where such a cursor is,
and has not gone back since. -/
inductive Steadfast (start : Buffer) : List CursorOp → CursorId → Prop where
  | early {ops : List CursorOp} {id : CursorId} (hfirst : (after ops start).firstOffset = 0)
      (hlive : ((after ops start).place? id).isSome = true) : Steadfast start ops id
  | created {ops : List CursorOp} {id : CursorId} (h : Steadfast start ops id) :
      Steadfast start (ops ++ [.createFrom id]) (after ops start).nextCursor
  | copied {ops : List CursorOp} {source target : CursorId} (h : Steadfast start ops source)
      (hlive : ((after ops start).place? target).isSome = true) :
      Steadfast start (ops ++ [.copy source target]) target
  | forward {ops : List CursorOp} {op : CursorOp} {id : CursorId} {o o' : Nat}
      (h : Steadfast start ops id) (ho : (after ops start).place? id = some o)
      (ho' : (after (ops ++ [op]) start).place? id = some o') (hle : o ≤ o') :
      Steadfast start (ops ++ [op]) id

section Steadfast

variable {start : Buffer} {bytes : List UInt8} {ops : List CursorOp} {id : CursorId} {o n : Nat}

lemma Window.after (hb : start.Window bytes) (hfit : bytes.length + start.lookback.toNat < 2 ^ 64)
    (ops : List CursorOp) :
    (after ops start).Window bytes ∧ (after ops start).lookback = start.lookback := by
  induction ops using List.reverseRecOn with
  | nil => exact ⟨hb, rfl⟩
  | append_singleton ops op ih =>
    obtain ⟨hw, hlookback⟩ := ih
    rw [after_concat]
    refine ⟨(hw.follows op).window, ?_⟩
    exact (hw.clears_perform (hlookback ▸ hfit) op).lookback.trans hlookback

/-- Nothing is dropped that is not behind such a cursor by at least the lookback. -/
lemma Steadfast.clear (h : Steadfast start ops id) (hb : start.Window bytes)
    (hfit : bytes.length + start.lookback.toNat < 2 ^ 64) :
    ∃ o, (after ops start).place? id = some o ∧
      (after ops start).firstOffset + min start.lookback.toNat o ≤ o := by
  induction h with
  | early hfirst hlive =>
    obtain ⟨o, ho⟩ := Option.isSome_iff_exists.1 hlive
    exact ⟨o, ho, by omega⟩
  | @created ops id _ ih =>
    obtain ⟨o, ho, hclear⟩ := ih
    obtain ⟨hw, -⟩ := hb.after hfit ops
    obtain ⟨-, -, hplace⟩ := hw.createFrom ho
    rw [after_concat]
    refine ⟨o, ?_, hclear⟩
    exact (congrFun hplace _).trans (Function.update_self _ _ _)
  | @copied ops source target _ hlive ih =>
    obtain ⟨o, ho, hclear⟩ := ih
    obtain ⟨hw, -⟩ := hb.after hfit ops
    have hplace := (hw.copy ho hlive).place?
    obtain ⟨-, hfirst⟩ := clears_copy (Buffer.after ops start) source target
    rw [after_concat]
    refine ⟨o, ?_, ?_⟩
    · exact (congrFun hplace _).trans (Function.update_self _ _ _)
    · exact hfirst.symm ▸ hclear
  | @forward ops op id o o' _ ho ho' hle ih =>
    obtain ⟨hw, hlookback⟩ := hb.after hfit ops
    obtain ⟨_, hp, hclear⟩ := ih
    cases ho.symm.trans hp
    refine ⟨o', ho', ?_⟩
    have hstep := (hw.clears_perform (hlookback ▸ hfit) op).clear
    rw [← after_concat, hlookback] at hstep
    obtain hsame | hclear' := hstep
    · omega
    · have := hclear' id o' ho'
      omega

end Steadfast

/-! ## Going back and reading again -/

section Again

variable {b : Buffer} {bytes : List UInt8} (hb : b.Window bytes) {id : CursorId} {o n : Nat}
include hb

/-- A cursor goes back as far as asked for, down to the oldest byte held. -/
lemma Window.move_back (ho : b.place? id = some o) (hn : b.firstOffset + n ≤ o) :
    ∃ b', b.move id (-n) = (-(n : Int), b') ∧ b'.Window bytes ∧ b'.place? id = some (o - n) := by
  cases n with
  | zero => exact ⟨b, rfl, hb, ho⟩
  | succ n =>
    obtain ⟨b', hback, hs, -⟩ := hb.backward (n + 1) ho
    rw [Nat.min_eq_left (by omega)] at hback hs
    refine ⟨b', ?_, hs.window, ?_⟩
    · rw [Buffer.move, if_neg (by omega), Int.natAbs_neg, Int.natAbs_natCast, hback]
    · rw [hs.place?, Function.update_self]

lemma Window.serves_readBytes (ho : b.place? id = some o) (n : Nat) :
    ∃ b', CharReader.readBytes id n b = ((bytes.drop o).take n, b') ∧
      Serves bytes b b' (Function.update b.place? id (some (min (o + n) bytes.length))) := by
  induction n generalizing b o with
  | zero =>
    refine ⟨b, rfl, ?_⟩
    rw [Nat.add_zero, Nat.min_eq_left (hb.place?_mem ho).2, ← ho, Function.update_eq_self]
    exact .refl hb
  | succ n ih =>
    obtain ⟨b₁, hread, hs⟩ := hb.read ho
    have hplace : b₁.place? id = some (min (o + 1) bytes.length) := by
      rw [hs.place?, Function.update_self]
    obtain ⟨b₂, hrest, hs'⟩ := ih hs.window hplace
    rw [hs.place?, Function.update_idem] at hs'
    refine ⟨b₂, ?_, ?_⟩
    · rw [CharReader.readBytes, hread]
      obtain hlt | hle := Nat.lt_or_ge o bytes.length
      · rw [Nat.min_eq_left hlt] at hrest
        rw [List.getElem?_eq_getElem hlt, List.drop_eq_getElem_cons hlt]
        dsimp only
        rw [hrest]
        rfl
      · rw [Nat.min_eq_right (by omega), List.drop_length, List.take_nil] at hrest
        rw [List.getElem?_eq_none hle, List.drop_eq_nil_of_le hle, List.take_nil]
        exact hrest
    · have hend : min (min (o + 1) bytes.length + n) bytes.length = min (o + (n + 1)) bytes.length := by
        omega
      rw [← hend]
      exact hs.trans hs'

lemma Window.readBytes (ho : b.place? id = some o) (n : Nat) :
    ∃ b', CharReader.readBytes id n b = ((bytes.drop o).take n, b') ∧
      b'.place? id = some (min (o + n) bytes.length) := by
  obtain ⟨b', hread, hs⟩ := hb.serves_readBytes ho n
  exact ⟨b', hread, by rw [hs.place?, Function.update_self]⟩

end Again

/-- Of a stream that together with the lookback is not too long, whatever its chunks are: a cursor that has
been there before anything was dropped, or came from such a cursor, and has not gone back since, can at any
time be moved back by all of the lookback, or to the start of the stream.  From there it reads the same as
was read there before. -/
theorem lookback_guaranteed {feed : Feed} {limits : Limits}
    (hfit : feed.content.length + limits.lookback.toNat < 2 ^ 64) {ops : List CursorOp} {id : CursorId}
    (h : Steadfast (ofFeed feed limits) ops id) :
    ∃ o, (after ops (ofFeed feed limits)).place? id = some o ∧
      ∀ n ≤ min limits.lookback.toNat o,
        let moved := (after ops (ofFeed feed limits)).move id (-n)
        let again := CharReader.readBytes id n moved.2
        moved.1 = -(n : Int) ∧ again.1 = (feed.content.drop (o - n)).take n ∧ again.2.place? id = some o ∧
          ∀ before rest k p, ops = before ++ .read k :: rest →
            (after before (ofFeed feed limits)).place? k = some p → o - n ≤ p → p < o →
            ((after before (ofFeed feed limits)).read k).1 = again.1[p - (o - n)]? := by
  have hb := window_ofFeed feed limits
  obtain ⟨o, ho, hclear⟩ := h.clear hb hfit
  obtain ⟨hw, -⟩ := hb.after hfit ops
  have hend := (hw.place?_mem ho).2
  refine ⟨o, ho, fun n hn => ?_⟩
  obtain ⟨b₁, hmove, hw₁, hplace₁⟩ := hw.move_back ho
    ((Nat.add_le_add_left hn _).trans hclear)
  obtain ⟨b₂, hagain, hplace₂⟩ := hw₁.readBytes hplace₁ n
  dsimp only
  rw [hmove, hagain]
  refine ⟨rfl, rfl, ?_, fun before rest k p _ hp hfrom hto => ?_⟩
  · rw [hplace₂]
    congr 1
    omega
  · obtain ⟨hw₀, -⟩ := hb.after hfit before
    obtain ⟨b', hread, -⟩ := hw₀.read hp
    rw [hread, List.getElem?_take_of_lt (by omega), List.getElem?_drop, Nat.add_sub_cancel' hfrom]

theorem lookback_guaranteed_createdCursor :
    let feed : Feed := [.bytes [0, 1, 2], .interrupted, .bytes [3, 4, 5, 6, 7, 8, 9]]
    let limits : Limits := { chunkSize := 2, lookback := 3 }
    let b := after [.create, .move 0 8, .createFrom 0] (ofFeed feed limits)
    b.firstOffset = 3 ∧ b.place? 1 = some 8 ∧ (b.move 1 (-3)).1 = -3 ∧
      (CharReader.readBytes 1 3 (b.move 1 (-3)).2).1 = [5, 6, 7] := by
  intro feed limits b
  have hstart : (after [.create] (ofFeed feed limits)).place? 0 = some 0 := by decide +kernel
  have hmoved : (after [.create, .move 0 8] (ofFeed feed limits)).place? 0 = some 8 := by
    decide +kernel
  have hnext : (after [.create, .move 0 8] (ofFeed feed limits)).nextCursor = 1 := by decide +kernel
  have hplace : b.place? 1 = some 8 := by decide +kernel
  have hearly : Steadfast (ofFeed feed limits) [.create] 0 :=
    .early (by decide +kernel) (by rw [hstart]; rfl)
  have hforward : Steadfast (ofFeed feed limits) ([.create] ++ [.move 0 8]) 0 :=
    hearly.forward hstart hmoved (by decide)
  have h : Steadfast (ofFeed feed limits) ([.create, .move 0 8] ++ [.createFrom 0]) 1 :=
    hnext ▸ hforward.created
  obtain ⟨o, ho, hback⟩ := lookback_guaranteed (by decide) h
  cases ho.symm.trans hplace
  obtain ⟨hdistance, hagain, -, -⟩ := hback 3 (by decide)
  exact ⟨by decide +kernel, hplace, hdistance, hagain⟩

/-! ## Counting in 64 bits -/

/-- How buffers come about: cursors are put anywhere in what is held, and a chunk is fetched if there is
a cursor. -/
inductive Arises (start : Buffer) : Buffer → Prop where
  | start : Arises start start
  | place {b : Buffer} {cursors : List (CursorId × Cursor)} {next : CursorId} (h : Arises start b)
      (hstands : ∀ e ∈ cursors, b.Stands e.2)
      (hfresh : ({ b with cursors, nextCursor := next } : Buffer).Fresh) :
      Arises start { b with cursors, nextCursor := next }
  | pull {b : Buffer} (h : Arises start b) (hlive : b.cursors ≠ []) : Arises start b.pull.2

namespace Arises

variable {start b : Buffer} {bytes : List UInt8} {id : CursorId} {c : Cursor}

lemma window (hb : start.Window bytes) (h : Arises start b) : b.Window bytes := by
  induction h with
  | start => exact hb
  | place _ hstands hfresh hw =>
    exact ⟨hw.ne_nil, hw.chained, hw.shown, hw.stop_le, hw.coming, hw.chunkSize, hstands, hfresh⟩
  | pull _ _ hw =>
    obtain ⟨b', hp, hs, -⟩ := hw.pull
    rw [hp]
    exact hs.window

/-! ### Operations -/

section Operations

variable (h : Arises start b)
include h

lemma setCursor (hw : (b.setCursor id c).Window bytes) : Arises start (b.setCursor id c) :=
  .place h hw.stands hw.fresh

lemma addCursor (hw : (b.addCursor c).2.Window bytes) : Arises start (b.addCursor c).2 :=
  .place h hw.stands hw.fresh

variable (hb : b.Window bytes)
include hb

lemma advances {b' : Buffer} (h' : Advances b b') : Arises start b' := by
  induction h' with
  | refl => exact h
  | forward h' hc hstands hle ih => exact ih.setCursor ((h'.forward hc hstands hle).window hb)
  | pull _ hlive ih => exact ih.pull hlive

lemma perform (op : CursorOp) : Arises start (b.perform op).2 := by
  have hw := (hb.follows op).window
  cases op with
  | create => exact h.addCursor hw
  | createFrom id => exact h.addCursor hw
  | delete id => exact .place h hw.stands hw.fresh
  | copy source target =>
    rw [Buffer.perform, Buffer.copy] at hw ⊢
    cases hc : b.cursor? source with
    | none => exact h
    | some c =>
      rw [hc] at hw
      exact h.setCursor hw
  | read id => exact h.advances hb (Advances.refl.read hb id)
  | fetch id =>
    rw [Buffer.perform, fetch_snd]
    exact h.advances hb (Advances.refl.ensure hb id)
  | atEnd id => exact h.advances hb (Advances.refl.ensure hb id)
  | move id delta =>
    rw [Buffer.perform, Buffer.move] at hw ⊢
    split
    · exact h.advances hb (Advances.refl.advanceBy hb id (b.extent + 1) delta.toNat)
    · next hdelta =>
      rw [if_neg hdelta, Buffer.backward] at hw
      rw [Buffer.backward]
      cases hc : b.cursor? id with
      | none => exact h
      | some c =>
        rw [hc] at hw
        exact h.setCursor hw

end Operations

lemma after (hb : start.Window bytes) (ops : List CursorOp) : Arises start (Buffer.after ops start) := by
  induction ops using List.reverseRecOn with
  | nil => exact .start
  | append_singleton ops op ih =>
    rw [after_concat]
    exact ih.perform (ih.window hb) op

end Arises

/-! ### Lengths -/

/-- The chunks are no larger than asked for, and before anything was dropped all of the lookback had been
read.  What a stream begins with is a chunk without bytes. -/
structure Measured (b : Buffer) : Prop where
  small : ∀ c ∈ b.chunks, c.data.size ≤ b.chunkSize
  kept : b.firstOffset + b.chunkLength 0 = 0 ∨ b.firstOffset + b.lookback.toNat ≤ b.stop

/-- The offsets of all bytes that have been read fit into 64 bits, and those of one more chunk. -/
def Fits (b : Buffer) : Prop := b.stop + min b.chunkSize b.stop < 2 ^ 64

namespace Measured

variable {b b' : Buffer} {bytes : List UInt8}

lemma of_pulls (hm : Measured b) (hne : b.chunks ≠ []) (h : Pulls b b') : Measured b' := by
  obtain ⟨hfirst, hlength⟩ := h.first hne
  refine ⟨fun c hc => ?_, ?_⟩
  · rw [h.chunkSize]
    cases h with
    | same hchunks _ _ => exact hm.small c (hchunks ▸ hc)
    | more hchunks hdata _ _ =>
      rw [hchunks] at hc
      rcases List.mem_append.1 hc with hc | hc
      · exact hm.small c hc
      · rw [List.mem_singleton.1 hc]
        exact hdata
  · rw [hfirst, hlength, h.lookback]
    exact hm.kept.imp_right fun hkept => hkept.trans h.stop_le

variable (hm : Measured b) (hb : b.Window bytes) (hfits : b.Fits)
include hb hm hfits

/-- The first chunk starts at least a lookback before the end of what has been read, or it is the one without
bytes at the start of the stream. -/
lemma chunkStart_add_lt (hlen : 2 ≤ b.chunks.length) : b.chunkStart 1 + b.lookback.toNat < 2 ^ 64 := by
  have hfirst := List.getElem?_eq_getElem (show 0 < b.chunks.length by omega)
  have hsecond := List.getElem?_eq_getElem (show 1 < b.chunks.length by omega)
  have hmem := List.mem_of_getElem? hfirst
  have hsmall := hm.small _ hmem
  have hstop := hb.chunk_stop_le hmem
  have hstart := hb.start_succ hfirst hsecond
  have hkept := hm.kept
  have hlookback := b.lookback.toNat_lt
  rw [firstOffset, chunkStart, hfirst, chunkLength_eq hfirst] at hkept
  rw [chunkStart, hsecond]
  dsimp only at hkept ⊢
  unfold Chunk.stop at hstart hstop
  unfold Fits at hfits
  omega

/-- The test whether the first chunk may be dropped is the one over the natural numbers. -/
lemma canDropFront_iff : b.canDropFront = true ↔ 2 ≤ b.chunks.length ∧
    ∀ e ∈ b.cursors, 0 < e.2.chunk ∧ b.chunkStart 1 + b.lookback.toNat ≤ b.offsetOf e.2 :=
  hb.canDropFront_iff (Nat.lt_of_le_of_lt (Nat.le_add_right _ _) hfits) (hm.chunkStart_add_lt hb hfits)

/-- Once a chunk is dropped, all of the lookback has been read. -/
lemma dropFront (hlive : b.cursors ≠ []) (hdrop : b.canDropFront = true) : Measured b.dropFront := by
  refine ⟨fun c hc => hm.small c (List.mem_of_mem_tail hc), .inr ?_⟩
  obtain ⟨e, he⟩ := List.exists_mem_of_ne_nil _ hlive
  obtain ⟨-, hclear⟩ := (hm.canDropFront_iff hb hfits).1 hdrop
  rw [firstOffset_dropFront, (hb.dropFront hdrop).2]
  exact (hclear e he).2.trans (hb.offsetOf_mem (hb.stands e he)).2

end Measured

/-- Nothing wraps around on the way to a buffer if nothing does there. -/
lemma Arises.measured {feed : Feed} {limits : Limits} {b : Buffer} (h : Arises (ofFeed feed limits) b)
    (hfits : b.Fits) : Measured b := by
  induction h with
  | start =>
    refine ⟨fun c hc => ?_, .inl rfl⟩
    rw [List.mem_singleton.1 hc]
    exact Nat.zero_le _
  | place _ _ _ ih =>
    have hm := ih hfits
    exact ⟨hm.small, hm.kept⟩
  | @pull b h hlive ih =>
    have hb := h.window (window_ofFeed feed limits)
    obtain hpulls | ⟨hdrop, hpulls⟩ := pulls_pull b
    · have hstop := hpulls.stop_le
      have hsize := hpulls.chunkSize
      have hm := ih (by unfold Fits at hfits ⊢; omega)
      exact hm.of_pulls hb.ne_nil hpulls
    · obtain ⟨hserves, hsame⟩ := hb.dropFront hdrop
      have hstop := hpulls.stop_le
      have hsize : b.pull.2.chunkSize = b.chunkSize := hpulls.chunkSize
      have hfits' : b.Fits := by unfold Fits at hfits ⊢; omega
      exact ((ih hfits').dropFront hb hfits' hlive hdrop).of_pulls hserves.window.ne_nil hpulls

lemma Arises.lookback {feed : Feed} {limits : Limits} {b : Buffer} (h : Arises (ofFeed feed limits) b) :
    b.lookback = limits.lookback := by
  induction h with
  | start => rfl
  | place _ _ _ ih => exact ih
  | @pull b _ _ ih =>
    obtain hpulls | ⟨-, hpulls⟩ := pulls_pull b
    · exact hpulls.lookback.trans ih
    · exact hpulls.lookback.trans ih

/-- Whatever the size of chunks and the lookback are, whatever is delivered and wherever cursors are put: the
test whether the first chunk may be dropped is the one over the natural numbers, as far as offsets fit into 64
bits at all.  While less than the lookback has been read, the second chunk starts at zero.  A chunk is dropped
only if every cursor keeps all of the lookback behind it. -/
theorem dropping_exact (feed : Feed) (limits : Limits) :
    (∀ ops, Arises (ofFeed feed limits) (after ops (ofFeed feed limits))) ∧
      ∀ b, Arises (ofFeed feed limits) b → b.Fits →
        (2 ≤ b.chunks.length → b.chunkStart 1 + limits.lookback.toNat < 2 ^ 64) ∧
        (b.canDropFront = true ↔ 2 ≤ b.chunks.length ∧ ∀ e ∈ b.cursors,
          0 < e.2.chunk ∧ b.chunkStart 1 + limits.lookback.toNat ≤ b.offsetOf e.2) ∧
        (b.chunks <+: b.pull.2.chunks ∨
          ∀ e ∈ b.cursors, b.pull.2.firstOffset + limits.lookback.toNat ≤ b.offsetOf e.2) := by
  have hstart := window_ofFeed feed limits
  refine ⟨fun ops => .after hstart ops, fun b h hfits => ?_⟩
  have hb := h.window hstart
  have hm := h.measured hfits
  rw [← h.lookback]
  refine ⟨hm.chunkStart_add_lt hb hfits, hm.canDropFront_iff hb hfits, ?_⟩
  obtain hpulls | ⟨hdrop, hpulls⟩ := pulls_pull b
  · exact .inl hpulls.chunks_prefix
  · obtain ⟨hserves, -⟩ := hb.dropFront hdrop
    obtain ⟨-, hclear⟩ := (hm.canDropFront_iff hb hfits).1 hdrop
    rw [(hpulls.first hserves.window.ne_nil).1, firstOffset_dropFront]
    exact .inr fun e he => (hclear e he).2

/-- With the greatest lookback nothing is dropped. -/
theorem dropping_exact_greatestLookback :
    let feed : Feed := [.bytes [0, 1, 2], .interrupted, .bytes [3, 4, 5, 6, 7, 8, 9]]
    let limits : Limits := { chunkSize := 2, lookback := 18446744073709551615 }
    let b := after [.create, .move 0 8] (ofFeed feed limits)
    b.Fits ∧ b.chunks.length = 6 ∧ b.chunkStart 1 + limits.lookback.toNat < 2 ^ 64 ∧
      (∃ e ∈ b.cursors, b.offsetOf e.2 < b.chunkStart 1 + limits.lookback.toNat) ∧
      b.canDropFront = false := by
  intro feed limits b
  have hlen : b.chunks.length = 6 := by decide +kernel
  have hfits : b.Fits := by
    unfold Fits
    decide +kernel
  obtain ⟨harises, hexact⟩ := dropping_exact feed limits
  obtain ⟨hsum, hdrop, -⟩ := hexact b (harises _) hfits
  have hbehind : ∃ e ∈ b.cursors, b.offsetOf e.2 < b.chunkStart 1 + limits.lookback.toNat := by
    decide +kernel
  refine ⟨hfits, hlen, hsum (by omega), hbehind, Bool.eq_false_iff.2 fun h => ?_⟩
  obtain ⟨e, he, hlt⟩ := hbehind
  exact absurd ((hdrop.1 h).2 e he).2 (Nat.not_le.2 hlt)

end Semdoc.Buffer
