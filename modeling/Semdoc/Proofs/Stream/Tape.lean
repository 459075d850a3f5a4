import Semdoc.Proofs.Stream.Cursors

/-!
# Streams with cursors

Seen from outside a buffer is a tape: the whole stream with cursors at offsets of it, of which the part
before some offset can no longer be reached.  How the stream is delivered, cut into chunks and dropped
again shows in nothing but that first offset, which moves forward only and stays behind every cursor.
-/

namespace Semdoc

/-- The operations on the cursors of a buffer. -/
inductive CursorOp where
  | create
  | createFrom (id : CursorId)
  | delete (id : CursorId)
  | copy (source target : CursorId)
  | read (id : CursorId)
  | fetch (id : CursorId)
  | atEnd (id : CursorId)
  | move (id : CursorId) (delta : Int)

/-- The live cursor that an operation may move or delete. -/
def CursorOp.target? : CursorOp → Option CursorId
  | delete id | copy _ id | read id | move id _ => some id
  | create | createFrom _ | fetch _ | atEnd _ => none

/-- What an operation on cursors answers. -/
inductive Reply where
  | done
  | cursor (id : CursorId)
  | byte (c : Option UInt8)
  | flag (ok : Bool)
  | distance (d : Int)
  deriving DecidableEq

namespace Buffer

/-- The answer to an operation and the buffer after it. -/
def perform (b : Buffer) : CursorOp → Reply × Buffer
  | .create => (.cursor b.create.1, b.create.2)
  | .createFrom id => (.cursor (b.createFrom id).1, (b.createFrom id).2)
  | .delete id => (.done, b.delete id)
  | .copy source target => (.done, b.copy source target)
  | .read id => (.byte (b.read id).1, (b.read id).2)
  | .fetch id => (.byte (b.fetch id).1, (b.fetch id).2)
  | .atEnd id => (.flag (b.atEnd id).1, (b.atEnd id).2)
  | .move id delta => (.distance (b.move id delta).1, (b.move id delta).2)

/-- The answers to some operations in order and the buffer after them. -/
def performAll : List CursorOp → Buffer → List Reply × Buffer
  | [], b => ([], b)
  | op :: ops, b =>
    let (reply, b) := b.perform op
    let (replies, b) := performAll ops b
    (reply :: replies, b)

end Buffer

/-- A stream with cursors. -/
structure Tape where
  bytes : List UInt8
  /-- No cursor can be moved back before this offset. -/
  first : Nat
  /-- The offsets of the live cursors. -/
  place? : CursorId → Option Nat
  nextCursor : CursorId

namespace Tape

/-- A tape of which nothing has been read. -/
def start (bytes : List UInt8) : Tape :=
  { bytes, first := 0, place? := fun _ => none, nextCursor := 0 }

/-- Puts a cursor at an offset. -/
def put (t : Tape) (id : CursorId) (offset : Nat) : Tape :=
  { t with place? := Function.update t.place? id (some offset) }

/-- Adds a cursor at an offset. -/
def add (t : Tape) (offset : Nat) : Reply × Tape :=
  (.cursor t.nextCursor, { t.put t.nextCursor offset with nextCursor := t.nextCursor + 1 })

/-- The answer to an operation and the tape after it.  An operation on a cursor that is not live has no
effect, and sees neither bytes nor anything before it. -/
def perform (t : Tape) : CursorOp → Reply × Tape
  | .create => t.add t.first
  | .createFrom id => t.add ((t.place? id).getD t.first)
  | .delete id => (.done, { t with place? := Function.update t.place? id none })
  | .copy source target =>
    match t.place? source, t.place? target with
    | some offset, some _ => (.done, t.put target offset)
    | _, _ => (.done, t)
  | .read id =>
    match t.place? id with
    | none => (.byte none, t)
    | some offset =>
      match t.bytes[offset]? with
      | none => (.byte none, t)
      | some c => (.byte (some c), t.put id (offset + 1))
  | .fetch id => (.byte ((t.place? id).bind fun offset => t.bytes[offset]?), t)
  | .atEnd id => (.flag ((t.place? id).all fun offset => offset = t.bytes.length), t)
  | .move id delta =>
    match t.place? id with
    | none => (.distance 0, t)
    | some offset =>
      if 0 ≤ delta then
        let n := min delta.toNat (t.bytes.length - offset)
        (.distance n, t.put id (offset + n))
      else
        let n := min delta.natAbs (offset - t.first)
        (.distance (-n), t.put id (offset - n))

/-- An operation on a tape with its answer.  In addition it may move the first offset forward, but not
past any cursor. -/
structure Step (t : Tape) (op : CursorOp) (reply : Reply) (t' : Tape) : Prop where
  reply : reply = (t.perform op).1
  place? : t'.place? = (t.perform op).2.place?
  nextCursor : t'.nextCursor = (t.perform op).2.nextCursor
  bytes : t'.bytes = t.bytes
  others : ∀ id, op.target? ≠ some id → (t.place? id).isSome = true → t'.place? id = t.place? id
  first : t.first ≤ t'.first
  covered : ∀ id offset, t'.place? id = some offset →
    t'.first ≤ offset ∧ offset ≤ t'.bytes.length

/-- A sequence of operations on a tape with their answers. -/
inductive Run : Tape → List CursorOp → List Reply → Tape → Prop where
  | nil (t : Tape) : Run t [] [] t
  | cons {t t' t'' : Tape} {op : CursorOp} {reply : Reply} {ops : List CursorOp}
      {replies : List Reply} (h : t.Step op reply t') (hr : Run t' ops replies t'') :
      Run t (op :: ops) (reply :: replies) t''

end Tape

namespace Buffer

/-- What shows of a buffer on a stream. -/
def tape (b : Buffer) (bytes : List UInt8) : Tape :=
  { bytes, first := b.firstOffset, place? := b.place?, nextCursor := b.nextCursor }

variable {b : Buffer} {bytes : List UInt8}

lemma read_of_place?_none {id : CursorId} (h : b.place? id = none) :
    b.ensure id = (false, b) ∧ b.fetch id = (none, b) ∧ b.read id = (none, b) := by
  have hc : b.cursor? id = none := Option.map_eq_none_iff.1 h
  have he : b.ensure id = (false, b) := by rw [ensure, hc]
  have hf : b.fetch id = (none, b) := by
    rw [fetch, he]
    rfl
  exact ⟨he, hf, by rw [read, hf]⟩

lemma move_of_place?_none {id : CursorId} (h : b.place? id = none) (delta : Int) :
    b.move id delta = (0, b) := by
  have hc : b.cursor? id = none := Option.map_eq_none_iff.1 h
  have hf : ∀ distance, b.forward id distance = (0, b) := by
    intro distance
    rw [forward]
    cases distance with
    | zero => rfl
    | succ distance => rw [advanceBy, (read_of_place?_none h).1]
  have hb : ∀ distance, b.backward id distance = (0, b) := by
    intro distance
    rw [backward, hc]
  rw [Buffer.move, hf, hb]
  split <;> rfl

lemma setCursor_of_cursor?_none {id : CursorId} (h : b.cursor? id = none) (c : Cursor) :
    b.setCursor id c = b := by
  have hne : ∀ e ∈ b.cursors, e.1 ≠ id := by
    rintro e he rfl
    rw [cursor?, List.lookup_eq_none_iff] at h
    exact absurd (h e he) (by simp)
  have hm : (b.cursors.map fun e => if e.1 = id then (id, c) else e) = b.cursors :=
    (List.map_congr_left fun e he => if_neg (hne e he)).trans (List.map_id _)
  rw [Buffer.setCursor, hm]

/-! ## Single operations -/

/-- After an operation there is a window on the same stream, and what shows is a step of the tape. -/
structure Follows (b : Buffer) (bytes : List UInt8) (op : CursorOp) : Prop where
  window : (b.perform op).2.Window bytes
  step : (b.tape bytes).Step op (b.perform op).1 ((b.perform op).2.tape bytes)

lemma Serves.follows {b' : Buffer} {t : Tape} {op : CursorOp} (reply : Reply)
    (h : Serves bytes b b' t.place?) (hb : b.perform op = (reply, b'))
    (ht : (b.tape bytes).perform op = (reply, t)) (hn : t.nextCursor = b.nextCursor)
    (ho : ∀ id, op.target? ≠ some id → t.place? id = b.place? id) : b.Follows bytes op := by
  constructor
  · rw [hb]
    exact h.window
  · rw [hb]
    exact {
      reply := by rw [ht]
      place? := by rw [ht]; exact h.place?
      nextCursor := by rw [ht]; exact h.nextCursor.trans hn.symm
      bytes := rfl
      others := fun id hid _ => (congrFun h.place? id).trans (ho id hid)
      first := h.first
      covered := fun _ _ hid => h.window.place?_mem hid }

/-- An operation that moves or deletes one cursor. -/
lemma Serves.follows_update {b' : Buffer} {t : Tape} {op : CursorOp} (reply : Reply)
    {id : CursorId} {o : Option Nat} (h : Serves bytes b b' (Function.update b.place? id o))
    (hb : b.perform op = (reply, b')) (ht : (b.tape bytes).perform op = (reply, t))
    (hp : t.place? = Function.update b.place? id o) (hn : t.nextCursor = b.nextCursor)
    (hop : op.target? = some id) : b.Follows bytes op := by
  rw [← hp] at h
  refine h.follows reply hb ht hn fun k hk => ?_
  rw [hp, Function.update_of_ne]
  rintro rfl
  exact hk hop

namespace Window

variable (hb : b.Window bytes)
include hb

/-- An operation without effect. -/
lemma follows_self {op : CursorOp} (reply : Reply) (h : b.perform op = (reply, b))
    (ht : (b.tape bytes).perform op = (reply, b.tape bytes)) : b.Follows bytes op :=
  (Serves.refl hb).follows reply h ht rfl fun _ _ => rfl

lemma follows_addCursor {c : Cursor} (hc : b.Stands c) {op : CursorOp}
    (h : b.perform op = (.cursor (b.addCursor c).1, (b.addCursor c).2))
    (ht : (b.tape bytes).perform op = (b.tape bytes).add (b.offsetOf c)) :
    b.Follows bytes op := by
  obtain ⟨hw, hp⟩ := hb.addCursor hc
  constructor
  · rwa [h]
  · rw [h]
    refine ⟨by rw [ht]; rfl, by rw [ht]; exact hp, by rw [ht]; rfl, rfl, ?_, le_rfl,
      fun _ _ hid => hw.place?_mem hid⟩
    intro id _ hid
    refine (congrFun hp id).trans (Function.update_of_ne ?_ _ _)
    rintro rfl
    -- the name of a new cursor is none of those in use
    have hfresh : b.place? b.nextCursor = none := Option.map_eq_none_iff.2 (hb.fresh _ le_rfl)
    rw [show (b.tape bytes).place? = b.place? from rfl, hfresh] at hid
    cases hid

lemma follows_create : b.Follows bytes .create := by
  obtain ⟨hs, ho⟩ := hb.stands_first
  refine hb.follows_addCursor hs rfl ?_
  rw [ho]
  rfl

lemma follows_createFrom (id : CursorId) : b.Follows bytes (.createFrom id) := by
  cases hc : b.cursor? id with
  | none =>
    obtain ⟨hs, ho⟩ := hb.stands_first
    refine hb.follows_addCursor hs ?_ ?_
    · simp only [Buffer.perform, Buffer.createFrom, hc, Option.getD_none]
    · simp only [Tape.perform, tape, place?, hc, Option.map_none, Option.getD_none, ho]
  | some c =>
    refine hb.follows_addCursor (hb.stands_of_cursor? hc) ?_ ?_
    · simp only [Buffer.perform, Buffer.createFrom, hc, Option.getD_some]
    · simp only [Tape.perform, tape, place?, hc, Option.map_some, Option.getD_some]

lemma follows_copy (source target : CursorId) : b.Follows bytes (.copy source target) := by
  cases hs : b.cursor? source with
  | none =>
    refine hb.follows_self .done ?_ ?_
    · simp only [Buffer.perform, Buffer.copy, hs]
    · simp only [Tape.perform, tape, place?, hs, Option.map_none]
  | some c =>
    cases ht : b.cursor? target with
    | none =>
      refine hb.follows_self .done ?_ ?_
      · simp only [Buffer.perform, Buffer.copy, hs, setCursor_of_cursor?_none ht]
      · simp only [Tape.perform, tape, place?, hs, ht, Option.map_some, Option.map_none]
    | some d =>
      have hlive : (b.place? target).isSome = true := by
        rw [place?, ht]
        rfl
      have ho : b.place? source = some (b.offsetOf c) := by rw [place?, hs, Option.map_some]
      refine (hb.copy ho hlive).follows_update .done
        (t := (b.tape bytes).put target (b.offsetOf c)) rfl ?_ rfl rfl rfl
      simp only [Tape.perform, tape, place?, hs, ht, Option.map_some]

lemma follows_read (id : CursorId) : b.Follows bytes (.read id) := by
  cases ho : b.place? id with
  | none =>
    refine hb.follows_self (.byte none) ?_ ?_
    · simp only [Buffer.perform, (read_of_place?_none ho).2.2]
    · simp only [Tape.perform, tape, ho]
  | some o =>
    obtain ⟨b', hr, hs⟩ := hb.read ho
    have hp : b.perform (.read id) = (.byte bytes[o]?, b') := by
      simp only [Buffer.perform, hr]
    cases hbyte : bytes[o]? with
    | none =>
      have hend : min (o + 1) bytes.length = o := by
        have h1 := (hb.place?_mem ho).2
        have h2 := List.getElem?_eq_none_iff.1 hbyte
        omega
      rw [hend, ← ho, Function.update_eq_self] at hs
      rw [hbyte] at hp
      refine Serves.follows (t := b.tape bytes) (.byte none) hs hp ?_ rfl fun _ _ => rfl
      simp only [Tape.perform, tape, ho, hbyte]
    | some c =>
      rw [Nat.min_eq_left (List.getElem?_eq_some_iff.1 hbyte).1] at hs
      rw [hbyte] at hp
      refine hs.follows_update (.byte (some c)) (t := (b.tape bytes).put id (o + 1)) hp ?_ rfl rfl rfl
      simp only [Tape.perform, tape, ho, hbyte]

lemma follows_fetch (id : CursorId) : b.Follows bytes (.fetch id) := by
  cases ho : b.place? id with
  | none =>
    refine hb.follows_self (.byte none) ?_ ?_
    · simp only [Buffer.perform, (read_of_place?_none ho).2.1]
    · simp only [Tape.perform, tape, ho, Option.bind_none]
  | some o =>
    obtain ⟨b', hf, hs, -⟩ := hb.fetch ho
    refine Serves.follows (t := b.tape bytes) (.byte bytes[o]?) hs ?_ ?_ rfl
      fun _ _ => rfl
    · simp only [Buffer.perform, hf]
    · simp only [Tape.perform, tape, ho, Option.bind_some]

lemma follows_atEnd (id : CursorId) : b.Follows bytes (.atEnd id) := by
  cases ho : b.place? id with
  | none =>
    refine hb.follows_self (.flag true) ?_ ?_
    · simp only [Buffer.perform, Buffer.atEnd, (read_of_place?_none ho).1, Bool.not_false]
    · simp only [Tape.perform, tape, ho, Option.all_none]
  | some o =>
    obtain ⟨b', he, hs⟩ := hb.atEnd ho
    refine Serves.follows (t := b.tape bytes) (.flag (decide (o = bytes.length))) hs
      ?_ ?_ rfl fun _ _ => rfl
    · simp only [Buffer.perform, he]
    · simp only [Tape.perform, tape, ho, Option.all_some]
      rfl

lemma follows_move (id : CursorId) (delta : Int) : b.Follows bytes (.move id delta) := by
  cases ho : b.place? id with
  | none =>
    refine hb.follows_self (.distance 0) ?_ ?_
    · simp only [Buffer.perform, move_of_place?_none ho]
    · simp only [Tape.perform, tape, ho]
  | some o =>
    by_cases hd : 0 ≤ delta
    · obtain ⟨b', hf, hs⟩ := hb.forward delta.toNat ho
      have hp : b.perform (.move id delta) =
          (.distance (min delta.toNat (bytes.length - o) : Nat), b') := by
        simp only [Buffer.perform, Buffer.move, if_pos hd, hf]
      refine hs.follows_update _ (t := (b.tape bytes).put id (o + min delta.toNat (bytes.length - o)))
        hp ?_ rfl rfl rfl
      simp only [Tape.perform, tape, ho, if_pos hd]
    · obtain ⟨b', hf, hs, -⟩ := hb.backward delta.natAbs ho
      have hp : b.perform (.move id delta) =
          (.distance (-(min delta.natAbs (o - b.firstOffset) : Nat)), b') := by
        simp only [Buffer.perform, Buffer.move, if_neg hd, hf]
      refine hs.follows_update _
        (t := (b.tape bytes).put id (o - min delta.natAbs (o - b.firstOffset))) hp ?_ rfl rfl rfl
      simp only [Tape.perform, tape, ho, if_neg hd]

/-- Every operation on a window is a step of the tape. -/
theorem follows (op : CursorOp) : b.Follows bytes op := by
  cases op with
  | create => exact hb.follows_create
  | createFrom id => exact hb.follows_createFrom id
  | delete id =>
    exact (hb.delete id).follows_update .done (t := ((b.tape bytes).perform (.delete id)).2) rfl rfl rfl
      rfl rfl
  | copy source target => exact hb.follows_copy source target
  | read id => exact hb.follows_read id
  | fetch id => exact hb.follows_fetch id
  | atEnd id => exact hb.follows_atEnd id
  | move id delta => exact hb.follows_move id delta

/-- Operations in any order are a run of the tape. -/
theorem run (ops : List CursorOp) :
    (b.tape bytes).Run ops (performAll ops b).1 ((performAll ops b).2.tape bytes) := by
  induction ops generalizing b with
  | nil => exact .nil _
  | cons op ops ih =>
    have h := hb.follows op
    exact .cons h.step (ih h.window)

end Window

/-! ## Sessions with a buffer -/

lemma window_ofFeed (feed : Feed) (limits : Limits) : (ofFeed feed limits).Window feed.content := by
  refine ⟨List.cons_ne_nil _ _, .singleton _, ?_, Nat.zero_le _, rfl, ?_, ?_, fun _ _ => rfl⟩
  · intro c hc
    rw [List.mem_singleton.1 hc]
    exact List.nil_prefix
  · exact Nat.lt_of_lt_of_le Nat.zero_lt_one (Nat.le_max_right _ _)
  · intro e he
    cases he

lemma window_ofBytes (bytes : List UInt8) : (ofBytes bytes).Window bytes := by
  have hstop : (ofBytes bytes).stop = bytes.length := Nat.zero_add _
  refine ⟨List.cons_ne_nil _ _, .singleton _, ?_, hstop.le, ?_, ?_, ?_, fun _ _ => rfl⟩
  · intro c hc
    rw [List.mem_singleton.1 hc]
    exact List.prefix_refl _
  · rw [hstop, List.drop_length]
    rfl
  · show 0 < ({} : Limits).chunkSize.toNat
    decide
  · intro e he
    cases he

/-- Any operations on a buffer answer as on the tape of all bytes that its source delivers before its
end, however it delivers them and whatever the size of chunks and the lookback are. -/
theorem operations_follow_tape :
    (∀ (feed : Feed) (limits : Limits) (ops : List CursorOp),
      (Tape.start feed.content).Run ops (Buffer.performAll ops (ofFeed feed limits)).1
        ((Buffer.performAll ops (ofFeed feed limits)).2.tape feed.content)) ∧
    ∀ (bytes : List UInt8) (ops : List CursorOp),
      (Tape.start bytes).Run ops (Buffer.performAll ops (ofBytes bytes)).1
        ((Buffer.performAll ops (ofBytes bytes)).2.tape bytes) :=
  ⟨fun feed limits ops => (window_ofFeed feed limits).run ops,
    fun bytes ops => (window_ofBytes bytes).run ops⟩

end Buffer

end Semdoc
