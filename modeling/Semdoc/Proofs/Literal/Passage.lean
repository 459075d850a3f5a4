import Semdoc.Literal.Reading
import Semdoc.Proofs.Stream.ReaderStack

/-!
# Readings of a stream

Where a reading leaves a reader that has made some progress in a stream, and what results it may have there.
It never goes back, and no other reader of the stream notices it.
-/

namespace Semdoc

open CharReader (step? Steps blanksEnd)

/-- A reader of a stream has made some progress. -/
structure CharReader.On (bytes : List UInt8) (p : Progress) (r : CharReader) : Prop where
  window : r.buffer.Window bytes
  shows : CharReader.Shows bytes p r

/-- What a reading may have as a result, and how far the reader then is. -/
def Reading.Leads {α : Type} (bytes : List UInt8) (x : Reading α) (p : Progress)
    (post : α → Progress → Prop) : Prop :=
  ∀ r, r.On bytes p → ∃ q, (x r).value.2.On bytes q ∧ CharReader.Becomes bytes r (x r).value.2 ∧
    p.read ≤ q.read ∧ post (x r).value.1 q

namespace CharReader

variable {bytes : List UInt8} {p q : Progress} {r f f' : CharReader}

lemma On.le (h : r.On bytes p) : p.read ≤ p.peek ∧ p.peek ≤ bytes.length := h.shows.le h.window

lemma On.offset (h : r.On bytes p) : r.offset = p.read := offset_eq h.shows.read

lemma Becomes.refl (h : r.buffer.Window bytes) : Becomes bytes r r := ⟨h, rfl, rfl, fun _ _ _ => rfl⟩

/-! ## Forks -/

lemma On.stack (h : r.On bytes p) : (ReaderStack.ofReader r).Shows bytes [p] :=
  ⟨h.window, .cons h.shows .nil, .cons nofun .nil⟩

/-- The stack of a fork and its parent, after the fork has been used. -/
lemma On.stack_fork (h : r.On bytes p) (hf : f.On bytes q) (hb : Becomes bytes r.fork f) :
    ReaderStack.Shows bytes { buffer := f.buffer, readers := [f, r] } [q, p] := by
  have hs := h.stack.fork (r := r) rfl
  have hr : [r.fork, r][0]? = some r.fork := rfl
  exact hs.use hr hf.shows hb

lemma On.fork (h : r.On bytes p) : r.fork.On bytes p := by
  have hs := h.stack.fork (r := r) rfl
  exact ⟨hs.window, (List.forall₂_cons.1 hs.each).1⟩

/-- Copying a cursor moves no other. -/
lemma place?_copy_of_ne (b : Buffer) {source target k : CursorId} (hk : k ≠ target) :
    (b.copy source target).place? k = b.place? k := by
  unfold Buffer.copy
  split
  · next c _ => rw [Buffer.place?, Buffer.cursor?_setCursor, if_neg hk]; rfl
  · rfl

/-- A fork has the next two cursors. -/
lemma On.fork_cursors (h : r.On bytes p) :
    r.fork.readCursor = r.buffer.nextCursor ∧ r.fork.peekCursor = r.buffer.nextCursor + 1 ∧
      r.fork.buffer.place? = Function.update
        (Function.update r.buffer.place? r.buffer.nextCursor (some p.read))
        (r.buffer.nextCursor + 1) (some p.peek) := by
  obtain ⟨hn₁, hw₁, hp₁⟩ := h.window.createFrom h.shows.read
  have hpeek : (r.buffer.createFrom r.readCursor).2.place? r.peekCursor = some p.peek := by
    rw [hp₁, Function.update_of_ne (h.window.fresh.lt_of_place? h.shows.peek).ne]
    exact h.shows.peek
  obtain ⟨hn₂, -, hp₂⟩ := hw₁.createFrom hpeek
  have hnext : (r.buffer.createFrom r.readCursor).2.nextCursor = r.buffer.nextCursor + 1 := rfl
  rw [hnext] at hn₂ hp₂
  rw [hp₁] at hp₂
  exact ⟨hn₁, hn₂, hp₂⟩

/-- Without the cursors of the fork, no cursor but those of its parent has moved. -/
lemma On.delete_fork (h : r.On bytes p) (hb : Becomes bytes r.fork f) {b : Buffer}
    (hw : b.Window bytes) (hsame : ∀ k, ¬ r.Uses k → b.place? k = f.buffer.place? k)
    {k : CursorId} (hk : ¬ r.Uses k) :
    ((b.delete f.readCursor).delete f.peekCursor).place? k = r.buffer.place? k := by
  obtain ⟨hread, hpeek, hplace⟩ := h.fork_cursors
  have h₁ := hw.delete f.readCursor
  have h₂ := h₁.window.delete f.peekCursor
  have hnew : ∀ k, r.buffer.nextCursor ≤ k → r.buffer.place? k = none := by
    intro k hk
    rw [Buffer.place?, h.window.fresh k hk, Option.map_none]
  rw [h₂.place?, h₁.place?, hb.readCursor, hb.peekCursor, hread, hpeek, Function.update_apply,
    Function.update_apply]
  split
  · next e => exact (hnew k (e ▸ Nat.le_succ _)).symm
  · next hk' =>
    split
    · next e => exact (hnew k e.ge).symm
    · next hk'' =>
      rw [hsame k hk, hb.others k (hread ▸ hk'') (hpeek ▸ hk'), hplace,
        Function.update_of_ne hk', Function.update_of_ne hk'']

/-- A fork that is discarded leaves its parent where it was. -/
lemma On.discard (h : r.On bytes p) (hf : f.On bytes q) (hb : Becomes bytes r.fork f) :
    (f.discard r).On bytes p ∧ Becomes bytes r (f.discard r) := by
  have hs := (h.stack_fork hf hb).discard rfl
  refine ⟨⟨hs.window, (List.forall₂_cons.1 hs.each).1⟩, hs.window, rfl, rfl, fun k hk hk' => ?_⟩
  exact h.delete_fork hb hf.window (fun _ _ => rfl) (not_or.2 ⟨hk, hk'⟩)

/-- A fork that is committed moves its parent to where it is. -/
lemma On.commit (h : r.On bytes p) (hf : f.On bytes q) (hb : Becomes bytes r.fork f) :
    (f.commit r).On bytes q ∧ Becomes bytes r (f.commit r) := by
  have hc := (h.stack_fork hf hb).copy rfl
  have hs := hc.discard rfl
  refine ⟨⟨hs.window, (List.forall₂_cons.1 hs.each).1⟩, hs.window, rfl, rfl, fun k hk hk' => ?_⟩
  refine h.delete_fork hb hc.window (fun k hk => ?_) (not_or.2 ⟨hk, hk'⟩)
  rw [place?_copy_of_ne _ fun e => hk (.inr e), place?_copy_of_ne _ fun e => hk (.inl e)]

end CharReader

namespace Reading.Leads

variable {α β : Type} {bytes : List UInt8} {p : Progress} {x : Reading α} {post : α → Progress → Prop}

lemma pure {a : α} (h : post a p) : Leads bytes (Pure.pure a) p post :=
  fun _ hr => ⟨p, hr, .refl hr.window, le_rfl, h⟩

lemma bind {f : α → Reading β} {post : β → Progress → Prop}
    (h : Leads bytes x p fun a q => Leads bytes (f a) q post) : Leads bytes (x >>= f) p post := by
  intro r hr
  obtain ⟨q, hq, hb, hle, hf⟩ := h r hr
  obtain ⟨s, hs, hb', hle', hpost⟩ := hf _ hq
  exact ⟨s, hs, hb.trans hb', hle.trans hle', hpost⟩

/-- What is known of every place that a reading may leave a reader at. -/
lemma mono {post' : α → Progress → Prop} (h : Leads bytes x p post)
    (hpost : ∀ a q, p.read ≤ q.read → q.peek ≤ bytes.length → q.read ≤ q.peek → post a q →
      post' a q) : Leads bytes x p post' := by
  intro r hr
  obtain ⟨q, hq, hb, hle, ha⟩ := h r hr
  exact ⟨q, hq, hb, hle, hpost _ q hle hq.le.2 hq.le.1 ha⟩

/-- A reading that leaves the reader alone. -/
lemma of_snd_eq (hx : ∀ r, (x r).value.2 = r) (h : ∀ a, post a p) : Leads bytes x p post := by
  intro r hr
  rw [hx]
  exact ⟨p, hr, .refl hr.window, le_rfl, h _⟩

lemma offset {post : Nat → Progress → Prop} (h : ∀ o, post o p) :
    Leads bytes Reading.offset p post := of_snd_eq (fun _ => rfl) h

lemma location {post : Location → Progress → Prop} (h : ∀ l, post l p) :
    Leads bytes Reading.location p post := of_snd_eq (fun _ => rfl) h

lemma locationFrom {start : Nat} {post : Location → Progress → Prop} (h : ∀ l, post l p) :
    Leads bytes (Reading.locationFrom start) p post := of_snd_eq (fun _ => rfl) h

lemma error {text : String} {l : Location} {post : Unit → Progress → Prop} (h : post () p) :
    Leads bytes (Reading.error text l) p post := of_snd_eq (fun _ => rfl) fun _ => h

lemma warning {text : String} {l : Location} {post : Unit → Progress → Prop} (h : post () p) :
    Leads bytes (Reading.warning text l) p post := of_snd_eq (fun _ => rfl) fun _ => h

lemma read {post : Option UInt8 → Progress → Prop}
    (hend : bytes.length ≤ p.read → post none p)
    (hchar : ∀ c q, step? bytes p.read = some (c, q.read) → p.read < q.read →
      q.read ≤ bytes.length → post (some c) q) : Leads bytes Reading.read p post := by
  intro r hr
  have hspec := hr.shows.read_spec hr.window
  cases hst : step? bytes p.read with
  | none =>
    rw [hst] at hspec
    obtain ⟨r', he, hs, hb⟩ := hspec
    show ∃ q, r.read.2.On bytes q ∧ CharReader.Becomes bytes r r.read.2 ∧ _ ∧ post r.read.1 q
    rw [he]
    exact ⟨p, ⟨hb.window, hs⟩, hb, le_rfl, hend (CharReader.step?_eq_none_iff.1 hst)⟩
  | some s =>
    obtain ⟨c, o⟩ := s
    rw [hst] at hspec
    obtain ⟨r', he, hs, hb⟩ := hspec
    obtain ⟨h1, h2⟩ := CharReader.step?_bounds hst
    show ∃ q, r.read.2.On bytes q ∧ CharReader.Becomes bytes r r.read.2 ∧ _ ∧ post r.read.1 q
    rw [he]
    exact ⟨_, ⟨hb.window, hs⟩, hb, h1.le, hchar c _ hst h1 h2⟩

lemma peek {post : Option UInt8 → Progress → Prop}
    (hend : bytes.length ≤ p.peek → post none p)
    (hchar : ∀ c q, step? bytes p.peek = some (c, q.peek) → q.read = p.read → p.read < q.peek →
      q.peek ≤ bytes.length → post (some c) q) : Leads bytes Reading.peek p post := by
  intro r hr
  obtain ⟨r', he, hs, hb⟩ := hr.shows.peek_spec hr.window
  show ∃ q, r.peek.2.On bytes q ∧ CharReader.Becomes bytes r r.peek.2 ∧ _ ∧ post r.peek.1 q
  rw [he]
  cases hst : step? bytes p.peek with
  | none =>
    rw [hst] at hs
    exact ⟨p, ⟨hb.window, hs⟩, hb, le_rfl, hend (CharReader.step?_eq_none_iff.1 hst)⟩
  | some s =>
    obtain ⟨c, o⟩ := s
    rw [hst] at hs
    obtain ⟨h1, h2⟩ := CharReader.step?_bounds hst
    have hle := hr.le.1
    exact ⟨_, ⟨hb.window, hs⟩, hb, le_rfl, hchar c { p with peek := o } hst rfl (by dsimp; omega) h2⟩

lemma resetPeek {post : Unit → Progress → Prop}
    (h : ∀ q, q.read = p.read → q.peek = p.read → post () q) :
    Leads bytes Reading.resetPeek p post := by
  intro r hr
  obtain ⟨hs, hb⟩ := hr.shows.resetPeek_spec hr.window
  exact ⟨_, ⟨hb.window, hs⟩, hb, le_rfl, h _ rfl rfl⟩

lemma consumePeek {post : Unit → Progress → Prop}
    (h : ∀ q, q.read = p.peek → q.peek = p.peek → post () q) :
    Leads bytes Reading.consumePeek p post := by
  intro r hr
  obtain ⟨cs, hcs⟩ := hr.shows.ahead
  obtain ⟨hs, hb⟩ := hr.shows.consumePeek_spec hr.window hcs
  exact ⟨_, ⟨hb.window, hs⟩, hb, hr.le.1, h _ rfl rfl⟩

lemma skipWhitespace {post : Bool → Progress → Prop}
    (h : ∀ q, q.read = blanksEnd bytes p.read → q.peek = q.read → p.read ≤ q.read →
      q.read ≤ bytes.length → post (q.read < bytes.length) q) :
    Leads bytes Reading.skipWhitespace p post := by
  intro r hr
  obtain ⟨q, hstep, hs, hb⟩ := hr.shows.perform hr.window .consumeWhitespace
  have hle := hr.le
  have hend : p.read ≤ bytes.length := hle.1.trans hle.2
  obtain ⟨h1, h2⟩ := CharReader.blanksEnd_bounds hend
  change Progress.Step bytes p .consumeWhitespace (.flag r.consumeWhitespace.1) q at hstep
  generalize hflag : r.consumeWhitespace.1 = flag at hstep
  cases hstep with
  | consumeWhitespace hcs =>
    refine ⟨_, ⟨hb.window, hs⟩, hb, h1, ?_⟩
    show post r.consumeWhitespace.1 _
    rw [hflag]
    exact h ⟨_, _, p.passed ++ _⟩ rfl rfl h1 h2

lemma lookahead {post : Option UInt8 → Progress → Prop}
    (h : ∀ o q, q.read = p.read → q.peek = p.read → post o q) :
    Leads bytes Reading.lookahead p post := by
  refine bind (peek (fun _ => bind ?_) fun c q _ hq _ _ => bind ?_)
  · exact resetPeek fun q h1 h2 => pure (h none q h1 h2)
  · exact resetPeek fun q' h1 h2 => pure (h (some c) q' (h1.trans hq) (h2.trans hq))

/-- Where an attempt fails, the reader is where it was. -/
lemma attempt {x : Reading (Option α)} {post : Option α → Progress → Prop}
    (h : Leads bytes x p fun a q => (a.isSome = true → post a q) ∧ (a = none → post none p)) :
    Leads bytes (Reading.attempt x) p post := by
  intro r hr
  obtain ⟨q, hq, hb, hle, hpost⟩ := h _ hr.fork
  unfold Reading.attempt
  dsimp only
  generalize hx : x r.fork = y at *
  obtain ⟨⟨a, f⟩, events⟩ := y
  cases a with
  | none =>
    obtain ⟨hd, hb'⟩ := hr.discard hq hb
    exact ⟨p, hd, hb', le_rfl, hpost.2 rfl⟩
  | some a =>
    obtain ⟨hc, hb'⟩ := hr.commit hq hb
    exact ⟨q, hc, hb', hle, hpost.1 rfl⟩

end Reading.Leads

end Semdoc
