import Mathlib.Data.List.Forall2
import Semdoc.Proofs.Stream.Reader
import Semdoc.Proofs.Stream.Tape

/-!
# Readers and forks

A reader, its forks and the forks of forks read from one buffer.  Any of them may be used at any time; the
last fork may be ended, with or without effect on the one below it.  Each of them makes progress of its
own, and they do not see each other.
-/

namespace Semdoc

/-- A reader with its forks, the last one first.  All of them read from the same buffer, which is kept
here; the buffers of the readers are those of the time when they were last used. -/
structure ReaderStack where
  buffer : Buffer
  readers : List CharReader

/-- What can be done with a reader and its forks; a level of zero is the last fork. -/
inductive StackOp where
  | use (level : Nat) (op : ReaderOp)
  | fork
  | commit
  | drop

namespace ReaderStack

/-- A reader as it is now. -/
def reader? (st : ReaderStack) (level : Nat) : Option CharReader :=
  st.readers[level]?.map fun r => { r with buffer := st.buffer }

/-- The answer to an operation and the stack after it.  What does not apply has no effect. -/
def perform (st : ReaderStack) : StackOp → ReaderReply × ReaderStack
  | .use level op =>
    match st.reader? level with
    | none => (.done, st)
    | some r =>
      let (reply, r) := r.perform op
      (reply, { buffer := r.buffer, readers := st.readers.set level r })
  | .fork =>
    match st.reader? 0 with
    | none => (.done, st)
    | some r => (.done, { buffer := r.fork.buffer, readers := r.fork :: st.readers })
  | .commit =>
    match st.reader? 0, st.readers with
    | some f, _ :: parent :: rest =>
      let r := f.commit parent
      (.done, { buffer := r.buffer, readers := r :: rest })
    | _, _ => (.done, st)
  | .drop =>
    match st.reader? 0, st.readers with
    | some f, _ :: parent :: rest =>
      let r := f.discard parent
      (.done, { buffer := r.buffer, readers := r :: rest })
    | _, _ => (.done, st)

/-- The answers to some operations in order and the stack after them. -/
def performAll : List StackOp → ReaderStack → List ReaderReply × ReaderStack
  | [], st => ([], st)
  | op :: ops, st =>
    let (reply, st) := st.perform op
    let (replies, st) := performAll ops st
    (reply :: replies, st)

/-- A reader without forks. -/
def ofReader (r : CharReader) : ReaderStack := { buffer := r.buffer, readers := [r] }

/-- What shows of the readers: the offsets up to which they have read and peeked, line and column. -/
def view (st : ReaderStack) : List (Nat × Nat × Nat × Nat) :=
  st.readers.map fun r =>
    (st.buffer.offset r.readCursor, st.buffer.offset r.peekCursor, r.line, r.column)

end ReaderStack

namespace Progress

/-- What an operation on a reader and its forks answers, and how far each of them is then. -/
inductive StackStep (bytes : List UInt8) :
    List Progress → StackOp → ReaderReply → List Progress → Prop where
  | use {ps : List Progress} {level : Nat} {p p' : Progress} {op : ReaderOp} {reply : ReaderReply}
      (hp : ps[level]? = some p) (h : Step bytes p op reply p') :
      StackStep bytes ps (.use level op) reply (ps.set level p')
  | fork (p : Progress) (ps : List Progress) : StackStep bytes (p :: ps) .fork .done (p :: p :: ps)
  | commit (f p : Progress) (ps : List Progress) :
      StackStep bytes (f :: p :: ps) .commit .done (f :: ps)
  | drop (f p : Progress) (ps : List Progress) :
      StackStep bytes (f :: p :: ps) .drop .done (p :: ps)
  /-- There is no such reader. -/
  | absent {ps : List Progress} {level : Nat} (op : ReaderOp) (h : ps.length ≤ level) :
      StackStep bytes ps (.use level op) .done ps
  /-- There is no fork to be ended. -/
  | alone {op : StackOp} (p : Progress) (h : op = .commit ∨ op = .drop) :
      StackStep bytes [p] op .done [p]

/-- A sequence of operations on a reader and its forks with their answers. -/
inductive StackRun (bytes : List UInt8) :
    List Progress → List StackOp → List ReaderReply → List Progress → Prop where
  | nil (ps : List Progress) : StackRun bytes ps [] [] ps
  | cons {ps ps' ps'' : List Progress} {op : StackOp} {reply : ReaderReply} {ops : List StackOp}
      {replies : List ReaderReply} (h : StackStep bytes ps op reply ps')
      (hr : StackRun bytes ps' ops replies ps'') :
      StackRun bytes ps (op :: ops) (reply :: replies) ps''

/-- What shows of a reader that has made some progress. -/
def view (p : Progress) : Nat × Nat × Nat × Nat :=
  (p.read, p.peek, (CharReader.tally p.passed).1, (CharReader.tally p.passed).2)

end Progress

namespace CharReader

open Buffer (Serves)

variable {bytes : List UInt8} {p : Progress}

/-- A cursor is one of a reader. -/
def Uses (r : CharReader) (k : CursorId) : Prop := k = r.readCursor ∨ k = r.peekCursor

/-- The cursors of a reader in some buffer are where its progress says. -/
def ShowsIn (bytes : List UInt8) (b : Buffer) (r : CharReader) (p : Progress) : Prop :=
  Shows bytes p { r with buffer := b }

/-- What is known about a reader stays as long as its cursors stay. -/
lemma ShowsIn.congr {b b' : Buffer} {r : CharReader} (h : ShowsIn bytes b r p)
    (hb : ∀ k, r.Uses k → b'.place? k = b.place? k) : ShowsIn bytes b' r p :=
  ⟨h.apart, (hb _ (.inl rfl)).trans h.read, (hb _ (.inr rfl)).trans h.peek, h.ahead, h.coherent,
    h.tally⟩

/-- The cursors of a reader are older than the next one. -/
lemma ShowsIn.lt_of_uses {b : Buffer} {r : CharReader} (hw : b.Window bytes)
    (h : ShowsIn bytes b r p) {k : CursorId} (hk : r.Uses k) : k < b.nextCursor := by
  rcases hk with rfl | rfl
  · exact hw.fresh.lt_of_place? h.read
  · exact hw.fresh.lt_of_place? h.peek

end CharReader

namespace ReaderStack

open CharReader (ShowsIn)

variable {bytes : List UInt8} {st : ReaderStack} {ps : List Progress}

/-- The readers of a stack have cursors of their own, which are where their progress says. -/
structure Shows (bytes : List UInt8) (st : ReaderStack) (ps : List Progress) : Prop where
  window : st.buffer.Window bytes
  each : List.Forall₂ (ShowsIn bytes st.buffer) st.readers ps
  disjoint : st.readers.Pairwise fun r r' => ∀ k, r.Uses k → ¬ r'.Uses k

lemma Shows.view (h : st.Shows bytes ps) : st.view = ps.map Progress.view := by
  obtain ⟨-, he, -⟩ := h
  unfold ReaderStack.view
  generalize st.readers = rs at he ⊢
  induction he with
  | nil => rfl
  | @cons r p rs ps hr _ ih =>
    rw [List.map_cons, List.map_cons, ih, CharReader.offset_eq hr.read, CharReader.offset_eq hr.peek,
      Progress.view, ← hr.tally]

/-- What changes other cursors only leaves readers where they are. -/
lemma forall₂_congr {b b' : Buffer} {rs : List CharReader} {ps : List Progress}
    (h : List.Forall₂ (ShowsIn bytes b) rs ps)
    (hb : ∀ r ∈ rs, ∀ k, r.Uses k → b'.place? k = b.place? k) :
    List.Forall₂ (ShowsIn bytes b') rs ps := by
  induction h with
  | nil => exact .nil
  | cons hr _ ih =>
    refine .cons (hr.congr (hb _ List.mem_cons_self)) (ih fun r hm => ?_)
    exact hb r (List.mem_cons_of_mem _ hm)

/-- The reader at a level is used, and the others are left alone. -/
lemma forall₂_set {b b' : Buffer} {rs : List CharReader} {ps : List Progress} {level : Nat}
    {r r' : CharReader} {p' : Progress} (h : List.Forall₂ (ShowsIn bytes b) rs ps)
    (hd : rs.Pairwise fun r r' => ∀ k, r.Uses k → ¬ r'.Uses k) (hr : rs[level]? = some r)
    (hr' : ShowsIn bytes b' r' p') (hb : ∀ k, ¬ r.Uses k → b'.place? k = b.place? k) :
    List.Forall₂ (ShowsIn bytes b') (rs.set level r') (ps.set level p') := by
  induction h generalizing level with
  | nil => exact .nil
  | @cons r₁ p₁ rs ps h₁ h ih =>
    obtain ⟨hd₁, hds⟩ := List.pairwise_cons.1 hd
    cases level with
    | zero =>
      cases hr
      exact .cons hr' (forall₂_congr h fun r₂ hm k hk => hb k fun hu => hd₁ r₂ hm k hu hk)
    | succ level =>
      have hm : r ∈ rs := List.mem_of_getElem? hr
      refine .cons (h₁.congr fun k hk => hb k (hd₁ r hm k hk)) (ih hds hr)

/-- A reader that has the same cursors as before is as far apart from the others as before. -/
lemma pairwise_set {rs : List CharReader} {level : Nat} {r r' : CharReader}
    (hd : rs.Pairwise fun r r' => ∀ k, r.Uses k → ¬ r'.Uses k) (hr : rs[level]? = some r)
    (hu : ∀ k, r'.Uses k ↔ r.Uses k) :
    (rs.set level r').Pairwise fun r r' => ∀ k, r.Uses k → ¬ r'.Uses k := by
  induction rs generalizing level with
  | nil => exact .nil
  | cons r₁ rs ih =>
    obtain ⟨hd₁, hds⟩ := List.pairwise_cons.1 hd
    cases level with
    | zero =>
      cases hr
      exact .cons (fun r₂ hm k hk => hd₁ r₂ hm k ((hu k).1 hk)) hds
    | succ level =>
      refine .cons (fun r₂ hm k hk hk₂ => ?_) (ih hds hr)
      rcases List.mem_or_eq_of_mem_set hm with hm | rfl
      · exact hd₁ r₂ hm k hk hk₂
      · exact hd₁ r (List.mem_of_getElem? hr) k hk ((hu k).1 hk₂)

section

variable (h : Shows bytes st ps)
include h

lemma Shows.lt_of_uses : ∀ r ∈ st.readers, ∀ k, r.Uses k → k < st.buffer.nextCursor :=
  ((List.forall₂_and_left _ _).1
    (h.each.imp fun _ _ hr => ⟨fun _ hk => hr.lt_of_uses h.window hk, hr⟩)).1

/-- What a reader has peeked is always some characters ahead of what it has read. -/
lemma Shows.ahead : ∀ p ∈ ps, ∃ cs, CharReader.Steps bytes p.read cs p.peek := by
  intro p hp
  obtain ⟨i, hi, rfl⟩ := List.getElem_of_mem hp
  exact (h.each.get (by rwa [h.each.length_eq]) hi).ahead

/-- A reader that is used stays at its level. -/
lemma Shows.use {level : Nat} {r r' : CharReader} {p' : Progress}
    (hr : st.readers[level]? = some r) (hr' : CharReader.Shows bytes p' r')
    (hb : CharReader.Becomes bytes { r with buffer := st.buffer } r') :
    Shows bytes { buffer := r'.buffer, readers := st.readers.set level r' } (ps.set level p') := by
  have hu : ∀ k, r'.Uses k ↔ r.Uses k := by
    intro k
    rw [CharReader.Uses, CharReader.Uses, hb.readCursor, hb.peekCursor]
  refine ⟨hb.window, forall₂_set h.each h.disjoint hr hr' fun k hk => ?_,
    pairwise_set h.disjoint hr hu⟩
  exact hb.others k (fun e => hk (.inl e)) fun e => hk (.inr e)

end

section Forks

variable {r f : CharReader} {rs : List CharReader} {p q : Progress}

/-- A fork has two new cursors where those of the reader are. -/
lemma Shows.fork (h : Shows bytes st (p :: ps)) (hr : st.readers = r :: rs) :
    Shows bytes
      { buffer := (CharReader.fork { r with buffer := st.buffer }).buffer
        readers := CharReader.fork { r with buffer := st.buffer } :: st.readers }
      (p :: p :: ps) := by
  have hlt := h.lt_of_uses
  obtain ⟨hw, he, hd⟩ := h
  have hr₁ : ShowsIn bytes st.buffer r p := by
    rw [hr] at he
    exact (List.forall₂_cons.1 he).1
  obtain ⟨hn₁, hw₁, hp₁⟩ := hw.createFrom hr₁.read
  have hpeek : (st.buffer.createFrom r.readCursor).2.place? r.peekCursor = some p.peek := by
    rw [hp₁, Function.update_of_ne (hr₁.lt_of_uses hw (.inr rfl)).ne]
    exact hr₁.peek
  obtain ⟨hn₂, hw₂, hp₂⟩ := hw₁.createFrom hpeek
  have hnext : (st.buffer.createFrom r.readCursor).2.nextCursor = st.buffer.nextCursor + 1 := rfl
  rw [hnext] at hn₂ hp₂
  rw [hp₁] at hp₂
  -- the new cursors have the next two numbers, and all that are in use have smaller ones
  refine ⟨hw₂, .cons ⟨?_, ?_, ?_, hr₁.ahead, hr₁.coherent, hr₁.tally⟩
    (forall₂_congr he fun r₂ hm k hk => ?_), .cons (fun r₂ hm k hk hk₂ => ?_) hd⟩
  · show (st.buffer.createFrom r.readCursor).1 ≠
      ((st.buffer.createFrom r.readCursor).2.createFrom r.peekCursor).1
    rw [hn₁, hn₂]
    exact (Nat.lt_succ_self _).ne
  · show ((st.buffer.createFrom r.readCursor).2.createFrom r.peekCursor).2.place?
      (st.buffer.createFrom r.readCursor).1 = some p.read
    rw [hp₂, hn₁, Function.update_of_ne (Nat.lt_succ_self _).ne, Function.update_self]
  · show ((st.buffer.createFrom r.readCursor).2.createFrom r.peekCursor).2.place?
      ((st.buffer.createFrom r.readCursor).2.createFrom r.peekCursor).1 = some p.peek
    rw [hp₂, hn₂, Function.update_self]
  · have hk := hlt r₂ hm k hk
    refine (congrFun hp₂ k).trans ?_
    rw [Function.update_of_ne (hk.trans (Nat.lt_succ_self _)).ne, Function.update_of_ne hk.ne]
  · have hk₂ := hlt r₂ hm k hk₂
    rcases hk with hk | hk
    · exact hk₂.ne (hk.trans hn₁)
    · exact (hk₂.trans (Nat.lt_succ_self _)).ne (hk.trans hn₂)

/-- Deleting the cursors of the last fork leaves the readers below it. -/
lemma Shows.discard (h : Shows bytes st (q :: p :: ps)) (hr : st.readers = f :: r :: rs) :
    Shows bytes
      { buffer := (CharReader.discard { f with buffer := st.buffer } r).buffer
        readers := CharReader.discard { f with buffer := st.buffer } r :: rs } (p :: ps) := by
  obtain ⟨hw, he, hd⟩ := h
  rw [hr] at he hd
  obtain ⟨hd₁, hds⟩ := List.pairwise_cons.1 hd
  have h₁ := hw.delete f.readCursor
  have h₂ := h₁.window.delete f.peekCursor
  have hother : ∀ r₂ ∈ r :: rs, ∀ k, r₂.Uses k →
      ((st.buffer.delete f.readCursor).delete f.peekCursor).place? k = st.buffer.place? k := by
    intro r₂ hm k hk
    rw [h₂.place?, Function.update_of_ne fun e => hd₁ r₂ hm k (.inr e) hk, h₁.place?,
      Function.update_of_ne fun e => hd₁ r₂ hm k (.inl e) hk]
  obtain ⟨hr₁, hrs⟩ := List.forall₂_cons.1 (forall₂_congr (List.forall₂_cons.1 he).2 hother)
  obtain ⟨hdr, hds⟩ := List.pairwise_cons.1 hds
  exact ⟨h₂.window, .cons hr₁ hrs, .cons hdr hds⟩

/-- Copying the cursors of the last fork to the reader below it moves that reader to the fork. -/
lemma Shows.copy (h : Shows bytes st (q :: p :: ps)) (hr : st.readers = f :: r :: rs) :
    Shows bytes
      { buffer := (st.buffer.copy f.readCursor r.readCursor).copy f.peekCursor r.peekCursor
        readers := f :: CharReader.commit { f with buffer := st.buffer } r :: rs }
      (q :: q :: ps) := by
  obtain ⟨hw, he, hd⟩ := h
  rw [hr] at he hd
  obtain ⟨hf, hr₁, he⟩ : ShowsIn bytes st.buffer f q ∧ ShowsIn bytes st.buffer r p ∧
      List.Forall₂ (ShowsIn bytes st.buffer) rs ps := by
    simpa only [List.forall₂_cons] using he
  obtain ⟨hdf, hd⟩ := List.pairwise_cons.1 hd
  obtain ⟨hdr, hd⟩ := List.pairwise_cons.1 hd
  have hfr : ∀ k, f.Uses k → ¬ r.Uses k := hdf r List.mem_cons_self
  have hread : (st.buffer.place? r.readCursor).isSome = true := by
    rw [show st.buffer.place? r.readCursor = some p.read from hr₁.read]
    rfl
  have hpeek : (st.buffer.place? r.peekCursor).isSome = true := by
    rw [show st.buffer.place? r.peekCursor = some p.peek from hr₁.peek]
    rfl
  have h₁ := hw.copy hf.read hread
  have hfp : (st.buffer.copy f.readCursor r.readCursor).place? f.peekCursor = some q.peek := by
    rw [h₁.place?, Function.update_of_ne fun e => hfr _ (.inr rfl) (.inl e)]
    exact hf.peek
  rw [← Function.update_of_ne hr₁.apart.symm (some q.read) st.buffer.place?, ← h₁.place?] at hpeek
  have h₂ := h₁.window.copy hfp hpeek
  have hp := h₂.place?
  rw [h₁.place?] at hp
  -- nothing but the cursors of the reader below moves
  have hother : ∀ k, ¬ r.Uses k →
      ((st.buffer.copy f.readCursor r.readCursor).copy f.peekCursor r.peekCursor).place? k =
        st.buffer.place? k := by
    intro k hk
    rw [hp, Function.update_of_ne fun e => hk (.inr e), Function.update_of_ne fun e => hk (.inl e)]
  refine ⟨h₂.window, .cons (hf.congr fun k hk => hother k (hfr k hk))
    (.cons ⟨hr₁.apart, ?_, ?_, hf.ahead, hf.coherent, hf.tally⟩
      (forall₂_congr he fun r₂ hm k hk => hother k fun hu => hdr r₂ hm k hu hk)),
    .cons (List.forall_mem_cons.2 ⟨hfr, fun r₂ hm => hdf r₂ (List.mem_cons_of_mem _ hm)⟩)
      (.cons hdr hd)⟩
  · refine (congrFun hp r.readCursor).trans ((Function.update_of_ne ?_ _ _).trans ?_)
    · exact hr₁.apart
    · exact Function.update_self _ _ _
  · exact (congrFun hp r.peekCursor).trans (Function.update_self _ _ _)

lemma Shows.readers_one (h : Shows bytes st [p]) : ∃ r, st.readers = [r] := by
  obtain ⟨r, rs, -, hrs, hr⟩ := List.forall₂_cons_right_iff.1 h.each
  exact ⟨r, by rw [hr, List.forall₂_nil_right_iff.1 hrs]⟩

lemma Shows.readers_two (h : Shows bytes st (q :: p :: ps)) :
    ∃ f r rs, st.readers = f :: r :: rs := by
  obtain ⟨f, rs, -, hrs, hf⟩ := List.forall₂_cons_right_iff.1 h.each
  obtain ⟨r, rs, -, -, rfl⟩ := List.forall₂_cons_right_iff.1 hrs
  exact ⟨f, r, rs, hf⟩

end Forks

/-- Every operation on a reader and its forks is one of the model. -/
theorem Shows.perform (h : Shows bytes st ps) (hne : ps ≠ []) (op : StackOp) :
    ∃ ps', Progress.StackStep bytes ps op (st.perform op).1 ps' ∧
      Shows bytes (st.perform op).2 ps' ∧ ps' ≠ [] := by
  cases op with
  | use level op =>
    unfold ReaderStack.perform reader?
    dsimp only
    cases hr : st.readers[level]? with
    | none =>
      refine ⟨ps, .absent op ?_, h, hne⟩
      rw [← h.each.length_eq]
      exact List.getElem?_eq_none_iff.1 hr
    | some r =>
      obtain ⟨hl, rfl⟩ := List.getElem?_eq_some_iff.1 hr
      have hl' : level < ps.length := by rwa [← h.each.length_eq]
      have hr' : ShowsIn bytes st.buffer st.readers[level] ps[level] := h.each.get hl hl'
      obtain ⟨p', hs, hp, hb⟩ := CharReader.Shows.perform h.window hr' op
      exact ⟨_, .use (List.getElem?_eq_getElem hl') hs, h.use hr hp hb, by simpa using hne⟩
  | fork =>
    obtain ⟨p, ps, rfl⟩ := List.exists_cons_of_ne_nil hne
    obtain ⟨r, rs, -, -, hr⟩ := List.forall₂_cons_right_iff.1 h.each
    have hfork := h.fork hr
    rw [hr] at hfork
    unfold ReaderStack.perform reader?
    rw [hr]
    exact ⟨_, .fork p ps, hfork, List.cons_ne_nil _ _⟩
  | commit =>
    rcases ps with _ | ⟨q, _ | ⟨p, ps⟩⟩
    · exact (hne rfl).elim
    · obtain ⟨r, hr⟩ := h.readers_one
      unfold ReaderStack.perform reader?
      rw [hr]
      exact ⟨[q], .alone q (.inl rfl), h, hne⟩
    · obtain ⟨f, r, rs, hr⟩ := h.readers_two
      unfold ReaderStack.perform reader?
      rw [hr]
      exact ⟨q :: ps, .commit q p ps, (h.copy hr).discard rfl, List.cons_ne_nil _ _⟩
  | drop =>
    rcases ps with _ | ⟨q, _ | ⟨p, ps⟩⟩
    · exact (hne rfl).elim
    · obtain ⟨r, hr⟩ := h.readers_one
      unfold ReaderStack.perform reader?
      rw [hr]
      exact ⟨[q], .alone q (.inr rfl), h, hne⟩
    · obtain ⟨f, r, rs, hr⟩ := h.readers_two
      unfold ReaderStack.perform reader?
      rw [hr]
      exact ⟨p :: ps, .drop q p ps, h.discard hr, List.cons_ne_nil _ _⟩

/-- Operations in any order are a run of the model. -/
theorem Shows.performAll (h : Shows bytes st ps) (hne : ps ≠ []) (ops : List StackOp) :
    ∃ ps', Progress.StackRun bytes ps ops (ReaderStack.performAll ops st).1 ps' ∧
      Shows bytes (ReaderStack.performAll ops st).2 ps' := by
  induction ops generalizing st ps with
  | nil => exact ⟨ps, .nil ps, h⟩
  | cons op ops ih =>
    obtain ⟨ps₁, hstep, h₁, hne₁⟩ := h.perform hne op
    obtain ⟨ps₂, hrun, h₂⟩ := ih h₁ hne₁
    exact ⟨ps₂, .cons hstep hrun, h₂⟩

/-- A new reader is at the start of the stream. -/
lemma shows_ofReader {b : Buffer} (hb : b.Window bytes) (h0 : b.firstOffset = 0) (source : UInt32) :
    Shows bytes (ofReader (CharReader.ofBuffer b source)) [{}] := by
  obtain ⟨hn₁, hw₁, hp₁⟩ := hb.create
  obtain ⟨hn₂, hw₂, hp₂⟩ := hw₁.create
  have hnext : b.create.2.nextCursor = b.nextCursor + 1 := rfl
  have hfirst : b.create.2.firstOffset = 0 := h0
  rw [hnext] at hn₂ hp₂
  rw [hp₁, h0, hfirst] at hp₂
  have hapart : b.create.1 ≠ b.create.2.create.1 := by
    rw [hn₁, hn₂]
    exact (Nat.lt_succ_self _).ne
  refine ⟨hw₂, .cons ⟨hapart, ?_, ?_, ⟨[], .refl 0⟩, fun _ => rfl, rfl⟩ .nil, .cons nofun .nil⟩
  · show b.create.2.create.2.place? b.create.1 = some 0
    rw [hp₂, hn₁, Function.update_of_ne (Nat.lt_succ_self _).ne, Function.update_self]
  · show b.create.2.create.2.place? b.create.2.create.1 = some 0
    rw [hp₂, hn₂, Function.update_self]

/-- A session with a new reader is a run of the model. -/
lemma run_ofBuffer {b : Buffer} (hb : b.Window bytes) (h0 : b.firstOffset = 0) (source : UInt32)
    (ops : List StackOp) :
    ∃ ps, Progress.StackRun bytes [{}] ops
        (ReaderStack.performAll ops (ofReader (.ofBuffer b source))).1 ps ∧
      (ReaderStack.performAll ops (ofReader (.ofBuffer b source))).2.view = ps.map Progress.view ∧
      ∀ p ∈ ps, ∃ cs, CharReader.Steps bytes p.read cs p.peek := by
  obtain ⟨ps, hrun, h⟩ := (shows_ofReader hb h0 source).performAll (List.cons_ne_nil _ _) ops
  exact ⟨ps, hrun, h.view, h.ahead⟩

/-- Any operations on a reader, its forks and theirs answer as the model says, whatever the source of
the bytes is and however it delivers them.  Every reader is then at the offsets, the line and the column
of the model, and has peeked some characters further than it has read. -/
theorem readers_follow_progress (source : UInt32) (ops : List StackOp) :
    (∀ (feed : Feed) (limits : Limits), ∃ ps,
      Progress.StackRun feed.content [{}] ops
          (ReaderStack.performAll ops (ofReader (.ofFeed feed source limits))).1 ps ∧
        (ReaderStack.performAll ops (ofReader (.ofFeed feed source limits))).2.view =
          ps.map Progress.view ∧
        ∀ p ∈ ps, ∃ cs, CharReader.Steps feed.content p.read cs p.peek) ∧
    ∀ bytes : List UInt8, ∃ ps,
      Progress.StackRun bytes [{}] ops
          (ReaderStack.performAll ops (ofReader (.ofBuffer (.ofBytes bytes) source))).1 ps ∧
        (ReaderStack.performAll ops (ofReader (.ofBuffer (.ofBytes bytes) source))).2.view =
          ps.map Progress.view ∧
        ∀ p ∈ ps, ∃ cs, CharReader.Steps bytes p.read cs p.peek :=
  ⟨fun feed limits => run_ofBuffer (Buffer.window_ofFeed feed limits) rfl source ops,
    fun bytes => run_ofBuffer (Buffer.window_ofBytes bytes) rfl source ops⟩

end ReaderStack

end Semdoc
