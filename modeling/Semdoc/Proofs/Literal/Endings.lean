import Semdoc.Proofs.Literal.Forms

/-!
# Reading literals comes to an end

Whatever the input is, a literal is read in finitely many steps, none of which goes back.  The entries of a
container are read one after the other, each further on than the one before, and no container is read that
is deeper than the limit.
-/

namespace Semdoc

variable {bytes : List UInt8} {p : Progress} {r : CharReader}

/-! ## Readers at the start of their input -/

namespace CharReader

/-- A new reader of a stream has made no progress. -/
lemma on_ofBuffer {b : Buffer} (hb : b.Window bytes) (h0 : b.firstOffset = 0) (source : UInt32) :
    (ofBuffer b source).On bytes {} := by
  have h := ReaderStack.shows_ofReader hb h0 source
  exact ⟨h.window, (List.forall₂_cons.1 h.each).1⟩

lemma on_ofBytes (bytes : List UInt8) (source : UInt32) :
    (ofBuffer (.ofBytes bytes) source).On bytes {} :=
  on_ofBuffer (Buffer.window_ofBytes bytes) rfl source

lemma on_ofFeed (feed : Feed) (source : UInt32) (limits : Limits) :
    (ofFeed feed source limits).On feed.content {} :=
  on_ofBuffer (Buffer.window_ofFeed feed limits) rfl source

lemma On.consumeWhitespace (h : r.On bytes p) : ∃ q, r.consumeWhitespace.2.On bytes q := by
  have hlead : Reading.skipWhitespace.Leads bytes p fun _ _ => True :=
    .skipWhitespace fun _ _ _ _ _ => trivial
  obtain ⟨q, hq, -⟩ := hlead r h
  exact ⟨q, hq⟩

end CharReader

namespace Literal

variable {limits : Limits}

/-! ## Numbers that are none -/

/-- Nothing is reported of an attempt that fails. -/
lemma attempt_eq_none {α : Type} {x : Reading (Option α)}
    (h : (Reading.attempt x r).value.1 = none) :
    (Reading.attempt x r).events = [] ∧ (Reading.attempt x r).value.2.source = r.source := by
  unfold Reading.attempt at h ⊢
  dsimp only at h ⊢
  split
  · next e =>
    rw [e] at h
    cases h
  · exact ⟨rfl, rfl⟩

lemma readNumber?_leads (delims : List UInt8) :
    (readNumber? delims).Leads bytes p fun o q => o = none → q = p := by
  have hrun : (numberPlan delims).run (Call.run {}) = readNumber? delims :=
    run_numberPlan (fun _ _ => rfl) delims
  rw [← hrun]
  exact (meets_numberPlan (Q := fun _ _ => True) (fun _ _ _ _ => trivial) delims).leads
    fun c _ _ => Call.run_leads c

/-- A reading left a reader exactly where it was, and reported nothing. -/
structure Untouched (bytes : List UInt8) (p : Progress) (r : CharReader)
    (y : Logged (Option Value × CharReader)) : Prop where
  on : y.value.2.On bytes p
  offset : y.value.2.offset = r.offset
  peekOffset : y.value.2.peekOffset = r.peekOffset
  place : (y.value.2.line, y.value.2.column) = (r.line, r.column)
  location : y.value.2.location = r.location
  silent : y.events = []

/-- An attempt to read a number that fails leaves the reader where it was. -/
lemma readNumber?_untouched (hr : r.On bytes p) {delims : List UInt8}
    (h : (readNumber? delims r).value.1 = none) : Untouched bytes p r (readNumber? delims r) := by
  obtain ⟨q, hq, -, -, hpost⟩ := readNumber?_leads delims r hr
  obtain rfl := hpost h
  obtain ⟨hsilent, hsource⟩ := attempt_eq_none h
  have hoffset : (readNumber? delims r).value.2.offset = r.offset := by rw [hq.offset, hr.offset]
  refine ⟨hq, hoffset, ?_, hq.shows.tally.trans hr.shows.tally.symm, ?_, hsilent⟩
  · exact (CharReader.offset_eq hq.shows.peek).trans (CharReader.offset_eq hr.shows.peek).symm
  · unfold CharReader.location
    rw [hoffset]
    exact congrArg (Location.ofOffsets · r.offset r.offset) hsource

/-! ## Runs of plans -/

/-- A run of a plan has a result after some number of steps, none of which goes back. -/
structure Settles (limits : Limits) {α : Type} (x : LiteralPlan α) (r : CharReader)
    (y : Logged (α × CharReader)) : Prop where
  ends : ∃ n, Plan.Ends (Call.plan limits) x r n y
  steps : ∀ m ∈ x.moves (Call.run limits) r, m.1.offset ≤ m.2.offset
  forward : r.offset ≤ y.value.2.offset

lemma Settles.of_meets {α : Type} {x : LiteralPlan α} {Q : Call → Progress → Prop}
    {post : α → Progress → Prop} (h : x.Meets bytes Q p post) (hr : r.On bytes p) :
    Settles limits x r (x.run (Call.run limits) r) := by
  have hcall : ∀ c q, Q c q → (c.run limits).Leads bytes q fun _ _ => True :=
    fun c _ _ => c.run_leads
  refine ⟨Plan.exists_ends x r fun y hy => ?_, h.moves hcall hr, ?_⟩
  · obtain ⟨q, hq, -⟩ := h.calls hcall hr y hy
    exact y.1.exists_ends hq
  · obtain ⟨q, hq, -, hle, -⟩ := h.leads hcall r hr
    rwa [hr.offset, hq.offset]

lemma Call.settles (c : Call) (hr : r.On bytes p) :
    Settles limits (c.plan limits) r (c.run limits r) := by
  rw [c.run_eq_plan hr]
  exact .of_meets c.meets hr

/-! ## Entries and depths -/

/-- A container is refused with an error at its opening character, and nothing in it is read. -/
structure Call.Refused (limits : Limits) (depth : Nat) (r : CharReader) (close : UInt8) : Prop where
  calls : ((container depth).plan limits).calls (run limits) r = []
  result : ((container depth).run limits r).value.1 = .bad (emptyContainer close)
  report : ((container depth).run limits r).events =
    [.message { severity := .error, text := "Maximum nesting depth exceeded"
                location := r.resetPeek.read.2.locationFrom r.resetPeek.offset }]

/-- What a call must keep to.  Each round of entries is further on than the one before, and containers are
not too deep; those at the greatest depth are refused. -/
def Call.Bounded (limits : Limits) (r : CharReader) : Call → Prop
  | value _ _ => True
  | container depth => depth ≤ limits.complexDepth.toNat ∧
      (depth = limits.complexDepth.toNat → ∀ close, r.resetPeek.read.1.bind closerOf? = some close →
        Refused limits depth r close)
  | entries close start depth c => ∀ close' start' depth' c' r',
      (entries close' start' depth' c', r') ∈
        ((entries close start depth c).plan limits).calls (run limits) r → r.offset < r'.offset
  | quoted _ _ _ _ => True
  | unquoted _ _ => True
  | number _ _ => True

lemma Call.refused {depth : Nat} (hdepth : limits.complexDepth.toNat ≤ depth) {close : UInt8}
    (h : r.resetPeek.read.1.bind closerOf? = some close) : Refused limits depth r close := by
  have hrun : (container depth).run limits r =
      ((container depth).plan limits).run ((container depth).answer limits (4 * r.buffer.extent + 7)) r :=
    congrFun (runWith_succ limits (4 * r.buffer.extent + 7) (container depth)) r
  -- All that is done before the depth is looked at is to read a character.
  have hopened : ∀ f, ((container depth).plan limits).run f r =
      (openedPlan limits depth r.resetPeek.offset (some close)).run f r.resetPeek.read.2 :=
    fun f => h ▸ rfl
  have hcalls : ((container depth).plan limits).calls (run limits) r =
      (openedPlan limits depth r.resetPeek.offset (some close)).calls (run limits)
        r.resetPeek.read.2 := h ▸ rfl
  rw [hopened, openedPlan, if_pos hdepth] at hrun
  rw [openedPlan, if_pos hdepth] at hcalls
  refine ⟨hcalls, ?_, ?_⟩
  · rw [hrun]
    rfl
  · rw [hrun]
    rfl

lemma Call.bounded (c : Call) (hc : c.Shallow limits) (hr : r.On bytes p) : c.Bounded limits r := by
  cases c with
  | value | quoted | unquoted | number => trivial
  | container depth => exact ⟨hc, fun e _ h => refused e.ge h⟩
  | entries close start depth c =>
    intro close' start' depth' c' r' hmem
    obtain ⟨q, hq, h⟩ := calls_descend _ hr _ hmem
    have hrank := h.rank
    dsimp only [rank] at hrank
    rw [hr.offset, hq.offset]
    omega

/-! ## Forms -/

/-- After a literal the reader still is in its input. -/
lemma Form.read_on (f : Form) (hr : r.On bytes p) : ∃ q, (f.read limits r).value.2.On bytes q := by
  obtain ⟨q, hq, -⟩ := (f.meets limits).leads (fun c _ _ => c.run_leads) r hr
  rw [f.run_plan] at hq
  exact ⟨q, hq⟩

/-- What is called is called further on, and keeps to its bounds. -/
lemma Form.reaches (f : Form) (hr : r.On bytes p) {c : Call} {r' : CharReader}
    (h : Plan.Reaches (Call.plan limits) (Call.run limits) f.plan r c r') :
    ∃ q, r'.On bytes q ∧ p.read ≤ q.read ∧ c.Shallow limits := by
  induction h with
  | here h =>
    exact (f.meets limits).calls (fun d _ _ => d.run_leads) hr _ h
  | @inside c d r' r'' _ h ih =>
    obtain ⟨q, hq, hle, hshallow⟩ := ih
    obtain ⟨q', hq', h⟩ := c.calls_descend hq _ h
    exact ⟨q', hq', hle.trans h.ahead, h.shallow hshallow⟩

/-- A literal of any form is read in finitely many steps from wherever a reader is in its input, and so is
all that is read on the way; the reader never goes back, is where it was after an attempt to read a
number that fails, goes further with every entry of a container, and enters none that is too deep. -/
theorem Form.read_settles (limits : Limits) (f : Form) (bytes : List UInt8) :
    (∀ source, (CharReader.ofBuffer (.ofBytes bytes) source).On bytes {}) ∧
      (∀ feed source, feed.content = bytes → (CharReader.ofFeed feed source limits).On bytes {}) ∧
      (∀ text source, Text.utf8Bytes text = bytes →
        ∃ p, (CharReader.ofString text source).consumeWhitespace.2.On bytes p) ∧
      ∀ r p, r.On bytes p →
        Settles limits f.plan r (f.read limits r) ∧
          (∃ q, (f.read limits r).value.2.On bytes q) ∧
          (∀ delims, (readNumber? delims r).value.1 = none →
            Untouched bytes p r (readNumber? delims r)) ∧
          ∀ c r', Plan.Reaches (Call.plan limits) (Call.run limits) f.plan r c r' →
            r.offset ≤ r'.offset ∧ Settles limits (c.plan limits) r' (c.run limits r') ∧
              c.Bounded limits r' ∧ ∃ q, r'.On bytes q := by
  refine ⟨CharReader.on_ofBytes bytes, ?_, ?_, fun r p hr => ⟨?_, ?_, ?_, fun c r' h => ?_⟩⟩
  · rintro feed source rfl
    exact CharReader.on_ofFeed feed source limits
  · rintro text source rfl
    exact (CharReader.on_ofBytes _ source).consumeWhitespace
  · rw [← f.run_plan limits]
    exact .of_meets (f.meets limits) hr
  · exact f.read_on hr
  · exact fun delims h => readNumber?_untouched hr h
  · obtain ⟨q, hq, hle, hshallow⟩ := f.reaches hr h
    refine ⟨?_, c.settles hq, c.bounded hshallow hq, q, hq⟩
    rwa [hr.offset, hq.offset]

end Literal

end Semdoc
