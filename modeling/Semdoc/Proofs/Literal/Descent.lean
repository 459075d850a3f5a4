import Semdoc.Proofs.Literal.Calls

/-!
# Where literals make their calls

A literal makes its calls further on in the input, or at the same place in the order in which values,
containers and loops come there.  So there are not more calls one inside the other than the input allows,
no call runs out of rounds or fuel, and containers are no deeper than the limit.
-/

namespace Semdoc

open CharReader (step? blanksEnd)

variable {bytes : List UInt8} {p : Progress}

/-! ## Readings that make no calls -/

namespace Reading.Leads

lemma peek_any {post : Option UInt8 → Progress → Prop}
    (h : ∀ o q, q.read = p.read → q.read ≤ q.peek → post o q) : Leads bytes Reading.peek p post := by
  have hread : Leads bytes Reading.peek p fun _ q => q.read = p.read :=
    peek (fun _ => rfl) fun _ _ _ hq _ _ => hq
  exact hread.mono fun o q _ _ hle hq => h o q hq hle

lemma readFixedFrom (length base count value : Nat) :
    Leads bytes (Numeral.readFixedFrom length base count value) p fun _ _ => True := by
  induction count generalizing p value with
  | zero => exact pure trivial
  | succ count ih =>
    rw [Numeral.readFixedFrom]
    refine bind (offset fun _ => bind (peek_any fun o q _ _ => ?_))
    cases o.bind (Numeral.digitOf? base) with
    | none => exact bind (resetPeek fun _ _ _ => bind (locationFrom fun _ => bind (error (pure trivial))))
    | some d =>
      refine bind (consumePeek fun q _ _ => ?_)
      split
      · exact ih _
      · exact pure trivial

open Literal

lemma readEscape (start : Nat) (c : UInt8) :
    Leads bytes (readEscape start c) p fun _ _ => True := by
  have hfixed : ∀ length base {post : Option Nat → Progress → Prop}, (∀ o q, post o q) →
      Leads bytes (Numeral.readFixed length base) p post := fun length base _ h =>
    (readFixedFrom length base length 0).mono fun o q _ _ _ _ => h o q
  have hbad : ∀ {q : Progress} {text : String} {e : Escape},
      Leads bytes (Reading.locationFrom start >>= fun l => Reading.error text l >>= fun _ =>
        Pure.pure e) q fun _ _ => True := bind (locationFrom fun _ => bind (error (pure trivial)))
  unfold Literal.readEscape
  cases simpleEscape? c with
  | some b => exact pure trivial
  | none =>
    dsimp only
    split
    · exact pure trivial
    · split
      · refine bind (hfixed 2 16 fun o q => ?_)
        cases o <;> exact pure trivial
      · split
        · refine bind (hfixed 4 16 fun o q => ?_)
          cases o with
          | none => exact pure trivial
          | some v =>
            dsimp only
            cases codePoint? v with
            | none => exact hbad
            | some c => exact pure trivial
        · split
          · refine bind (hfixed 2 8 fun o q => ?_)
            cases o with
            | none => exact pure trivial
            | some low =>
              dsimp only
              split
              · exact pure trivial
              · exact hbad
          · exact hbad

lemma keyOf (v : Value) (l : Location) {post : Outcome String → Progress → Prop}
    (h : ∀ a, post a p) : Leads bytes (keyOf v l) p post :=
  of_snd_eq (fun r => by cases v <;> rfl) h

lemma checkMixture (start : Nat) (c : Container) {post : Container → Progress → Prop}
    (h : ∀ a, post a p) : Leads bytes (checkMixture start c) p post := by
  refine of_snd_eq (fun r => ?_) h
  unfold Literal.checkMixture
  split <;> rfl

/-- What stands between two entries is read, unless it is the closing character. -/
lemma readSeparator (close : UInt8) :
    Leads bytes (readSeparator close) p fun _ q =>
      bytes.length ≤ q.read ∨ p.read < q.read ∨ ∃ o, step? bytes q.read = some (close, o) := by
  unfold Literal.readSeparator
  refine bind (skipWhitespace fun q hq hq' hle hlen => bind (peek (fun hend => ?_) ?_))
  · refine bind (resetPeek fun q' h1 _ => pure (.inl ?_))
    omega
  · intro c q' hstep hread hlt hlen'
    dsimp only
    split
    · exact bind (consumePeek fun q'' h1 _ => pure (.inr (.inl (by omega))))
    · split
      · next hc =>
        refine bind (resetPeek fun q'' h1 _ => pure (.inr (.inr ⟨q'.peek, ?_⟩)))
        rw [h1, hread, ← hq', hstep, eq_of_beq hc]
      · refine bind (resetPeek fun q'' h1 _ => bind (location fun _ => bind (error ?_)))
        refine bind (read (fun hend => pure (.inl hend)) fun c' q''' _ h2 _ => pure (.inr (.inl ?_)))
        omega

end Reading.Leads

namespace Literal

/-! ## Plans around loops -/

section Errors

variable {Q : Call → Progress → Prop} {α : Type} {a : α} {text : String}

/-- An error is reported, and there is a substitute for a result. -/
lemma meets_errorFrom {start : Nat} :
    (liftM (Reading.locationFrom start) >>= fun l => liftM (Reading.error text l) >>=
      fun _ => Pure.pure a : LiteralPlan α).Meets bytes Q p fun _ _ => True :=
  .act (.locationFrom fun _ => .act (.error (.pure trivial)))

lemma meets_errorHere :
    (liftM Reading.location >>= fun l => liftM (Reading.error text l) >>=
      fun _ => Pure.pure a : LiteralPlan α).Meets bytes Q p fun _ _ => True :=
  .act (.location fun _ => .act (.error (.pure trivial)))

end Errors

section Loops

variable {Q : Call → Progress → Prop} (hQ : ∀ d q, d.isLoop = true → p.read ≤ q.read → Q d q)
include hQ

lemma meets_numeralPlan (delims : List UInt8) :
    (numeralPlan delims).Meets bytes Q p fun _ _ => True := by
  refine .act (.resetPeek fun q hq _ => ?_)
  refine .bind (.ask (hQ _ _ rfl hq.ge) fun s q' _ _ _ => ?_)
  cases s with
  | none => exact .pure trivial
  | some s =>
    dsimp only
    cases s.finish with
    | none => exact meets_errorHere
    | some n =>
      dsimp only
      split
      · exact .pure trivial
      · exact meets_errorHere

/-- Where there is no number, the reader is where it was. -/
lemma meets_numberPlan (delims : List UInt8) :
    (numberPlan delims).Meets bytes Q p fun o q => o = none → q = p := by
  have hany : ∀ (o : Option Value) (q : Progress),
      (o.isSome = true → o = none → q = p) ∧ (o = none → none = (none : Option Value) → p = p) := by
    intro o q
    cases o with
    | none => exact ⟨nofun, fun _ _ => rfl⟩
    | some v => exact ⟨nofun, nofun⟩
  refine .onFork (.bind ((meets_numeralPlan hQ delims).mono fun n q _ => ?_))
  cases n with
  | none => exact .pure (hany _ _)
  | some n =>
    refine .act (.skipWhitespace fun _ _ _ _ _ => .act (.lookahead fun c _ _ _ => ?_))
    cases c with
    | none => exact .pure (hany _ _)
    | some c => exact .pure (hany _ _)

lemma meets_quotedPlan : quotedPlan.Meets bytes Q p fun _ _ => True := by
  refine .act (.resetPeek fun q hq _ => .act (.offset fun start => ?_))
  refine .act (.read (fun _ => meets_errorFrom) ?_)
  intro c q' _ hlt _
  dsimp only
  split
  · exact .ask (hQ _ _ rfl (by omega)) fun _ _ _ _ _ => trivial
  · exact meets_errorFrom

lemma meets_unquotedPlan (delims : List UInt8) :
    (unquotedPlan delims).Meets bytes Q p fun _ _ => True :=
  .act (.skipWhitespace fun _ _ _ hle _ =>
    .bind (.ask (hQ _ _ rfl hle) fun _ _ _ _ _ => .pure trivial))

lemma meets_wordPlan (delims : List UInt8) (start : Nat) :
    (wordPlan delims start).Meets bytes Q p fun _ _ => True := by
  refine .bind ((meets_unquotedPlan hQ delims).mono fun s q _ => ?_)
  split
  · exact meets_errorFrom
  · exact .pure trivial

end Loops

/-! ## The order of calls -/

namespace Call

/-- Calls come in an order at every place: loops, containers, values, and entries. -/
def rank (bytes : List UInt8) (p : Progress) : Call → Nat
  | value _ _ => 3 * (bytes.length - p.read) + 2
  | container _ => 3 * (bytes.length - p.read) + 1
  | entries _ _ _ _ => 3 * (bytes.length - p.read) + 3
  | quoted _ _ _ _ => bytes.length - p.read
  | unquoted _ _ => bytes.length - p.read
  | number _ _ => bytes.length - p.read

lemma rank_of_isLoop {c : Call} (hc : c.isLoop = true) : c.rank bytes p = bytes.length - p.read := by
  cases c with
  | quoted | unquoted | number => rfl
  | value | container | entries => exact nomatch hc

/-- A call is not deeper than containers may be. -/
def Shallow (limits : Limits) : Call → Prop
  | value _ depth => depth ≤ limits.complexDepth.toNat
  | container depth => depth ≤ limits.complexDepth.toNat
  | entries _ _ depth _ => depth < limits.complexDepth.toNat
  | quoted _ _ _ _ => True
  | unquoted _ _ => True
  | number _ _ => True

lemma shallow_of_isLoop {limits : Limits} {c : Call} (hc : c.isLoop = true) : c.Shallow limits := by
  cases c with
  | quoted | unquoted | number => trivial
  | value | container | entries => exact nomatch hc

/-- A call may make another one at some place. -/
structure Descends (limits : Limits) (bytes : List UInt8) (c : Call) (p : Progress) (d : Call)
    (q : Progress) : Prop where
  ahead : p.read ≤ q.read
  rank : d.rank bytes q < c.rank bytes p
  shallow : c.Shallow limits → d.Shallow limits

variable {limits : Limits}

/-- Loops come before everything else. -/
lemma Descends.of_isLoop {c d : Call} {q : Progress} (hc : c.isLoop = false) (hd : d.isLoop = true)
    (hle : p.read ≤ q.read) : c.Descends limits bytes p d q := by
  refine ⟨hle, ?_, fun _ => shallow_of_isLoop hd⟩
  rw [rank_of_isLoop hd]
  cases c with
  | quoted | unquoted | number => exact nomatch hc
  | value | container | entries =>
    dsimp only [Call.rank]
    omega

/-- A loop reads something in every round. -/
lemma Descends.of_lt {c d : Call} {q : Progress} (hc : c.isLoop = true) (hd : d.isLoop = true)
    (hlt : p.read < q.read) (hlen : q.read ≤ bytes.length) : c.Descends limits bytes p d q := by
  refine ⟨hlt.le, ?_, fun _ => shallow_of_isLoop hd⟩
  rw [rank_of_isLoop hc, rank_of_isLoop hd]
  omega

end Call

/-! ## Plans of calls -/

section Plans

variable {Q : Call → Progress → Prop}

lemma meets_roundPlan {quote : UInt8} {start : Nat} (out : Array UInt8) (ok : Bool)
    (hQ : ∀ out ok q, p.read < q.read → q.read ≤ bytes.length → Q (.quoted quote start out ok) q) :
    (roundPlan quote start out ok).Meets bytes Q p fun _ _ => True := by
  have hnext : ∀ out ok q, p.read < q.read → q.read ≤ bytes.length →
      (Call.ask (.quoted quote start out ok)).Meets bytes Q q fun _ _ => True :=
    fun _ _ _ hlt hlen => .ask (hQ _ _ _ hlt hlen) fun _ _ _ _ _ => trivial
  refine .act (.read (fun _ => meets_errorFrom) fun c q _ hlt hlen => ?_)
  dsimp only
  split
  · exact .pure trivial
  · split
    · exact meets_errorFrom
    · split
      · refine .act (.offset fun _ => .act (.read (fun _ => hnext _ _ _ hlt hlen) ?_))
        intro e q' _ hlt' hlen'
        refine .act ((Reading.Leads.readEscape _ e).mono fun escape q'' hle hlen'' hpeek _ => ?_)
        exact hnext _ _ _ (by omega) (hpeek.trans hlen'')
      · exact hnext _ _ _ hlt hlen

section Entries

variable {close : UInt8} {start depth o o' : Nat} {c₀ : UInt8}
  (hstep : step? bytes o = some (c₀, o')) (hopen : c₀ ≠ close)
  (hnext : ∀ c q, o < q.read → q.read ≤ bytes.length → Q (.entries close start depth c) q)
include hstep hopen hnext

/-- The character with which an entry begins is not the closing one, so it has been read by its end. -/
lemma meets_nextPlan (c : Container) (hle : o ≤ p.read) :
    (nextPlan close start depth c).Meets bytes Q p fun _ _ => True := by
  have hlt := CharReader.step?_bounds hstep
  refine .act (.checkMixture _ _ fun c' => ?_)
  refine .act ((Reading.Leads.readSeparator close).mono fun _ q hpq hlen hpeek h => ?_)
  refine .ask (hnext _ _ ?_ (hpeek.trans hlen)) fun _ _ _ _ _ => trivial
  obtain h | h | ⟨t, h⟩ := h
  · omega
  · omega
  · refine lt_of_le_of_ne (hle.trans hpq) fun e => hopen ?_
    rw [← e, hstep] at h
    exact (Prod.mk.inj (Option.some.inj h)).1

lemma meets_entryPlan (c : Container) (first : Value) (hle : o ≤ p.read)
    (hvalue : ∀ delims q, o ≤ q.read → Q (.value delims (depth + 1)) q) :
    (entryPlan close start depth c first).Meets bytes Q p fun _ _ => True := by
  refine .act (.skipWhitespace fun q _ _ hpq _ => .act (.peek_any fun mark q' hq' hpeek => ?_))
  split
  · refine .act (.consumePeek fun q'' hq'' _ => .act (.location fun place => ?_))
    refine .act (.keyOf first place fun key => .bind (.ask (hvalue _ _ (by omega)) ?_))
    intro value r hr _ _
    split
    · exact .act (.warning (meets_nextPlan hstep hopen hnext _ (by omega)))
    · exact meets_nextPlan hstep hopen hnext _ (by omega)
  · exact .act (.resetPeek fun q'' hq'' _ => meets_nextPlan hstep hopen hnext _ (by omega))

end Entries

/-- A round of entries reads more than nothing, or it is the last one. -/
lemma meets_entries {limits : Limits} {close : UInt8} {start depth : Nat} {c : Container}
    (hvalue : ∀ delims q, p.read ≤ q.read → Q (.value delims (depth + 1)) q)
    (hnext : ∀ c q, p.read < q.read → q.read ≤ bytes.length → Q (.entries close start depth c) q) :
    ((Call.entries close start depth c).plan limits).Meets bytes Q p fun _ _ => True := by
  refine .act (.skipWhitespace fun q hq hpeek hle hlen => ?_)
  split
  · exact meets_errorFrom
  · next hmore =>
    have hlt : q.read < bytes.length := by simpa using hmore
    refine .act (.peek (fun hend => absurd hend (by omega)) fun c₀ q₁ hstep hq₁ _ _ => ?_)
    rw [hpeek] at hstep
    split
    · exact .act (.consumePeek fun _ _ _ => .pure trivial)
    · next hne =>
      have hopen : c₀ ≠ close := fun e => hne (by rw [e, beq_self_eq_true])
      refine .act (.resetPeek fun q₂ hq₂ _ => .bind (.ask (hvalue _ _ (by omega)) ?_))
      intro first q₃ hq₃ _ _
      refine meets_entryPlan hstep hopen (fun _ _ h => hnext _ _ (by omega)) _ _ (by omega) ?_
      exact fun _ _ h => hvalue _ _ (by omega)

end Plans

namespace Call

variable {limits : Limits}

/-- Every call descends from the one that makes it. -/
theorem meets (c : Call) : (c.plan limits).Meets bytes (c.Descends limits bytes p) p fun _ _ => True := by
  cases c with
  | value delims depth =>
    refine .act (.skipWhitespace fun q hq _ hle hlen => .act (.offset fun start => ?_))
    have hQ : ∀ {q' : Progress}, q'.read = q.read → ∀ d q'', d.isLoop = true →
        q'.read ≤ q''.read → (value delims depth).Descends limits bytes p d q'' :=
      fun e _ _ hd h => .of_isLoop rfl hd (by omega)
    refine .act (.lookahead fun c q' hq' _ => ?_)
    cases c with
    | none => exact meets_errorHere
    | some c =>
      dsimp only
      split
      · exact .bind ((meets_quotedPlan (hQ hq')).mono fun _ _ _ => .pure trivial)
      · split
        · refine .ask ⟨by omega, ?_, id⟩ fun _ _ _ _ _ => trivial
          dsimp only [rank]
          omega
        · split
          · refine .bind ((meets_numberPlan (hQ hq') delims).mono fun v q'' h => ?_)
            cases v with
            | some v => exact .pure trivial
            | none => exact h rfl ▸ meets_wordPlan (hQ hq') _ _
          · exact meets_wordPlan (hQ hq') _ _
  | container depth =>
    refine .act (.resetPeek fun q hq _ => .act (.offset fun start => .act (.read (fun _ => ?_) ?_)))
    · exact meets_errorFrom
    · intro c q' _ hlt hlen
      cases (some c).bind closerOf? with
      | none => exact meets_errorFrom
      | some close =>
        rw [openedPlan]
        split
        · exact meets_errorFrom
        · next hdepth =>
          refine .bind (.ask ⟨by omega, ?_, fun _ => not_le.1 hdepth⟩ fun _ _ _ _ _ => .pure trivial)
          dsimp only [rank]
          omega
  | entries close start depth c =>
    refine meets_entries (fun delims q hle => ⟨hle, ?_, fun h => h⟩) fun c' q hlt hlen =>
      ⟨hlt.le, ?_, id⟩
    · dsimp only [rank]
      omega
    · dsimp only [rank]
      omega
  | quoted quote start out ok =>
    have hround : ∀ out' ok', (roundPlan quote start out' ok').Meets bytes
        ((quoted quote start out ok).Descends limits bytes p) p fun _ _ => True :=
      fun _ _ => meets_roundPlan _ _ fun _ _ _ => .of_lt rfl rfl
    simp only [plan]
    split
    · exact .act (.locationFrom fun _ => .act (.error (hround _ _)))
    · exact hround _ _
  | unquoted delims out =>
    refine .act (.peek (fun _ => .act (.resetPeek fun _ _ _ => .pure trivial)) fun c q _ _ hlt hlen => ?_)
    dsimp only
    split
    · exact .act (.resetPeek fun _ _ _ => .pure trivial)
    · refine .act (.consumePeek fun q' hq' _ => .ask (.of_lt rfl rfl ?_ ?_) fun _ _ _ _ _ => trivial)
      · omega
      · omega
  | number delims s =>
    refine .act (.peek (fun _ => .act (.resetPeek fun _ _ _ => .pure trivial)) fun c q _ _ hlt hlen => ?_)
    dsimp only
    split
    · exact .act (.resetPeek fun _ _ _ => .pure trivial)
    · cases s.step c with
      | none =>
        exact .act (.resetPeek fun _ _ _ => meets_errorHere)
      | some s =>
        refine .act (.consumePeek fun q' hq' _ => ?_)
        refine .ask (.of_lt rfl rfl ?_ ?_) fun _ _ _ _ _ => trivial
        · omega
        · omega

/-! ## Calls that never run out -/

/-- There are more rounds and there is more fuel than a call can use. -/
lemma exists_runWith (limits : Limits) (c : Call) {r : CharReader} (hr : r.On bytes p) :
    ∃ n, c.rank bytes p < n ∧ c.run limits r = c.runWith limits n r := by
  have hextent : bytes.length - p.read ≤ r.buffer.extent := by
    have h1 := hr.window.length_sub_le_extent
    have h2 := (hr.window.place?_mem hr.shows.read).1
    omega
  cases c with
  | quoted | unquoted | number =>
    refine ⟨r.buffer.extent + 2, ?_, rfl⟩
    dsimp only [rank]
    omega
  | value | container | entries =>
    refine ⟨4 * (r.buffer.extent + 2), ?_, rfl⟩
    dsimp only [rank]
    omega

/-- A call with enough rounds or fuel does what its plan says when all calls have enough, and does not go
back. -/
lemma runWith_eq_plan {c : Call} {n : Nat} (hn : c.rank bytes p < n) :
    ((c.runWith limits n).Leads bytes p fun _ _ => True) ∧
      ∀ r, r.On bytes p → c.runWith limits n r = (c.plan limits).run (run limits) r := by
  induction hk : c.rank bytes p using Nat.strong_induction_on generalizing c p n with
  | _ k ih =>
    obtain ⟨m, rfl⟩ : ∃ m, n = m + 1 := ⟨n - 1, by omega⟩
    have hcall : ∀ d q, c.Descends limits bytes p d q →
        ((c.answer limits m d).Leads bytes q fun _ _ => True) ∧
          ∀ r, r.On bytes q → c.answer limits m d r = d.run limits r := by
      intro d q h
      have hd : ∀ n', d.rank bytes q < n' → ((d.runWith limits n').Leads bytes q fun _ _ => True) ∧
          ∀ r, r.On bytes q → d.runWith limits n' r = (d.plan limits).run (run limits) r :=
        fun n' hn' => ih _ (hk ▸ h.rank) hn' rfl
      unfold answer
      split
      · have hm : d.rank bytes q < m := by have := h.rank; omega
        refine ⟨(hd m hm).1, fun r hr => ?_⟩
        obtain ⟨n', hn', e⟩ := exists_runWith limits d hr
        rw [e, (hd m hm).2 r hr, (hd n' hn').2 r hr]
      · refine ⟨fun r hr => ?_, fun _ _ => rfl⟩
        obtain ⟨n', hn', e⟩ := exists_runWith limits d hr
        rw [e]
        exact (hd n' hn').1 r hr
    have hmeets : (c.plan limits).Meets bytes (c.Descends limits bytes p) p fun _ _ => True := meets c
    rw [runWith_succ]
    refine ⟨hmeets.leads fun d q h => (hcall d q h).1, fun r hr => ?_⟩
    refine (Plan.run_congr _ _ r fun y hy => ?_).symm
    obtain ⟨q, hq, h⟩ := hmeets.calls (fun d q h => (hcall d q h).1) hr y hy
    exact ((hcall y.1 q h).2 y.2 hq).symm

/-- A call does what its plan says. -/
theorem run_eq_plan (c : Call) {r : CharReader} (hr : r.On bytes p) :
    c.run limits r = (c.plan limits).run (run limits) r := by
  obtain ⟨n, hn, e⟩ := exists_runWith limits c hr
  rw [e]
  exact (runWith_eq_plan hn).2 r hr

/-- A call does not go back. -/
theorem run_leads (c : Call) : (c.run limits).Leads bytes p fun _ _ => True := by
  intro r hr
  obtain ⟨n, hn, e⟩ := exists_runWith limits c hr
  rw [e]
  exact (runWith_eq_plan hn).1 r hr

lemma calls_descend (c : Call) {r : CharReader} (hr : r.On bytes p) :
    ∀ y ∈ (c.plan limits).calls (run limits) r,
      ∃ q, y.2.On bytes q ∧ c.Descends limits bytes p y.1 q :=
  (meets c).calls (fun d _ _ => run_leads d) hr

/-- A call comes to an end. -/
theorem exists_ends (c : Call) {r : CharReader} (hr : r.On bytes p) :
    ∃ n, Plan.Ends (plan limits) (c.plan limits) r n (c.run limits r) := by
  induction hk : c.rank bytes p using Nat.strong_induction_on generalizing c p r with
  | _ k ih =>
    rw [c.run_eq_plan hr]
    refine Plan.exists_ends _ r fun y hy => ?_
    obtain ⟨q, hq, h⟩ := c.calls_descend hr y hy
    exact ih _ (hk ▸ h.rank) _ hq rfl

end Call

end Literal

end Semdoc
