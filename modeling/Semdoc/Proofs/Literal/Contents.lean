import Semdoc.Proofs.Literal.Verdict
import Semdoc.Proofs.Text.Cuts

/-!
# Contents of strings

The bytes in a string are cut at the limit, and what is left is decoded.  The limit decides neither where the string
ends nor what else is wrong with it.
-/

namespace Semdoc

open CharReader (step? isBreak toNat_lt_of_isBreak)

variable {bytes : List UInt8} {p : Progress} {r : CharReader}

/-- Reading a character, or nothing at the end. -/
lemma CharReader.On.read_cases (hr : r.On bytes p) :
    (bytes.length ≤ p.read ∧ r.read.1 = none ∧ r.read.2.On bytes p) ∨
      ∃ c q, step? bytes p.read = some (c, q.read) ∧ q.peek = max p.peek q.read ∧
        r.read.1 = some c ∧ r.read.2.On bytes q := by
  have hspec := hr.shows.read_spec hr.window
  cases hst : step? bytes p.read with
  | none =>
    rw [hst] at hspec
    obtain ⟨r', he, hs, hb⟩ := hspec
    rw [he]
    exact .inl ⟨CharReader.step?_eq_none_iff.1 hst, rfl, hb.window, hs⟩
  | some s =>
    rw [hst] at hspec
    obtain ⟨r', he, hs, hb⟩ := hspec
    rw [he]
    exact .inr ⟨s.1, _, rfl, rfl, rfl, hb.window, hs⟩

namespace Literal

/-! ## Without a limit -/

/-- The bytes in a string behind its opening quote, and whether anything else than their number is wrong. -/
def contentRest (quote : UInt8) : Nat → Reading (Outcome (List UInt8))
  | 0 => return .bad []
  | rounds + 1 => do
    match ← Reading.read with
    | none => return .bad []
    | some c =>
      if c == quote then return .good []
      else if c == lineFeed then return .bad []
      else if c == backslash then
        let escapeStart := (← Reading.offset) - 1
        match ← Reading.read with
        | none => contentRest quote rounds
        | some e =>
          let escape ← readEscape escapeStart e
          let rest ← contentRest quote rounds
          return ⟨escape.ok && rest.ok, escape.value ++ rest.value⟩
      else
        let rest ← contentRest quote rounds
        return ⟨rest.ok, c :: rest.value⟩

/-- The bytes in a string in quotes, and whether anything else than their number is wrong. -/
def content : Reading (Outcome (List UInt8)) := do
  Reading.resetPeek
  match ← Reading.read with
  | some q => if isQuote q then contentRest q (← Reading.rounds) else return .bad []
  | none => return .bad []

/-- What a limit makes of the bytes in a string. -/
def limited (limit : Nat) (whole : Outcome (List UInt8)) : Outcome String :=
  ⟨whole.ok && decide (whole.value.length ≤ limit), Text.decodeUtf8 (whole.value.take limit)⟩

/-- Bytes in front of those of a string. -/
def behind (out : Array UInt8) (ok : Bool) (rest : Outcome (List UInt8)) : Outcome (List UInt8) :=
  ⟨ok && rest.ok, out.toList ++ rest.value⟩

section Limit

variable {limit : UInt64} {quote : UInt8} {start n : Nat} {out : Array UInt8} {ok : Bool}
  {rest : Outcome (List UInt8)}

/-- Some bytes of a string cut at the limit. -/
def cut (limit : UInt64) (out : Array UInt8) : Array UInt8 :=
  if limit.toNat < out.size then out.extract 0 limit.toNat else out

lemma toList_cut (limit : UInt64) (out : Array UInt8) :
    (cut limit out).toList = out.toList.take limit.toNat := by
  unfold cut
  split
  · simp
  · next h => rw [List.take_of_length_le (by simpa using h)]

/-- Whether bytes are cut away now or at the end makes no difference. -/
lemma limited_behind_cut :
    limited limit.toNat (behind (cut limit out) (ok && !decide (limit.toNat < out.size)) rest) =
      limited limit.toNat (behind out ok rest) := by
  by_cases h : limit.toNat < out.size
  · have hlength : limit.toNat < out.toList.length := h
    have hlong : ¬ (behind out ok rest).value.length ≤ limit.toNat := by
      rw [behind, List.length_append]
      omega
    have hok : (behind (cut limit out) (ok && !decide (limit.toNat < out.size)) rest).ok = false := by
      simp [behind, h]
    have htake : (behind (cut limit out) (ok && !decide (limit.toNat < out.size)) rest).value.take limit.toNat =
        (behind out ok rest).value.take limit.toNat := by
      have hle : limit.toNat ≤ (out.toList.take limit.toNat).length := by
        rw [List.length_take]
        omega
      rw [behind, behind, toList_cut, List.take_append_of_le_length hle,
        List.take_append_of_le_length hlength.le, List.take_take, min_self]
    rw [limited, limited, hok, htake, decide_eq_false hlong, Bool.false_and, Bool.and_false]
  · rw [cut, if_neg h, decide_eq_false h, Bool.not_false, Bool.and_true]

lemma limited_behind_good (hlen : out.size ≤ limit.toNat) :
    limited limit.toNat (behind out ok (.good [])) = ⟨ok, textOf out⟩ := by
  have htake : out.toList.take limit.toNat = out.toList := List.take_of_length_le hlen
  simp [limited, behind, Outcome.good, textOf, htake, hlen]

lemma limited_behind_bad (hlen : out.size ≤ limit.toNat) :
    limited limit.toNat (behind out ok (.bad [])) = .bad (textOf out) := by
  have htake : out.toList.take limit.toNat = out.toList := List.take_of_length_le hlen
  simp [limited, behind, Outcome.bad, textOf, htake]

lemma behind_push (c : UInt8) :
    behind (out.push c) ok rest = behind out ok ⟨rest.ok, c :: rest.value⟩ := by
  simp [behind]

lemma behind_append (escape : Escape) :
    behind (out ++ escape.value) (ok && escape.ok) rest =
      behind out ok ⟨escape.ok && rest.ok, escape.value ++ rest.value⟩ := by
  simp [behind, Bool.and_assoc]

lemma size_cut_le : (cut limit out).size ≤ limit.toNat := by
  unfold cut
  split
  · rw [Array.size_extract]
    omega
  · omega

/-! ## With a limit -/

/-- The first thing in a round that is not a report. -/
lemma value_report {α : Type} {wrong : Bool} {text : String} (x : Reading α) (r : CharReader) :
    ((if wrong then
        Reading.locationFrom start >>= fun l => Reading.error text l >>= fun _ => x
      else x) r).value = (x r).value := by
  cases wrong <;> rfl

lemma value_bind {α β : Type} (x : Reading α) (f : α → Reading β) (r : CharReader) :
    ((x >>= f) r).value = (f (x r).value.1 (x r).value.2).value := rfl

lemma value_read (r : CharReader) : (Reading.read r).value = r.read := rfl

lemma value_offset (r : CharReader) : (Reading.offset r).value = (r.offset, r) := rfl

lemma value_resetPeek (r : CharReader) : (Reading.resetPeek r).value = ((), r.resetPeek) := rfl

lemma value_rounds (r : CharReader) : (Reading.rounds r).value = (r.buffer.extent + 2, r) := rfl

lemma value_pure {α : Type} (a : α) (r : CharReader) : ((pure a : Reading α) r).value = (a, r) := rfl

/-- A string with a limit ends where it ends without, and has its bytes up to the limit. -/
lemma readQuotedRest_value (hr : r.On bytes p) (hn : bytes.length - p.read < n) :
    (readQuotedRest limit quote start n out ok r).value =
      (limited limit.toNat (behind out ok (contentRest quote n r).value.1), (contentRest quote n r).value.2) := by
  induction n generalizing r p out ok with
  | zero => omega
  | succ n ih =>
    have hcut : (if limit.toNat < out.size then out.extract 0 limit.toNat else out) = cut limit out := rfl
    have hlen : (cut limit out).size ≤ limit.toNat := size_cut_le
    rw [← limited_behind_cut, readQuotedRest, value_report, hcut, contentRest]
    generalize cut limit out = out at hlen ⊢
    generalize (ok && !decide (limit.toNat < _)) = ok
    simp only [value_bind, value_read]
    rcases hr.read_cases with ⟨-, hc, -⟩ | ⟨c, q, hstep, -, hc, hq⟩
    · rw [hc]
      exact congrArg (·, r.read.2) (limited_behind_bad hlen).symm
    · rw [hc]
      dsimp only
      have hbounds := CharReader.step?_bounds hstep
      split
      · exact congrArg (·, r.read.2) (limited_behind_good hlen).symm
      split
      · exact congrArg (·, r.read.2) (limited_behind_bad hlen).symm
      split
      · simp only [value_bind, value_read, value_offset]
        rcases hq.read_cases with ⟨hend, he, hq'⟩ | ⟨e, q', hstep', -, he, hq'⟩
        · rw [he]
          exact ih hq' (by omega)
        · rw [he]
          dsimp only
          have hbounds' := CharReader.step?_bounds hstep'
          obtain ⟨q'', hq'', -, hle, -⟩ := Reading.Leads.readEscape (r.read.2.offset - 1) e _ hq'
          simp only [value_bind, value_pure]
          rw [ih hq'' (by omega), behind_append]
      · simp only [value_bind, value_pure]
        rw [ih hq (by omega), behind_push]

/-- There are more rounds than bytes left. -/
lemma lt_rounds (hr : r.On bytes p) : bytes.length - p.read < r.buffer.extent + 2 := by
  have hextent := hr.window.length_sub_le_extent
  have hfirst := (hr.window.place?_mem hr.shows.read).1
  omega

/-- A string in quotes with a limit ends where it ends without, and has its bytes up to the limit. -/
lemma readQuoted_value (limit : UInt64) (hr : r.On bytes p) :
    (readQuoted limit r).value = (limited limit.toNat (content r).value.1, (content r).value.2) := by
  have hbad : limited limit.toNat (.bad []) = .bad "" := by
    simp [limited, Outcome.bad, Text.decodeUtf8, Text.decodeChars]
  obtain ⟨hs, hb⟩ := hr.shows.resetPeek_spec hr.window
  unfold readQuoted content
  simp only [value_bind, value_resetPeek, value_offset, value_read]
  rcases CharReader.On.read_cases ⟨hb.window, hs⟩ with ⟨-, hc, -⟩ | ⟨c, q, -, -, hc, hq⟩
  · rw [hc]
    exact congrArg (·, r.resetPeek.read.2) hbad.symm
  · rw [hc]
    dsimp only
    split
    · simp only [value_bind, value_rounds]
      rw [readQuotedRest_value hq (lt_rounds hq)]
      simp [behind]
    · exact congrArg (·, r.resetPeek.read.2) hbad.symm

end Limit

/-! ## Strings in texts -/

section Steps

variable {o o' : Nat} {c b : UInt8}

/-- A character is a byte as it is, or a break of one or two bytes. -/
lemma step?_cases (h : step? bytes o = some (c, o')) :
    (bytes[o]? = some c ∧ o' = o + 1) ∨ (c = lineFeed ∧ ∃ b, bytes[o]? = some b ∧ isBreak b = true ∧
      (o' = o + 1 ∨ o' = o + 2 ∧ ∃ d, bytes[o + 1]? = some d ∧ isBreak d = true)) := by
  unfold step? at h
  split at h
  · cases h
  · next b hb =>
    split at h
    · next hbreak =>
      refine .inr ?_
      split at h
      · next d hd =>
        split at h
        · next hpair =>
          cases h
          exact ⟨rfl, b, hb, hbreak, .inr ⟨rfl, d, hd, (Bool.and_eq_true_iff.1 hpair).1⟩⟩
        · cases h
          exact ⟨rfl, b, hb, hbreak, .inl rfl⟩
      · cases h
        exact ⟨rfl, b, hb, hbreak, .inl rfl⟩
    · cases h
      exact .inl ⟨hb, rfl⟩

lemma take_succ_of_getElem? (h : bytes[o]? = some b) : bytes.take (o + 1) = bytes.take o ++ [b] := by
  rw [List.take_add_one, h, Option.toList_some]

/-- In front of an ASCII character a text is cut between two characters. -/
lemma isText_take (hbytes : Text.IsText bytes) (h : step? bytes o = some (c, o')) (hc : c.toNat < 0x80) :
    Text.IsText (bytes.take o) := by
  obtain ⟨hb, -⟩ | ⟨-, b, hb, hbreak, -⟩ := step?_cases h
  · exact hbytes.take_of_ascii hb hc
  · exact hbytes.take_of_ascii hb (toNat_lt_of_isBreak hbreak)

/-- Behind an ASCII character as well. -/
lemma isText_take_next (hbytes : Text.IsText bytes) (h : step? bytes o = some (c, o')) (hc : c.toNat < 0x80) :
    Text.IsText (bytes.take o') := by
  have ho := isText_take hbytes h hc
  obtain ⟨hb, rfl⟩ | ⟨-, b, hb, hbreak, rfl | ⟨rfl, d, hd, hbreak'⟩⟩ := step?_cases h
  · rw [take_succ_of_getElem? hb]
    exact ho.append (.ascii hc)
  · rw [take_succ_of_getElem? hb]
    exact ho.append (.ascii (toNat_lt_of_isBreak hbreak))
  · rw [take_succ_of_getElem? hd, take_succ_of_getElem? hb]
    exact (ho.append (.ascii (toNat_lt_of_isBreak hbreak))).append (.ascii (toNat_lt_of_isBreak hbreak'))

end Steps

/-- A reader stands between two characters of a text, and peeks at nothing. -/
structure Between (bytes : List UInt8) (p : Progress) : Prop where
  peek : p.peek = p.read
  isText : Text.IsText (bytes.take p.read)

lemma Between.of_read {q : Progress} (hp : Between bytes p) (hread : q.read = p.read) (hpeek : q.peek = p.read) :
    Between bytes q := ⟨hpeek.trans hread.symm, hread ▸ hp.isText⟩

lemma Between.next {q : Progress} {c : UInt8} (hbytes : Text.IsText bytes)
    (h : step? bytes p.read = some (c, q.read)) (hc : c.toNat < 0x80) (hpeek : q.peek = q.read) :
    Between bytes q := ⟨hpeek, isText_take_next hbytes h hc⟩

lemma toNat_lt_of_digitOf? {base d : Nat} {c : UInt8} (h : Numeral.digitOf? base c = some d) :
    c.toNat < 0x80 := by
  have hrange : ∀ {lo hi : UInt8}, hi.toNat < 0x80 → (decide (lo ≤ c) && decide (c ≤ hi)) = true →
      c.toNat < 0x80 := fun hhi hc => Nat.lt_of_le_of_lt (Text.between_iff.1 hc).2 hhi
  unfold Numeral.digitOf? at h
  obtain ⟨h, -⟩ := Option.filter_eq_some_iff.1 h
  split at h
  · next hc => exact hrange (by decide) hc
  split at h
  · next hc => exact hrange (by decide) hc
  split at h
  · next hc => exact hrange (by decide) hc
  · cases h

/-- Digits are read one by one, up to what is no digit. -/
lemma readFixedFrom_between (hbytes : Text.IsText bytes) (length base count value : Nat) (hp : Between bytes p) :
    Reading.Leads bytes (Numeral.readFixedFrom length base count value) p fun _ q => Between bytes q := by
  induction count generalizing p value with
  | zero => exact .pure hp
  | succ count ih =>
    have hbad : ∀ {q : Progress} {text : String} {start : Nat}, q.read = p.read →
        Reading.Leads bytes (Reading.resetPeek >>= fun _ => Reading.locationFrom start >>= fun l =>
          Reading.error text l >>= fun _ => pure (none : Option Nat)) q fun _ q => Between bytes q :=
      fun hq => .bind (.resetPeek fun q' hread hpeek => .bind (.locationFrom fun _ => .bind (.error (.pure
        (hp.of_read (hread.trans hq) (hpeek.trans hq))))))
    rw [Numeral.readFixedFrom]
    refine .bind (.offset fun _ => .bind (.peek (fun _ => hbad rfl) fun c q hstep hread _ _ => ?_))
    rw [Option.bind_some]
    cases hd : Numeral.digitOf? base c with
    | none => exact hbad hread
    | some d =>
      refine .bind (.consumePeek fun q' hread' hpeek' => ?_)
      rw [hp.peek, ← hread'] at hstep
      have hq' : Between bytes q' :=
        .next hbytes hstep (toNat_lt_of_digitOf? hd) (hpeek'.trans hread'.symm)
      split
      · exact ih _ hq'
      · exact .pure hq'

lemma toNat_lt_of_simpleEscape? {e b : UInt8} (h : simpleEscape? e = some b) :
    e.toNat < 0x80 ∧ b.toNat < 0x80 := by
  have hall : (simpleEscape? e).all fun b => decide (e.toNat < 0x80 ∧ b.toNat < 0x80) :=
    Text.forall_byte (P := fun e => ((simpleEscape? e).all fun b => decide (e.toNat < 0x80 ∧ b.toNat < 0x80)) = true)
      (by decide +kernel) e
  rw [h] at hall
  simpa using hall

/-- An escape sequence stands for a text, unless its letter stands for itself. -/
lemma readEscape_between (hbytes : Text.IsText bytes) (start : Nat) (e : UInt8) (hp : p.peek = p.read)
    (hascii : e.toNat < 0x80 → Text.IsText (bytes.take p.read)) :
    Reading.Leads bytes (readEscape start e) p fun escape q =>
      (Between bytes q ∧ Text.IsText escape.value) ∨
        (q.peek = q.read ∧ q.read = p.read ∧ escape.value = [e] ∧ e ≠ lineFeed) := by
  have hbetween : e.toNat < 0x80 → Between bytes p := fun he => ⟨hp, hascii he⟩
  have hfixed : ∀ length base {post : Option Nat → Progress → Prop}, e.toNat < 0x80 →
      (∀ o q, Between bytes q → post o q) → Reading.Leads bytes (Numeral.readFixed length base) p post :=
    fun length base _ he h =>
      (readFixedFrom_between hbytes length base length 0 (hbetween he)).mono fun o q _ _ _ hq => h o q hq
  have hbad : ∀ {q : Progress} {text : String} {escape : Escape} {post : Escape → Progress → Prop}, post escape q →
      Reading.Leads bytes (Reading.locationFrom start >>= fun l => Reading.error text l >>= fun _ =>
        pure escape) q post := fun h => .bind (.locationFrom fun _ => .bind (.error (.pure h)))
  unfold readEscape
  cases hs : simpleEscape? e with
  | some b =>
    obtain ⟨he, hb⟩ := toNat_lt_of_simpleEscape? hs
    exact .pure (.inl ⟨hbetween he, .ascii hb⟩)
  | none =>
    dsimp only
    split
    · next he =>
      rw [eq_of_beq he] at hbetween
      exact .pure (.inl ⟨hbetween (by decide), .nil⟩)
    next hfeed =>
    split
    · next he =>
      rw [eq_of_beq he] at hfixed
      refine .bind (hfixed 2 16 (by decide) fun o q hq => ?_)
      cases o with
      | none => exact .pure (.inl ⟨hq, .nil⟩)
      | some v => exact .pure (.inl ⟨hq, .char _⟩)
    split
    · next he =>
      rw [eq_of_beq he] at hfixed
      refine .bind (hfixed 4 16 (by decide) fun o q hq => ?_)
      cases o with
      | none => exact .pure (.inl ⟨hq, .nil⟩)
      | some v =>
        dsimp only
        cases codePoint? v with
        | none => exact hbad (.inl ⟨hq, .char Text.replacementChar⟩)
        | some c => exact .pure (.inl ⟨hq, .char _⟩)
    split
    · next he =>
      have hoctal : e.toNat < 0x80 := Nat.lt_of_le_of_lt (Text.between_iff.1 he).2 (by decide)
      refine .bind (hfixed 2 8 hoctal fun o q hq => ?_)
      cases o with
      | none => exact .pure (.inl ⟨hq, .nil⟩)
      | some low =>
        dsimp only
        split
        · exact .pure (.inl ⟨hq, .char _⟩)
        · exact hbad (.inl ⟨hq, .nil⟩)
    · exact hbad (.inr ⟨hp, rfl, rfl, fun e => hfeed (by simp [e])⟩)

/-- What is in a string goes on with the text in front of it. -/
lemma isText_contentRest (hbytes : Text.IsText bytes) {quote : UInt8} (hquote : quote.toNat < 0x80) {n : Nat}
    (hr : r.On bytes p) (hp : p.peek = p.read) (hn : bytes.length - p.read < n) :
    Text.IsText (bytes.take p.read ++ (contentRest quote n r).value.1.value) := by
  induction n generalizing r p with
  | zero => omega
  | succ n ih =>
    rw [contentRest]
    simp only [value_bind, value_read]
    rcases hr.read_cases with ⟨hend, hc, -⟩ | ⟨c, q, hstep, hpeek, hc, hq⟩
    · rw [hc]
      show Text.IsText (bytes.take p.read ++ [])
      rwa [List.append_nil, List.take_of_length_le hend]
    · rw [hc]
      dsimp only
      have hbounds := CharReader.step?_bounds hstep
      have hlevel : q.peek = q.read := by omega
      have hends : c.toNat < 0x80 → Text.IsText (bytes.take p.read ++ []) := fun hascii => by
        rw [List.append_nil]
        exact isText_take hbytes hstep hascii
      split
      · next h => exact hends (eq_of_beq h ▸ hquote)
      split
      · next h => exact hends (eq_of_beq h ▸ (by decide))
      next hfeed =>
      split
      · next h =>
        have hascii : c.toNat < 0x80 := eq_of_beq h ▸ (by decide)
        have hp' := isText_take hbytes hstep hascii
        have hq' := isText_take_next hbytes hstep hascii
        simp only [value_bind, value_read, value_offset]
        rcases hq.read_cases with ⟨-, he, hq''⟩ | ⟨e, t, hstep', hpeek', he, ht⟩
        · rw [he]
          exact hp'.append (hq'.of_append (ih hq'' hlevel (by omega)))
        · rw [he]
          dsimp only
          have hbounds' := CharReader.step?_bounds hstep'
          obtain ⟨u, hu, -, hle, hescape⟩ := readEscape_between hbytes (r.read.2.offset - 1) e
            (by omega) (isText_take_next hbytes hstep') _ ht
          simp only [value_bind, value_pure]
          refine hp'.append ?_
          obtain ⟨hbetween, htext⟩ | ⟨hlevel', hsame, hvalue, hfeed'⟩ := hescape
          · exact htext.append (hbetween.isText.of_append (ih hu hbetween.peek (by omega)))
          · -- the letter may be the first byte of a character, of which the others follow
            have hrest := ih hu hlevel' (by omega)
            obtain ⟨hb, ho⟩ | ⟨hfeed'', -⟩ := step?_cases hstep'
            · rw [hsame, ho, take_succ_of_getElem? hb, List.append_assoc] at hrest
              rw [hvalue]
              exact hq'.of_append hrest
            · exact absurd hfeed'' hfeed'
      · -- a byte that stands for itself
        obtain ⟨hb, ho⟩ | ⟨hfeed', -⟩ := step?_cases hstep
        · have hrest := ih hq hlevel (by omega)
          rw [ho, take_succ_of_getElem? hb, List.append_assoc] at hrest
          exact hrest
        · exact absurd (by simp [hfeed']) hfeed

lemma isText_content (hbytes : Text.IsText bytes) (hr : r.On bytes p) :
    Text.IsText (content r).value.1.value := by
  obtain ⟨hs, hb⟩ := hr.shows.resetPeek_spec hr.window
  unfold content
  simp only [value_bind, value_resetPeek, value_read]
  rcases CharReader.On.read_cases ⟨hb.window, hs⟩ with ⟨-, hc, -⟩ | ⟨c, q, hstep, hpeek, hc, hq⟩
  · rw [hc]
    exact .nil
  · rw [hc]
    dsimp only
    split
    · next hquote =>
      have hbounds := CharReader.step?_bounds hstep
      have hascii : c.toNat < 0x80 := by
        rw [isQuote, Bool.or_eq_true, beq_iff_eq, beq_iff_eq] at hquote
        rcases hquote with rfl | rfl <;> decide
      have hrest := isText_contentRest hbytes hascii hq (by dsimp only at hpeek hbounds; omega) (lt_rounds hq)
      exact (isText_take_next hbytes hstep hascii).of_append hrest
    · exact .nil

/-! ## The limit -/

/-- A string is read as far as without a limit, and stands for as many of its bytes as the limit allows, decoded
leniently.  An error is reported exactly if there are more of them or something else is wrong.  Decoding makes at
most three bytes of one.  In a text it makes the last character longer that the limit cuts, by two bytes at most. -/
theorem readQuoted_limited (limit : UInt64) (hr : r.On bytes p) :
    (readQuoted limit r).value.2 = (content r).value.2 ∧
    (readQuoted limit r).value.1.value =
      Text.decodeUtf8 ((content r).value.1.value.take limit.toNat) ∧
    ((readQuoted limit r).value.1.ok = true ↔
      (content r).value.1.ok = true ∧ (content r).value.1.value.length ≤ limit.toNat) ∧
    (hasError (readQuoted limit r).events = true ↔
      (content r).value.1.ok = false ∨ limit.toNat < (content r).value.1.value.length) ∧
    Text.byteLength (readQuoted limit r).value.1.value ≤ 3 * limit.toNat ∧
    ∀ text, bytes = Text.utf8Bytes text → ∃ (s : String) (kept : List Char) (tail : List UInt8),
      (content r).value.1.value = Text.utf8Bytes s ∧ kept <+: s.toList ∧
      (Text.utf8Bytes s).take limit.toNat = kept.flatMap String.utf8EncodeChar ++ tail ∧
      (tail = [] ∨ Text.Unfinished tail) ∧
      (readQuoted limit r).value.1.value =
        String.ofList (kept ++ if tail = [] then [] else [Text.replacementChar]) ∧
      Text.byteLength (readQuoted limit r).value.1.value =
        min limit.toNat (Text.byteLength s) + Text.tailExcess tail ∧
      Text.tailExcess tail ≤ 2 := by
  have hvalue := readQuoted_value limit hr
  have htells := readQuoted_tells limit r
  rw [Bool.true_and] at htells
  rw [hvalue] at htells ⊢
  have hreport : hasError (readQuoted limit r).events = !(limited limit.toNat (content r).value.1).ok := by
    rw [htells, Bool.not_not]
  have htext : ∀ text, bytes = Text.utf8Bytes text → Text.IsText (content r).value.1.value := by
    rintro text rfl
    exact isText_content ⟨text.toList, Text.utf8Bytes_eq text⟩ hr
  generalize (content r).value.1 = whole at hreport htext ⊢
  refine ⟨rfl, rfl, by simp [limited], ?_, ?_, fun text hbytes => ?_⟩
  · rw [hreport, limited]
    cases whole.ok <;> simp
  · have hbytes := Text.utf8Len_decodeChars_le (whole.value.take limit.toNat)
    rw [List.length_take] at hbytes
    rw [limited, Text.byteLength, Text.decodeUtf8, String.utf8ByteSize_ofList]
    omega
  · obtain ⟨cs, hcs⟩ := htext text hbytes
    obtain ⟨kept, tail, hpiece, hkept⟩ := Text.exists_piece_take cs limit.toNat
    have hs := Text.utf8Bytes_ofList cs
    have hlength := hpiece.byteLength_eq
    rw [List.length_take, ← hs, Text.length_utf8Bytes, List.length_nil] at hlength
    refine ⟨String.ofList cs, kept, tail, hcs.trans hs.symm, by rwa [String.toList_ofList], ?_, hpiece.ends, ?_, ?_, ?_⟩
    · rw [hs, hpiece.eq, List.nil_append]
    · rw [limited, Text.decodeUtf8, hcs, hpiece.decodeChars_eq]
      rfl
    · rw [limited, hcs, ← hs, hlength]
      omega
    · rcases hpiece.ends with rfl | htail
      · exact Nat.zero_le 2
      · have hpos := htail.length_pos
        rw [Text.tailExcess]
        split <;> omega

/-- A reader at the start of a string of two characters of two bytes each. -/
def accents : CharReader := .ofBuffer (.ofBytes [34, 195, 169, 195, 169, 34]) 0

theorem readQuoted_limited_accents :
    accents.On [34, 195, 169, 195, 169, 34] {} ∧
      hasError (readQuoted 3 accents).events = true ∧ (readQuoted 3 accents).value.1.value = "é\ufffd" := by
  have hr : accents.On [34, 195, 169, 195, 169, 34] {} := CharReader.on_ofBytes _ 0
  obtain ⟨-, hvalue, -, herror, -, -⟩ := readQuoted_limited 3 hr
  exact ⟨hr, herror.2 (.inr (by decide +kernel)), hvalue.trans (by decide +kernel)⟩

/-- The bytes that the limit allows become longer than the limit, also where none is cut off. -/
theorem limit_lt_byteLength_readQuoted :
    3 < Text.byteLength (readQuoted 3 accents).value.1.value ∧
      (readQuoted 1 (.ofBuffer (.ofBytes [34, 255, 34]) 0)).value.1.ok = true ∧
      (readQuoted 1 (.ofBuffer (.ofBytes [34, 255, 34]) 0)).events.length = 0 ∧
      1 < Text.byteLength (readQuoted 1 (.ofBuffer (.ofBytes [34, 255, 34]) 0)).value.1.value := by
  decide +kernel

end Literal

end Semdoc
