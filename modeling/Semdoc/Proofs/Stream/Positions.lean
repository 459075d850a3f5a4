import Mathlib.Algebra.Group.Nat.Defs
import Semdoc.Proofs.Source.Lines
import Semdoc.Proofs.Stream.ReaderStack
import Semdoc.Proofs.Text.Boundaries
import Semdoc.Source.Excerpt

/-!
# Positions of readers

A reader counts lines and columns as it goes, while an excerpt of a source looks them up: the line among the
offsets at which lines start, the column by decoding the line up to the place.  Both come to the same, since
every step of a reader that ends a line ends it where the next one starts.
-/

namespace Semdoc

namespace StackOp

/-- Whether bytes are read as they are, without regard to line breaks. -/
def isRaw : StackOp → Bool
  | .use _ (.readRaw _) => true
  | _ => false

end StackOp

/-! ## The way of a reader -/

namespace Progress

open CharReader (Steps)

variable {bytes : List UInt8} {p p' : Progress} {ps ps' : List Progress}

/-- What a reader has passed are the characters from the start to where it has read. -/
def Exact (bytes : List UInt8) (p : Progress) : Prop := Steps bytes 0 p.passed p.read

lemma exact_start : ({} : Progress).Exact bytes := .refl 0

lemma Exact.step {op : ReaderOp} {reply : ReaderReply} (h : p.Exact bytes)
    (hs : Step bytes p op reply p') (hop : ∀ n, op ≠ .readRaw n) : p'.Exact bytes := by
  cases hs with
  | read_end | peek_end | peek | resetPeek | atEnd => exact h
  | read hc => exact Steps.tail h hc
  | consumePeek hcs | consumeWhitespace hcs => exact Steps.trans h hcs
  | readRaw n => exact absurd rfl (hop n)

lemma Exact.stackStep {op : StackOp} {reply : ReaderReply} (h : ∀ p ∈ ps, p.Exact bytes)
    (hs : StackStep bytes ps op reply ps') (hop : op.isRaw = false) : ∀ p ∈ ps', p.Exact bytes := by
  cases hs with
  | absent | alone => exact h
  | fork p ps => exact List.forall_mem_cons.2 ⟨h p List.mem_cons_self, h⟩
  | commit f p ps =>
    rw [List.forall_mem_cons, List.forall_mem_cons] at h
    exact List.forall_mem_cons.2 ⟨h.1, h.2.2⟩
  | drop f p ps => exact (List.forall_mem_cons.1 h).2
  | @use _ level p p' op _ hp hstep =>
    intro q hq
    obtain hq | rfl := List.mem_or_eq_of_mem_set hq
    · exact h q hq
    · refine (h p (List.mem_of_getElem? hp)).step hstep ?_
      rintro n rfl
      cases hop

lemma Exact.stackRun {ops : List StackOp} {replies : List ReaderReply} (h : ∀ p ∈ ps, p.Exact bytes)
    (hr : StackRun bytes ps ops replies ps') (hops : ∀ op ∈ ops, op.isRaw = false) :
    ∀ p ∈ ps', p.Exact bytes := by
  induction hr with
  | nil => exact h
  | cons hs _ ih =>
    rw [List.forall_mem_cons] at hops
    exact ih (Exact.stackStep h hs hops.1) hops.2

end Progress

namespace CharReader

open SourceText (lineStartsFrom)
open Text (startsChar isBoundary)

variable {bytes : List UInt8} {passed cs : List UInt8} {c : UInt8} {o o' last : Nat} {before : List Nat}

/-! ## Lines -/

lemma drop_eq_cons {b : UInt8} (h : bytes[o]? = some b) : bytes.drop o = b :: bytes.drop (o + 1) := by
  rw [List.drop_eq_getElem?_toList_append, h]
  rfl

lemma isBreak_eq : SourceText.isBreak = isBreak := rfl

/-- A character is either a line break, after which the next line starts, or a single byte inside a line. -/
lemma step?_lines (h : step? bytes o = some (c, o')) :
    (c = lineFeed ∧ (∃ d, bytes[o' - 1]? = some d ∧ isBreak d = true) ∧
        lineStartsFrom o (bytes.drop o) = o' :: lineStartsFrom o' (bytes.drop o')) ∨
      (c ≠ lineFeed ∧ bytes[o]? = some c ∧ o' = o + 1 ∧
        lineStartsFrom o (bytes.drop o) = lineStartsFrom o' (bytes.drop o')) := by
  unfold step? at h
  split at h
  · cases h
  · next b hb =>
    have hdrop : bytes.drop o = b :: bytes.drop (o + 1) := drop_eq_cons hb
    split at h
    · next hbreak =>
      refine .inl ?_
      split at h
      · next d hd =>
        have hdrop' : bytes.drop (o + 1) = d :: bytes.drop (o + 2) := drop_eq_cons hd
        rw [hdrop, hdrop', lineStartsFrom, isBreak_eq, if_pos hbreak]
        split at h
        · next hpair =>
          cases h
          rw [if_pos hpair]
          exact ⟨rfl, ⟨d, hd, (Bool.and_eq_true_iff.1 hpair).1⟩, rfl⟩
        · next hpair =>
          cases h
          rw [if_neg hpair, hdrop']
          exact ⟨rfl, ⟨b, hb, hbreak⟩, rfl⟩
      · next hnone =>
        cases h
        rw [hdrop, List.drop_eq_nil_of_le (List.getElem?_eq_none_iff.1 hnone), lineStartsFrom,
          lineStartsFrom, isBreak_eq, if_pos hbreak]
        exact ⟨rfl, ⟨b, hb, hbreak⟩, rfl⟩
    · next hbreak =>
      cases h
      refine .inr ⟨?_, hb, rfl, ?_⟩
      · rintro rfl
        exact hbreak rfl
      · rw [hdrop]
        cases bytes.drop (o + 1) with
        | nil => rw [lineStartsFrom, lineStartsFrom, isBreak_eq, if_neg hbreak]
        | cons d r => rw [lineStartsFrom, isBreak_eq, if_neg hbreak]

/-- Later lines start further on. -/
lemma lt_of_mem_lineStartsFrom {s : Nat} (h : s ∈ lineStartsFrom o bytes) : o < s := by
  fun_induction lineStartsFrom o bytes with
  | case1 | case3 => cases h
  | case2 =>
    cases List.mem_singleton.1 h
    omega
  | case4 offset b c r _ _ ih | case5 offset b c r _ _ ih =>
    obtain rfl | h := List.mem_cons.1 h
    · omega
    · have := ih h
      omega
  | case6 offset b c r _ ih =>
    have := ih h
    omega

/-- A reader that has passed some characters from the start up to an offset is in the line that starts at
`last`, after those that start at `before`: it counts lines and columns right. -/
structure InLine (bytes passed : List UInt8) (o : Nat) (before : List Nat) (last : Nat) : Prop where
  lines : 0 :: lineStartsFrom 0 bytes = before ++ last :: lineStartsFrom o (bytes.drop o)
  before_le : ∀ s ∈ before, s ≤ o
  last_le : last ≤ o
  boundary : isBoundary bytes.toArray last = true
  tally : tally passed =
    (before.length + 1, ((bytes.drop last).take (o - last)).countP startsChar + 1)

lemma inLine_start (hbytes : isBoundary bytes.toArray 0 = true) : InLine bytes [] 0 [] 0 :=
  ⟨rfl, nofun, le_rfl, hbytes, rfl⟩

/-- A step of a reader counts right. -/
lemma InLine.step (hbreaks : ∀ i d, bytes[i]? = some d → isBreak d = true →
      isBoundary bytes.toArray (i + 1) = true)
    (h : InLine bytes passed o before last) (hs : step? bytes o = some (c, o')) :
    ∃ before last, InLine bytes (passed ++ [c]) o' before last := by
  have hlt := (step?_bounds hs).1
  have hbefore : ∀ s ∈ before, s ≤ o' := fun s hm => (h.before_le s hm).trans hlt.le
  obtain ⟨rfl, ⟨d, hd, hbreak⟩, hlines⟩ | ⟨hc, hget, rfl, hlines⟩ := step?_lines hs
  · have hboundary := hbreaks _ d hd hbreak
    rw [Nat.sub_add_cancel (by omega)] at hboundary
    refine ⟨before ++ [last], o', ?_, ?_, le_rfl, hboundary, ?_⟩
    · rw [h.lines, hlines, List.append_assoc, List.singleton_append]
    · rw [List.forall_mem_append, List.forall_mem_singleton]
      exact ⟨hbefore, h.last_le.trans hlt.le⟩
    · rw [tally_append, if_pos rfl, h.tally, Nat.sub_self, List.take_zero, List.length_append]
      rfl
  · refine ⟨before, last, ?_, hbefore, h.last_le.trans hlt.le, h.boundary, ?_⟩
    · rw [h.lines, hlines]
    · have hnext : (bytes.drop last)[o - last]? = some c := by
        rw [List.getElem?_drop, Nat.add_sub_cancel' h.last_le, hget]
      have htake : (bytes.drop last).take (o + 1 - last) = (bytes.drop last).take (o - last) ++ [c] := by
        rw [Nat.succ_sub h.last_le, List.take_add_one, hnext]
        rfl
      rw [tally_append, if_neg hc, h.tally, htake, List.countP_append, List.countP_singleton, startsChar]
      cases Text.isContinuation c <;> rfl

lemma InLine.steps (hbreaks : ∀ i d, bytes[i]? = some d → isBreak d = true →
      isBoundary bytes.toArray (i + 1) = true)
    (h : InLine bytes passed o before last) (hs : Steps bytes o cs o') :
    ∃ before last, InLine bytes (passed ++ cs) o' before last := by
  induction hs generalizing passed before last with
  | refl => exact ⟨before, last, by rwa [List.append_nil]⟩
  | head hc _ ih =>
    obtain ⟨before', last', h'⟩ := h.step hbreaks hc
    rw [List.append_cons]
    exact ih h'

section Excerpt

variable {s : SourceText}

lemma InLine.lineOf_eq (h : InLine s.bytes passed o before last) :
    s.lineOf o = before.length ∧ s.startOfLine before.length = last :=
  SourceText.lineOf_eq_of_split h.lines h.before_le h.last_le fun _ => lt_of_mem_lineStartsFrom

/-- Between two characters the column counts the characters of the line before the place. -/
lemma InLine.columnOf_eq (h : InLine s.bytes passed o before last) (ho : s.isBoundary o = true) :
    s.columnOf before.length o = ((s.bytes.drop last).take (o - last)).countP startsChar + 1 := by
  have hbytes := s.bytes_eq
  have hlast := h.boundary
  have hplace : isBoundary s.bytes.toArray o = true := ho
  rw [SourceText.columnOf, h.lineOf_eq.2, if_pos ho, SourceText.slice]
  rw [hbytes] at hlast hplace ⊢
  rw [Text.length_decodeChars_slice h.last_le hlast hplace]

/-- What a reader has passed up to a place between two characters of a text has the line and the column that
an excerpt of the text shows for it. -/
lemma Steps.tally_eq (h : Steps s.bytes 0 cs o) (ho : s.isBoundary o = true) :
    tally cs = (s.lineOf o + 1, s.columnOf (s.lineOf o) o) := by
  have hbytes := s.bytes_eq
  have hstart : isBoundary s.bytes.toArray 0 = true := hbytes ▸ Text.isBoundary_zero s.text.toList
  have hbreaks : ∀ i d, s.bytes[i]? = some d → isBreak d = true →
      isBoundary s.bytes.toArray (i + 1) = true := by
    intro i d hd hbreak
    rw [hbytes] at hd ⊢
    exact Text.isBoundary_succ hd (toNat_lt_of_isBreak hbreak)
  obtain ⟨before, last, hplace⟩ := (inLine_start hstart).steps hbreaks h
  rw [← List.nil_append cs, hplace.tally, hplace.lineOf_eq.1, hplace.columnOf_eq ho]

end Excerpt

end CharReader

/-! ## Locations -/

namespace Location

lemma toNat_clampOffset {n : Nat} (h : n < 2 ^ 32 - 1) : (clampOffset n).toNat = n := by
  rw [clampOffset, if_pos (by omega), UInt32.toNat_ofNat']
  omega

/-- An offset that can be represented is where the location of the offset starts. -/
lemma ofOffsets_self {source : UInt32} {n : Nat} (hsource : source ≠ unknownNumber)
    (h : n < 2 ^ 32 - 1) :
    (ofOffsets source n n).isValid = true ∧ (ofOffsets source n n).start.toNat = n := by
  have hn := toNat_clampOffset h
  have hknown : clampOffset n ≠ unknownNumber := by
    intro he
    rw [he] at hn
    rw [← hn] at h
    exact absurd h (by decide)
  have hself : ofOffsets source n n = ⟨source, clampOffset n, clampOffset n, UInt32.le_refl _⟩ :=
    dif_pos _
  rw [hself]
  refine ⟨?_, hn⟩
  show (source != unknownNumber && clampOffset n != unknownNumber && clampOffset n != unknownNumber) =
    true
  rw [bne_iff_ne.2 hsource, bne_iff_ne.2 hknown]
  rfl

end Location

lemma SourceText.excerpt_start {s : SourceText} {l : Location} {o : Nat} (hl : l.isValid = true)
    (hstart : l.start.toNat = o) (ho : o ≤ s.bytes.length) (limit : Nat) :
    (s.excerpt l limit).startLine = s.lineOf o + 1 ∧
      (s.excerpt l limit).startColumn = s.columnOf (s.lineOf o) o := by
  rw [excerpt, if_pos hl, hstart]
  dsimp only
  rw [Nat.min_eq_left ho]
  exact ⟨rfl, rfl⟩

namespace ReaderStack

/-- A new reader of a text, which is in memory or comes from a feed. -/
inductive Opens (text : String) (source : UInt32) : ReaderStack → Prop where
  | inMemory : Opens text source (ofReader (.ofString text source))
  | fed {feed : Feed} (limits : Limits) (h : feed.content = Text.utf8Bytes text) :
      Opens text source (ofReader (.ofFeed feed source limits))

lemma Opens.shows {text : String} {source : UInt32} {st : ReaderStack} (h : Opens text source st) :
    Shows (Text.utf8Bytes text) st [{}] := by
  cases h with
  | inMemory => exact shows_ofReader (Buffer.window_ofBytes _) rfl source
  | fed limits hfeed => exact hfeed ▸ shows_ofReader (Buffer.window_ofFeed _ limits) rfl source

/-- Each of the readers has made some progress. -/
lemma Shows.reader {bytes : List UInt8} {st : ReaderStack} {ps : List Progress} {level : Nat}
    {r : CharReader} (h : Shows bytes st ps) (hr : st.reader? level = some r) :
    ∃ p ∈ ps, CharReader.Shows bytes p r := by
  obtain ⟨r', hr', rfl⟩ := Option.map_eq_some_iff.1 hr
  obtain ⟨hlevel, rfl⟩ := List.getElem?_eq_some_iff.1 hr'
  have hlevel' : level < ps.length := by rwa [← h.each.length_eq]
  exact ⟨ps[level], List.getElem_mem hlevel', h.each.get hlevel hlevel'⟩

/-- Wherever a reader of a text or one of its forks comes to be between two characters, it is at a line and a
column that an excerpt of the text shows for a location there.  The location of the reader itself is a valid
one and starts there, if its source is known. -/
theorem positions_agree {text : String} {source : UInt32} {st : ReaderStack} (hst : Opens text source st)
    (hshort : (Text.utf8Bytes text).length < 2 ^ 32 - 1) {ops : List StackOp}
    (hops : ∀ op ∈ ops, op.isRaw = false) {level : Nat} {r : CharReader}
    (hr : (performAll ops st).2.reader? level = some r)
    (hboundary : Text.isBoundary (Text.utf8Bytes text).toArray r.offset = true) :
    (r.source ≠ Location.unknownNumber →
        r.location.isValid = true ∧ r.location.start.toNat = r.offset) ∧
      ∀ name l limit, l.isValid = true → l.start.toNat = r.offset →
        ((⟨name, text⟩ : SourceText).excerpt l limit).startLine = r.line ∧
          ((⟨name, text⟩ : SourceText).excerpt l limit).startColumn = r.column := by
  obtain ⟨ps, hrun, hshows⟩ := hst.shows.performAll (List.cons_ne_nil _ _) ops
  obtain ⟨p, hp, hreader⟩ := hshows.reader hr
  have hsteps : CharReader.Steps (Text.utf8Bytes text) 0 p.passed p.read :=
    Progress.Exact.stackRun (List.forall_mem_singleton.2 Progress.exact_start) hrun hops p hp
  have hoffset : r.offset = p.read := CharReader.offset_eq hreader.read
  have hle : p.read ≤ (Text.utf8Bytes text).length := hsteps.bounds.2 (Nat.zero_le _)
  rw [hoffset] at hboundary ⊢
  refine ⟨fun hsource => ?_, fun name l limit hl hstart => ?_⟩
  · rw [CharReader.location, hoffset]
    exact Location.ofOffsets_self hsource (hle.trans_lt hshort)
  · have hposition : (r.line, r.column) = _ :=
      hreader.tally.trans (hsteps.tally_eq (s := ⟨name, text⟩) hboundary)
    obtain ⟨hline, hcolumn⟩ := Prod.mk.inj hposition
    rw [hline, hcolumn]
    exact SourceText.excerpt_start (s := ⟨name, text⟩) hl hstart hle limit

theorem positions_agree_mixedBreaks :
    let text := "é\r\n\n\rüa"
    let s : SourceText := ⟨"", text⟩
    let st := ofReader (.ofString text 0)
    let ops := List.replicate 6 (StackOp.use 0 .read)
    ∃ r, (performAll ops st).2.reader? 0 = some r ∧ (r.offset, r.line, r.column) = (8, 3, 2) ∧
      (s.excerpt r.location 80).startLine = 3 ∧ (s.excerpt r.location 80).startColumn = 2 := by
  intro text s st ops
  have hseen : ((performAll ops st).2.reader? 0).map
      (fun r => (r.offset, r.line, r.column, r.source)) = some (8, 3, 2, 0) := by decide +kernel
  obtain ⟨r, hr, hview⟩ := Option.map_eq_some_iff.1 hseen
  obtain ⟨hoffset, hline, hcolumn, hsource⟩ :
      r.offset = 8 ∧ r.line = 3 ∧ r.column = 2 ∧ r.source = 0 := by simpa using hview
  have hboundary : Text.isBoundary (Text.utf8Bytes text).toArray r.offset = true := by
    rw [hoffset]
    decide +kernel
  have hopens : Opens text 0 st := .inMemory
  have hshort : (Text.utf8Bytes text).length < 2 ^ 32 - 1 := by decide +kernel
  obtain ⟨hlocation, hexcerpt⟩ := positions_agree hopens hshort (by decide) hr hboundary
  obtain ⟨hvalid, hstart⟩ := hlocation (by rw [hsource]; decide)
  obtain ⟨hstartLine, hstartColumn⟩ := hexcerpt "" r.location 80 hvalid hstart
  refine ⟨r, hr, by rw [hoffset, hline, hcolumn], ?_, ?_⟩
  · rw [← hline]
    exact hstartLine
  · rw [← hcolumn]
    exact hstartColumn

end ReaderStack

end Semdoc
