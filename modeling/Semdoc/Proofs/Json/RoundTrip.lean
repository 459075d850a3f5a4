import Semdoc.Proofs.Double.Shortest
import Semdoc.Proofs.Json.Spelling
import Semdoc.Proofs.Literal.Container
import Semdoc.Proofs.Value.Entries
import Semdoc.Proofs.Value.Members

/-!
# Round trip through JSON

The JSON text of a value, compact or indented, is read as the value again, with plain strings in
place of magic ones and without any report.  The texts of numbers and words are read as what they were written for, and
every spelling starts with a character that neither separates nor closes anything.
-/

namespace Semdoc

open CharReader (skipped)

/-! ## Numbers -/

/-- The text of a 64-bit integer stands for the integer. -/
lemma spells_int (i : Int64) :
    ∃ n : Numeral, Numeral.Spells (toString i.toInt).toList n ∧ n.inRange = true ∧
      n.toValue = .int i := by
  refine ⟨_, Numeral.spells_toString i.toInt, ?_, ?_⟩
  · have hlow := i.le_toInt
    have hhigh := i.toInt_lt
    rw [Numeral.inRange, decide_eq_true_eq]
    split_ifs with h
    · rw [decide_eq_true_eq] at h
      omega
    · rw [decide_eq_true_eq] at h
      omega
  · have hsign : (Numeral.integer (decide (i.toInt < 0)) i.toInt.natAbs).toInt = i.toInt := by
      rw [Numeral.toInt]
      split_ifs with h
      · rw [decide_eq_true_eq] at h
        omega
      · rw [decide_eq_true_eq] at h
        omega
    rw [Numeral.toValue, Numeral.toInt64, hsign, Int64.ofInt_toInt]
    rfl

lemma Double.significand_ne_zero {d : Double} (h : d.isZero = false) : d.significand ≠ 0 := by
  have hsplit : d.magnitudeBits = 2 ^ 52 * d.exponentField + d.fraction :=
    (Nat.div_add_mod d.magnitudeBits (2 ^ 52)).symm
  rw [Double.isZero, beq_eq_false_iff_ne] at h
  rw [Double.significand]
  split_ifs <;> omega

/-- The text of a finite double stands for the double. -/
lemma spells_double {d : Double} (hd : d.isFinite = true) :
    ∃ n : Numeral, Numeral.Spells d.shortestText.toList n ∧ n.inRange = true ∧
      n.toValue = .double d := by
  have hsign : (if d.isNegative then "-" else "").toList = Numeral.Scan.signChars d.isNegative := by
    cases d.isNegative <;> rfl
  -- it is enough that the decimal reads back
  suffices h : ∃ digits exponent,
      Numeral.Spells d.shortestText.toList (.decimal d.isNegative digits exponent) ∧
        Double.ofDecimal d.isNegative digits exponent = d by
    obtain ⟨digits, exponent, hspells, hdouble⟩ := h
    refine ⟨_, hspells, ?_, ?_⟩
    · rw [Numeral.inRange, hdouble, hd]
    · exact congrArg Value.double hdouble
  rw [Double.shortestText, String.toList_append, hsign]
  -- zero has a spelling of its own
  cases hzero : d.isZero with
  | true =>
    have h := Numeral.spells_plain d.isNegative ['0'] ['0']
      (Numeral.areDigits_replicate 1) (List.cons_ne_nil _ _) (Numeral.areDigits_replicate 1)
    have htext : "0.0".toList = ['0'] ++ ['.', '0'] := rfl
    rw [if_pos rfl, htext, ← List.append_assoc]
    refine ⟨_, _, h, ?_⟩
    have hbits : d.magnitudeBits = 0 := eq_of_beq hzero
    have hd := d.ofMagnitude_magnitudeBits
    rw [hbits] at hd
    exact hd
  | false =>
    have h0 := Double.significand_ne_zero hzero
    obtain ⟨z, hz⟩ := Numeral.spells_layout d.isNegative d.shortest
    refine ⟨_, _, hz, Double.ofDecimal_eq hd h0 ?_⟩
    have hten : (10 : ℚ) ≠ 0 := by norm_num
    have hsame : ((d.shortest.digits * 10 ^ z : ℕ) * 10 ^ (d.shortest.exponent - z) : ℚ) =
        d.shortest.digits * 10 ^ d.shortest.exponent := by
      rw [Nat.cast_mul, Nat.cast_pow, Nat.cast_ofNat, ← zpow_natCast, mul_assoc,
        ← zpow_add₀ hten, add_sub_cancel]
    rw [hsame]
    exact Double.rounds_shortest hd h0

/-! ## Values that read back -/

namespace Value

open Json (Spacing spell)
open Literal (Closes Ends)

/-- A value that nests at most so deep reads back from each of its spellings as the plain value.
No spelling starts with a character that ends another value. -/
structure ReadsBack (limits : Limits) (n : Nat) (v : Value) : Prop where
  head : ∀ s level, ∃ c r, spell s level v.toJson = c :: r ∧ ¬ Ends c
  moves : ∀ t, ∃ u, skipped u = skipped t ∧ ∀ {s level delims p fuel depth},
    depth + n ≤ limits.complexDepth.toNat → skipped p = spell s level v.toJson ++ t →
    3 * (spell s level v.toJson ++ t).length ≤ fuel → Closes delims t →
    Moves (Literal.readValueAt limits delims fuel depth) (p, p) (.good v.plain) (u, u)

variable {limits : Limits} {n : Nat}

/-- A word reads back. -/
lemma readsBack_word {v : Value} (word : String) (c : UInt8) (rest : List UInt8)
    (hspell : ∀ s level, spell s level v.toJson = Text.utf8Bytes word)
    (hbytes : Text.utf8Bytes word = c :: rest)
    (hc : Literal.isQuote c = false ∧ (c == Literal.openBracket || c == Literal.openBrace) = false ∧
      Literal.startsNumber c = false)
    (hall : ((c :: rest).all fun b => !decide (Ends b)) = true)
    (htrim : Text.trimBlankEnd word = word) (hv : Literal.wordValue word = v.plain) :
    ReadsBack limits n v := by
  have hword : ∀ b ∈ c :: rest, ¬ Ends b := by
    intro b hb
    simpa using List.all_eq_true.1 hall b hb
  refine ⟨fun s level => ⟨c, rest, (hspell s level).trans hbytes, hword c List.mem_cons_self⟩,
    fun t => ⟨skipped t, CharReader.skipped_skipped t, ?_⟩⟩
  intro s level delims p fuel depth _ hp hfuel ht
  rw [hspell] at hp hfuel
  rw [hbytes, List.cons_append, List.length_cons] at hfuel
  obtain ⟨k, rfl⟩ := Nat.exists_eq_add_of_le' (Nat.le_trans (by omega) hfuel : 1 ≤ fuel)
  rw [← hv]
  exact Literal.moves_readValueAt_word hp hbytes hc hword htrim ht

/-- The words of null and of the booleans read back. -/
lemma readsBack_null : ReadsBack limits n null := by
  have hbytes : Text.utf8Bytes "null" = [110, 117, 108, 108] := by
    rw [Text.utf8Bytes_eq]
    rfl
  exact readsBack_word "null" 110 [117, 108, 108] (fun _ _ => rfl) hbytes (by decide) rfl rfl rfl

lemma readsBack_bool (b : Bool) : ReadsBack limits n (bool b) := by
  cases b with
  | true =>
    have hbytes : Text.utf8Bytes "true" = [116, 114, 117, 101] := by
      rw [Text.utf8Bytes_eq]
      rfl
    exact readsBack_word "true" 116 [114, 117, 101] (fun _ _ => rfl) hbytes (by decide) rfl rfl rfl
  | false =>
    have hbytes : Text.utf8Bytes "false" = [102, 97, 108, 115, 101] := by
      rw [Text.utf8Bytes_eq]
      rfl
    exact readsBack_word "false" 102 [97, 108, 115, 101] (fun _ _ => rfl) hbytes (by decide) rfl rfl
      rfl

/-- A number reads back. -/
lemma readsBack_number {v : Value} {text : String} {m : Numeral}
    (hspell : ∀ s level, spell s level v.toJson = Text.utf8Bytes text)
    (hm : Numeral.Spells text.toList m) (hrange : m.inRange = true) (hv : m.toValue = v.plain) :
    ReadsBack limits n v := by
  have hhead : ∃ c r, Text.utf8Bytes text = c :: r ∧ ¬ Ends c := by
    obtain ⟨s, hs, hfinish⟩ := hm
    rw [Numeral.Scan.run, ← Text.utf8Bytes_eq] at hs
    cases hbytes : Text.utf8Bytes text with
    | nil =>
      rw [hbytes] at hs
      cases hs
      cases hfinish
    | cons c r =>
      rw [hbytes] at hs
      obtain ⟨s', hstep, -⟩ := Option.bind_eq_some_iff.1 hs
      refine ⟨c, r, rfl, fun hc => ?_⟩
      rw [Numeral.Scan.step_of_ends hc] at hstep
      cases hstep
  refine ⟨fun s level => hspell s level ▸ hhead,
    fun t => ⟨skipped t, CharReader.skipped_skipped t, ?_⟩⟩
  intro s level delims p fuel depth _ hp hfuel ht
  obtain ⟨c, r, hbytes, -⟩ := hhead
  rw [hspell] at hp hfuel
  rw [hbytes, List.cons_append, List.length_cons] at hfuel
  obtain ⟨k, rfl⟩ := Nat.exists_eq_add_of_le' (Nat.le_trans (by omega) hfuel : 1 ≤ fuel)
  rw [← hv]
  exact Literal.moves_readValueAt_number hp hm hrange ht

lemma readsBack_int (i : Int64) : ReadsBack limits n (int i) := by
  obtain ⟨m, hm, hrange, hv⟩ := spells_int i
  exact readsBack_number (fun _ _ => rfl) hm hrange hv

lemma readsBack_double {d : Double} (hd : d.isFinite = true) : ReadsBack limits n (double d) := by
  obtain ⟨m, hm, hrange, hv⟩ := spells_double hd
  have hjson : (double d).toJson = .double d := if_pos hd
  refine readsBack_number (fun s level => ?_) hm hrange hv
  rw [hjson]
  rfl

/-- A string reads back if it is not too long. -/
lemma readsBack_text {v : Value} {t : String} (hv : v.toJson = .string t)
    (hplain : v.plain = .string t) (hlen : Text.byteLength t ≤ limits.stringLength.toNat) :
    ReadsBack limits n v := by
  have hspell : ∀ s level, spell s level v.toJson = Text.utf8Bytes (Json.quote t) := by
    intro s level
    rw [hv]
    rfl
  have hbytes := Literal.utf8Bytes_quote t
  refine ⟨fun s level => ⟨_, _, (hspell s level).trans hbytes, by decide⟩, fun r => ⟨r, rfl, ?_⟩⟩
  intro s level delims p fuel depth _ hp hfuel ht
  rw [hspell] at hp hfuel
  rw [hbytes, List.cons_append, List.length_cons] at hfuel
  obtain ⟨k, rfl⟩ := Nat.exists_eq_add_of_le' (Nat.le_trans (by omega) hfuel : 1 ≤ fuel)
  rw [hplain]
  exact Literal.moves_readValueAt_string hp hlen

end Value

end Semdoc

/-! ## Values -/

namespace Semdoc.Value

open CharReader (skipped)
open Json (Spacing spell spellEntry listing body)
open Literal (Closes Ends Container comma colon equalsSign openBracket closeBracket openBrace
  closeBrace)

variable {limits : Limits} {n : Nat} {s : Spacing} {level fuel depth start : Nat}
  {p t w : List UInt8} {v : Value} {e e' : Container} {q : Spot}

lemma not_blank_of_not_ends {c : UInt8} (hc : ¬ Ends c) : Text.isBlankByte c = false :=
  Bool.eq_false_iff.2 fun hb => hc (.inl hb)

lemma beq_of_not_ends {c m : UInt8} (hc : ¬ Ends c) (hm : m ∈ Literal.marks) : (c == m) = false :=
  beq_eq_false_iff_ne.2 fun h => hc (.inr (h ▸ hm))

/-- A delimiter behind blanks closes what is before them. -/
lemma closes_of_skipped {delims r : List UInt8} {m : UInt8} (hd : delims ⊆ Literal.marks)
    (ht : skipped t = m :: r) (hm : m ∈ delims) : Closes delims t := by
  refine ⟨hd, fun c r' hc => ?_⟩
  rw [ht, List.cons.injEq] at hc
  exact hc.1 ▸ hm

/-! ## Containers -/

section Pieces

variable {α : Type} {close : UInt8} {piece : α → List UInt8} {add : Container → α → Container}
  {Ready : Container → List α → Prop}

/-- The pieces of a container are read one in a round.  With a container that is ready for some
pieces, a round reads the first of them, and adds it so that the container is ready for the rest. -/
structure ReadsPieces (limits : Limits) (close : UInt8) (start depth : Nat)
    (piece : α → List UInt8) (add : Container → α → Container)
    (Ready : Container → List α → Prop) : Prop where
  head : ∀ {e x xs}, Ready e (x :: xs) → ∃ c r, piece x = c :: r ∧ ¬ Ends c
  ready : ∀ {e x xs}, Ready e (x :: xs) → Ready (add e x) xs
  round : ∀ {e x xs p t m r w fuel e' q}, Ready e (x :: xs) → skipped p = piece x ++ t →
    3 * (piece x ++ t).length ≤ fuel → skipped t = m :: r → m = comma ∨ m = close →
    (∀ u, skipped u = m :: r → Moves (Literal.readSeparator close) (u, u) true (w, w)) →
    Moves (Literal.readEntries limits close start fuel depth (add e x)) (w, w) e' q →
    Moves (Literal.readEntries limits close start (fuel + 1) depth e) (p, p) e' q

/-- Pieces between commas are read up to the closing character. -/
lemma ReadsPieces.moves_listing (h : ReadsPieces limits close start depth piece add Ready)
    (hblank : Text.isBlankByte close = false) (hcomma : (close == comma) = false) {xs : List α}
    (hne : xs ≠ []) (hready : Ready e xs) {tail : List UInt8}
    (htail : skipped tail = close :: t)
    (hp : skipped p = skipped (listing s level (xs.map piece) ++ tail))
    (hfuel : 3 * (listing s level (xs.map piece) ++ tail).length < fuel) :
    Moves (Literal.readEntries limits close start fuel depth e) (p, p) (xs.foldl add e) (t, t) := by
  induction xs generalizing p fuel e with
  | nil => exact absurd rfl hne
  | cons x xs ih =>
    obtain ⟨c, r, hpiece, hc⟩ := h.head hready
    have hpos : 0 < (piece x).length := by
      rw [hpiece]
      exact Nat.succ_pos _
    have hskip : ∀ y, skipped (s.gap level ++ (piece x ++ y)) = piece x ++ y := by
      intro y
      rw [CharReader.skipped_append (s.blank_gap level), hpiece]
      exact CharReader.skipped_cons_of_not_blank (not_blank_of_not_ends hc) _
    obtain ⟨k, rfl⟩ := Nat.exists_eq_add_of_le' (Nat.lt_of_le_of_lt (Nat.zero_le _) hfuel)
    cases xs with
    | nil =>
      rw [List.map_cons, List.map_nil, listing, List.append_assoc] at hp hfuel
      rw [hskip] at hp
      simp only [List.length_append] at hfuel
      obtain ⟨k', rfl⟩ := Nat.exists_eq_add_of_le' (by omega : 1 ≤ k)
      refine h.round hready hp ?_ htail (.inr rfl)
        (fun u hu => Literal.moves_readSeparator_close hu hcomma) ?_
      · rw [List.length_append]
        omega
      · exact Literal.moves_readEntries_close (CharReader.skipped_cons_of_not_blank hblank t)
    | cons y xs =>
      have hlisting : listing s level ((x :: y :: xs).map piece) ++ tail =
          s.gap level ++ (piece x ++ comma :: (listing s level ((y :: xs).map piece) ++ tail)) := by
        rw [List.map_cons, List.map_cons, listing]
        simp only [List.append_assoc, List.cons_append]
      rw [hlisting] at hp hfuel
      rw [hskip] at hp
      simp only [List.length_append, List.length_cons] at hfuel
      refine h.round hready hp ?_ (CharReader.skipped_cons_of_not_blank rfl _) (.inl rfl)
        (fun u hu => Literal.moves_readSeparator_comma hu) ?_
      · simp only [List.length_append, List.length_cons]
        omega
      · refine ih (List.cons_ne_nil y xs) (h.ready hready) rfl ?_
        rw [List.length_append]
        omega

/-- A container reads back if its pieces are read one in a round. -/
lemma readsBack_container {opener : UInt8} (piece : Spacing → Nat → α → List UInt8) {xs : List α}
    (hopener : opener = openBracket ∨ opener = openBrace)
    (hcloser : Literal.closerOf? opener = some close)
    (hspell : ∀ s level, spell s level v.toJson =
      opener :: (body s level (xs.map (piece s (level + 1))) ++ [close]))
    (hpieces : ∀ s level start depth, depth + 1 + n ≤ limits.complexDepth.toNat →
      ReadsPieces limits close start depth (piece s level) add Ready)
    (hready : Ready {} xs) (hok : (xs.foldl add {}).ok = true)
    (hvalue : (xs.foldl add {}).value close = v.plain) : ReadsBack limits (n + 1) v := by
  have hopens : ¬ Ends opener ∧ CharReader.isBreak opener = false := by
    rcases hopener with rfl | rfl <;> decide
  have hcloses : Text.isBlankByte close = false ∧ (close == comma) = false := by
    rcases hopener with rfl | rfl <;> cases hcloser <;> decide
  refine ⟨fun s level => ⟨_, _, hspell s level, hopens.1⟩, fun t => ⟨t, rfl, ?_⟩⟩
  intro s level delims p fuel depth hdepth hp hfuel ht
  rw [hspell, List.cons_append, List.append_assoc, List.singleton_append] at hp hfuel
  rw [List.length_cons] at hfuel
  obtain ⟨k, rfl⟩ := Nat.exists_eq_add_of_le' (by omega : 2 ≤ fuel)
  rw [← hvalue]
  refine Literal.moves_readValueAt_container hp hopener
    (Literal.moves_readContainerAt hcloser hopens.2 (by omega) (fun start => ?_) hok)
  -- of the fuel, one unit is for the value and one for the container; the rest goes round by round
  have hclose := CharReader.skipped_cons_of_not_blank hcloses.1 t
  cases xs with
  | nil =>
    obtain ⟨k', rfl⟩ := Nat.exists_eq_add_of_le' (by omega : 1 ≤ k)
    exact Literal.moves_readEntries_close hclose
  | cons x xs =>
    rw [List.map_cons, body, ← List.map_cons, List.append_assoc] at hfuel ⊢
    have htail : skipped (s.gap level ++ close :: t) = close :: t :=
      (CharReader.skipped_append (s.blank_gap level) _).trans hclose
    exact (hpieces s (level + 1) start depth (by omega)).moves_listing hcloses.1 hcloses.2
      (List.cons_ne_nil x xs) hready htail rfl (by omega)

end Pieces

/-! ## Arrays -/

/-- One more item. -/
def addItem (e : Container) (v : Value) : Container := { e with items := v.plain :: e.items }

lemma foldl_addItem (items : List Value) (e : Container) :
    items.foldl addItem e = { e with items := (items.map plain).reverse ++ e.items } := by
  induction items generalizing e with
  | nil => rfl
  | cons v items ih =>
    rw [List.foldl_cons, ih, List.map_cons, List.reverse_cons, List.append_assoc]
    rfl

/-- Items are read one in a round. -/
lemma readsPieces_items (hdepth : depth + 1 + n ≤ limits.complexDepth.toNat) :
    ReadsPieces limits closeBracket start depth (fun v => spell s level v.toJson) addItem
      fun e items => e.entries = [] ∧ ∀ v ∈ items, ReadsBack limits n v where
  head h := (h.2 _ List.mem_cons_self).head s level
  ready h := ⟨h.1, fun v hv => h.2 v (List.mem_cons_of_mem _ hv)⟩
  round {e v items p t m r w fuel e' q} h hp hfuel ht hm hsep hrest := by
    have hv := h.2 v List.mem_cons_self
    obtain ⟨c, r', hspell, hc⟩ := hv.head s level
    have hcloses : Closes [comma, closeBracket, equalsSign, colon] t :=
      closes_of_skipped (by decide) ht (by rcases hm with rfl | rfl <;> decide)
    have hself : skipped (c :: (r' ++ t)) = spell s level v.toJson ++ t := by
      rw [hspell]
      exact CharReader.skipped_cons_of_not_blank (not_blank_of_not_ends hc) _
    have hmark : skipped (m :: r) = m :: r := by
      rw [← ht, CharReader.skipped_skipped]
    obtain ⟨u, hu, hmoves⟩ := hv.moves t
    rw [hspell] at hp
    refine Literal.moves_readEntries_item hp (beq_of_not_ends hc (by decide))
      (hmoves hdepth hself hfuel hcloses) (hu.trans ht) ?_ (hsep _ hmark) h.1 hrest
    rcases hm with rfl | rfl <;> decide

/-- An array reads back if its items do. -/
lemma readsBack_array {items : List Value} (hitems : ∀ v ∈ items, ReadsBack limits n v) :
    ReadsBack limits (n + 1) (array items) := by
  refine readsBack_container (fun s level (v : Value) => spell s level v.toJson) (.inl rfl) rfl
    (fun s level => ?_) (fun _ _ _ _ hdepth => readsPieces_items hdepth) ⟨rfl, hitems⟩ ?_ ?_
  · rw [toJson_array, Json.spell_array, List.map_map]
    rfl
  · rw [foldl_addItem]
  · rw [foldl_addItem, plain_array]
    cases items with
    | nil => rfl
    | cons v items => simp [Container.value]

/-! ## Maps -/

/-- One more entry behind all others. -/
def addEntry (e : Container) (x : String × Value) : Container :=
  { e with entries := e.entries ++ [(x.1, x.2.plain)] }

lemma foldl_addEntry (entries : Entries Value) (e : Container) :
    entries.foldl addEntry e =
      { e with entries := e.entries ++ entries.map fun x => (x.1, x.2.plain) } := by
  induction entries generalizing e with
  | nil =>
    rw [List.map_nil, List.append_nil]
    rfl
  | cons x entries ih =>
    rw [List.foldl_cons, ih, addEntry, List.append_assoc]
    rfl

/-- Entries are read one in a round. -/
lemma readsPieces_entries (hdepth : depth + 1 + n ≤ limits.complexDepth.toNat) :
    ReadsPieces limits closeBrace start depth
      (fun x : String × Value => spellEntry s level (x.1, x.2.toJson)) addEntry
      fun e entries => e.items = [] ∧ Entries.Sorted entries ∧
        (∀ a ∈ e.entries, ∀ b ∈ entries, Text.compareTexts a.1 b.1 = .lt) ∧
        (∀ x ∈ entries, Text.byteLength x.1 ≤ limits.stringLength.toNat) ∧
        ∀ x ∈ entries, ReadsBack limits n x.2 where
  head {e x entries} _ := ⟨_, _, congrArg (· ++ _) (Literal.utf8Bytes_quote x.1), by decide⟩
  ready {e x entries} h := by
    obtain ⟨hitems, hsorted, hfresh, hkeys, hvalues⟩ := h
    obtain ⟨hlt, hsorted⟩ := List.pairwise_cons.1 hsorted
    refine ⟨hitems, hsorted, fun a ha b hb => ?_, (List.forall_mem_cons.1 hkeys).2,
      (List.forall_mem_cons.1 hvalues).2⟩
    -- keys of earlier entries are below all later ones, and so is the key of this entry
    rcases List.mem_append.1 ha with ha | ha
    · exact hfresh a ha b (List.mem_cons_of_mem _ hb)
    · rw [List.mem_singleton.1 ha]
      exact hlt b hb
  round {e x entries p t m r w fuel e' q} h hp hfuel ht hm hsep hrest := by
    obtain ⟨hitems, -, hfresh, hkeys, hvalues⟩ := h
    obtain ⟨key, v⟩ := x
    have hkey := hkeys _ List.mem_cons_self
    have hv : ReadsBack limits n v := hvalues _ List.mem_cons_self
    have hbehind : ∀ a ∈ e.entries, Text.compareTexts a.1 key = .lt := fun a ha =>
      hfresh a ha _ List.mem_cons_self
    obtain ⟨c, r', hspell, hc⟩ := hv.head s level
    have hcolon : ∀ x, skipped (colon :: x) = colon :: x :=
      CharReader.skipped_cons_of_not_blank rfl
    have hvalue : skipped (s.afterColon ++ (spell s level v.toJson ++ t)) =
        spell s level v.toJson ++ t := by
      rw [CharReader.skipped_append s.blank_afterColon, hspell]
      exact CharReader.skipped_cons_of_not_blank (not_blank_of_not_ends hc) _
    have hcloses : Closes [comma, closeBrace] t :=
      closes_of_skipped (by decide) ht (by rcases hm with rfl | rfl <;> decide)
    have hpiece : spellEntry s level (key, v.toJson) ++ t = Text.utf8Bytes (Json.quote key) ++
        colon :: (s.afterColon ++ (spell s level v.toJson ++ t)) := by
      rw [spellEntry]
      simp only [List.append_assoc, List.cons_append]
    rw [hpiece] at hp hfuel
    simp only [List.length_append, List.length_cons] at hfuel
    obtain ⟨k, rfl⟩ := Nat.exists_eq_add_of_le' (by omega : 1 ≤ fuel)
    have hread : Moves (Literal.readValueAt limits [comma, closeBrace, equalsSign, colon] (k + 1)
        (depth + 1)) (skipped p, skipped p) (.good (.string key)) (_, _) :=
      Literal.moves_readValueAt_string ((CharReader.skipped_skipped p).trans hp) hkey
    obtain ⟨u, hu, hmoves⟩ := hv.moves t
    -- the key is above all that are there, so that inserting appends
    have hadd : addEntry e (key, v) =
        { e with entries := Entries.insert key v.plain e.entries } := by
      rw [Entries.insert_of_forall_lt hbehind]
      rfl
    rw [hadd] at hrest
    rw [hp, Literal.utf8Bytes_quote, List.cons_append] at hread
    rw [Literal.utf8Bytes_quote, List.cons_append] at hp
    refine Literal.moves_readEntries_entry hp rfl hread (hcolon _)
      (hmoves hdepth hvalue ?_ hcloses) (hsep u (hu.trans ht))
      (Entries.hasKey_of_forall_lt hbehind) hitems hrest
    rw [List.length_append]
    omega

/-- A map reads back if its values do and its keys are not too long. -/
lemma readsBack_map {entries : Entries Value}
    (hkeys : ∀ e ∈ entries, Text.byteLength e.1 ≤ limits.stringLength.toNat)
    (hvalues : ∀ e ∈ entries, ReadsBack limits n e.2) (hsorted : Entries.Sorted entries) :
    ReadsBack limits (n + 1) (map entries) := by
  refine readsBack_container (fun s level (x : String × Value) => spellEntry s level (x.1, x.2.toJson))
    (.inr rfl) rfl (fun s level => ?_) (fun _ _ _ _ hdepth => readsPieces_entries hdepth)
    ⟨rfl, hsorted, fun a ha => absurd ha List.not_mem_nil, hkeys, hvalues⟩ ?_ ?_
  · rw [toJson_map, Json.spell_object, List.map_map]
    rfl
  · rw [foldl_addEntry]
  · rw [foldl_addEntry, plain_map]
    cases entries with
    | nil => rfl
    | cons x entries => simp [Container.value]

/-! ## Values -/

/-- A value that has a literal: it is made of null, booleans, integers, finite doubles, strings,
arrays and maps, its containers nest at most so deep, and its strings and keys are not too long. -/
inductive HasLiteral (limits : Limits) : Nat → Value → Prop
  | null {n : Nat} : HasLiteral limits n null
  | bool {n : Nat} (b : Bool) : HasLiteral limits n (bool b)
  | int {n : Nat} (i : Int64) : HasLiteral limits n (int i)
  | double {n : Nat} {d : Double} (hd : d.isFinite = true) : HasLiteral limits n (double d)
  | string {n : Nat} {t : String} (hlen : Text.byteLength t ≤ limits.stringLength.toNat) :
    HasLiteral limits n (string t)
  | magic {n : Nat} {t : String} (hlen : Text.byteLength t ≤ limits.stringLength.toNat) :
    HasLiteral limits n (magic t)
  | array {n : Nat} {items : List Value} (hitems : ∀ v ∈ items, HasLiteral limits n v) :
    HasLiteral limits (n + 1) (array items)
  | map {n : Nat} {entries : Entries Value}
    (hkeys : ∀ e ∈ entries, Text.byteLength e.1 ≤ limits.stringLength.toNat)
    (hvalues : ∀ e ∈ entries, HasLiteral limits n e.2) (hsorted : Entries.Sorted entries) :
    HasLiteral limits (n + 1) (map entries)

/-- Every value that has a literal reads back. -/
lemma HasLiteral.readsBack (h : HasLiteral limits n v) : ReadsBack limits n v := by
  induction h with
  | null => exact readsBack_null
  | bool b => exact readsBack_bool b
  | int i => exact readsBack_int i
  | double hd => exact readsBack_double hd
  | string hlen => exact readsBack_text rfl rfl hlen
  | magic hlen => exact readsBack_text rfl rfl hlen
  | array _ ih => exact readsBack_array ih
  | map hkeys _ hsorted ih => exact readsBack_map hkeys ih hsorted

/-- A map with a magic string, a double and a text that is not ASCII in it. -/
def mixedMap : Value :=
  map [("a", array [magic "b.c", double ⟨0xbff8000000000000⟩]), ("é\n", int (-1))]

end Semdoc.Value
