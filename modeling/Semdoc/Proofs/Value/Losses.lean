import Mathlib.Data.List.Forall2
import Semdoc.Proofs.Double.Decimals
import Semdoc.Proofs.Double.Integers
import Semdoc.Proofs.Value.Comparison
import Semdoc.Proofs.Value.Stability

/-!
# What strict conversions lose

Most strict conversions leave a value as it is.  Those to doubles and to strings do not, and may leave the same
of different values: of integers from `2 ^ 53` on, and of doubles below `2 ^ 33` that have the same six
decimals.  Apart from these, and from values that are alike though one is an integer and one a double, or
one is a string, strict conversions tell all values apart.
-/

namespace Semdoc

namespace Value

/-! ## Texts and kinds -/

/-- The kind of the values that are written as a word. -/
def kindOfWord (s : String) : ValueKind :=
  if s = "null" then .null else if s = "true" ∨ s = "false" then .bool else .double

/-- Primitive values other than strings are written as words or as numerals, which tell their kinds. -/
lemma kind_of_plainText {v : Value} (hprimitive : v.isPrimitive = true) (htext : v.isText = false) :
    (v.plainText ∈ Numeral.words ∧ v.kind = kindOfWord v.plainText) ∨
      ∃ n : Numeral, Numeral.Spells v.plainText.toList n ∧
        v.kind = if n.isInteger then .int else .double := by
  cases v with
  | null => exact .inl (by decide)
  | bool b => exact .inl (by cases b <;> decide)
  | int i => exact .inr ⟨_, Numeral.spells_toString i.toInt, rfl⟩
  | double d =>
    cases hd : d.isFinite with
    | true => exact .inr ⟨_, Double.spells_fixedSix hd, rfl⟩
    | false =>
      refine .inl ⟨Double.fixedSix_mem_words hd, ?_⟩
      show ValueKind.double = kindOfWord d.fixedSix
      rw [Double.fixedSix_of_not_finite hd, Double.nonFiniteText]
      split_ifs <;> decide
  | string s => cases htext
  | magic s => cases htext
  | array vs => cases hprimitive
  | map es => cases hprimitive
  | object o => cases hprimitive
  | function f => cases hprimitive

/-- Primitive values other than strings are of the same kind if they are written in the same way. -/
lemma kind_eq_of_plainText {v w : Value} (hv : v.isPrimitive = true) (hv' : v.isText = false)
    (hw : w.isPrimitive = true) (hw' : w.isText = false) (h : v.plainText = w.plainText) :
    v.kind = w.kind := by
  have hkind := kind_of_plainText hv hv'
  rw [h] at hkind
  rcases hkind with ⟨hword, hv⟩ | ⟨m, hm, hv⟩
  · rcases kind_of_plainText hw hw' with ⟨-, hw⟩ | ⟨n, hn, -⟩
    · rw [hv, hw]
    · exact absurd hn (Numeral.not_spells_of_mem_words hword n)
  · rcases kind_of_plainText hw hw' with ⟨hword, -⟩ | ⟨n, hn, hw⟩
    · exact absurd hm (Numeral.not_spells_of_mem_words hword m)
    · rw [hv, hw, hm.unique hn]

lemma tag_of_isText {v : Value} (h : v.isText = true) : v.kind.tag = .string := by
  cases v with
  | string s => rfl
  | magic s => rfl
  | _ => cases h

/-! ## Members -/

variable {R : Value → Value → Prop} {r : Value → Value}

lemma sameItems_map_iff {vs ws : List Value}
    (h : ∀ v ∈ vs, ∀ w ∈ ws, same (r v) (r w) = true ↔ R v w) :
    sameItems (vs.map r) (ws.map r) = true ↔ List.Forall₂ R vs ws := by
  induction vs generalizing ws with
  | nil => cases ws <;> simp [sameItems]
  | cons v vs ih =>
    cases ws with
    | nil => simp [sameItems]
    | cons w ws =>
      have hfirst := h v List.mem_cons_self w List.mem_cons_self
      have hrest := ih fun v hv w hw =>
        h v (List.mem_cons_of_mem _ hv) w (List.mem_cons_of_mem _ hw)
      rw [List.map_cons, List.map_cons, sameItems, Bool.and_eq_true, hfirst, hrest,
        List.forall₂_cons]

lemma sameEntries_map_iff {es fs : Entries Value}
    (h : ∀ v ∈ es.map (·.2), ∀ w ∈ fs.map (·.2), same (r v) (r w) = true ↔ R v w) :
    sameEntries (es.map fun e => (e.1, r e.2)) (fs.map fun f => (f.1, r f.2)) = true ↔
      List.Forall₂ (fun e f => e.1 = f.1 ∧ R e.2 f.2) es fs := by
  induction es generalizing fs with
  | nil => cases fs <;> simp [sameEntries]
  | cons e es ih =>
    cases fs with
    | nil => simp [sameEntries]
    | cons f fs =>
      have hfirst := h e.2 List.mem_cons_self f.2 List.mem_cons_self
      have hrest := ih fun v hv w hw =>
        h v (List.mem_cons_of_mem _ hv) w (List.mem_cons_of_mem _ hw)
      rw [List.map_cons, List.map_cons, sameEntries, Bool.and_eq_true, Bool.and_eq_true, beq_iff_eq,
        hfirst, hrest, List.forall₂_cons]

end Value

namespace Convert

open Value

variable {f : Value → Logged (Outcome Value)} {R : Value → Value → Prop} {type inner : TypeTag}
  {v w : Value}

/-- Values that are not the same but may be the same once they are strictly converted to a type. -/
inductive Confused : TypeTag → Value → Value → Prop
  /-- Integers that do not fit the significand of a double, with the same nearest double. -/
  | integers {i j : Int64} (hi : 2 ^ 53 ≤ i.toInt.natAbs) (hj : 2 ^ 53 ≤ j.toInt.natAbs)
      (h : Double.ofInt i.toInt = Double.ofInt j.toInt) : Confused .double (.int i) (.int j)
  /-- An integer and the double that is nearest to it. -/
  | nearest (i : Int64) : Confused .double (.int i) (.double (.ofInt i.toInt))
  | nearest' (i : Int64) : Confused .double (.double (.ofInt i.toInt)) (.int i)
  /-- Doubles that are no numbers. -/
  | noNumbers {d e : Double} (hd : d.isNaN = true) (he : e.isNaN = true) :
      Confused .string (.double d) (.double e)
  /-- Doubles below `2 ^ 33` with the same sign and as many millionths. -/
  | decimals {d e : Double} (h : d.SameMillionths e) (hd : d.truncMagnitude < 2 ^ 33)
      (he : e.truncMagnitude < 2 ^ 33) : Confused .string (.double d) (.double e)
  /-- A string and another value that is written so. -/
  | written {v w : Value} (htext : v.isText ≠ w.isText) (h : v.plainText = w.plainText) :
      Confused .string v w

/-- Values that a strict conversion to a type does not tell apart.  `R` says so of the members of arrays and
maps. -/
inductive Alike (R : Value → Value → Prop) : TypeTag → Value → Value → Prop
  | same {type : TypeTag} {v w : Value} (h : (v == w) = true) : Alike R type v w
  | confused {type : TypeTag} {v w : Value} (h : Confused type v w) : Alike R type v w
  | array {vs ws : List Value} (h : List.Forall₂ R vs ws) : Alike R .array (.array vs) (.array ws)
  | map {es fs : Entries Value} (h : List.Forall₂ (fun e f => e.1 = f.1 ∧ R e.2 f.2) es fs) :
      Alike R .map (.map es) (.map fs)

/-- A conversion tells apart all values but those that are in a relation. -/
def TellsApart (f : Value → Logged (Outcome Value)) (R : Value → Value → Prop) : Prop :=
  ∀ v w, (f v).value.ok = true → (f w).value.ok = true →
    (((f v).value.value == (f w).value.value) = true ↔ R v w)

/-- Where values stay as they are, only those that are the same are alike. -/
lemma alike_iff_same (htype : type ∉ [.double, .string, .array, .map]) :
    Alike R type v w ↔ (v == w) = true := by
  refine ⟨fun h => ?_, .same⟩
  cases h with
  | same h => exact h
  | confused h => cases h <;> exact absurd htype (by decide)
  | array | map => exact absurd htype (by decide)

/-! ## Types that leave values as they are -/

lemma toNull_value (h : (toNull v).value.ok = true) : (toNull v).value.value = v := by
  cases v with
  | null => rfl
  | _ => cases h

lemma toBool_safe_value (h : (toBool .safe v).value.ok = true) :
    (toBool .safe v).value.value = v := by
  cases v with
  | bool b => rfl
  | _ => cases h

lemma toInt_safe_value (h : (toInt .safe v).value.ok = true) : (toInt .safe v).value.value = v := by
  cases v with
  | int i => rfl
  | _ => cases h

lemma toFunction_value (h : (toFunction v).value.ok = true) : (toFunction v).value.value = v := by
  cases v with
  | function f => rfl
  | _ => cases h

lemma toObject_value (h : (toObject type v).value.ok = true) : (toObject type v).value.value = v := by
  cases v with
  | object o =>
    simp only [toObject] at h ⊢
    split_ifs at h ⊢ with hisA
    · rfl
    · cases h
  | _ => cases h

lemma toTypeOf_safe_value (htype : type ∉ [.double, .string, .array, .map])
    (h : (toTypeOf f type .safe v).value.ok = true) :
    (toTypeOf f type .safe v).value.value = v := by
  unfold toTypeOf at h ⊢
  split at h
  · rfl
  · exact toNull_value h
  · exact toBool_safe_value h
  · exact toInt_safe_value h
  · exact absurd htype (by decide)
  · exact absurd htype (by decide)
  · exact absurd htype (by decide)
  · exact absurd htype (by decide)
  · exact toFunction_value h
  · exact toObject_value h

/-! ## Doubles -/

/-- Strictly only integers and doubles become doubles. -/
lemma toDouble_safe_cases (h : (toDouble .safe v).value.ok = true) :
    (∃ d, v = .double d) ∨ ∃ i, v = .int i := by
  cases v with
  | double d => exact .inl ⟨d, rfl⟩
  | int i => exact .inr ⟨i, rfl⟩
  | _ => cases h

lemma same_double_iff {d e : Double} : (Value.double d == .double e) = true ↔ d = e :=
  beq_iff_eq (a := d)

lemma alike_double_double {d e : Double} : Alike R .double (.double d) (.double e) ↔ d = e := by
  constructor
  · intro h
    cases h with
    | same h => exact eq_of_beq h
    | confused h => cases h
  · rintro rfl
    exact .same (beq_self_eq_true d)

lemma alike_double_int {d : Double} {j : Int64} :
    Alike R .double (.double d) (.int j) ↔ d = Double.ofInt j.toInt := by
  constructor
  · intro h
    cases h with
    | same h => cases h
    | confused h =>
      cases h
      rfl
  · rintro rfl
    exact .confused (.nearest' j)

lemma alike_int_double {i : Int64} {e : Double} :
    Alike R .double (.int i) (.double e) ↔ Double.ofInt i.toInt = e := by
  constructor
  · intro h
    cases h with
    | same h => cases h
    | confused h =>
      cases h
      rfl
  · rintro rfl
    exact .confused (.nearest i)

lemma alike_int_int {i j : Int64} :
    Alike R .double (.int i) (.int j) ↔ Double.ofInt i.toInt = Double.ofInt j.toInt := by
  constructor
  · intro h
    cases h with
    | same h =>
      have hij : i = j := eq_of_beq h
      rw [hij]
    | confused h =>
      cases h with
      | integers _ _ h => exact h
  · intro h
    rcases lt_or_ge i.toInt.natAbs (2 ^ 53) with hi | hi
    · obtain rfl := Int64.toInt_inj.1 (Double.ofInt_inj hi h)
      exact .same (beq_self_eq_true i)
    · rcases lt_or_ge j.toInt.natAbs (2 ^ 53) with hj | hj
      · obtain rfl := Int64.toInt_inj.1 (Double.ofInt_inj hj h.symm)
        exact .same (beq_self_eq_true j)
      · exact .confused (.integers hi hj h)

lemma tellsApart_toDouble : TellsApart (toDouble .safe) (Alike R .double) := by
  intro v w hv hw
  rcases toDouble_safe_cases hv with ⟨d, rfl⟩ | ⟨i, rfl⟩
  · rcases toDouble_safe_cases hw with ⟨e, rfl⟩ | ⟨j, rfl⟩
    · exact same_double_iff.trans alike_double_double.symm
    · exact same_double_iff.trans alike_double_int.symm
  · rcases toDouble_safe_cases hw with ⟨e, rfl⟩ | ⟨j, rfl⟩
    · exact same_double_iff.trans alike_int_double.symm
    · exact same_double_iff.trans alike_int_int.symm

/-! ## Strings -/

/-- Strictly only primitive values become strings. -/
lemma toText_safe_cases (h : (toText .safe v).value.ok = true) :
    v.isPrimitive = true ∧ (toText .safe v).value.value = .string v.plainText := by
  cases v with
  | array vs => cases h
  | map es => cases h
  | object o => cases h
  | function f => cases h
  | _ => exact ⟨rfl, rfl⟩

lemma plainText_of_asText {s : String} (h : v.asText = .ok s) : v.plainText = s := by
  cases v <;> cases h <;> rfl

lemma plainText_of_confused (h : Confused .string v w) : v.plainText = w.plainText := by
  cases h with
  | noNumbers hd he => exact Double.fixedSix_eq_iff.2 (.inr (.inl ⟨hd, he⟩))
  | decimals h _ _ => exact Double.fixedSix_eq_iff.2 (.inr (.inr h))
  | written _ h => exact h

lemma alike_doubles {d e : Double} (h : d.fixedSix = e.fixedSix) :
    Alike R .string (.double d) (.double e) := by
  rcases Double.fixedSix_eq_iff.1 h with rfl | ⟨hd, he⟩ | hmillionths
  · exact .same (beq_self_eq_true d)
  · exact .confused (.noNumbers hd he)
  · rcases lt_or_ge d.truncMagnitude (2 ^ 33) with hd | hd
    · rcases lt_or_ge e.truncMagnitude (2 ^ 33) with he | he
      · exact .confused (.decimals hmillionths hd he)
      · obtain rfl := Double.eq_of_millionths_eq hmillionths.sign.symm hmillionths.millionths.symm he
        exact .same (beq_self_eq_true e)
    · obtain rfl := Double.eq_of_millionths_eq hmillionths.sign hmillionths.millionths hd
      exact .same (beq_self_eq_true d)

lemma alike_of_plainText (hv : v.isPrimitive = true) (hw : w.isPrimitive = true)
    (h : v.plainText = w.plainText) : Alike R .string v w := by
  cases pairing v w with
  | null => exact .same rfl
  | bool a b =>
    refine .same ?_
    revert h
    cases a <;> cases b <;> decide
  | int i j =>
    have hi := Numeral.spells_toString i.toInt
    have htext : toString i.toInt = toString j.toInt := h
    rw [htext] at hi
    have hij := hi.unique (Numeral.spells_toString j.toInt)
    rw [Numeral.integer.injEq, decide_eq_decide] at hij
    obtain rfl := Int64.toInt_inj.1 (show i.toInt = j.toInt by omega)
    exact .same (beq_self_eq_true i)
  | double d e => exact alike_doubles h
  | text hv hw =>
    rw [plainText_of_asText hv, plainText_of_asText hw] at h
    exact .same ((same_text hv hw).trans (beq_iff_eq.2 h))
  | apart hkind =>
    refine .confused (.written (fun htext => hkind ?_) h)
    cases hwt : w.isText with
    | true => rw [tag_of_isText (htext.trans hwt), tag_of_isText hwt]
    | false => rw [kind_eq_of_plainText hv (htext.trans hwt) hw hwt h]
  | array | map | object | function => cases hv

lemma plainText_of_same (hv : v.isPrimitive = true) (h : (v == w) = true) :
    v.plainText = w.plainText := by
  cases pairing v w with
  | null => rfl
  | bool a b =>
    have hab : (a == b) = true := h
    rw [beq_iff_eq.1 hab]
  | int i j =>
    have hij : (i == j) = true := h
    rw [beq_iff_eq.1 hij]
  | double d e =>
    have hde : (d == e) = true := h
    rw [beq_iff_eq.1 hde]
  | text hs ht =>
    have hst := (same_text hs ht).symm.trans h
    rw [plainText_of_asText hs, plainText_of_asText ht, beq_iff_eq.1 hst]
  | apart hkind =>
    have hfalse := (same_apart hkind).symm.trans h
    cases hfalse
  | array | map | object | function => cases hv

lemma tellsApart_toText : TellsApart (toText .safe) (Alike R .string) := by
  intro v w hv hw
  obtain ⟨hv, hvtext⟩ := toText_safe_cases hv
  obtain ⟨hw, hwtext⟩ := toText_safe_cases hw
  rw [hvtext, hwtext]
  show (v.plainText == w.plainText) = true ↔ _
  rw [beq_iff_eq]
  refine ⟨alike_of_plainText hv hw, fun h => ?_⟩
  cases h with
  | same h => exact plainText_of_same hv h
  | confused h => exact plainText_of_confused h

/-! ## Arrays and maps -/

lemma forall₂_of_sameItems (hsame : ∀ v w, (v == w) = true → R v w) {vs ws : List Value}
    (h : (Value.array vs == .array ws) = true) : List.Forall₂ R vs ws := by
  have hitems : sameItems (vs.map id) (ws.map id) = true := by
    rw [List.map_id, List.map_id]
    exact h
  exact ((sameItems_map_iff fun _ _ _ _ => Iff.rfl).1 hitems).imp hsame

lemma forall₂_of_sameEntries (hsame : ∀ v w, (v == w) = true → R v w) {es fs : Entries Value}
    (h : (Value.map es == .map fs) = true) :
    List.Forall₂ (fun e f => e.1 = f.1 ∧ R e.2 f.2) es fs := by
  have hentries : sameEntries (es.map fun e => (e.1, id e.2)) (fs.map fun f => (f.1, id f.2)) = true := by
    simp only [id, List.map_id']
    exact h
  exact ((sameEntries_map_iff fun _ _ _ _ => Iff.rfl).1 hentries).imp fun _ _ h => ⟨h.1, hsame _ _ h.2⟩

lemma toArrayOf_safe_cases (h : (toArrayOf f .safe v).value.ok = true) :
    ∃ vs, v = .array vs ∧ (∀ w ∈ vs, (f w).value.ok = true) ∧
      (toArrayOf f .safe v).value.value = .array (vs.map fun w => (f w).value.value) := by
  cases v with
  | array vs =>
    refine ⟨vs, rfl, ok_items_iff.1 h, ?_⟩
    show Value.array (items f vs).value.value = _
    rw [items_eq_gather, Logged.gather_value, List.map_map]
    rfl
  | _ => cases h

lemma toMapOf_cases (h : (toMapOf f v).value.ok = true) :
    ∃ es, v = .map es ∧ (∀ w ∈ es.map (·.2), (f w).value.ok = true) ∧
      (toMapOf f v).value.value = .map (es.map fun e => (e.1, (f e.2).value.value)) := by
  cases v with
  | map es =>
    refine ⟨es, rfl, ok_entries_iff.1 h, ?_⟩
    show Value.map (entries f es).value.value = _
    rw [entries_eq_items, items_eq_gather]
    show Value.map ((es.map (·.1)).zip (Logged.gather _).value.value) = _
    rw [Logged.gather_value, List.map_map, List.map_map, List.zip_map']
    rfl
  | _ => cases h

lemma tellsApart_toArrayOf (hf : TellsApart f R) (hsame : ∀ v w, (v == w) = true → R v w) :
    TellsApart (toArrayOf f .safe) (Alike R .array) := by
  intro v w hv hw
  obtain ⟨vs, rfl, hvs, hvalue⟩ := toArrayOf_safe_cases hv
  obtain ⟨ws, rfl, hws, hvalue'⟩ := toArrayOf_safe_cases hw
  rw [hvalue, hvalue']
  refine (sameItems_map_iff fun v hv w hw => hf v w (hvs v hv) (hws w hw)).trans ⟨.array, fun h => ?_⟩
  cases h with
  | same h => exact forall₂_of_sameItems hsame h
  | confused h => cases h
  | array h => exact h

lemma tellsApart_toMapOf (hf : TellsApart f R) (hsame : ∀ v w, (v == w) = true → R v w) :
    TellsApart (toMapOf f) (Alike R .map) := by
  intro v w hv hw
  obtain ⟨es, rfl, hes, hvalue⟩ := toMapOf_cases hv
  obtain ⟨fs, rfl, hfs, hvalue'⟩ := toMapOf_cases hw
  rw [hvalue, hvalue']
  refine (sameEntries_map_iff fun v hv w hw => hf v w (hes v hv) (hfs w hw)).trans ⟨.map, fun h => ?_⟩
  cases h with
  | same h => exact forall₂_of_sameEntries hsame h
  | confused h => cases h
  | map h => exact h

/-! ## All types -/

lemma tellsApart_toTypeOf (hf : TellsApart f R) (hsame : ∀ v w, (v == w) = true → R v w)
    (type : TypeTag) : TellsApart (toTypeOf f type .safe) (Alike R type) := by
  by_cases htype : type ∈ [.double, .string, .array, .map]
  · rw [List.mem_cons, List.mem_cons, List.mem_cons, List.mem_singleton] at htype
    rcases htype with rfl | rfl | rfl | rfl
    · exact tellsApart_toDouble
    · exact tellsApart_toText
    · exact tellsApart_toArrayOf hf hsame
    · exact tellsApart_toMapOf hf hsame
  · intro v w hv hw
    rw [toTypeOf_safe_value htype hv, toTypeOf_safe_value htype hw, alike_iff_same htype]

/-- Two values that are strictly converted to a type, and their members to another, become the same just if
they are alike: if they are the same, or one of the few pairs that the type confuses, or arrays or maps whose
members are alike. -/
theorem convert_safe_same_iff (hv : (convert type inner .safe v).value.ok = true)
    (hw : (convert type inner .safe w).value.ok = true) :
    ((convert type inner .safe v).value.value == (convert type inner .safe w).value.value) = true ↔
      Alike (Alike (fun v w => (v == w) = true) inner) type v w := by
  have hmembers : TellsApart (toTypeOf (fun v => pure (.good v)) inner .safe)
      (Alike (fun v w => (v == w) = true) inner) :=
    tellsApart_toTypeOf (fun _ _ _ _ => Iff.rfl) (fun _ _ h => h) inner
  exact tellsApart_toTypeOf hmembers (fun _ _ => .same) type v w hv hw

/-- Two arrays become the same array of doubles: their first items are huge integers next to each other, and
their second ones an integer and a double. -/
theorem convert_safe_same_iff_hugeIntegers :
    let v : Value := .array [.int 9007199254740992, .int 1]
    let w : Value := .array [.int 9007199254740993, .double ⟨0x3ff0000000000000⟩]
    (convert .array .double .safe v).value.ok = true ∧ (convert .array .double .safe w).value.ok = true ∧
      Alike (Alike (fun v w => (v == w) = true) .double) .array v w := by
  intro v w
  have hv : (convert .array .double .safe v).value.ok = true := rfl
  have hw : (convert .array .double .safe w).value.ok = true := rfl
  exact ⟨hv, hw, (convert_safe_same_iff hv hw).1 (by decide +kernel)⟩

/-- Two different values of one kind that are converted strictly, and well, to values that are the same. -/
structure Loses (type : TypeTag) (v w : Value) : Prop where
  kind : v.kind = w.kind
  apart : (v == w) = false
  good_left : (convert type .any .safe v).value.ok = true
  good_right : (convert type .any .safe w).value.ok = true
  same : ((convert type .any .safe v).value.value == (convert type .any .safe w).value.value) = true

/-- The first integer that is no double becomes the same double as the one before it, and a half and the next
double become the same string. -/
theorem convert_safe_not_injective :
    Loses .double (.int 9007199254740992) (.int 9007199254740993) ∧
      Loses .string (.double ⟨0x3fe0000000000000⟩) (.double ⟨0x3fe0000000000001⟩) :=
  ⟨⟨rfl, by decide +kernel, rfl, rfl, by decide +kernel⟩,
    ⟨rfl, by decide +kernel, rfl, rfl, by decide +kernel⟩⟩

end Convert

end Semdoc
