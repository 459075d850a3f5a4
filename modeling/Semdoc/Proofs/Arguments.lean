import Semdoc.Proofs.Signature
import Semdoc.Proofs.Value.Stability

/-!
# Arguments are completed

A parameter takes some values as they are, and whatever it makes of another value without an error is one of
these.  So a check leaves an argument for every parameter, and one that has reported no error leaves arguments
which a second check does not touch.
-/

namespace Semdoc

open Logged (Candid)

/-! ## Good conversions -/

namespace Convert

variable {f : Value → Logged (Outcome Value)} {mode : ConversionMode}

/-- What a good conversion leaves is left as it is by the same conversion. -/
def Repeats (f : Value → Logged (Outcome Value)) : Prop :=
  ∀ v, (f v).value.ok = true → f (f v).value.value = pure (.good (f v).value.value)

lemma repeats_toNull : Repeats toNull := by
  intro v h
  cases v with
  | null => rfl
  | _ => cases h

lemma repeats_toFunction : Repeats toFunction := by
  intro v h
  cases v with
  | function g => rfl
  | _ => cases h

lemma toObject_object {type : TypeTag} {o : ObjectRef} (ho : o.type.isA type = true) :
    toObject type (.object o) = pure (.good (.object o)) := if_pos ho

lemma repeats_toObject (type : TypeTag) : Repeats (toObject type) := by
  intro v h
  cases v with
  | object o =>
    by_cases ho : o.type.isA type = true
    · rw [toObject_object ho]
      exact toObject_object ho
    · have hbad : (toObject type (.object o)).value = .bad .null := congrArg Logged.value (if_neg ho)
      rw [hbad] at h
      cases h
  | _ => cases h

/-- A conversion to one form of values leaves those of this form as they are. -/
lemma repeats_of_leaves {α : Type} {form : α → Value} (hleaves : ∀ v, Leaves form (f v))
    (hform : ∀ a, f (form a) = pure (.good (form a))) : Repeats f := by
  intro v _
  obtain ⟨a, ha⟩ := hleaves v
  rw [ha]
  exact hform a

/-- Members that have been converted without an error stay. -/
lemma items_again (hf : Repeats f) {vs : List Value} (h : (items f vs).value.ok = true) :
    items f (items f vs).value.value = pure (.good (items f vs).value.value) := by
  refine items_of_settled fun w hw => ?_
  rw [items_eq_gather, Logged.gather_value, List.map_map, List.mem_map] at hw
  obtain ⟨v, hv, rfl⟩ := hw
  exact hf v (ok_items_iff.1 h v hv)

lemma entries_again (hf : Repeats f) {es : Entries Value} (h : (entries f es).value.ok = true) :
    entries f (entries f es).value.value = pure (.good (entries f es).value.value) := by
  refine entries_of_settled fun w hw => ?_
  have hvalues : (entries f es).value.value.map (·.2) = (items f (es.map (·.2))).value.value := by
    rw [entries_eq_items]
    refine List.map_snd_zip ?_
    rw [items_eq_gather, Logged.gather_value]
    simp
  rw [hvalues, items_eq_gather, Logged.gather_value, List.map_map, List.mem_map] at hw
  obtain ⟨v, hv, rfl⟩ := hw
  exact hf v (ok_entries_iff.1 h v hv)

lemma repeats_toArrayOf (hf : Repeats f) : Repeats (toArrayOf f .safe) := by
  intro v h
  cases v with
  | array vs =>
    have hitems : items f (items f vs).value.value = pure (.good (items f vs).value.value) :=
      items_again hf h
    show toArrayOf f .safe (.array (items f vs).value.value) = _
    simp only [toArrayOf, hitems]
    rfl
  | _ => cases h

lemma repeats_toMapOf (hf : Repeats f) : Repeats (toMapOf f) := by
  intro v h
  cases v with
  | map es =>
    have hentries : entries f (entries f es).value.value = pure (.good (entries f es).value.value) :=
      entries_again hf h
    show toMapOf f (.map (entries f es).value.value) = _
    simp only [toMapOf, hentries]
    rfl
  | _ => cases h

lemma repeats_toTypeOf (hf : Repeats f) (type : TypeTag) : Repeats (toTypeOf f type .safe) := by
  unfold toTypeOf
  split
  · exact fun _ _ => rfl
  · exact repeats_toNull
  · exact repeats_of_leaves leaves_toBool fun _ => rfl
  · exact repeats_of_leaves leaves_toInt fun _ => rfl
  · exact repeats_of_leaves leaves_toDouble fun _ => rfl
  · exact repeats_of_leaves (leaves_toText .safe) fun _ => rfl
  · exact repeats_toArrayOf hf
  · exact repeats_toMapOf hf
  · exact repeats_toFunction
  · exact repeats_toObject _

/-- To types of nodes too, a good strict conversion leaves what the same one does not touch. -/
lemma repeats_convert (type inner : TypeTag) : Repeats (convert type inner .safe) :=
  repeats_toTypeOf (repeats_toTypeOf (fun _ _ => rfl) inner) type

end Convert

/-! ## One parameter -/

namespace Parameter

variable {p : Parameter} {v : Value}

/-- A parameter takes a value as it is. -/
def Takes (p : Parameter) (v : Value) : Prop := (p.check v).value = .good v

lemma check_of_null (h : (p.allowsNull && v.kind = .null) = true) : p.check v = pure (.good v) :=
  if_pos h

lemma check_of_not_null (h : ¬ (p.allowsNull && v.kind = .null) = true) : p.check v = do
    let converted ← Convert.convert p.type p.inner .safe v
    if converted.ok then return converted
    else return .bad (p.substitute.getD converted.value) :=
  if_neg h

/-- Whether an argument is taken or replaced by the default, the outcome tells what has been reported. -/
lemma candid_check (p : Parameter) (v : Value) : (p.check v).Candid := by
  by_cases h : (p.allowsNull && v.kind = .null) = true
  · rw [check_of_null h]
    exact .good v
  · have hc := Convert.candid_convert p.type p.inner .safe v
    rw [check_of_not_null h]
    unfold Candid at hc ⊢
    rw [Logged.value_bind, Logged.failed_bind]
    cases hok : (Convert.convert p.type p.inner .safe v).value.ok with
    | true =>
      rw [hok] at hc
      rw [if_pos rfl, Logged.value_pure, Logged.failed_pure, Bool.or_false, hok, hc]
    | false =>
      rw [hok] at hc
      rw [if_neg Bool.false_ne_true, Logged.value_pure, Logged.failed_pure, Bool.or_false, ← hc]
      rfl

/-- What a parameter makes of a value without an error it takes as it is. -/
lemma takes_of_check (h : (p.check v).value.ok = true) : p.Takes (p.check v).value.value := by
  by_cases hv : (p.allowsNull && v.kind = .null) = true
  · rw [check_of_null hv]
    exact congrArg Logged.value (check_of_null hv)
  · rw [check_of_not_null hv, Logged.value_bind] at h ⊢
    cases hok : (Convert.convert p.type p.inner .safe v).value.ok with
    | false =>
      rw [hok] at h
      cases h
    | true =>
      have hagain := Convert.repeats_convert p.type p.inner v hok
      rw [if_pos rfl, Logged.value_pure]
      unfold Takes
      by_cases hw : (p.allowsNull &&
          (Convert.convert p.type p.inner .safe v).value.value.kind = .null) = true
      · rw [check_of_null hw]
        rfl
      · rw [check_of_not_null hw, hagain]
        rfl

end Parameter

namespace Signature

variable {s : Signature} {ps : List Parameter} {vs ws : List Value} {es : Entries Value}
  {ignoreUnknown : Bool}

/-! ## What is reported -/

/-- An argument that is missing is reported unless the parameter has a default. -/
def makeUp (p : Parameter) (text : String) : Logged (Outcome Value) := do
  if !p.isOptional then Logged.error text
  return ⟨p.isOptional, p.missingValue⟩

lemma candid_makeUp (p : Parameter) (text : String) : (makeUp p text).Candid := by
  unfold makeUp
  cases p.isOptional <;> rfl

lemma checkFrom_cons_nil (number : Nat) (p : Parameter) (ps : List Parameter) :
    checkFrom number (p :: ps) [] = do
      let v ← makeUp p s!"Missing argument {number} \"{p.name}\""
      let r ← checkFrom (number + 1) ps []
      return ⟨v.ok && r.ok, v.value :: r.value⟩ := by
  rw [checkFrom, makeUp]
  cases p.isOptional <;> rfl

lemma complete_cons_of_not_hasKey {p : Parameter} (hp : es.hasKey p.name = false)
    (ps : List Parameter) :
    complete (p :: ps) es = do
      let v ← makeUp p s!"Missing argument \"{p.name}\""
      let r ← complete ps (es.insert p.name p.missingValue)
      return ⟨v.ok && r.ok, r.value⟩ := by
  rw [complete, hp, makeUp]
  cases p.isOptional <;> rfl

lemma candid_checkFrom (number : Nat) (ps : List Parameter) (vs : List Value) :
    (checkFrom number ps vs).Candid := by
  induction ps generalizing number vs with
  | nil => exact .good []
  | cons p ps ih =>
    cases vs with
    | nil =>
      rw [checkFrom_cons_nil]
      exact Candid.both (fun v r => v :: r) (candid_makeUp p _) fun _ => ih _ _
    | cons v vs =>
      rw [checkFrom]
      exact Candid.both (fun v r => v :: r) (p.candid_check v) fun _ => ih _ _

lemma candid_checkArray (s : Signature) (vs : List Value) : (s.checkArray vs).Candid := by
  unfold checkArray
  cases s.known with
  | false => exact .good vs
  | true =>
    have h := candid_checkFrom 1 s.parameters vs
    unfold Candid at h ⊢
    by_cases hmany : s.parameters.length < vs.length
    · simp [hmany]
    · simp [hmany, h]

lemma candid_checkGiven (s : Signature) (ignoreUnknown : Bool) (es : Entries Value) :
    (s.checkGiven ignoreUnknown es).Candid := by
  induction es with
  | nil => exact .good []
  | cons e es ih =>
    rw [checkGiven]
    cases s.find? e.1 with
    | some p => exact Candid.both (fun v r => (e.1, v) :: r) (p.candid_check e.2) fun _ => ih
    | none =>
      unfold Candid at ih ⊢
      cases ignoreUnknown
      · simp [Outcome.bad]
      · have hwarning : Severity.warning.isError = false := rfl
        simp [hwarning, Outcome.good, ih]

lemma candid_complete (ps : List Parameter) (es : Entries Value) : (complete ps es).Candid := by
  induction ps generalizing es with
  | nil => exact .good es
  | cons p ps ih =>
    cases hp : es.hasKey p.name with
    | true =>
      rw [complete, hp, if_pos rfl]
      exact ih es
    | false =>
      rw [complete_cons_of_not_hasKey hp]
      exact Candid.both (fun _ r => r) (candid_makeUp p _) fun _ => ih _

lemma candid_checkMap (s : Signature) (es : Entries Value) (ignoreUnknown : Bool) :
    (s.checkMap es ignoreUnknown).Candid := by
  unfold checkMap
  cases s.known with
  | false => exact .good es
  | true =>
    exact Candid.both (fun _ r => r) (s.candid_checkGiven ignoreUnknown es)
      fun o => candid_complete s.parameters o.value

/-! ## Arguments by position -/

/-- The outcome is good only if there are not too many arguments; either way there is one argument for each
parameter. -/
lemma value_checkArray_of_known (hs : s.known = true) (vs : List Value) :
    (s.checkArray vs).value =
      ⟨!decide (s.parameters.length < vs.length) && (settled s.parameters vs).all (·.2.ok),
        (settled s.parameters vs).map (·.2.value)⟩ := by
  by_cases hmany : s.parameters.length < vs.length <;>
    simp [checkArray, hs, hmany, value_checkFrom]

lemma length_settled (ps : List Parameter) (vs : List Value) : (settled ps vs).length = ps.length := by
  have h := congrArg List.length (settled_names ps vs)
  rwa [List.length_map, List.length_map] at h

/-- Every default is taken by its own parameter. -/
def TakesDefaults (ps : List Parameter) : Prop := ∀ p ∈ ps, ∀ d, p.substitute = some d → p.Takes d

/-- What stands for a missing argument is taken if the parameter has a default. -/
lemma TakesDefaults.missing (hd : TakesDefaults ps) {p : Parameter} (hp : p ∈ ps)
    (ho : p.isOptional = true) : p.Takes p.missingValue := by
  obtain ⟨d, hsub⟩ := Option.isSome_iff_exists.1 ho
  have he : p.missingValue = d := by rw [Parameter.missingValue, hsub, Option.getD_some]
  rw [he]
  exact hd p hp d hsub

/-- Where all has gone well, each parameter takes its argument. -/
lemma forall₂_takes_settled (hd : TakesDefaults ps) (vs : List Value)
    (h : (settled ps vs).all (·.2.ok) = true) :
    List.Forall₂ Parameter.Takes ps ((settled ps vs).map (·.2.value)) := by
  induction ps generalizing vs with
  | nil => rw [settled_nil]; exact .nil
  | cons p ps ih =>
    have hrest : TakesDefaults ps := fun q hq => hd q (List.mem_cons_of_mem p hq)
    cases vs with
    | nil =>
      rw [settled_cons_nil, List.all_cons, Bool.and_eq_true] at h
      rw [settled_cons_nil, List.map_cons]
      exact .cons (hd.missing List.mem_cons_self h.1) (ih hrest [] h.2)
    | cons v vs =>
      rw [settled_cons_cons, List.all_cons, Bool.and_eq_true] at h
      rw [settled_cons_cons, List.map_cons]
      exact .cons (Parameter.takes_of_check h.1) (ih hrest vs h.2)

/-- Arguments that their parameters take are left as they are. -/
lemma settled_of_takes (h : List.Forall₂ Parameter.Takes ps ws) :
    (settled ps ws).all (·.2.ok) = true ∧ (settled ps ws).map (·.2.value) = ws := by
  induction h with
  | nil => exact ⟨rfl, rfl⟩
  | cons hp _ ih =>
    rw [settled_cons_cons, List.all_cons, List.map_cons, hp, ih.1, ih.2]
    exact ⟨rfl, rfl⟩

/-! ## Arguments by name -/

lemma get?_complete {key : String} (hkey : key ∉ ps.map (·.name)) (es : Entries Value) :
    (complete ps es).value.value.get? key = es.get? key := by
  induction ps generalizing es with
  | nil => rfl
  | cons p ps ih =>
    rw [List.map_cons, List.mem_cons, not_or] at hkey
    cases hp : es.hasKey p.name with
    | true =>
      rw [complete, hp, if_pos rfl]
      exact ih hkey.2 es
    | false =>
      rw [value_complete_cons hp]
      exact (ih hkey.2 _).trans (Entries.get?_insert_of_ne (Ne.symm hkey.1) _ es)

lemma get?_checkGiven {key : String} (hkey : key ∉ s.names) (es : Entries Value) :
    (s.checkGiven ignoreUnknown es).value.value.get? key = es.get? key := by
  have hunknown : s.find? key = none := by
    rw [find?, List.find?_eq_none]
    intro p hp he
    exact hkey (eq_of_beq he ▸ List.mem_map_of_mem hp)
  rw [value_checkGiven]
  induction es with
  | nil => rfl
  | cons e es ih =>
    have hrest : Entries.get? key
        (es.map fun e => (e.1, (s.checkEntry ignoreUnknown e).value)) = Entries.get? key es := ih
    show Entries.get? key ((e.1, (s.checkEntry ignoreUnknown e).value) :: es.map _) = _
    rw [Entries.get?_cons, Entries.get?_cons, hrest]
    by_cases he : e.1 = key
    · subst he
      have hkeep : (s.checkEntry ignoreUnknown e).value = e.2 := by rw [checkEntry, hunknown]
      rw [hkeep]
    · have he' : ¬ (e.1 == key) = true := by simpa using he
      rw [if_neg he', if_neg he']

lemma value_checkMap (hs : s.known = true) (es : Entries Value) (ignoreUnknown : Bool) :
    (s.checkMap es ignoreUnknown).value =
      ⟨(s.checkGiven ignoreUnknown es).value.ok &&
          (complete s.parameters (s.checkGiven ignoreUnknown es).value.value).value.ok,
        (complete s.parameters (s.checkGiven ignoreUnknown es).value.value).value.value⟩ := by
  simp [checkMap, hs]

/-- What is completed has all names as keys. -/
lemma hasKey_complete (hn : (ps.map (·.name)).Nodup) (es : Entries Value) {p : Parameter}
    (hp : p ∈ ps) : (complete ps es).value.value.hasKey p.name = true := by
  obtain ⟨-, hperm, -⟩ := value_complete hn es
  rw [Entries.hasKey_congr hperm, Entries.hasKey_iff, List.map_append, List.mem_append]
  by_cases hkey : es.hasKey p.name = true
  · exact .inl (Entries.hasKey_iff.1 hkey)
  · right
    rw [List.map_map, missing, List.map_map]
    exact List.mem_map.2 ⟨p, List.mem_filter.2 ⟨hp, by simp [hkey]⟩, rfl⟩

/-- With all names as keys there is nothing to complete. -/
lemma complete_of_hasKey (h : ∀ p ∈ ps, es.hasKey p.name = true) :
    complete ps es = pure (.good es) := by
  induction ps with
  | nil => rfl
  | cons p ps ih =>
    obtain ⟨hp, hps⟩ := List.forall_mem_cons.1 h
    rw [complete, hp, if_pos rfl]
    exact ih hps

/-- An entry stays as it is: its parameter takes the value, or unknown names are ignored. -/
def Stays (s : Signature) (ignoreUnknown : Bool) (e : String × Value) : Prop :=
  s.checkEntry ignoreUnknown e = .good e.2

lemma stays_of_checkEntry {e : String × Value} (h : (s.checkEntry ignoreUnknown e).ok = true) :
    s.Stays ignoreUnknown (e.1, (s.checkEntry ignoreUnknown e).value) := by
  unfold Stays checkEntry at *
  cases hp : s.find? e.1 with
  | some p =>
    rw [hp] at h
    exact Parameter.takes_of_check h
  | none =>
    rw [hp] at h
    exact congrArg (Outcome.mk · e.2) h

lemma checkGiven_of_stays (h : ∀ e ∈ es, s.Stays ignoreUnknown e) :
    (s.checkGiven ignoreUnknown es).value = .good es := by
  have hok : (es.all fun e => (s.checkEntry ignoreUnknown e).ok) = true := by
    rw [List.all_eq_true]
    exact fun e he => congrArg Outcome.ok (h e he)
  have hvalue : (es.map fun e => (e.1, (s.checkEntry ignoreUnknown e).value)) = es := by
    refine (List.map_congr_left fun e he => ?_).trans (List.map_id' es)
    exact congrArg (e.1, ·) (congrArg Outcome.value (h e he))
  rw [value_checkGiven, hok, hvalue]
  rfl

/-- Where all has gone well, every entry of what is left stays as it is. -/
lemma stays_checkMap (hs : s.known = true) (hn : s.names.Nodup) (hd : TakesDefaults s.parameters)
    (h : (s.checkMap es ignoreUnknown).value.ok = true) :
    ∀ e ∈ (s.checkMap es ignoreUnknown).value.value, s.Stays ignoreUnknown e := by
  rw [value_checkMap hs] at h ⊢
  obtain ⟨hok, hperm, -⟩ := value_complete hn (s.checkGiven ignoreUnknown es).value.value
  rw [Bool.and_eq_true, hok, value_checkGiven, List.all_eq_true, List.all_eq_true] at h
  intro e he
  rcases List.mem_append.1 (hperm.mem_iff.1 he) with he | he
  · rw [value_checkGiven, List.mem_map] at he
    obtain ⟨f, hf, rfl⟩ := he
    exact stays_of_checkEntry (h.1 f hf)
  · obtain ⟨m, hm, rfl⟩ := List.mem_map.1 he
    have hgood := h.2 m (by rwa [value_checkGiven] at hm)
    obtain ⟨p, hp, rfl⟩ := List.mem_map.1 hm
    have hp := (List.mem_filter.1 hp).1
    unfold Stays checkEntry
    rw [find?_of_mem hn hp]
    exact hd.missing hp hgood

/-! ## Both checks -/

/-- A check can be relied on: its outcome tells whether an error has been reported, and what it leaves with a
good outcome is left as it is, with a good outcome again, if it is checked once more. -/
structure Reliable {α : Type} (check : α → Logged (Outcome α)) : Prop where
  good_iff : ∀ a, (check a).value.ok = true ↔
    ∀ m ∈ messagesOf (check a).events, m.severity.isError = false
  again : ∀ a, (check a).value.ok = true →
    (check (check a).value.value).value = .good (check a).value.value ∧
      ∀ m ∈ messagesOf (check (check a).value.value).events, m.severity.isError = false

lemma Reliable.of_candid {α : Type} {check : α → Logged (Outcome α)} (h : ∀ a, (check a).Candid)
    (hagain : ∀ a, (check a).value.ok = true →
      (check (check a).value.value).value = .good (check a).value.value) : Reliable check := by
  have hgood : ∀ a, (check a).value.ok = true ↔
      ∀ m ∈ messagesOf (check a).events, m.severity.isError = false := by
    intro a
    rw [h a, Bool.not_eq_true', Logged.failed_eq_false_iff]
  refine ⟨hgood, fun a ha => ⟨hagain a ha, (hgood _).1 ?_⟩⟩
  rw [hagain a ha]
  rfl

lemma reliable_checkArray (hs : s.known = true) (hd : TakesDefaults s.parameters) :
    Reliable s.checkArray := by
  refine .of_candid s.candid_checkArray fun vs h => ?_
  have hlen : ((settled s.parameters vs).map (·.2.value)).length = s.parameters.length := by
    rw [List.length_map, length_settled]
  rw [value_checkArray_of_known hs] at h ⊢
  rw [Bool.and_eq_true] at h
  obtain ⟨hok, hvalue⟩ := settled_of_takes (forall₂_takes_settled hd vs h.2)
  rw [value_checkArray_of_known hs, hok, hvalue, hlen, Bool.and_true]
  exact congrArg (Outcome.mk · _) (by simp)

lemma reliable_checkMap (hs : s.known = true) (hn : s.names.Nodup)
    (hd : TakesDefaults s.parameters) (ignoreUnknown : Bool) :
    Reliable fun es => s.checkMap es ignoreUnknown := by
  refine .of_candid (fun es => s.candid_checkMap es ignoreUnknown) fun es h => ?_
  have hgiven := checkGiven_of_stays (stays_checkMap hs hn hd h)
  have hkeys : ∀ p ∈ s.parameters,
      (s.checkMap es ignoreUnknown).value.value.hasKey p.name = true := by
    intro p hp
    rw [value_checkMap hs]
    exact hasKey_complete hn _ hp
  rw [value_checkMap hs, hgiven]
  show Outcome.mk (true && (complete s.parameters (s.checkMap es ignoreUnknown).value.value).value.ok)
    (complete s.parameters (s.checkMap es ignoreUnknown).value.value).value.value = _
  rw [complete_of_hasKey hkeys]
  rfl

/-- For parameters with different names that take their own defaults, either check completes the arguments.  By
position there is one for each parameter afterwards; by name every parameter has its key, and what is under
another key stays there.  Whether unknown names are ignored or not, the outcome is good exactly if no error has
been reported, and then checking what is left once more changes nothing and reports no error. -/
theorem checks_complete (h : ofParameters ps = .ok s) (hd : TakesDefaults ps) :
    (∀ vs, (s.checkArray vs).value.value.length = ps.length) ∧ Reliable s.checkArray ∧
    ∀ ignoreUnknown,
      (∀ es, (∀ p ∈ ps, (s.checkMap es ignoreUnknown).value.value.hasKey p.name = true) ∧
        ∀ key ∉ ps.map (·.name),
          (s.checkMap es ignoreUnknown).value.value.get? key = es.get? key) ∧
      Reliable fun es => s.checkMap es ignoreUnknown := by
  obtain ⟨rfl, hn⟩ := ofParameters_eq_ok h
  refine ⟨fun vs => ?_, reliable_checkArray rfl hd, fun ignoreUnknown =>
    ⟨fun es => ⟨fun p hp => ?_, fun key hkey => ?_⟩, reliable_checkMap rfl hn hd ignoreUnknown⟩⟩
  · rw [value_checkArray_of_known rfl, List.length_map, length_settled]
  · rw [value_checkMap rfl]
    exact hasKey_complete hn _ hp
  · rw [value_checkMap rfl]
    exact (get?_complete hkey _).trans (get?_checkGiven hkey es)

/-- A number of copies, a reader that may be nobody, and a list of labels of which there is one by default. -/
def printParameters : List Parameter :=
  [{ name := "copies", type := .int }, { name := "reader", type := .document, substitute := some .null },
    { name := "labels", type := .array, inner := .string,
      substitute := some (.array [.string "draft"]) }]

/-- The number is missing and has no default; the label that is given becomes a string, and what is under an
unknown name is left alone.  With a number all is well, and stays so. -/
theorem checks_complete_printParameters :
    ofParameters printParameters = .ok ⟨printParameters, true⟩ ∧ TakesDefaults printParameters ∧
      ((Signature.mk printParameters true).checkMap
        [("labels", .array [.int 3]), ("size", .int 4)] true).value =
          .bad [("copies", .int 0), ("labels", .array [.string "3"]), ("reader", .null),
            ("size", .int 4)] ∧
      (∀ m ∈ messagesOf ((Signature.mk printParameters true).checkMap
          [("copies", .int 0), ("labels", .array [.string "3"]), ("reader", .null), ("size", .int 4)]
          true).events, m.severity.isError = false) ∧
      ((Signature.mk printParameters true).checkArray [.int 2]).value =
        .good [.int 2, .null, .array [.string "draft"]] ∧
      ((Signature.mk printParameters true).checkArray
        [.int 2, .null, .array [.string "draft"]]).value =
          .good [.int 2, .null, .array [.string "draft"]] := by
  have hs : ofParameters printParameters = .ok ⟨printParameters, true⟩ := rfl
  have hd : TakesDefaults printParameters := by
    intro p hp d hsub
    simp only [printParameters, List.mem_cons, List.not_mem_nil, or_false] at hp
    rcases hp with rfl | rfl | rfl <;> cases hsub <;> rfl
  obtain ⟨-, harray, hmap⟩ := checks_complete hs hd
  have hbad : ((Signature.mk printParameters true).checkMap
      [("labels", .array [.int 3]), ("size", .int 4)] true).value =
        .bad [("copies", .int 0), ("labels", .array [.string "3"]), ("reader", .null),
          ("size", .int 4)] := rfl
  have hgood : ((Signature.mk printParameters true).checkArray [.int 2]).value =
      .good [.int 2, .null, .array [.string "draft"]] := rfl
  have hagain := (harray.again [.int 2] (by rw [hgood]; rfl)).1
  rw [hgood] at hagain
  exact ⟨hs, hd, hbad, ((hmap true).2.good_iff _).1 rfl, hgood, hagain⟩

end Signature

end Semdoc
