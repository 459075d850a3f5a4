import Semdoc.Proofs.Log.Computations
import Semdoc.Value.Convert

/-!
# What conversions tell

A conversion says in two ways how it went: by its outcome, and by the errors that it reports.  The two always
agree, however deep the value is and whatever its items are converted to.  The questions that convert a value on
the way look at the reported errors only, and so they answer exactly where the conversion is good.
-/

namespace Semdoc.Convert

open Logged (Candid)

variable {α β : Type}

lemma candid_refuse (v : Value) (target : String) (substitute : Value) :
    Candid (refuse v target substitute) := rfl

lemma candid_refuseText (s target : String) (substitute : Value) :
    Candid (refuseText s target substitute) := rfl

/-! ## Numbers in texts -/

/-- An error is reported only where the text stands for no number. -/
lemma failed_numberOf? {s : String} {n : Numeral} (h : (numberOf? s).value = some n) :
    (numberOf? s).failed = false := by
  unfold numberOf? at h ⊢
  generalize Numeral.ofText s = tried at h ⊢
  dsimp only at h ⊢
  cases ht : tried.value with
  | some _ => rfl
  | none =>
    rw [ht] at h
    split at h <;> cases h

/-- What is done with a number is candid if it is so in either case. -/
lemma candid_numberOf?_bind {s : String} {f : Option Numeral → Logged (Outcome Value)}
    (hsome : ∀ n, Candid (f (some n))) (hnone : Candid (f none)) (hbad : (f none).value.ok = false) :
    Candid (numberOf? s >>= f) := by
  rw [Candid, Logged.value_bind, Logged.failed_bind]
  cases h : (numberOf? s).value with
  | some n =>
    rw [failed_numberOf? h, Bool.false_or]
    exact hsome n
  | none =>
    have hfailed : (f none).failed = true := by
      rw [Candid, hbad] at hnone
      simpa using hnone
    rw [hbad, hfailed, Bool.or_true, Bool.not_true]

lemma candid_textToInt (s : String) : Candid (textToInt s) := by
  refine candid_numberOf?_bind (fun n => ?_) (candid_refuseText s _ _) rfl
  dsimp only
  split
  · exact .good _
  · split
    · exact .good _
    · exact candid_refuseText s _ _

lemma candid_textToDouble (s : String) : Candid (textToDouble s) :=
  candid_numberOf?_bind (fun _ => .good _) (candid_refuseText s _ _) rfl

/-! ## Conversions -/

lemma candid_toBoolFully (v : Value) : Candid (toBoolFully v) := by
  fun_induction toBoolFully v with
  | case8 v ih => exact ih
  | case9 v => exact candid_refuse v _ _
  | _ => exact .good _

lemma candid_toIntFully (v : Value) : Candid (toIntFully v) := by
  fun_induction toIntFully v with
  | case5 d => exact candid_refuse _ _ _
  | case6 s => exact candid_textToInt s
  | case7 s => exact candid_textToInt s
  | case8 v ih => exact ih
  | case9 v => exact candid_refuse v _ _
  | _ => exact .good _

lemma candid_toDoubleFully (v : Value) : Candid (toDoubleFully v) := by
  fun_induction toDoubleFully v with
  | case5 s => exact candid_textToDouble s
  | case6 s => exact candid_textToDouble s
  | case7 v ih => exact ih
  | case8 v => exact candid_refuse v _ _
  | _ => exact .good _

lemma candid_toBool (mode : ConversionMode) (v : Value) : Candid (toBool mode v) := by
  unfold toBool
  split
  · exact .good _
  · exact candid_refuse _ _ _
  · exact candid_toBoolFully _

lemma candid_toInt (mode : ConversionMode) (v : Value) : Candid (toInt mode v) := by
  unfold toInt
  split
  · exact .good _
  · exact candid_refuse _ _ _
  · exact candid_toIntFully _

lemma candid_toDouble (mode : ConversionMode) (v : Value) : Candid (toDouble mode v) := by
  unfold toDouble
  split
  · exact .good _
  · exact .good _
  · exact candid_refuse _ _ _
  · exact candid_toDoubleFully _

lemma candid_toText (mode : ConversionMode) (v : Value) : Candid (toText mode v) := by
  unfold toText
  split
  · exact .good _
  · exact .good _
  · split
    · exact .good _
    · exact candid_refuse _ _ _

lemma candid_toNull (v : Value) : Candid (toNull v) := by
  unfold toNull
  split
  · exact .good _
  · exact candid_refuse _ _ _

lemma candid_toFunction (v : Value) : Candid (toFunction v) := by
  unfold toFunction
  split
  · exact .good _
  · exact candid_refuse _ _ _

lemma candid_toObject (type : TypeTag) (v : Value) : Candid (toObject type v) := by
  unfold toObject
  dsimp only
  split
  · split
    · exact .good _
    · rfl
  · rfl

/-! ## Members one after the other -/

lemma items_eq_gather (f : Value → Logged (Outcome Value)) (vs : List Value) :
    items f vs = Logged.gather (vs.map f) := by
  induction vs with
  | nil => rfl
  | cons v r ih => rw [items, ih]; rfl

/-- The values of a map are converted like items, and keep their keys. -/
lemma entries_eq_items (f : Value → Logged (Outcome Value)) (es : Entries Value) :
    entries f es = do
      return (← items f (es.map (·.2))).map ((es.map (·.1)).zip ·) := by
  induction es with
  | nil => rfl
  | cons e r ih =>
    rw [entries, ih, List.map_cons, List.map_cons, items]
    apply Logged.ext
    · rfl
    · simp only [Logged.events_bind, Logged.value_bind, Logged.value_pure, Logged.events_pure,
        List.append_nil]

section Containers

variable {f : Value → Logged (Outcome Value)} (hf : ∀ v, Candid (f v))
include hf

lemma candid_items (vs : List Value) : Candid (items f vs) := by
  rw [items_eq_gather]
  exact Logged.candid_gather (List.forall_mem_map.2 fun v _ => hf v)

lemma candid_entries (es : Entries Value) : Candid (entries f es) := by
  rw [entries_eq_items]
  exact (candid_items hf _).map _

lemma candid_toArrayOf (mode : ConversionMode) (v : Value) : Candid (toArrayOf f mode v) := by
  unfold toArrayOf
  split
  · exact (candid_items hf _).map _
  · exact candid_refuse _ _ _
  · exact (candid_items hf _).map _

lemma candid_toMapOf (v : Value) : Candid (toMapOf f v) := by
  unfold toMapOf
  split
  · exact (candid_entries hf _).map _
  · exact candid_refuse _ _ _

lemma candid_toTypeOf (type : TypeTag) (mode : ConversionMode) (v : Value) :
    Candid (toTypeOf f type mode v) := by
  unfold toTypeOf
  split
  · exact .good v
  · exact candid_toNull v
  · exact candid_toBool mode v
  · exact candid_toInt mode v
  · exact candid_toDouble mode v
  · exact candid_toText mode v
  · exact candid_toArrayOf hf mode v
  · exact candid_toMapOf hf v
  · exact candid_toFunction v
  · exact candid_toObject _ v

end Containers

lemma candid_convert (type inner : TypeTag) (mode : ConversionMode) (v : Value) :
    Candid (convert type inner mode v) :=
  candid_toTypeOf (candid_toTypeOf .good inner mode) type mode v

/-! ## What is left -/

/-- What a conversion leaves, good or not, is of a form. -/
def Leaves (form : α → Value) (x : Logged (Outcome Value)) : Prop := ∃ a, x.value.value = form a

lemma leaves_toBool {mode : ConversionMode} (v : Value) : Leaves .bool (toBool mode v) := by
  have hfully : Leaves .bool (toBoolFully v) := by
    fun_induction toBoolFully v with
    | case8 v ih => exact ih
    | _ => exact ⟨_, rfl⟩
  unfold toBool
  split
  · exact ⟨_, rfl⟩
  · exact ⟨_, rfl⟩
  · exact hfully

lemma leaves_textToInt (s : String) : Leaves .int (textToInt s) := by
  unfold Leaves textToInt
  rw [Logged.value_bind]
  split
  · split
    · exact ⟨_, rfl⟩
    · split <;> exact ⟨_, rfl⟩
  · exact ⟨_, rfl⟩

lemma leaves_toInt {mode : ConversionMode} (v : Value) : Leaves .int (toInt mode v) := by
  have hfully : Leaves .int (toIntFully v) := by
    fun_induction toIntFully v with
    | case6 s => exact leaves_textToInt s
    | case7 s => exact leaves_textToInt s
    | case8 v ih => exact ih
    | _ => exact ⟨_, rfl⟩
  unfold toInt
  split
  · exact ⟨_, rfl⟩
  · exact ⟨_, rfl⟩
  · exact hfully

lemma leaves_textToDouble (s : String) : Leaves .double (textToDouble s) := by
  unfold Leaves textToDouble
  rw [Logged.value_bind]
  split <;> exact ⟨_, rfl⟩

lemma leaves_toDouble {mode : ConversionMode} (v : Value) : Leaves .double (toDouble mode v) := by
  have hfully : Leaves .double (toDoubleFully v) := by
    fun_induction toDoubleFully v with
    | case5 s => exact leaves_textToDouble s
    | case6 s => exact leaves_textToDouble s
    | case7 v ih => exact ih
    | _ => exact ⟨_, rfl⟩
  unfold toDouble
  split
  · exact ⟨_, rfl⟩
  · exact ⟨_, rfl⟩
  · exact ⟨_, rfl⟩
  · exact hfully

lemma leaves_toText (mode : ConversionMode) (v : Value) : Leaves .string (toText mode v) := by
  unfold toText
  split
  · exact ⟨_, rfl⟩
  · exact ⟨_, rfl⟩
  · split <;> exact ⟨_, rfl⟩

lemma leaves_toArrayOf (f : Value → Logged (Outcome Value)) (mode : ConversionMode) (v : Value) :
    Leaves .array (toArrayOf f mode v) := by
  unfold toArrayOf
  split <;> exact ⟨_, rfl⟩

lemma leaves_toMapOf (f : Value → Logged (Outcome Value)) (v : Value) :
    Leaves .map (toMapOf f v) := by
  unfold toMapOf
  split <;> exact ⟨_, rfl⟩

/-! ## Lenient questions -/

/-- A question has an answer if and only if a conversion is good, and the answer is what the conversion leaves. -/
def Answers (answer : Except Failure α) (form : α → Value) (x : Logged (Outcome Value)) : Prop :=
  ((∃ a, answer = .ok a) ↔ x.value.ok = true) ∧ ∀ a, answer = .ok a → x.value.value = form a

/-- A question that takes apart what a conversion leaves is answered by it. -/
lemma answers_of_leaves (type : TypeTag) {v : Value} {form : α → Value}
    {part : Value → Except Failure α} (hpart : ∀ a, part (form a) = .ok a)
    (hleaves : Leaves form (convert type .any .all v)) :
    Answers (v.converted type >>= part) form (convert type .any .all v) := by
  have hcandid := candid_convert type .any .all v
  unfold Value.converted
  generalize convert type .any .all v = x at hcandid hleaves ⊢
  obtain ⟨a, ha⟩ := hleaves
  unfold Candid at hcandid
  cases hx : x.toExcept .conversion with
  | ok o =>
    obtain ⟨hfailed, rfl⟩ := (x.toExcept_eq_ok_iff .conversion o).1 hx
    have hanswer : ((Except.ok x.value).map (·.value) >>= part : Except Failure α) = .ok a :=
      (congrArg part ha).trans (hpart a)
    refine ⟨⟨fun _ => ?_, fun _ => ⟨a, hanswer⟩⟩, fun b hb => ?_⟩
    · rw [hcandid, Logged.failed, hfailed]
      rfl
    · rw [hanswer] at hb
      cases hb
      exact ha
  | error e =>
    refine ⟨⟨?_, fun hok => ?_⟩, fun b hb => (by cases hb)⟩
    · rintro ⟨b, hb⟩
      cases hb
    · -- a good conversion has reported no error
      rw [hcandid, Bool.not_eq_true'] at hok
      rw [(x.toExcept_eq_ok_iff .conversion x.value).2 ⟨hok, rfl⟩] at hx
      cases hx

/-- Whatever is converted to whatever type, the outcome is good if and only if no message of severity error or
worse has been reported.  So each of the questions that convert a value fully has an answer exactly where the
conversion is good, and then answers with what the conversion leaves. -/
theorem convert_ok_iff_no_error :
    (∀ type inner mode v, (convert type inner mode v).value.ok = true ↔
      ∀ m ∈ messagesOf (convert type inner mode v).events, m.severity.isError = false) ∧
    ∀ v : Value,
      Answers v.toBool .bool (toBool .all v) ∧ Answers v.toInt .int (toInt .all v) ∧
      Answers v.toDouble .double (toDouble .all v) ∧ Answers v.toText .string (toText .all v) ∧
      Answers v.toArray .array (toArrayOf (fun w => pure (.good w)) .all v) ∧
      Answers v.toMap .map (toMapOf (fun w => pure (.good w)) v) := by
  refine ⟨fun type inner mode v => ?_, fun v => ⟨?_, ?_, ?_, ?_, ?_, ?_⟩⟩
  · rw [candid_convert type inner mode v, Bool.not_eq_true', Logged.failed_eq_false_iff]
  · exact answers_of_leaves .bool (fun _ => rfl) (leaves_toBool v)
  · exact answers_of_leaves .int (fun _ => rfl) (leaves_toInt v)
  · exact answers_of_leaves .double (fun _ => rfl) (leaves_toDouble v)
  · exact answers_of_leaves .string (fun _ => rfl) (leaves_toText .all v)
  · exact answers_of_leaves .array (fun _ => rfl) (leaves_toArrayOf _ .all v)
  · exact answers_of_leaves .map (fun _ => rfl) (leaves_toMapOf _ v)

end Semdoc.Convert
