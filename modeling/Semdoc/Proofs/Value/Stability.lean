import Mathlib.Data.List.Zip
import Semdoc.Proofs.Value.Conversion
import Semdoc.Proofs.Value.Members

/-!
# Conversions settle

Whatever a value is and however it is converted, what is left is of the kind that was asked for, and what an
array or a map then holds is of the kind that was asked for its members.  A value that is so already stays as
it is.  Hence a second conversion changes nothing, whether the first one was good or not.  Where the strict
conversion is good, the lenient one does the same.
-/

namespace Semdoc

/-- A value is of the kind that a type asks for.  The type of anything asks for nothing. -/
inductive OfKind : TypeTag → Value → Prop
  | any (v : Value) : OfKind .any v
  | null : OfKind .null .null
  | bool (b : Bool) : OfKind .bool (.bool b)
  | int (i : Int64) : OfKind .int (.int i)
  | double (d : Double) : OfKind .double (.double d)
  | string (s : String) : OfKind .string (.string s)
  | array (vs : List Value) : OfKind .array (.array vs)
  | map (es : Entries Value) : OfKind .map (.map es)
  | function (f : FunctionRef) : OfKind .function (.function f)

/-- The types that ask for a kind of values, and the one that asks for nothing.  All others are types of
nodes. -/
def valueTypes : List TypeTag :=
  [.any, .null, .bool, .int, .double, .string, .array, .map, .function]

/-- A value is of the kind that a type asks for, and if that is an array or a map, then its members are of
the kind that another type asks for. -/
structure Fits (type inner : TypeTag) (v : Value) : Prop where
  kind : OfKind type v
  members : type ≠ .any → ∀ w ∈ v.members, OfKind inner w

namespace Convert

variable {f g : Value → Logged (Outcome Value)} {type inner : TypeTag} {mode : ConversionMode}
  {v : Value}

/-! ## Members one after the other -/

lemma items_of_settled {vs : List Value} (h : ∀ v ∈ vs, f v = pure (.good v)) :
    items f vs = pure (.good vs) := by
  rw [items_eq_gather]
  have hvs := (Logged.gather_map_eq_good_iff vs f id).2 h
  rwa [List.map_id] at hvs

lemma entries_of_settled {es : Entries Value} (h : ∀ v ∈ es.map (·.2), f v = pure (.good v)) :
    entries f es = pure (.good es) := by
  rw [entries_eq_items, items_of_settled h]
  show pure (Outcome.good ((es.map (·.1)).zip (es.map (·.2)))) = _
  rw [List.zip_map', List.map_id']

lemma items_congr {vs : List Value} (h : ∀ v ∈ vs, f v = g v) : items f vs = items g vs := by
  rw [items_eq_gather, items_eq_gather, List.map_congr_left h]

lemma entries_congr {es : Entries Value} (h : ∀ v ∈ es.map (·.2), f v = g v) :
    entries f es = entries g es := by
  rw [entries_eq_items, entries_eq_items, items_congr h]

lemma ok_items_iff {vs : List Value} :
    (items f vs).value.ok = true ↔ ∀ v ∈ vs, (f v).value.ok = true := by
  rw [items_eq_gather, Logged.gather_ok, List.all_map, List.all_eq_true]
  rfl

lemma ok_entries_iff {es : Entries Value} :
    (entries f es).value.ok = true ↔ ∀ v ∈ es.map (·.2), (f v).value.ok = true := by
  rw [entries_eq_items]
  exact ok_items_iff

lemma forall_mem_items {P : Value → Prop} (h : ∀ v, P (f v).value.value) (vs : List Value) :
    ∀ w ∈ (items f vs).value.value, P w := by
  rw [items_eq_gather, Logged.gather_value, List.map_map, List.forall_mem_map]
  exact fun v _ => h v

lemma forall_mem_entries {P : Value → Prop} (h : ∀ v, P (f v).value.value) (es : Entries Value) :
    ∀ w ∈ (entries f es).value.value.map (·.2), P w := by
  rw [entries_eq_items]
  intro w hw
  obtain ⟨e, he, rfl⟩ := List.mem_map.1 hw
  exact forall_mem_items h _ _ (List.of_mem_zip he).2

/-! ## What is left is of the kind -/

lemma ofKind_of_leaves {α : Type} {form : α → Value} {x : Logged (Outcome Value)}
    (hx : Leaves form x) (h : ∀ a, OfKind type (form a)) : OfKind type x.value.value := by
  obtain ⟨a, ha⟩ := hx
  rw [ha]
  exact h a

lemma ofKind_toNull (v : Value) : OfKind .null (toNull v).value.value := by
  unfold toNull
  split <;> exact .null

lemma ofKind_toFunction (v : Value) : OfKind .function (toFunction v).value.value := by
  unfold toFunction
  split <;> exact .function _

lemma ofKind_toTypeOf (htype : type ∈ valueTypes) (v : Value) :
    OfKind type (toTypeOf f type mode v).value.value := by
  unfold toTypeOf
  split
  · exact .any v
  · exact ofKind_toNull v
  · exact ofKind_of_leaves (leaves_toBool v) .bool
  · exact ofKind_of_leaves (leaves_toInt v) .int
  · exact ofKind_of_leaves (leaves_toDouble v) .double
  · exact ofKind_of_leaves (leaves_toText mode v) .string
  · exact ofKind_of_leaves (leaves_toArrayOf f mode v) .array
  · exact ofKind_of_leaves (leaves_toMapOf f v) .map
  · exact ofKind_toFunction v
  · simp_all [valueTypes]

lemma members_toArrayOf {P : Value → Prop} (h : ∀ v, P (f v).value.value) (v : Value) :
    ∀ w ∈ (toArrayOf f mode v).value.value.members, P w := by
  unfold toArrayOf
  split
  · exact forall_mem_items h _
  · exact nofun
  · exact forall_mem_items h _

lemma members_toMapOf {P : Value → Prop} (h : ∀ v, P (f v).value.value) (v : Value) :
    ∀ w ∈ (toMapOf f v).value.value.members, P w := by
  unfold toMapOf
  split
  · exact forall_mem_entries h _
  · exact nofun

/-- What a conversion leaves fits the type, if what becomes of members fits the type of members. -/
lemma fits_toTypeOf (hf : ∀ v, OfKind inner (f v).value.value) (htype : type ∈ valueTypes)
    (v : Value) : Fits type inner (toTypeOf f type mode v).value.value := by
  have hkind : OfKind type (toTypeOf f type mode v).value.value := ofKind_toTypeOf htype v
  refine ⟨hkind, fun hany => ?_⟩
  by_cases harray : type = .array
  · subst harray
    exact members_toArrayOf hf v
  · by_cases hmap : type = .map
    · subst hmap
      exact members_toMapOf hf v
    · -- values of the other kinds have no members
      generalize (toTypeOf f type mode v).value.value = w at hkind
      cases hkind with
      | any => exact absurd rfl hany
      | array => exact absurd rfl harray
      | map => exact absurd rfl hmap
      | _ => exact nofun

/-! ## What fits stays -/

lemma toTypeOf_of_fits (hf : ∀ w, OfKind inner w → f w = pure (.good w)) (h : Fits type inner v) :
    toTypeOf f type mode v = pure (.good v) := by
  obtain ⟨hkind, hmembers⟩ := h
  cases hkind with
  | array vs =>
    have hitems : items f vs = pure (.good vs) :=
      items_of_settled fun w hw => hf w (hmembers (by decide) w hw)
    simp only [toTypeOf, toArrayOf, hitems]
    rfl
  | map es =>
    have hentries : entries f es = pure (.good es) :=
      entries_of_settled fun w hw => hf w (hmembers (by decide) w hw)
    simp only [toTypeOf, toMapOf, hentries]
    rfl
  | _ => rfl

/-! ## The strict mode and the lenient one -/

lemma toBool_all (h : (toBool .safe v).value.ok = true) : toBool .all v = toBool .safe v := by
  cases v with
  | bool b => rfl
  | _ => cases h

lemma toInt_all (h : (toInt .safe v).value.ok = true) : toInt .all v = toInt .safe v := by
  cases v with
  | int i => rfl
  | _ => cases h

lemma toDouble_all (h : (toDouble .safe v).value.ok = true) :
    toDouble .all v = toDouble .safe v := by
  cases v with
  | double d => rfl
  | int i => rfl
  | _ => cases h

lemma toText_all (h : (toText .safe v).value.ok = true) : toText .all v = toText .safe v := by
  cases v with
  | array vs => cases h
  | map es => cases h
  | object o => cases h
  | function f => cases h
  | _ => rfl

lemma toArrayOf_all (hfg : ∀ w, (f w).value.ok = true → g w = f w)
    (h : (toArrayOf f .safe v).value.ok = true) : toArrayOf g .all v = toArrayOf f .safe v := by
  cases v with
  | array vs =>
    have hitems : items g vs = items f vs :=
      items_congr fun w hw => hfg w (ok_items_iff.1 h w hw)
    simp only [toArrayOf, hitems]
  | _ => cases h

lemma toMapOf_all (hfg : ∀ w, (f w).value.ok = true → g w = f w)
    (h : (toMapOf f v).value.ok = true) : toMapOf g v = toMapOf f v := by
  cases v with
  | map es =>
    have hentries : entries g es = entries f es :=
      entries_congr fun w hw => hfg w (ok_entries_iff.1 h w hw)
    simp only [toMapOf, hentries]
  | _ => cases h

/-- Where the strict conversion is good the lenient one does the same, if it does so with members. -/
lemma toTypeOf_all (hfg : ∀ w, (f w).value.ok = true → g w = f w) (type : TypeTag)
    (h : (toTypeOf f type .safe v).value.ok = true) :
    toTypeOf g type .all v = toTypeOf f type .safe v := by
  unfold toTypeOf at h ⊢
  split at h
  · rfl
  · rfl
  · exact toBool_all h
  · exact toInt_all h
  · exact toDouble_all h
  · exact toText_all h
  · exact toArrayOf_all hfg h
  · exact toMapOf_all hfg h
  · rfl
  · rfl

/-- Converting a value to a type, and its members to another, leaves a value that fits these types, whether
the conversion is good or not.  Converting that again in the same mode is good, leaves it as it is and reports
nothing.  And if the strict conversion is good, then the lenient one leaves and reports the same. -/
theorem convert_settles (htype : type ∈ valueTypes) (hinner : inner ∈ valueTypes)
    (mode : ConversionMode) (v : Value) :
    Fits type inner (convert type inner mode v).value.value ∧
      convert type inner mode (convert type inner mode v).value.value =
        pure (.good (convert type inner mode v).value.value) ∧
      ((convert type inner .safe v).value.ok = true →
        convert type inner .all v = convert type inner .safe v) := by
  have hfits : Fits type inner (convert type inner mode v).value.value :=
    fits_toTypeOf (ofKind_toTypeOf hinner) htype v
  refine ⟨hfits, toTypeOf_of_fits (fun w hw => ?_) hfits, toTypeOf_all (fun w => ?_) type⟩
  · -- what members hold in turn may be anything
    have hany : ∀ u, OfKind .any u → (pure (.good u) : Logged (Outcome Value)) = pure (.good u) :=
      fun _ _ => rfl
    exact toTypeOf_of_fits hany ⟨hw, fun _ u _ => .any u⟩
  · exact toTypeOf_all (fun _ _ => rfl) inner

/-- A map whose values are to be integers: a double in an array is one without its fraction, and a map is
none.  What is left is a map of integers, and converting that changes nothing. -/
theorem convert_settles_mapOfIntegers :
    let v : Value := .map [("a", .array [.double ⟨0x4004000000000000⟩]), ("b", .map [])]
    let left : Value := .map [("a", .int 2), ("b", .int 0)]
    (convert .map .int .all v).value = .bad left ∧ Fits .map .int left ∧
      convert .map .int .all left = pure (.good left) := by
  intro v left
  have hleft : (convert .map .int .all v).value = .bad left := rfl
  obtain ⟨hfits, hagain, -⟩ :=
    convert_settles (show TypeTag.map ∈ valueTypes by decide)
      (show TypeTag.int ∈ valueTypes by decide) .all v
  rw [hleft] at hfits hagain
  exact ⟨hleft, hfits, hagain⟩

end Convert

end Semdoc
