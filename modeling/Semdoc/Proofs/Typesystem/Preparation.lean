import Semdoc.Proofs.Log.Computations
import Semdoc.Proofs.Store.Kinds
import Semdoc.Proofs.Value.Members
import Semdoc.Typesystem.Prepare

/-!
# How values are prepared

Preparing goes down into a value along its type.  For each shape of a type there is an equation that says
what preparing comes to in terms of preparing the members of the value.  The outcome is candid: it is
good if and only if no error has been reported.
-/

namespace Semdoc

namespace Store

open Logged

variable {s : Store} {around : List NodeHandle} {t inner : NodeHandle} {v : Value}

lemma contains_of_shape? {shape : TypeShape} (h : s.shape? t = some shape) :
    s.contains t = true := by
  rw [contains_eq]
  unfold shape? at h
  cases hc : s.content? t with
  | none => rw [hc] at h; cases h
  | some c => rfl

/-! ## Structs -/

/-- The type of an attribute. -/
def attributeType? (s : Store) (a : NodeHandle) : Option NodeHandle :=
  (s.attribute? a).bind (·.type)

/-- The attributes of a struct type, each with what a value of the struct gives to it. -/
def givenTo (s : Store) (t : NodeHandle) : Value → List (NodeHandle × Option Value)
  | .array vs => (s.structAttributes t).zipIdx.map fun (a, i) => (a, vs[i]?)
  | .map es => (s.structAttributes t).zipIdx.map fun (a, i) =>
    (a, if ((s.structAttributes t).map s.name).findIdx? (· == s.name a) == some i
      then (es.find? fun e => e.1 == s.name a).map (·.2) else none)
  | _ => []

/-- The complaints about what a value of a struct gives to none of the attributes. -/
def misplaced (s : Store) (t : NodeHandle) : Value → List String
  | .array vs =>
    if (s.structAttributes t).length < vs.length then
      [s!"Expected at most {(s.structAttributes t).length} attributes but got {vs.length}"]
    else []
  | .map es =>
    (es.filter fun e => !((s.structAttributes t).map s.name).contains e.1).map fun e =>
      s!"Invalid attribute \"{e.1}\""
  | _ => []

/-- Prepares what is given to an attribute. -/
def prepareGiven (s : Store) (around : List NodeHandle) (e : NodeHandle × Option Value) :
    Logged (Outcome Value) :=
  s.prepareAttribute around e.1 (e.2.map fun v => (v, s.preparation v))

lemma givenTo_fst (h : v.IsContainer) :
    (s.givenTo t v).map (·.1) = s.structAttributes t := by
  rcases h with ⟨vs, rfl⟩ | ⟨es, rfl⟩ <;>
    simp [givenTo, Function.comp_def]

/-- What is given to an attribute is a member of the value of the struct. -/
lemma mem_members_of_givenTo {a : NodeHandle} {w : Value} (h : (a, some w) ∈ s.givenTo t v) :
    w ∈ v.members := by
  cases v with
  | array vs =>
    obtain ⟨⟨b, i⟩, -, hb⟩ := List.mem_map.1 h
    exact List.mem_of_getElem? (Prod.mk.inj hb).2
  | map es =>
    obtain ⟨⟨b, i⟩, -, hb⟩ := List.mem_map.1 h
    have hw := (Prod.mk.inj hb).2
    split at hw
    · obtain ⟨e, he, rfl⟩ := Option.map_eq_some_iff.1 hw
      exact List.mem_map.2 ⟨e, List.mem_of_find?_eq_some he, rfl⟩
    · cases hw
  | _ => cases h

lemma mem_attributes_of_givenTo {e : NodeHandle × Option Value} (h : e ∈ s.givenTo t v) :
    e.1 ∈ s.structAttributes t := by
  cases v with
  | array vs =>
    obtain ⟨⟨a, i⟩, ha, rfl⟩ := List.mem_map.1 h
    exact List.fst_mem_of_mem_zipIdx ha
  | map es =>
    obtain ⟨⟨a, i⟩, ha, rfl⟩ := List.mem_map.1 h
    exact List.fst_mem_of_mem_zipIdx ha
  | _ => cases h

/-- An array with a value for every attribute gives them in order. -/
lemma givenTo_array {vs : List Value} (h : vs.length = (s.structAttributes t).length) :
    s.givenTo t (.array vs) =
      ((s.structAttributes t).zip vs).map fun e => (e.1, some e.2) := by
  apply List.ext_getElem
  · simp [givenTo, h]
  · intro i hi hi'
    have hlt : i < vs.length := by
      simp [givenTo] at hi
      omega
    simp [givenTo, hlt]

lemma misplaced_array {vs : List Value} (h : vs.length = (s.structAttributes t).length) :
    s.misplaced t (.array vs) = [] :=
  if_neg (by omega)

/-! ## Equations -/

lemma itemPreparations_eq (s : Store) (vs : List Value) :
    s.itemPreparations vs = vs.map fun v => (v, s.preparation v) :=
  Value.eq_map_of_cons (by rw [itemPreparations]) (fun v r => by rw [itemPreparations]) vs

lemma entryPreparations_eq (s : Store) (es : List (String × Value)) :
    s.entryPreparations es = es.map fun e => (e.1, e.2, s.preparation e.2) :=
  Value.eq_map_of_cons (by rw [entryPreparations]) (fun e r => by rw [entryPreparations]) es

lemma prepareAll_eq (items : List (Value × Preparation)) :
    prepareAll around inner items = gather (items.map fun e => e.2 around inner) := by
  induction items with
  | nil => rfl
  | cons e r ih => rw [prepareAll, ih]; rfl

lemma prepareAttributes_eq (s : Store) (around : List NodeHandle)
    (assigned : List (NodeHandle × Option (Value × Preparation))) :
    s.prepareAttributes around assigned =
      gather (assigned.map fun e => s.prepareAttribute around e.1 e.2) := by
  induction assigned with
  | nil => rfl
  | cons e r ih => rw [prepareAttributes, ih]; rfl

section Attributes

variable {a u : NodeHandle} {type : Option NodeHandle} {w d : Value} {substitute : Option Value}

lemma prepareGiven_foreign {given : Option Value} (h : s.attribute? a = none) :
    s.prepareGiven around (a, given) = pure (.good .null) := by
  unfold prepareGiven prepareAttribute
  rw [h]

lemma prepareGiven_typed (h : s.attribute? a = some ⟨some u, substitute⟩) :
    s.prepareGiven around (a, some w) = s.preparation w around u := by
  unfold prepareGiven prepareAttribute
  rw [h]
  rfl

lemma prepareGiven_untyped (h : s.attribute? a = some ⟨none, substitute⟩) :
    s.prepareGiven around (a, some w) = pure (.good w) := by
  unfold prepareGiven prepareAttribute
  rw [h]
  rfl

lemma prepareGiven_default (h : s.attribute? a = some ⟨type, some d⟩) :
    s.prepareGiven around (a, none) = (do
      Logged.report .note s!"Using default value for attribute \"{s.name a}\""
      return .good d) := by
  unfold prepareGiven prepareAttribute
  rw [h]
  cases type <;> rfl

lemma prepareGiven_missing (h : s.attribute? a = some ⟨type, none⟩) :
    s.prepareGiven around (a, none) = (do
      Logged.error s!"Missing attribute \"{s.name a}\""
      return .bad (s.attributeDefault a)) := by
  unfold prepareGiven prepareAttribute
  rw [h]
  cases type <;> rfl

end Attributes

/-- What a value of a struct gives to each of the attributes, with how it is prepared. -/
def assignment (s : Store) (t : NodeHandle) (v : Value) :
    Logged (Outcome (List (NodeHandle × Option (Value × Preparation)))) := do
  (s.misplaced t v).forM fun text => Logged.error text
  return ⟨(s.misplaced t v).isEmpty,
    (s.givenTo t v).map fun e => (e.1, e.2.map fun v => (v, s.preparation v))⟩

lemma assignByPosition_eq (s : Store) (t : NodeHandle) (vs : List Value) :
    assignByPosition (s.structAttributes t) (s.itemPreparations vs) =
      s.assignment t (.array vs) := by
  have hgiven : ∀ i : Nat,
      (s.itemPreparations vs)[i]? = vs[i]?.map fun v => (v, s.preparation v) := by
    intro i
    rw [itemPreparations_eq, List.getElem?_map]
  have hlen : (s.itemPreparations vs).length = vs.length := by
    rw [itemPreparations_eq, List.length_map]
  simp only [assignByPosition, assignment, misplaced, givenTo, List.map_map, hgiven, hlen,
    Function.comp_def]
  by_cases h : (s.structAttributes t).length < vs.length
  · simp only [h, if_true, decide_true]
    rfl
  · simp only [h, if_false, decide_false]
    rfl

lemma assignByName_eq (s : Store) (t : NodeHandle) (es : List (String × Value)) :
    s.assignByName (s.structAttributes t) (s.entryPreparations es) = s.assignment t (.map es) := by
  simp only [assignByName, assignment, misplaced, givenTo, entryPreparations_eq, List.filter_map,
    List.find?_map, List.map_map, Logged.forM_map, List.isEmpty_map,
    Option.map_map, apply_ite (Option.map _), Option.map_none, Function.comp_def]

lemma prepareStruct_assignment (s : Store) (around : List NodeHandle) (t : NodeHandle) (v : Value) :
    s.prepareStruct around (s.assignment t v) = do
      (s.misplaced t v).forM fun text => Logged.error text
      let vs ← gather ((s.givenTo t v).map (s.prepareGiven around))
      return ⟨(s.misplaced t v).isEmpty && vs.ok, .array vs.value⟩ := by
  simp only [prepareStruct, assignment, prepareAttributes_eq]
  apply ext
  · simp only [value_bind, value_pure, List.map_map]
    rfl
  · simp only [events_bind, value_bind, value_pure, events_pure, List.append_nil, List.map_map]
    rfl

/-- Preparing goes by the shape of the type, whatever the value. -/
lemma exists_prepareAs (s : Store) (v : Value) :
    ∃ items entries, s.preparation v = s.prepareAs v items entries := by
  cases v with
  | array vs => exact ⟨_, _, by rw [preparation]⟩
  | map es => exact ⟨_, _, by rw [preparation]⟩
  | _ => exact ⟨[], [], by rw [preparation] <;> nofun⟩

section Shapes

lemma preparation_none (h : s.shape? t = none) :
    s.preparation v around t = do
      Logged.error "Cannot prepare value with an invalid type"
      return .bad v := by
  obtain ⟨items, entries, hv⟩ := s.exists_prepareAs v
  rw [hv, prepareAs, h]

lemma preparation_bool (h : s.shape? t = some .bool) :
    s.preparation v around t = Convert.toBool .safe v := by
  obtain ⟨items, entries, hv⟩ := s.exists_prepareAs v
  rw [hv, prepareAs, h]

lemma preparation_int (h : s.shape? t = some .int) :
    s.preparation v around t = Convert.toInt .safe v := by
  obtain ⟨items, entries, hv⟩ := s.exists_prepareAs v
  rw [hv, prepareAs, h]

lemma preparation_double (h : s.shape? t = some .double) :
    s.preparation v around t = Convert.toDouble .safe v := by
  obtain ⟨items, entries, hv⟩ := s.exists_prepareAs v
  rw [hv, prepareAs, h]

lemma preparation_string (h : s.shape? t = some .string) :
    s.preparation v around t = (do
      if !v.isText then
        Logged.report .note s!"Implicit conversion from {v.kindName} to string"
      Convert.toText .safe v) := by
  obtain ⟨items, entries, hv⟩ := s.exists_prepareAs v
  rw [hv, prepareAs, h]

lemma preparation_unknown (h : s.shape? t = some .unknown) :
    s.preparation v around t = pure (.good v) := by
  obtain ⟨items, entries, hv⟩ := s.exists_prepareAs v
  rw [hv, prepareAs, h]

lemma preparation_enumeration {constants : List String}
    (h : s.shape? t = some (.enumeration constants)) :
    s.preparation v around t = prepareConstant constants v := by
  obtain ⟨items, entries, hv⟩ := s.exists_prepareAs v
  rw [hv, prepareAs, h]

/-- An array is prepared item by item. -/
lemma preparation_array (h : s.shape? t = some (.array inner)) (vs : List Value) :
    s.preparation (.array vs) around t = do
      return (← gather (vs.map fun v => s.preparation v around inner)).map .array := by
  rw [preparation, prepareAs, h, itemPreparations_eq]
  dsimp only
  rw [prepareAll_eq, List.map_map]
  rfl

lemma preparation_not_array (h : s.shape? t = some (.array inner))
    (hv : ∀ vs, v ≠ .array vs) :
    s.preparation v around t = do
      Logged.error s!"Expected array but got {v.kindName}"
      return .bad (.array []) := by
  obtain ⟨items, entries, hp⟩ := s.exists_prepareAs v
  rw [hp, prepareAs, h]
  cases v with
  | array vs => exact absurd rfl (hv vs)
  | _ => rfl

variable {parent : Option NodeHandle}

/-- Inside itself a struct is refused. -/
lemma preparation_around (h : s.shape? t = some (.struct parent)) (ha : t ∈ around) :
    s.preparation v around t = do
      Logged.error s!"Struct type \"{s.name t}\" contains itself"
      return .bad .null := by
  obtain ⟨items, entries, hp⟩ := s.exists_prepareAs v
  rw [hp, prepareAs, h]
  dsimp only
  rw [if_pos (List.contains_iff_mem.2 ha)]

/-- A struct is prepared attribute by attribute. -/
lemma preparation_struct (h : s.shape? t = some (.struct parent)) (ha : t ∉ around)
    (hv : v.IsContainer) :
    s.preparation v around t = do
      (s.misplaced t v).forM fun text => Logged.error text
      let vs ← gather ((s.givenTo t v).map (s.prepareGiven (t :: around)))
      return ⟨(s.misplaced t v).isEmpty && vs.ok, .array vs.value⟩ := by
  have hc : around.contains t = false := by simpa using ha
  rcases hv with ⟨vs, rfl⟩ | ⟨es, rfl⟩
  · rw [preparation, prepareAs, h]
    dsimp only
    rw [hc, if_neg Bool.false_ne_true, assignByPosition_eq, prepareStruct_assignment]
  · rw [preparation, prepareAs, h]
    dsimp only
    rw [hc, if_neg Bool.false_ne_true, assignByName_eq, prepareStruct_assignment]

lemma preparation_not_struct (h : s.shape? t = some (.struct parent)) (ha : t ∉ around)
    (hv : ¬ v.IsContainer) :
    s.preparation v around t = do
      Logged.error s!"Expected array or map but got {v.kindName}"
      return .bad (s.defaultOf t) := by
  have hc : around.contains t = false := by simpa using ha
  obtain ⟨items, entries, hp⟩ := s.exists_prepareAs v
  rw [hp, prepareAs, h]
  dsimp only
  rw [hc, if_neg Bool.false_ne_true]
  cases v with
  | array vs => exact absurd (.inl ⟨vs, rfl⟩) hv
  | map es => exact absurd (.inr ⟨es, rfl⟩) hv
  | _ => rfl

end Shapes

/-! ## Settled values -/

/-- Preparing a value for a type reports nothing and leaves the value as it is. -/
def Settled (s : Store) (around : List NodeHandle) (t : NodeHandle) (v : Value) : Prop :=
  s.preparation v around t = pure (.good v)

/-- An array is settled if its items are. -/
lemma settled_array_iff (h : s.shape? t = some (.array inner)) {vs : List Value} :
    s.Settled around t (.array vs) ↔ ∀ v ∈ vs, s.Settled around inner v := by
  have hg := gather_map_eq_good_iff vs (fun v => s.preparation v around inner) (fun v => v)
  rw [List.map_id', eq_good_iff] at hg
  unfold Settled
  rw [← hg, preparation_array h, eq_good_iff]
  simp [Outcome.map]

/-- A struct is settled if preparing leaves the value of every attribute as it is. -/
lemma settled_struct_iff {parent : Option NodeHandle} (h : s.shape? t = some (.struct parent))
    (ha : t ∉ around) {vs : List Value} (hl : vs.length = (s.structAttributes t).length) :
    s.Settled around t (.array vs) ↔ ∀ e ∈ (s.structAttributes t).zip vs,
      s.prepareGiven (t :: around) (e.1, some e.2) = pure (.good e.2) := by
  have hg := gather_map_eq_good_iff ((s.structAttributes t).zip vs)
    (fun e => s.prepareGiven (t :: around) (e.1, some e.2)) (·.2)
  rw [List.map_snd_zip (Nat.le_of_eq hl), eq_good_iff] at hg
  unfold Settled
  rw [← hg, preparation_struct h ha (Value.isContainer_array vs), misplaced_array hl, givenTo_array hl,
    List.map_map, eq_good_iff]
  simp [Function.comp_def]

/-! ## Candour -/

lemma candid_prepareConstant (constants : List String) (v : Value) :
    (prepareConstant constants v).Candid := by
  unfold prepareConstant
  cases v with
  | int i =>
    dsimp only
    split <;> rfl
  | string name =>
    dsimp only
    cases constants.findIdx? (· == name) <;> rfl
  | magic name =>
    dsimp only
    cases constants.findIdx? (· == name) <;> rfl
  | _ => rfl

lemma prepareConstant_ordinal {constants : List String} {i : Int64} (h0 : 0 ≤ i.toInt)
    (hi : i.toInt < constants.length) :
    prepareConstant constants (.int i) = pure (.good (.int i)) := by
  simp [prepareConstant, h0, hi]

/-- What is left for an enumeration is the number of a constant, if there is one or the value has been
accepted.  There must not be more constants than numbers. -/
lemma prepareConstant_value {constants : List String} {v : Value}
    (hl : constants.length ≤ Int64.maxValue.toInt)
    (h : constants ≠ [] ∨ (prepareConstant constants v).value.ok = true) :
    ∃ i : Int64, (prepareConstant constants v).value.value = .int i ∧ 0 ≤ i.toInt ∧
      i.toInt < constants.length := by
  have hzero : constants ≠ [] → 0 ≤ (0 : Int64).toInt ∧ (0 : Int64).toInt < constants.length := by
    intro hne
    have := List.length_pos_iff.2 hne
    rw [Int64.toInt_zero]
    omega
  have hstring : ∀ name,
      (constants ≠ [] ∨ (prepareConstant constants (.string name)).value.ok = true) →
        ∃ i : Int64, (prepareConstant constants (.string name)).value.value = .int i ∧
          0 ≤ i.toInt ∧ i.toInt < constants.length := by
    intro name h
    unfold prepareConstant at h ⊢
    dsimp only at h ⊢
    cases hf : constants.findIdx? (· == name) with
    | some ordinal =>
      obtain ⟨hlt, -⟩ := List.findIdx?_eq_some_iff_getElem.1 hf
      rw [Int64.toInt_maxValue] at hl
      refine ⟨Int64.ofNat ordinal, rfl, ?_⟩
      rw [Int64.toInt_ofNat_of_lt (by omega)]
      omega
    | none =>
      rw [hf] at h
      exact ⟨0, rfl, hzero (h.resolve_right Bool.false_ne_true)⟩
  cases v with
  | string name => exact hstring name h
  | magic name => exact hstring name h
  | int i =>
    by_cases hi : 0 ≤ i.toInt ∧ i.toInt < constants.length
    · rw [prepareConstant_ordinal hi.1 hi.2]
      exact ⟨i, rfl, hi⟩
    · have hb : prepareConstant constants (.int i) = (do
          Logged.error
            s!"Invalid ordinal {i.toInt} for enumeration with {constants.length} constants"
          return .bad (.int 0)) := by
        simp [prepareConstant, hi]
      rw [hb] at h ⊢
      exact ⟨0, rfl, hzero (h.resolve_right Bool.false_ne_true)⟩
  | _ => exact ⟨0, rfl, hzero (h.resolve_right Bool.false_ne_true)⟩

lemma candid_toText (v : Value) :
    Candid (do
      if !v.isText then
        Logged.report .note s!"Implicit conversion from {v.kindName} to string"
      Convert.toText .safe v) := by
  cases v <;> rfl

lemma candid_prepareGiven {e : NodeHandle × Option Value}
    (h : ∀ w, e.2 = some w → ∀ u, (s.preparation w around u).Candid) :
    (s.prepareGiven around e).Candid := by
  obtain ⟨a, given⟩ := e
  cases ha : s.attribute? a with
  | none => rw [prepareGiven_foreign ha]; rfl
  | some c =>
    obtain ⟨type, substitute⟩ := c
    cases given with
    | some w =>
      cases type with
      | some u => rw [prepareGiven_typed ha]; exact h w rfl u
      | none => rw [prepareGiven_untyped ha]; rfl
    | none =>
      cases substitute with
      | some d => rw [prepareGiven_default ha]; rfl
      | none => rw [prepareGiven_missing ha]; rfl

/-- A value that is prepared is accepted if and only if no error is reported. -/
lemma candid_preparation (s : Store) (around : List NodeHandle) (t : NodeHandle) (v : Value) :
    (s.preparation v around t).Candid := by
  induction v using Value.induction_members generalizing around t with
  | _ v ih =>
    cases h : s.shape? t with
    | none => rw [preparation_none h]; rfl
    | some shape =>
      cases shape with
      | bool => rw [preparation_bool h]; cases v <;> rfl
      | int => rw [preparation_int h]; cases v <;> rfl
      | double => rw [preparation_double h]; cases v <;> rfl
      | string => rw [preparation_string h]; exact candid_toText v
      | unknown => rw [preparation_unknown h]; rfl
      | enumeration constants =>
        rw [preparation_enumeration h]
        exact candid_prepareConstant constants v
      | array inner =>
        by_cases hv : ∃ vs, v = .array vs
        · obtain ⟨vs, rfl⟩ := hv
          rw [preparation_array h]
          have hvs : (gather (vs.map fun v => s.preparation v around inner)).Candid :=
            candid_gather fun x hx => by
              obtain ⟨w, hw, rfl⟩ := List.mem_map.1 hx
              exact ih w hw around inner
          simpa [Candid, Outcome.map] using hvs
        · rw [preparation_not_array h fun vs e => hv ⟨vs, e⟩]
          rfl
      | struct parent =>
        by_cases ha : t ∈ around
        · rw [preparation_around h ha]
          rfl
        · by_cases hv : v.IsContainer
          · rw [preparation_struct h ha hv]
            have hvs : (gather ((s.givenTo t v).map (s.prepareGiven (t :: around)))).Candid :=
              candid_gather fun x hx => by
                obtain ⟨⟨a, given⟩, he, rfl⟩ := List.mem_map.1 hx
                refine candid_prepareGiven fun w hw u => ?_
                obtain rfl : given = some w := hw
                exact ih w (mem_members_of_givenTo he) _ u
            rw [Candid, gather_ok, failed_gather] at hvs
            simp [Candid, hvs]
          · rw [preparation_not_struct h ha hv]
            rfl

end Store

end Semdoc
