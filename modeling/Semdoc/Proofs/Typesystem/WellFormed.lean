import Mathlib.Logic.Relation
import Semdoc.Proofs.Document.Places
import Semdoc.Proofs.Typesystem.Preparation

/-!
# Well-formed values

A value is well-formed for a type if it has the shape that the type demands, at every depth.  Preparing
leaves a well-formed value whatever it is given, and well-formed values it leaves as they are.
-/

namespace Semdoc

lemma Content.exists_attr {c : Content} (h : c.tag = .attr) : ∃ a, c = .attr a := by
  cases c with
  | attr a => exact ⟨a, rfl⟩
  | typesystem b => cases b <;> cases h
  | type shape => cases shape <;> cases h
  | _ => cases h

namespace Store

open Logged Relation

variable {s : Store} {around : List NodeHandle} {t u a : NodeHandle} {v d : Value}

/-- A value has the shape that a type demands, at every depth. -/
inductive WellFormed (s : Store) : NodeHandle → Value → Prop where
  | bool {t : NodeHandle} (h : s.shape? t = some .bool) (b : Bool) : WellFormed s t (.bool b)
  | int {t : NodeHandle} (h : s.shape? t = some .int) (i : Int64) : WellFormed s t (.int i)
  | double {t : NodeHandle} (h : s.shape? t = some .double) (x : Double) :
      WellFormed s t (.double x)
  | string {t : NodeHandle} (h : s.shape? t = some .string) (text : String) :
      WellFormed s t (.string text)
  | unknown {t : NodeHandle} (h : s.shape? t = some .unknown) (v : Value) : WellFormed s t v
  | constant {t : NodeHandle} {constants : List String}
      (h : s.shape? t = some (.enumeration constants)) {i : Int64} (h0 : 0 ≤ i.toInt)
      (hi : i.toInt < constants.length) : WellFormed s t (.int i)
  | array {t inner : NodeHandle} (h : s.shape? t = some (.array inner)) {vs : List Value}
      (hvs : ∀ v ∈ vs, WellFormed s inner v) : WellFormed s t (.array vs)
  | struct {t : NodeHandle} {parent : Option NodeHandle}
      (h : s.shape? t = some (.struct parent)) {vs : List Value}
      (hl : vs.length = (s.structAttributes t).length)
      (hvs : ∀ e ∈ (s.structAttributes t).zip vs, ∀ u, s.attributeType? e.1 = some u →
        WellFormed s u e.2) : WellFormed s t (.array vs)

/-- The types of what values of a type hold. -/
def components (s : Store) (t : NodeHandle) : List NodeHandle :=
  match s.shape? t with
  | some (.array inner) => [inner]
  | some (.struct _) => (s.structAttributes t).filterMap s.attributeType?
  | _ => []

/-- Values of a type hold values of another one. -/
def Holds (s : Store) (t u : NodeHandle) : Prop := u ∈ s.components t

/-- A type exists.  If it is an enumeration it has constants, no more than the greatest number that a
value can be; if it is a struct it does not contain itself, and the defaults of its attributes are
well-formed. -/
structure Proper (s : Store) (t : NodeHandle) : Prop where
  exists_shape : ∃ shape, s.shape? t = some shape
  constants : ∀ constants, s.shape? t = some (.enumeration constants) →
    constants ≠ [] ∧ constants.length ≤ Int64.maxValue.toInt
  acyclic : ∀ parent, s.shape? t = some (.struct parent) → ¬ TransGen s.Holds t t
  defaults : ∀ a ∈ s.structAttributes t, ∀ u d, s.attribute? a = some ⟨some u, some d⟩ →
    s.WellFormed u d

/-- A type and all types of what its values hold, at any depth, are proper. -/
def Usable (s : Store) (t : NodeHandle) : Prop := ∀ u, ReflTransGen s.Holds t u → s.Proper u

/-! ## Attributes -/

/-- A struct type has another one as its parent. -/
def Inherits (s : Store) (t u : NodeHandle) : Prop :=
  s.structParent? t = some u ∧ ∃ parent, s.shape? u = some (.struct parent)

lemma mem_struct?_iff : u ∈ s.struct? t ↔ t = u ∧ ∃ parent, s.shape? t = some (.struct parent) := by
  unfold struct?
  cases s.shape? t with
  | none => simp
  | some shape => cases shape <;> simp [TypeShape.isStruct]

lemma structParent?_mem_linked (h : s.structParent? t = some u) : u ∈ s.linked := by
  unfold structParent? shape? at h
  cases hc : s.content? t with
  | none => rw [hc] at h; cases h
  | some c =>
    rw [hc] at h
    cases c with
    | type shape =>
      cases shape with
      | struct parent => exact references_subset_linked hc (Option.mem_toList.2 h)
      | _ => cases h
    | _ => cases h

/-- The line of a struct type goes on as long as there are parents, also if they repeat. -/
lemma mem_structLine_iff {parent : Option NodeHandle} (h : s.shape? t = some (.struct parent)) :
    u ∈ s.structLine t ↔ ReflTransGen s.Inherits t u := by
  have hlen : (t :: s.linked).length < s.extent + 1 := Nat.succ_lt_succ s.length_linked_lt
  rw [structLine, Walk.mem_follow_there_iff (fun _ _ => mem_struct?_iff)
    (fun _ _ => structParent?_mem_linked) hlen]
  exact and_iff_right ⟨parent, h⟩

/-- The attributes of a struct type are its own and those of all that it inherits from. -/
theorem mem_structAttributes_iff {parent : Option NodeHandle}
    (h : s.shape? t = some (.struct parent)) :
    a ∈ s.structAttributes t ↔
      ∃ u, ReflTransGen s.Inherits t u ∧ a ∈ s.listed u .structAttributes := by
  simp only [structAttributes, List.mem_flatMap, List.mem_reverse, mem_structLine_iff h]

/-! ## Components -/

lemma Usable.holds (ht : s.Usable t) (h : s.Holds t u) : s.Usable u :=
  fun w hw => ht w (hw.head h)

lemma holds_of_array {inner : NodeHandle} (h : s.shape? t = some (.array inner)) :
    s.Holds t inner := by
  rw [Holds, components, h]
  exact List.mem_singleton.2 rfl

lemma holds_of_attribute {parent : Option NodeHandle} (h : s.shape? t = some (.struct parent))
    (ha : a ∈ s.structAttributes t) (hu : s.attributeType? a = some u) : s.Holds t u := by
  rw [Holds, components, h]
  exact List.mem_filterMap.2 ⟨a, ha, hu⟩

lemma attributeType?_eq_some_iff :
    s.attributeType? a = some u ↔ ∃ substitute, s.attribute? a = some ⟨some u, substitute⟩ := by
  rw [attributeType?, Option.bind_eq_some_iff]
  constructor
  · rintro ⟨⟨type, substitute⟩, h, rfl⟩
    exact ⟨substitute, h⟩
  · rintro ⟨substitute, h⟩
    exact ⟨_, h, rfl⟩

lemma mem_zip_map {α β γ : Type} {f : α → β} {g : α → γ} {l : List α} {e : β × γ}
    (h : e ∈ (l.map f).zip (l.map g)) : ∃ x ∈ l, e = (f x, g x) := by
  rw [List.zip_map'] at h
  obtain ⟨x, hx, rfl⟩ := List.mem_map.1 h
  exact ⟨x, hx, rfl⟩

lemma mem_zip_self_map {α γ : Type} {g : α → γ} {l : List α} {e : α × γ}
    (h : e ∈ l.zip (l.map g)) : ∃ x ∈ l, e = (x, g x) := by
  rw [← List.map_id l, List.map_map] at h
  exact mem_zip_map h

/-- What values of a type hold, at any depth, is among types of which values hold nothing else. -/
lemma mem_of_transGen_holds {types : List NodeHandle}
    (hclosed : ∀ u ∈ t :: types, s.components u ⊆ types) (h : TransGen s.Holds t u) :
    u ∈ types := by
  induction h with
  | single h => exact hclosed t List.mem_cons_self h
  | tail _ h ih => exact hclosed _ (List.mem_cons_of_mem t ih) h

/-- All of some types hold values of a type, at some depth. -/
def Around (s : Store) (around : List NodeHandle) (t : NodeHandle) : Prop :=
  ∀ x ∈ around, TransGen s.Holds x t

namespace Around

lemma nil : s.Around [] t := List.forall_mem_nil _

lemma inner (hr : s.Around around t) (h : s.Holds t u) : s.Around around u :=
  fun x hx => (hr x hx).tail h

lemma cons (hr : s.Around around t) (h : s.Holds t u) : s.Around (t :: around) u :=
  List.forall_mem_cons.2 ⟨.single h, hr.inner h⟩

/-- A proper struct type is not around itself. -/
lemma not_mem {parent : Option NodeHandle} (hr : s.Around around t) (ht : s.Proper t)
    (h : s.shape? t = some (.struct parent)) : t ∉ around :=
  fun hm => ht.acyclic parent h (hr t hm)

end Around

/-! ## Defaults -/

/-- The default of a type is well-formed if there are more rounds than places that the structs around
the type leave. -/
lemma wellFormed_defaultWithin {fuel : Nat} (ht : s.Usable t) (hd : around.Nodup)
    (hlive : ∀ x ∈ around, s.contains x = true) (hr : s.Around around t)
    (hf : s.cells.size < around.length + fuel) : s.WellFormed t (s.defaultWithin fuel t) := by
  induction fuel generalizing around t with
  | zero =>
    -- what is around is live, so there is a place for each of it
    have := length_le_size_cells hd hlive
    omega
  | succ fuel ih =>
    obtain ⟨shape, h⟩ := (ht t .refl).exists_shape
    rw [defaultWithin, h]
    cases shape with
    | bool => exact .bool h false
    | int => exact .int h 0
    | double => exact .double h .zero
    | string => exact .string h ""
    | unknown => exact .unknown h .null
    | enumeration constants =>
      have := List.length_pos_iff.2 ((ht t .refl).constants constants h).1
      exact .constant h (by rw [Int64.toInt_zero]) (by rw [Int64.toInt_zero]; omega)
    | array inner => exact .array h (List.forall_mem_nil _)
    | struct parent =>
      refine .struct h (List.length_map ..) fun e he u hu => ?_
      obtain ⟨a, ha, rfl⟩ := mem_zip_self_map he
      obtain ⟨substitute, hattr⟩ := attributeType?_eq_some_iff.1 hu
      have htu := holds_of_attribute h ha hu
      dsimp only
      rw [hattr]
      cases substitute with
      | some d => exact (ht t .refl).defaults a ha u d hattr
      | none =>
        -- the struct itself is around its attributes and takes one more place
        have ha : t ∉ around := hr.not_mem (ht t .refl) h
        refine ih (ht.holds htu) (List.nodup_cons.2 ⟨ha, hd⟩)
          (List.forall_mem_cons.2 ⟨contains_of_shape? h, hlive⟩) (hr.cons htu) ?_
        rw [List.length_cons]
        omega

lemma Usable.wellFormed_defaultOf (ht : s.Usable t) : s.WellFormed t (s.defaultOf t) :=
  wellFormed_defaultWithin ht List.nodup_nil (List.forall_mem_nil _) .nil (by simp [bound])

/-! ## What preparing leaves -/

/-- What is left for an attribute with a type is well-formed for it, if this holds of all that the value
of the struct gives. -/
lemma wellFormed_prepareGiven {parent : Option NodeHandle} {given : Option Value} (ht : s.Usable t)
    (h : s.shape? t = some (.struct parent)) (ha : a ∈ s.structAttributes t)
    (hu : s.attributeType? a = some u)
    (hgiven : ∀ w, given = some w → s.WellFormed u (s.preparation w around u).value.value) :
    s.WellFormed u (s.prepareGiven around (a, given)).value.value := by
  obtain ⟨substitute, hattr⟩ := attributeType?_eq_some_iff.1 hu
  cases given with
  | some w =>
    rw [prepareGiven_typed hattr]
    exact hgiven w rfl
  | none =>
    cases substitute with
    | some d =>
      rw [prepareGiven_default hattr]
      exact (ht t .refl).defaults a ha u d hattr
    | none =>
      rw [prepareGiven_missing hattr]
      have hd : s.attributeDefault a = s.defaultOf u := by
        unfold attributeDefault
        rw [hattr]
      show s.WellFormed u (s.attributeDefault a)
      rw [hd]
      exact (ht.holds (holds_of_attribute h ha hu)).wellFormed_defaultOf

/-- Whatever is prepared for a usable type, a well-formed value is left. -/
lemma wellFormed_preparation (v : Value) (ht : s.Usable t) (hr : s.Around around t) :
    s.WellFormed t (s.preparation v around t).value.value := by
  induction v using Value.induction_members generalizing around t with
  | _ v ih =>
    obtain ⟨shape, h⟩ := (ht t .refl).exists_shape
    cases shape with
    | bool =>
      rw [preparation_bool h]
      cases v <;> exact .bool h _
    | int =>
      rw [preparation_int h]
      cases v <;> exact .int h _
    | double =>
      rw [preparation_double h]
      cases v <;> exact .double h _
    | string =>
      rw [preparation_string h]
      cases v <;> exact .string h _
    | unknown =>
      rw [preparation_unknown h]
      exact .unknown h v
    | enumeration constants =>
      obtain ⟨hne, hlen⟩ := (ht t .refl).constants constants h
      obtain ⟨i, hi, h0, hlt⟩ := prepareConstant_value (v := v) hlen (.inl hne)
      rw [preparation_enumeration h, hi]
      exact .constant h h0 hlt
    | array inner =>
      by_cases hv : ∃ vs, v = .array vs
      · obtain ⟨vs, rfl⟩ := hv
        rw [preparation_array h]
        refine .array h fun w hw => ?_
        rw [gather_value, List.map_map] at hw
        obtain ⟨x, hx, rfl⟩ := List.mem_map.1 hw
        have hin := holds_of_array h
        exact ih x hx (ht.holds hin) (hr.inner hin)
      · rw [preparation_not_array h fun vs e => hv ⟨vs, e⟩]
        exact .array h (List.forall_mem_nil _)
    | struct parent =>
      have ha : t ∉ around := hr.not_mem (ht t .refl) h
      by_cases hv : v.IsContainer
      · rw [preparation_struct h ha hv]
        simp only [value_bind, value_pure, gather_value, List.map_map]
        refine .struct h ?_ fun e he u hu => ?_
        · rw [List.length_map, ← givenTo_fst hv, List.length_map]
        · rw [← givenTo_fst hv] at he
          obtain ⟨⟨a, given⟩, hg, rfl⟩ := mem_zip_map he
          have hin := holds_of_attribute h (mem_attributes_of_givenTo hg) hu
          refine wellFormed_prepareGiven ht h (mem_attributes_of_givenTo hg) hu fun w hw => ?_
          obtain rfl : given = some w := hw
          exact ih w (mem_members_of_givenTo hg) (ht.holds hin) (hr.cons hin)
      · rw [preparation_not_struct h ha hv]
        exact ht.wellFormed_defaultOf

/-! ## What is left as it is -/

/-- A well-formed value is settled, if what structs list as their attributes are attributes. -/
lemma settled_of_wellFormed
    (hattr : ∀ t, ∀ a ∈ s.structAttributes t, ∃ c, s.attribute? a = some c)
    (ht : s.Usable t) (hr : s.Around around t) (hv : s.WellFormed t v) :
    s.Settled around t v := by
  induction v using Value.induction_members generalizing around t with
  | _ v ih =>
    cases hv with
    | bool h b => exact preparation_bool h
    | int h i => exact preparation_int h
    | double h x => exact preparation_double h
    | string h text => exact preparation_string h
    | unknown h => exact preparation_unknown h
    | constant h h0 hi =>
      rw [Settled, preparation_enumeration h]
      exact prepareConstant_ordinal h0 hi
    | array h hvs =>
      have hin := holds_of_array h
      exact (settled_array_iff h).2 fun w hw =>
        ih w hw (ht.holds hin) (hr.inner hin) (hvs w hw)
    | struct h hl hvs =>
      have ha : t ∉ around := hr.not_mem (ht t .refl) h
      refine (settled_struct_iff h ha hl).2 fun ⟨a, w⟩ he => ?_
      obtain ⟨hat, hw⟩ := List.of_mem_zip he
      obtain ⟨⟨type, substitute⟩, hc⟩ := hattr t a hat
      cases type with
      | none => exact prepareGiven_untyped hc
      | some u =>
        have hu := attributeType?_eq_some_iff.2 ⟨substitute, hc⟩
        have hin := holds_of_attribute h hat hu
        rw [prepareGiven_typed hc]
        exact ih w hw (ht.holds hin) (hr.cons hin) (hvs _ he u hu)

/-- What structs list as their attributes are attributes. -/
lemma Sorted.exists_attribute (hs : s.Sound) (ho : s.Sorted) (ha : a ∈ s.structAttributes t) :
    ∃ c, s.attribute? a = some c := by
  obtain ⟨u, -, hu⟩ := List.mem_flatMap.1 ha
  rw [listed_eq_held u rfl] at hu
  obtain ⟨c, hc, hk⟩ := ho.exists_content hs rfl hu
  obtain ⟨content, rfl⟩ := Content.exists_attr ((TypeTag.isA_iff_eq (by decide)).1 hk)
  exact ⟨content, by rw [attribute?, hc]⟩

/-- In every session, what preparing leaves for a usable type is well-formed, it is accepted if and only
if no error has been reported, and what is well-formed already is accepted in silence and stays as it
is. -/
theorem prepare_wellFormed (steps : List SessionStep) (t : NodeHandle) (v : Value)
    (ht : (after steps).Usable t) :
    (after steps).WellFormed t ((after steps).prepare t v).value.value ∧
      (((after steps).prepare t v).value.ok = true ↔
        ((after steps).prepare t v).failed = false) ∧
      ((after steps).WellFormed t v → (after steps).prepare t v = pure (.good v)) := by
  have hs := sound_after steps
  have ho := sorted_after steps
  refine ⟨wellFormed_preparation v ht .nil, ?_, fun hv => ?_⟩
  · rw [prepare, candid_preparation (after steps) [] t v, Bool.not_eq_true']
  · exact settled_of_wellFormed (fun t a ha => ho.exists_attribute hs ha) ht .nil hv

/-- A session that creates a struct type that inherits an attribute with a default. -/
def derivedStructSession : List SessionStep :=
  [.operate .createSystemTypesystem, .operate (.createTypesystem "shapes"),
    .operate (.createEnumerationType ⟨6, 1⟩ "color" ["red", "green"]),
    .operate (.createStructType ⟨6, 1⟩ "shape"),
    .operate (.createAttribute ⟨8, 1⟩ "color" (some ⟨7, 1⟩) (some (.int 1))),
    .operate (.createStructType ⟨6, 1⟩ "polygon"),
    .operate (.setStructParent ⟨10, 1⟩ (some ⟨8, 1⟩)),
    .operate (.createArrayType ⟨6, 1⟩ ⟨3, 1⟩),
    .operate (.createAttribute ⟨10, 1⟩ "corners" (some ⟨11, 1⟩) none)]

/-- The types of the session are usable, so that even for a value with nothing but an unknown attribute
a well-formed one is left. -/
theorem prepare_wellFormed_derivedStructSession :
    (after derivedStructSession).Usable ⟨10, 1⟩ ∧
      (after derivedStructSession).WellFormed ⟨10, 1⟩
        ((after derivedStructSession).prepare ⟨10, 1⟩ (.map [("sides", .int 3)])).value.value := by
  have hpolygon : (after derivedStructSession).shape? ⟨10, 1⟩ = some (.struct (some ⟨8, 1⟩)) := by
    decide +kernel
  have hcolor : (after derivedStructSession).shape? ⟨7, 1⟩ =
      some (.enumeration ["red", "green"]) := by
    decide +kernel
  have hcorners : (after derivedStructSession).shape? ⟨11, 1⟩ = some (.array ⟨3, 1⟩) := by
    decide +kernel
  have hint : (after derivedStructSession).shape? ⟨3, 1⟩ = some .int := by decide +kernel
  have hclosed : ∀ u ∈ [⟨10, 1⟩, ⟨7, 1⟩, ⟨11, 1⟩, ⟨3, 1⟩],
      (after derivedStructSession).components u ⊆ [⟨7, 1⟩, ⟨11, 1⟩, ⟨3, 1⟩] := by
    decide +kernel
  have hattributes : ∀ u ∈ [⟨10, 1⟩, ⟨7, 1⟩, ⟨11, 1⟩, ⟨3, 1⟩],
      ∀ a ∈ (after derivedStructSession).structAttributes u, a = ⟨9, 1⟩ ∨ a = ⟨12, 1⟩ := by
    decide +kernel
  have hoptional : (after derivedStructSession).attribute? ⟨9, 1⟩ =
      some ⟨some ⟨7, 1⟩, some (.int 1)⟩ := by
    set_option maxRecDepth 10000 in rfl
  have hmandatory : (((after derivedStructSession).attribute? ⟨12, 1⟩).bind
      (·.substitute)).isNone = true := by decide +kernel
  have ht : (after derivedStructSession).Usable ⟨10, 1⟩ := by
    intro u hu
    have hmem : u ∈ [⟨10, 1⟩, ⟨7, 1⟩, ⟨11, 1⟩, ⟨3, 1⟩] := by
      rcases reflTransGen_iff_eq_or_transGen.1 hu with rfl | hu
      · exact List.mem_cons_self
      · exact List.mem_cons_of_mem _ (mem_of_transGen_holds hclosed hu)
    have hcases : u = ⟨10, 1⟩ ∨ u = ⟨7, 1⟩ ∨ u = ⟨11, 1⟩ ∨ u = ⟨3, 1⟩ := by simpa using hmem
    refine ⟨?_, fun constants h => ?_, fun parent h hself => ?_, fun a ha w d h => ?_⟩
    · rcases hcases with rfl | rfl | rfl | rfl
      exacts [⟨_, hpolygon⟩, ⟨_, hcolor⟩, ⟨_, hcorners⟩, ⟨_, hint⟩]
    · rcases hcases with rfl | rfl | rfl | rfl
      · rw [hpolygon] at h; cases h
      · rw [hcolor] at h; cases h; decide
      · rw [hcorners] at h; cases h
      · rw [hint] at h; cases h
    · rcases hcases with rfl | rfl | rfl | rfl
      · exact absurd (mem_of_transGen_holds hclosed hself) (by decide)
      · rw [hcolor] at h; cases h
      · rw [hcorners] at h; cases h
      · rw [hint] at h; cases h
    · rcases hattributes u hmem a ha with rfl | rfl
      · rw [hoptional] at h
        cases h
        exact .constant hcolor (by decide) (by decide)
      · rw [h] at hmandatory
        cases hmandatory
  exact ⟨ht, (prepare_wellFormed derivedStructSession ⟨10, 1⟩ _ ht).1⟩

end Store

end Semdoc
