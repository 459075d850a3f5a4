import Semdoc.Proofs.Session.Operation
import Semdoc.Proofs.Store.Drop
import Semdoc.Proofs.Typesystem.Preparation

/-!
# Preparing what has been prepared

An attribute that nothing is given to gets its default, and the default is filled in as it stands.  All
else that is accepted is brought into a form in which it is settled.  Hence preparing what has been
accepted leaves it as it is, in silence, exactly if the defaults that were filled in are settled where they
stand.
-/

namespace Semdoc.Store

open Logged

variable {s : Store} {around within : List NodeHandle} {t u : NodeHandle} {v d : Value}

/-- In preparing a value for a type a default is filled in: inside some structs, for an attribute of
some type. -/
inductive Fills (s : Store) :
    List NodeHandle → NodeHandle → Value → List NodeHandle → NodeHandle → Value → Prop where
  | item {around within : List NodeHandle} {t inner u : NodeHandle} {vs : List Value} {v d : Value}
      (h : s.shape? t = some (.array inner)) (hv : v ∈ vs)
      (hf : Fills s around inner v within u d) : Fills s around t (.array vs) within u d
  | given {around within : List NodeHandle} {t a x u : NodeHandle} {parent : Option NodeHandle}
      {v w d : Value} (h : s.shape? t = some (.struct parent)) (hw : (a, some w) ∈ s.givenTo t v)
      (hx : s.attributeType? a = some x) (hf : Fills s (t :: around) x w within u d) :
      Fills s around t v within u d
  | default {around : List NodeHandle} {t a u : NodeHandle} {parent : Option NodeHandle}
      {v d : Value} (h : s.shape? t = some (.struct parent)) (hn : (a, none) ∈ s.givenTo t v)
      (ha : s.attribute? a = some ⟨some u, some d⟩) : Fills s around t v (t :: around) u d

/-- No enumeration has more constants than the greatest number that a value can be. -/
def Numbered (s : Store) : Prop :=
  ∀ t, (s.enumerationConstants t).length ≤ Int64.maxValue.toInt

/-- What preparing a value leaves is settled exactly if all defaults are that are filled in. -/
def RestsOnDefaults (s : Store) (around : List NodeHandle) (t : NodeHandle) (v : Value) : Prop :=
  s.Settled around t (s.preparation v around t).value.value ↔
    ∀ within u d, s.Fills around t v within u d → s.Settled within u d

/-- Defaults are filled in for the attributes of structs, in arrays too. -/
lemma Fills.container (hf : s.Fills around t v within u d) :
    (∃ inner, s.shape? t = some (.array inner)) ∨ ∃ parent, s.shape? t = some (.struct parent) := by
  cases hf with
  | item h => exact .inl ⟨_, h⟩
  | given h => exact .inr ⟨_, h⟩
  | default h => exact .inr ⟨_, h⟩

/-- What is accepted for a type without members is settled. -/
lemma settled_of_scalar (hn : s.Numbered) (ha : ∀ inner, s.shape? t ≠ some (.array inner))
    (hs : ∀ parent, s.shape? t ≠ some (.struct parent))
    (hok : (s.preparation v around t).value.ok = true) :
    s.Settled around t (s.preparation v around t).value.value := by
  cases h : s.shape? t with
  | none =>
    rw [preparation_none h] at hok
    cases hok
  | some shape =>
    cases shape with
    | bool =>
      rw [preparation_bool h]
      cases v <;> exact preparation_bool h
    | int =>
      rw [preparation_int h]
      cases v <;> exact preparation_int h
    | double =>
      rw [preparation_double h]
      cases v <;> exact preparation_double h
    | string =>
      rw [preparation_string h]
      cases v <;> exact preparation_string h
    | unknown =>
      rw [preparation_unknown h]
      exact preparation_unknown h
    | enumeration constants =>
      rw [preparation_enumeration h] at hok ⊢
      have hlen : constants.length ≤ Int64.maxValue.toInt := by
        have := hn t
        rwa [enumerationConstants, h] at this
      obtain ⟨i, hi, h0, hlt⟩ := prepareConstant_value hlen (.inr hok)
      rw [hi, Settled, preparation_enumeration h]
      exact prepareConstant_ordinal h0 hlt
    | array inner => exact absurd h (ha inner)
    | struct parent => exact absurd h (hs parent)

/-- The value that an attribute has got is settled for it if, should it have been given, all defaults
filled into it are settled, and should it be the default, this is settled itself. -/
lemma prepareGiven_again_iff (a : NodeHandle) (given : Option Value)
    (ih : ∀ w, given = some w → ∀ x, (s.preparation w around x).value.ok = true →
      s.RestsOnDefaults around x w)
    (hok : (s.prepareGiven around (a, given)).value.ok = true) :
    s.prepareGiven around (a, some (s.prepareGiven around (a, given)).value.value) =
        pure (.good (s.prepareGiven around (a, given)).value.value) ↔
      (∀ w x, given = some w → s.attributeType? a = some x →
        ∀ within u d, s.Fills around x w within u d → s.Settled within u d) ∧
      ∀ u d, given = none → s.attribute? a = some ⟨some u, some d⟩ → s.Settled around u d := by
  cases ha : s.attribute? a with
  | none =>
    have htype : s.attributeType? a = none := by rw [attributeType?, ha]; rfl
    rw [prepareGiven_foreign ha, prepareGiven_foreign ha, htype]
    exact iff_of_true rfl ⟨nofun, nofun⟩
  | some c =>
    obtain ⟨type, substitute⟩ := c
    have htype : s.attributeType? a = type := by rw [attributeType?, ha]; rfl
    rw [htype]
    cases given with
    | some w =>
      cases type with
      | some x =>
        rw [prepareGiven_typed ha] at hok
        rw [prepareGiven_typed ha, prepareGiven_typed ha]
        refine (ih w rfl x hok).trans ⟨fun h => ⟨fun w x hw hx => ?_, nofun⟩, fun h => ?_⟩
        · cases hw
          cases hx
          exact h
        · exact h.1 w x rfl rfl
      | none =>
        rw [prepareGiven_untyped ha, prepareGiven_untyped ha]
        exact iff_of_true rfl ⟨nofun, nofun⟩
    | none =>
      cases substitute with
      | some d =>
        rw [prepareGiven_default ha]
        cases type with
        | some u =>
          rw [prepareGiven_typed ha]
          refine ⟨fun h => ⟨nofun, fun u d _ e => ?_⟩, fun h => h.2 u d rfl rfl⟩
          cases e
          exact h
        | none =>
          rw [prepareGiven_untyped ha]
          exact iff_of_true rfl ⟨nofun, nofun⟩
      | none =>
        rw [prepareGiven_missing ha] at hok
        cases hok

/-- An accepted array rests on the defaults of its items. -/
lemma restsOnDefaults_array {inner : NodeHandle} (h : s.shape? t = some (.array inner))
    {vs : List Value} (ih : ∀ w ∈ vs, (s.preparation w around inner).value.ok = true →
      s.RestsOnDefaults around inner w)
    (hok : (s.preparation (.array vs) around t).value.ok = true) :
    s.RestsOnDefaults around t (.array vs) := by
  rw [preparation_array h] at hok
  have hall : ∀ w ∈ vs, (s.preparation w around inner).value.ok = true := by
    simpa [Outcome.map] using hok
  rw [RestsOnDefaults, preparation_array h]
  show s.Settled around t (.array (gather _).value.value) ↔ _
  rw [gather_value, List.map_map, settled_array_iff h, List.forall_mem_map]
  constructor
  · intro hset within u d hf
    cases hf with
    | item h' hw hf =>
      rw [h] at h'
      cases h'
      exact (ih _ hw (hall _ hw)).1 (hset _ hw) within u d hf
    | given h' => rw [h] at h'; cases h'
    | default h' => rw [h] at h'; cases h'
  · intro hfills w hw
    exact (ih w hw (hall w hw)).2 fun within u d hf => hfills within u d (.item h hw hf)

/-- An accepted struct rests on the defaults of its attributes: those that were filled in for them and
those that were filled into what was given. -/
lemma restsOnDefaults_struct {parent : Option NodeHandle}
    (h : s.shape? t = some (.struct parent)) (ha : t ∉ around)
    (hv : v.IsContainer)
    (ih : ∀ w ∈ v.members, ∀ x, (s.preparation w (t :: around) x).value.ok = true →
      s.RestsOnDefaults (t :: around) x w)
    (hok : (s.preparation v around t).value.ok = true) : s.RestsOnDefaults around t v := by
  rw [preparation_struct h ha hv] at hok
  have hall : ∀ e ∈ s.givenTo t v, (s.prepareGiven (t :: around) e).value.ok = true := by
    have hvs := (Bool.and_eq_true_iff.1 hok).2
    rw [gather_ok, List.all_map, List.all_eq_true] at hvs
    exact hvs
  have hl : ((s.givenTo t v).map fun e => (s.prepareGiven (t :: around) e).value.value).length =
      (s.structAttributes t).length := by
    rw [List.length_map, ← givenTo_fst hv, List.length_map]
  have hagain := fun (e : NodeHandle × Option Value) (he : e ∈ s.givenTo t v) =>
    prepareGiven_again_iff e.1 e.2
      (fun w hw => ih w (mem_members_of_givenTo (a := e.1) (by rwa [← hw]))) (hall e he)
  rw [RestsOnDefaults, preparation_struct h ha hv]
  show s.Settled around t (.array (gather _).value.value) ↔ _
  rw [gather_value, List.map_map]
  refine (settled_struct_iff h ha hl).trans ?_
  rw [← givenTo_fst hv, List.zip_map', List.forall_mem_map]
  constructor
  · intro hset within u d hf
    -- a default is filled in for an attribute or in what has been given for one
    cases hf with
    | item h' => rw [h] at h'; cases h'
    | given h' hw hx hf => exact ((hagain _ hw).1 (hset _ hw)).1 _ _ rfl hx within u d hf
    | default h' hn hd => exact ((hagain _ hn).1 (hset _ hn)).2 u d rfl hd
  · rintro hfills ⟨a, given⟩ he
    refine (hagain _ he).2 ⟨fun w x hw hx within u d hf => ?_, fun u d hnone hd => ?_⟩
    · obtain rfl : given = some w := hw
      exact hfills within u d (.given h he hx hf)
    · obtain rfl : given = none := hnone
      exact hfills _ u d (.default h he hd)

/-- What has been accepted rests on the defaults that were filled in. -/
lemma restsOnDefaults_of_ok (hn : s.Numbered)
    (hok : (s.preparation v around t).value.ok = true) : s.RestsOnDefaults around t v := by
  induction v using Value.induction_members generalizing around t with
  | _ v ih =>
    by_cases harray : ∃ inner, s.shape? t = some (.array inner)
    · obtain ⟨inner, h⟩ := harray
      by_cases hv : ∃ vs, v = .array vs
      · obtain ⟨vs, rfl⟩ := hv
        exact restsOnDefaults_array h (fun w hw => ih w hw) hok
      · rw [preparation_not_array h fun vs e => hv ⟨vs, e⟩] at hok
        cases hok
    · by_cases hstruct : ∃ parent, s.shape? t = some (.struct parent)
      · obtain ⟨parent, h⟩ := hstruct
        by_cases ha : t ∈ around
        · rw [preparation_around h ha] at hok
          cases hok
        · by_cases hv : v.IsContainer
          · exact restsOnDefaults_struct h ha hv (fun w hw x => ih w hw) hok
          · rw [preparation_not_struct h ha hv] at hok
            cases hok
      · refine iff_of_true ?_ fun within u d hf => ?_
        · exact settled_of_scalar hn (fun inner h => harray ⟨inner, h⟩)
            (fun parent h => hstruct ⟨parent, h⟩) hok
        · exact (hf.container.elim harray hstruct).elim

/-- What has been accepted for a type is accepted again in silence and stays as it is exactly if every
default that was filled in is settled for the type of its attribute, inside the structs around it. -/
theorem prepare_again_iff (s : Store) (hn : s.Numbered) (t : NodeHandle) (v : Value)
    (hok : (s.prepare t v).value.ok = true) :
    s.prepare t (s.prepare t v).value.value = pure (.good (s.prepare t v).value.value) ↔
      ∀ within u d, s.Fills [] t v within u d → s.Settled within u d :=
  restsOnDefaults_of_ok hn hok

/-- A session that creates a type of circles, whose radius is five unless it is given. -/
def circleSession (radius : NodeHandle) : List SessionStep :=
  [.operate .createSystemTypesystem, .operate (.createTypesystem "shapes"),
    .operate (.createStructType ⟨6, 1⟩ "circle"),
    .operate (.createAttribute ⟨7, 1⟩ "radius" (some radius) (some (.int 5)))]

/-- If the radius is an integer, a circle for which nothing was given is settled. -/
theorem prepare_again_iff_circleSession :
    (after (circleSession ⟨3, 1⟩)).Numbered ∧
      ((after (circleSession ⟨3, 1⟩)).prepare ⟨7, 1⟩ (.map [])).value.ok = true ∧
      (after (circleSession ⟨3, 1⟩)).prepare ⟨7, 1⟩
          ((after (circleSession ⟨3, 1⟩)).prepare ⟨7, 1⟩ (.map [])).value.value =
        pure (.good ((after (circleSession ⟨3, 1⟩)).prepare ⟨7, 1⟩ (.map [])).value.value) := by
  have hn : (after (circleSession ⟨3, 1⟩)).Numbered := by
    intro t
    by_cases ht : (after (circleSession ⟨3, 1⟩)).contains t = true
    · have hlive : ∀ t ∈ (after (circleSession ⟨3, 1⟩)).handles,
          ((after (circleSession ⟨3, 1⟩)).enumerationConstants t).length ≤ Int64.maxValue.toInt := by
        decide +kernel
      exact hlive t (mem_handles_iff.2 ht)
    · unfold enumerationConstants
      cases h : (after (circleSession ⟨3, 1⟩)).shape? t with
      | none => decide
      | some shape => exact absurd (contains_of_shape? h) ht
  have hok : ((after (circleSession ⟨3, 1⟩)).prepare ⟨7, 1⟩ (.map [])).value.ok = true := by
    decide +kernel
  have hcircle : (after (circleSession ⟨3, 1⟩)).shape? ⟨7, 1⟩ = some (.struct none) := by
    decide +kernel
  have hattributes : (after (circleSession ⟨3, 1⟩)).structAttributes ⟨7, 1⟩ = [⟨8, 1⟩] := by
    decide +kernel
  have hradius : (after (circleSession ⟨3, 1⟩)).attribute? ⟨8, 1⟩ =
      some ⟨some ⟨3, 1⟩, some (.int 5)⟩ := by
    set_option maxRecDepth 10000 in rfl
  refine ⟨hn, hok, (prepare_again_iff _ hn ⟨7, 1⟩ _ hok).2 fun within u d hf => ?_⟩
  cases hf with
  | given h hw => exact absurd (mem_members_of_givenTo hw) List.not_mem_nil
  | default h hnone ha =>
    have hmem := mem_attributes_of_givenTo hnone
    rw [hattributes] at hmem
    obtain rfl := List.mem_singleton.1 hmem
    rw [hradius] at ha
    cases ha
    exact preparation_int (by decide +kernel)

/-- If the radius is a double, the typesystem is valid and five is filled in as an integer, which is a
double when the circle has been prepared again. -/
theorem prepare_again_ne_circleSession :
    ((after (circleSession ⟨4, 1⟩)).validate ⟨6, 1⟩).value.1 = true ∧
      ((after (circleSession ⟨4, 1⟩)).prepare ⟨7, 1⟩ (.map [])).value =
        .good (.array [.int 5]) ∧
      ((after (circleSession ⟨4, 1⟩)).prepare ⟨7, 1⟩ (.array [.int 5])).value =
        .good (.array [.double (.ofInt 5)]) ∧
      (after (circleSession ⟨4, 1⟩)).prepare ⟨7, 1⟩ (.array [.int 5]) ≠
        pure (.good (.array [.int 5])) := by
  have hagain : ((after (circleSession ⟨4, 1⟩)).prepare ⟨7, 1⟩ (.array [.int 5])).value =
      .good (.array [.double (.ofInt 5)]) := by
    set_option maxRecDepth 10000 in rfl
  refine ⟨by decide +kernel, by set_option maxRecDepth 10000 in rfl, hagain, fun h => ?_⟩
  rw [h] at hagain
  cases hagain

end Semdoc.Store
