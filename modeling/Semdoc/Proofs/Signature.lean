import Mathlib.Data.List.Nodup
import Mathlib.Data.List.TakeDrop
import Semdoc.Proofs.Value.Entries
import Semdoc.Signature

/-!
# Arguments by position and by name

Arguments are given as an array in the order of the parameters, or as a map under the names of the
parameters, and each way has its own check.  Both checks say the same of every parameter: what is given is
converted, what is missing is made up for.  The main statement is that it does not matter whether arguments
are named before they are checked or afterwards.
-/

namespace Semdoc

namespace Signature

variable {s : Signature} {ps : List Parameter} {vs : List Value} {es : Entries Value}
  {ignoreUnknown : Bool}

/-! ## Signatures with different names -/

lemma nodup_of_firstRepeated? {seen names : List String} (h : firstRepeated? seen names = none) :
    names.Nodup ∧ ∀ n ∈ names, n ∉ seen := by
  induction names generalizing seen with
  | nil => exact ⟨.nil, nofun⟩
  | cons n names ih =>
    rw [firstRepeated?] at h
    split at h
    · cases h
    · next hn =>
      rw [List.contains_iff_mem] at hn
      obtain ⟨hnodup, hseen⟩ := ih h
      refine ⟨List.nodup_cons.2 ⟨fun hmem => hseen n hmem List.mem_cons_self, hnodup⟩, ?_⟩
      exact List.forall_mem_cons.2
        ⟨hn, fun m hm hms => hseen m hm (List.mem_cons_of_mem _ hms)⟩

/-- A signature that has been made of parameters has these, all with different names. -/
lemma ofParameters_eq_ok (h : ofParameters ps = .ok s) : s = ⟨ps, true⟩ ∧ s.names.Nodup := by
  unfold ofParameters at h
  split at h
  · cases h
  · next hnone =>
    cases h
    exact ⟨rfl, (nodup_of_firstRepeated? hnone).1⟩

lemma find?_of_mem (hn : s.names.Nodup) {p : Parameter} (hp : p ∈ s.parameters) :
    s.find? p.name = some p := by
  obtain ⟨before, after, hs⟩ := List.append_of_mem hp
  rw [names, hs, List.map_append, List.nodup_append] at hn
  rw [find?, List.find?_eq_some_iff_append]
  refine ⟨beq_self_eq_true _, before, after, hs, fun q hq => ?_⟩
  rw [Bool.not_eq_true', beq_eq_false_iff_ne]
  exact hn.2.2 _ (List.mem_map_of_mem hq) _ List.mem_cons_self

/-! ## What becomes of the arguments -/

/-- What becomes of arguments that are given, under the names of their parameters. -/
def given (ps : List Parameter) (vs : List Value) : List (String × Outcome Value) :=
  (ps.zip vs).map fun e => (e.1.name, (e.1.check e.2).value)

/-- What stands for missing arguments, under the names of their parameters. -/
def missing (ps : List Parameter) : List (String × Outcome Value) :=
  ps.map fun p => (p.name, ⟨p.isOptional, p.missingValue⟩)

/-- What becomes of the arguments of some parameters, the last of which may be missing. -/
def settled (ps : List Parameter) (vs : List Value) : List (String × Outcome Value) :=
  given ps vs ++ missing (ps.drop vs.length)

lemma settled_nil (vs : List Value) : settled [] vs = [] := by
  simp [settled, given, missing]

lemma settled_cons_nil (p : Parameter) (ps : List Parameter) :
    settled (p :: ps) [] = (p.name, ⟨p.isOptional, p.missingValue⟩) :: settled ps [] := by
  simp [settled, given, missing]

lemma settled_cons_cons (p : Parameter) (ps : List Parameter) (v : Value) (vs : List Value) :
    settled (p :: ps) (v :: vs) = (p.name, (p.check v).value) :: settled ps vs := rfl

lemma settled_names (ps : List Parameter) (vs : List Value) :
    (settled ps vs).map (·.1) = ps.map (·.name) := by
  induction ps generalizing vs with
  | nil => rw [settled_nil]; rfl
  | cons p ps ih =>
    cases vs with
    | nil => rw [settled_cons_nil, List.map_cons, ih, List.map_cons]
    | cons v vs => rw [settled_cons_cons, List.map_cons, ih, List.map_cons]

/-- By position all arguments are checked together, and each by itself. -/
lemma value_checkFrom (number : Nat) (ps : List Parameter) (vs : List Value) :
    (checkFrom number ps vs).value =
      ⟨(settled ps vs).all (·.2.ok), (settled ps vs).map (·.2.value)⟩ := by
  induction ps generalizing number vs with
  | nil => rw [settled_nil]; rfl
  | cons p ps ih =>
    cases vs with
    | nil =>
      rw [checkFrom, settled_cons_nil, List.all_cons, List.map_cons]
      cases p.isOptional <;> simp [ih]
    | cons v vs =>
      rw [checkFrom, settled_cons_cons, List.all_cons, List.map_cons]
      simp [ih]

/-- What becomes of an argument that is given by name. -/
def checkEntry (s : Signature) (ignoreUnknown : Bool) (e : String × Value) : Outcome Value :=
  match s.find? e.1 with
  | some p => (p.check e.2).value
  | none => ⟨ignoreUnknown, e.2⟩

/-- By name all arguments are checked together, and each by itself. -/
lemma value_checkGiven (s : Signature) (ignoreUnknown : Bool) (es : Entries Value) :
    (s.checkGiven ignoreUnknown es).value = ⟨es.all fun e => (s.checkEntry ignoreUnknown e).ok,
      es.map fun e => (e.1, (s.checkEntry ignoreUnknown e).value)⟩ := by
  induction es with
  | nil => rfl
  | cons e es ih =>
    rw [checkGiven, List.all_cons, List.map_cons, checkEntry]
    cases s.find? e.1 with
    | some p => simp [ih]
    | none => cases ignoreUnknown <;> simp [ih, Outcome.good, Outcome.bad]

/-- What is completed for a parameter whose argument is not there. -/
lemma value_complete_cons {p : Parameter} (hp : es.hasKey p.name = false) (ps : List Parameter) :
    (complete (p :: ps) es).value =
      ⟨p.isOptional && (complete ps (es.insert p.name p.missingValue)).value.ok,
        (complete ps (es.insert p.name p.missingValue)).value.value⟩ := by
  rw [complete, hp]
  cases p.isOptional <;> rfl

/-- Completing adds what stands for the arguments that are not there. -/
lemma value_complete (hn : (ps.map (·.name)).Nodup) (es : Entries Value) :
    (complete ps es).value.ok =
        (missing (ps.filter fun p => !es.hasKey p.name)).all (·.2.ok) ∧
      (complete ps es).value.value.Perm (es ++
        (missing (ps.filter fun p => !es.hasKey p.name)).map fun e => (e.1, e.2.value)) ∧
      (es.Sorted → (complete ps es).value.value.Sorted) := by
  induction ps generalizing es with
  | nil =>
    refine ⟨rfl, ?_, id⟩
    show es.Perm (es ++ [])
    rw [List.append_nil]
  | cons p ps ih =>
    rw [List.map_cons, List.nodup_cons] at hn
    cases hk : es.hasKey p.name with
    | true =>
      rw [complete, hk, if_pos rfl, List.filter_cons_of_neg (by rw [hk]; exact Bool.false_ne_true)]
      exact ih hn.2 es
    | false =>
      have hp := Entries.insert_perm hk p.missingValue
      -- the other parameters have other names, so that for them nothing changes
      have hrest : ps.filter (fun q => !(es.insert p.name p.missingValue).hasKey q.name) =
          ps.filter fun q => !es.hasKey q.name := by
        refine List.filter_congr fun q hq => ?_
        have hne : (p.name == q.name) = false := by
          rw [beq_eq_false_iff_ne]
          exact fun he => hn.1 (he ▸ List.mem_map_of_mem hq)
        rw [Entries.hasKey_congr hp, Entries.hasKey, List.any_cons, hne, Bool.false_or]
        rfl
      obtain ⟨hok, hperm, hsorted⟩ := ih hn.2 (es.insert p.name p.missingValue)
      rw [hrest] at hok hperm
      rw [value_complete_cons hk, List.filter_cons_of_pos (by rw [hk]; rfl)]
      refine ⟨?_, ?_, fun h => hsorted (h.insert _ _)⟩
      · rw [hok]
        rfl
      · exact hperm.trans ((hp.append_right _).trans List.perm_middle.symm)

/-! ## Arguments that are named -/

section Names

variable (hn : s.names.Nodup)
include hn

lemma toMap_perm (vs : List Value) :
    (s.toMap vs).Perm ((s.parameters.zip vs).map fun e => (e.1.name, e.2)) := by
  have hzip : s.names.zip vs = (s.parameters.zip vs).map fun e => (e.1.name, e.2) :=
    List.zip_map_left
  rw [← hzip]
  exact Entries.ofPairs_zip_perm hn vs

/-- An argument that has been named is checked for the parameter at its place. -/
lemma checkEntry_of_mem_zip {p : Parameter} {v : Value} (h : (p, v) ∈ s.parameters.zip vs) :
    s.checkEntry ignoreUnknown (p.name, v) = (p.check v).value := by
  rw [checkEntry, find?_of_mem hn (List.of_mem_zip h).1]

/-- The parameters whose arguments are missing are the last ones. -/
lemma filter_toMap (vs : List Value) :
    (s.parameters.filter fun p => !(s.toMap vs).hasKey p.name) =
      s.parameters.drop vs.length := by
  have hkey : ∀ name : String, (s.toMap vs).hasKey name = true ↔
      name ∈ (s.parameters.take vs.length).map (·.name) := by
    intro name
    rw [Entries.hasKey_congr (toMap_perm hn vs), Entries.hasKey_iff, List.map_map,
      ← Entries.map_fst_zip_eq_take, List.map_map]
    rfl
  have hsplit := List.take_append_drop vs.length s.parameters
  rw [names, ← hsplit, List.map_append, List.nodup_append] at hn
  calc s.parameters.filter (fun p => !(s.toMap vs).hasKey p.name)
      = (s.parameters.take vs.length ++ s.parameters.drop vs.length).filter
          (fun p => !(s.toMap vs).hasKey p.name) := by rw [hsplit]
    _ = [] ++ s.parameters.drop vs.length := by
        rw [List.filter_append]
        congr 1
        · rw [List.filter_eq_nil_iff]
          intro p hp hnot
          rw [(hkey p.name).2 (List.mem_map_of_mem hp)] at hnot
          exact Bool.false_ne_true hnot
        · rw [List.filter_eq_self]
          intro p hp
          rw [Bool.not_eq_true', Bool.eq_false_iff, ne_eq, hkey]
          exact fun h => hn.2.2 _ h _ (List.mem_map_of_mem hp) rfl
    _ = s.parameters.drop vs.length := List.nil_append _

/-- Named arguments are checked as those that are given by position. -/
lemma value_checkGiven_toMap (vs : List Value) (ignoreUnknown : Bool) :
    (s.checkGiven ignoreUnknown (s.toMap vs)).value.ok = (given s.parameters vs).all (·.2.ok) ∧
      (s.checkGiven ignoreUnknown (s.toMap vs)).value.value.Perm
        ((given s.parameters vs).map fun e => (e.1, e.2.value)) := by
  have hp := toMap_perm hn vs
  have hgiven : given s.parameters vs = ((s.parameters.zip vs).map fun e => (e.1.name, e.2)).map
      fun e => (e.1, s.checkEntry ignoreUnknown e) := by
    rw [List.map_map]
    refine List.map_congr_left fun e he => ?_
    exact congrArg (e.1.name, ·) (checkEntry_of_mem_zip hn he).symm
  rw [value_checkGiven, hgiven, List.all_map, List.map_map]
  exact ⟨hp.all_eq, hp.map _⟩

end Names

/-- Naming what the check by position leaves, one value for each parameter. -/
lemma toMap_perm_settled (hn : s.names.Nodup) (vs : List Value) :
    (s.toMap ((settled s.parameters vs).map (·.2.value))).Perm
      ((settled s.parameters vs).map fun e => (e.1, e.2.value)) := by
  have hzip : s.names.zip ((settled s.parameters vs).map (·.2.value)) =
      (settled s.parameters vs).map fun e => (e.1, e.2.value) := by
    rw [names, ← settled_names s.parameters vs, List.zip_map']
  rw [← hzip]
  exact Entries.ofPairs_zip_perm hn _

lemma value_checkArray (hs : s.known = true) (hvs : vs.length ≤ s.parameters.length) :
    (s.checkArray vs).value =
      ⟨(settled s.parameters vs).all (·.2.ok), (settled s.parameters vs).map (·.2.value)⟩ := by
  have hmany : ¬ s.parameters.length < vs.length := Nat.not_lt.2 hvs
  simp [checkArray, hs, hmany, value_checkFrom]

/-- By name the arguments that are missing are made up for as they are by position. -/
lemma value_checkMap_toMap (hs : s.known = true) (hn : s.names.Nodup) (vs : List Value)
    (ignoreUnknown : Bool) :
    (s.checkMap (s.toMap vs) ignoreUnknown).value.ok =
        (settled s.parameters vs).all (·.2.ok) ∧
      (s.checkMap (s.toMap vs) ignoreUnknown).value.value.Perm
        ((settled s.parameters vs).map fun e => (e.1, e.2.value)) ∧
      (s.checkMap (s.toMap vs) ignoreUnknown).value.value.Sorted := by
  obtain ⟨hgiven, hperm⟩ := value_checkGiven_toMap hn vs ignoreUnknown
  have hvalue : (s.checkMap (s.toMap vs) ignoreUnknown).value =
      ⟨(s.checkGiven ignoreUnknown (s.toMap vs)).value.ok &&
          (complete s.parameters (s.checkGiven ignoreUnknown (s.toMap vs)).value.value).value.ok,
        (complete s.parameters
          (s.checkGiven ignoreUnknown (s.toMap vs)).value.value).value.value⟩ := by
    simp [checkMap, hs]
  have hsorted : (s.checkGiven ignoreUnknown (s.toMap vs)).value.value.Sorted := by
    rw [value_checkGiven]
    exact (Entries.sorted_ofPairs _).map _
  have hmissing : (s.parameters.filter fun p =>
      !(s.checkGiven ignoreUnknown (s.toMap vs)).value.value.hasKey p.name) =
        s.parameters.drop vs.length := by
    rw [value_checkGiven]
    simp only [Entries.hasKey_map]
    exact filter_toMap hn vs
  obtain ⟨hok, hcomplete, hstays⟩ :=
    value_complete hn (s.checkGiven ignoreUnknown (s.toMap vs)).value.value
  rw [hmissing] at hok hcomplete
  rw [hvalue, hgiven, hok, settled, List.all_append, List.map_append]
  exact ⟨rfl, hcomplete.trans (hperm.append_right _), hstays hsorted⟩

/-- The parameters of a list of numbers: its size, the class that it belongs to, if any, its items, and how
deep it is. -/
def listParameters : List Parameter :=
  [{ name := "size", type := .int },
    { name := "owner", type := .structuredClass, substitute := some .null },
    { name := "items", type := .array, inner := .double },
    { name := "depth", type := .int, substitute := some (.int 7) }]

end Signature

end Semdoc
