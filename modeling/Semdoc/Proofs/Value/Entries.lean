import Mathlib.Data.List.Induction
import Semdoc.Proofs.Text.Characters
import Semdoc.Value.Basic

/-!
# Maps from texts

Maps are sorted by their keys, so that putting in an entry behind all others appends it.  The map of some
pairs with different keys holds just these pairs, and there is no other map that does.
-/

namespace Semdoc

namespace Entries

variable {α : Type} {m : Entries α} {key : String}

/-- The keys of a map ascend. -/
def Sorted (m : Entries α) : Prop := m.Pairwise fun a b => Text.compareTexts a.1 b.1 = .lt

/-- An entry behind all others is appended. -/
lemma insert_of_forall_lt (h : ∀ e ∈ m, Text.compareTexts e.1 key = .lt) (v : α) :
    insert key v m = m ++ [(key, v)] := by
  induction m with
  | nil => rfl
  | cons e m ih =>
    obtain ⟨he, hm⟩ := List.forall_mem_cons.1 h
    have hgt : Text.compareTexts key e.1 = .gt := by
      rw [← Text.compareTexts_swap, he]
      rfl
    rw [insert, hgt]
    show e :: insert key v m = _
    rw [ih hm, List.cons_append]

/-- A key behind all others is not there yet. -/
lemma hasKey_of_forall_lt (h : ∀ e ∈ m, Text.compareTexts e.1 key = .lt) :
    hasKey key m = false := by
  rw [hasKey, List.any_eq_false]
  intro e he heq
  have hlt := h e he
  rw [eq_of_beq heq, (Text.compareTexts_eq_iff key key).2 rfl] at hlt
  cases hlt

lemma hasKey_iff : hasKey key m = true ↔ key ∈ m.map (·.1) := by
  simp [hasKey]

lemma hasKey_congr {m' : Entries α} (h : m.Perm m') (key : String) :
    hasKey key m = hasKey key m' :=
  h.any_eq

/-- Other values under the same keys. -/
lemma hasKey_map (key : String) (m : Entries α) {β : Type} (f : String × α → β) :
    hasKey key (m.map fun e => (e.1, f e)) = hasKey key m :=
  List.any_map

lemma Sorted.map {β : Type} (h : m.Sorted) (f : String × α → β) :
    Sorted (m.map fun e => (e.1, f e)) :=
  List.Pairwise.map _ (fun _ _ hab => hab) h

/-! ## Putting in entries -/

lemma mem_of_mem_insert {v : α} {e : String × α} (h : e ∈ insert key v m) :
    e = (key, v) ∨ e ∈ m := by
  induction m with
  | nil => exact .inl (List.mem_singleton.1 h)
  | cons f m ih =>
    rw [insert] at h
    split at h
    · exact List.mem_cons.1 h
    · exact (List.mem_cons.1 h).imp_right (List.mem_cons_of_mem _)
    · rcases List.mem_cons.1 h with rfl | h
      · exact .inr List.mem_cons_self
      · exact (ih h).imp_right (List.mem_cons_of_mem _)

lemma Sorted.insert (h : m.Sorted) (key : String) (v : α) : (insert key v m).Sorted := by
  induction m with
  | nil => exact List.pairwise_singleton _ _
  | cons e m ih =>
    obtain ⟨he, hm⟩ := List.pairwise_cons.1 h
    rw [Entries.insert]
    cases ho : Text.compareTexts key e.1 with
    | lt =>
      refine List.pairwise_cons.2 ⟨fun f hf => ?_, h⟩
      rcases List.mem_cons.1 hf with rfl | hf
      · exact ho
      · exact Std.TransCmp.lt_trans ho (he f hf)
    | eq =>
      obtain rfl := (Text.compareTexts_eq_iff key e.1).1 ho
      exact List.pairwise_cons.2 ⟨he, hm⟩
    | gt =>
      refine List.pairwise_cons.2 ⟨fun f hf => ?_, ih hm⟩
      rcases mem_of_mem_insert hf with rfl | hf
      · rw [← Text.compareTexts_swap, ho]
        rfl
      · exact he f hf

lemma get?_cons (key : String) (e : String × α) (m : Entries α) :
    get? key (e :: m) = if (e.1 == key) = true then some e.2 else get? key m := rfl

/-- What is under other keys stays there. -/
lemma get?_insert_of_ne {name : String} (hne : name ≠ key) (v : α) (m : Entries α) :
    get? key (insert name v m) = get? key m := by
  have hname : ¬ (name == key) = true := by simpa using hne
  induction m with
  | nil => exact if_neg hname
  | cons e m ih =>
    rw [Entries.insert]
    cases ho : Text.compareTexts name e.1 with
    | lt => exact if_neg hname
    | eq =>
      obtain rfl := (Text.compareTexts_eq_iff name e.1).1 ho
      exact (if_neg hname).trans (if_neg hname).symm
    | gt => exact (get?_cons key e _).trans (by rw [ih, ← get?_cons])

/-- An entry with a new key is added to the others. -/
lemma insert_perm (h : hasKey key m = false) (v : α) : (insert key v m).Perm ((key, v) :: m) := by
  induction m with
  | nil => exact .refl _
  | cons e m ih =>
    rw [hasKey, List.any_cons, Bool.or_eq_false_iff] at h
    rw [Entries.insert]
    cases ho : Text.compareTexts key e.1 with
    | lt => exact .refl _
    | eq =>
      obtain rfl := (Text.compareTexts_eq_iff key e.1).1 ho
      simp at h
    | gt => exact ((ih h.2).cons e).trans (.swap _ _ _)

/-! ## Maps of pairs -/

lemma ofPairs_concat (pairs : List (String × α)) (e : String × α) :
    ofPairs (pairs ++ [e]) = insert e.1 e.2 (ofPairs pairs) := by
  rw [ofPairs, List.foldl_append]
  rfl

lemma sorted_ofPairs (pairs : List (String × α)) : (ofPairs pairs).Sorted := by
  induction pairs using List.reverseRecOn with
  | nil => exact .nil
  | append_singleton pairs e ih =>
    rw [ofPairs_concat]
    exact ih.insert e.1 e.2

/-- Pairs with different keys are the entries of their map. -/
lemma ofPairs_perm {pairs : List (String × α)} (h : (pairs.map (·.1)).Nodup) :
    (ofPairs pairs).Perm pairs := by
  induction pairs using List.reverseRecOn with
  | nil => exact .refl _
  | append_singleton pairs e ih =>
    rw [List.map_append, List.nodup_append] at h
    obtain ⟨hpairs, -, hdisjoint⟩ := h
    have hp := ih hpairs
    have hnew : hasKey e.1 (ofPairs pairs) = false := by
      rw [hasKey_congr hp, Bool.eq_false_iff, ne_eq, hasKey_iff]
      intro he
      exact hdisjoint _ he _ (List.mem_singleton.2 rfl) rfl
    rw [ofPairs_concat]
    exact ((insert_perm hnew e.2).trans (hp.cons e)).trans (List.perm_append_singleton e pairs).symm

lemma map_fst_zip_eq_take {β : Type} (ks : List β) (vs : List α) :
    (ks.zip vs).map (·.1) = ks.take vs.length := by
  induction ks generalizing vs with
  | nil => simp
  | cons k ks ih =>
    cases vs with
    | nil => rfl
    | cons v vs => exact congrArg (k :: ·) (ih vs)

/-- Values under different keys are the entries of their map. -/
lemma ofPairs_zip_perm {keys : List String} (h : keys.Nodup) (vs : List α) :
    (ofPairs (keys.zip vs)).Perm (keys.zip vs) := by
  apply ofPairs_perm
  rw [map_fst_zip_eq_take]
  exact h.sublist (List.take_sublist _ _)

lemma mem_keys_insert {key name : String} {v : α} {m : Entries α} :
    name ∈ (insert key v m).map (·.1) ↔ name = key ∨ name ∈ m.map (·.1) := by
  induction m with
  | nil => exact List.mem_cons
  | cons e m ih =>
    rw [Entries.insert]
    cases ho : Text.compareTexts key e.1 with
    | lt => exact List.mem_cons
    | eq =>
      obtain rfl := (Text.compareTexts_eq_iff key e.1).1 ho
      rw [List.map_cons, List.map_cons, List.mem_cons, or_self_left]
    | gt =>
      rw [List.map_cons, List.map_cons, List.mem_cons, List.mem_cons, ih]
      exact or_left_comm

/-- The keys of a map are those of the pairs that it was made of. -/
lemma mem_keys_ofPairs {name : String} {pairs : List (String × α)} :
    name ∈ (ofPairs pairs).map (·.1) ↔ name ∈ pairs.map (·.1) := by
  induction pairs using List.reverseRecOn with
  | nil => exact Iff.rfl
  | append_singleton pairs e ih =>
    rw [ofPairs_concat, mem_keys_insert, ih, List.map_append, List.mem_append, List.map_singleton,
      List.mem_singleton]
    exact or_comm

/-- Two maps with the same entries are the same. -/
lemma Sorted.eq_of_perm {m' : Entries α} (h : m.Sorted) (h' : m'.Sorted) (hp : m.Perm m') :
    m = m' := by
  refine List.Perm.eq_of_pairwise (fun a b _ _ hab hba => ?_) h h' hp
  rw [← Text.compareTexts_swap, hab] at hba
  cases hba

/-- An entry is found by its key. -/
lemma Sorted.find?_of_mem {e : String × α} (h : m.Sorted) (he : e ∈ m) :
    m.find? (fun f => f.1 == e.1) = some e := by
  induction m with
  | nil => cases he
  | cons f m ih =>
    obtain ⟨hf, hm⟩ := List.pairwise_cons.1 h
    rcases List.mem_cons.1 he with rfl | he
    · exact List.find?_cons_of_pos (beq_self_eq_true _)
    · rw [List.find?_cons_of_neg]
      · exact ih hm he
      · -- the entry is behind the first one
        intro heq
        have hlt := hf e he
        rw [(Text.compareTexts_eq_iff _ _).2 (eq_of_beq heq)] at hlt
        cases hlt

end Entries

end Semdoc
