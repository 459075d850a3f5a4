import Semdoc.Proofs.Text.Characters
import Semdoc.Proofs.Value.Members
import Semdoc.Value.Compare

/-!
# Comparison, equality and hashing agree

Values of one kind are ordered, and comparing values of different kinds is an error.  How two values
compare is decided by the first place at which they differ, so that an error surfaces only if everything
before it is equal.  The main statement is that comparison is an order as far as it is defined, and that
two values compare as equal exactly if they are equal, and exactly if their hashes take in the same.
-/

namespace Semdoc

/-! ## What values without members are compared by -/

/-- Doubles are compared by their place in the order of all bit patterns. -/
lemma Double.compareTotal_eq_compareOn : Double.compareTotal = compareOn Double.orderKey := by
  funext a b
  rw [Double.compareTotal, compareOn]
  split
  · next h => rw [Int.compare_eq_lt.2 h]
  · split
    · next h => rw [Int.compare_eq_gt.2 h]
    · rw [Int.compare_eq_eq.2 (by omega)]

instance : Std.TransCmp Double.compareTotal := by
  rw [Double.compareTotal_eq_compareOn]
  infer_instance

instance : Std.TransCmp NodeHandle.compareHandles :=
  inferInstanceAs (Std.TransCmp (compareLex (compareOn NodeHandle.place)
    (compareOn NodeHandle.generation)))

namespace Value

/-! ## Pairs of values -/

/-- Two values are of one kind, or their kinds have different tags.  Both kinds of strings count as
one. -/
inductive Pairing : Value → Value → Prop where
  | null : Pairing null null
  | bool (a b : Bool) : Pairing (bool a) (bool b)
  | int (a b : Int64) : Pairing (int a) (int b)
  | double (a b : Double) : Pairing (double a) (double b)
  | array (vs ws : List Value) : Pairing (array vs) (array ws)
  | map (es fs : List (String × Value)) : Pairing (map es) (map fs)
  | object (a b : ObjectRef) : Pairing (object a) (object b)
  | function (f g : FunctionRef) : Pairing (function f) (function g)
  | text {v w : Value} {s t : String} (hv : v.asText = .ok s) (hw : w.asText = .ok t) : Pairing v w
  | apart {v w : Value} (h : v.kind.tag ≠ w.kind.tag) : Pairing v w

lemma pairing (v w : Value) : Pairing v w := by
  cases v <;> cases w <;>
    first
    | exact .text rfl rfl
    | exact .apart fun h => TypeTag.noConfusion h
    | constructor

variable {v w : Value} {s t : String}

lemma compare_text (hv : v.asText = .ok s) (hw : w.asText = .ok t) :
    compare v w = .ok (Text.compareTexts s t) := by
  cases v <;> cases hv <;> cases w <;> cases hw <;> rfl

lemma same_text (hv : v.asText = .ok s) (hw : w.asText = .ok t) : same v w = (s == t) := by
  cases v <;> cases hv <;> cases w <;> cases hw <;> rfl

lemma digest_text (hv : v.asText = .ok s) : digest v = [.tag 4, .text s] := by
  cases v <;> cases hv <;> rfl

lemma compare_apart (h : v.kind.tag ≠ w.kind.tag) : compare v w = .error (w.mismatch v.kind) := by
  cases v <;> cases w <;> first | rfl | exact absurd rfl h

lemma same_apart (h : v.kind.tag ≠ w.kind.tag) : same v w = false := by
  cases v <;> cases w <;> first | rfl | exact absurd rfl h

/-! ## One comparison after the other -/

/-- What comes first decides, unless it is equal. -/
def andThen (x y : Except Failure Ordering) : Except Failure Ordering :=
  match x with
  | .ok .eq => y
  | r => r

lemma compareItems_cons (vs ws : List Value) :
    compareItems (v :: vs) (w :: ws) = andThen (compare v w) (compareItems vs ws) := rfl

lemma compareEntries_cons (es fs : List (String × Value)) :
    compareEntries ((s, v) :: es) ((t, w) :: fs) =
      andThen (.ok (Text.compareTexts s t)) (andThen (compare v w) (compareEntries es fs)) := by
  rw [compareEntries]
  cases Text.compareTexts s t <;> rfl

/-- Two comparisons that are defined together and give opposite results. -/
def Opposite (x y : Except Failure Ordering) : Prop := ∀ o, x = .ok o ↔ y = .ok o.swap

namespace Opposite

variable {x x' y y' : Except Failure Ordering}

lemma ok (o : Ordering) : Opposite (.ok o) (.ok o.swap) := by
  intro p
  rw [Except.ok.injEq, Except.ok.injEq, Ordering.swap_inj]

lemma error (e e' : Failure) : Opposite (.error e) (.error e') :=
  fun _ => ⟨nofun, nofun⟩

lemma cases (h : Opposite x y) :
    (∃ o, x = .ok o ∧ y = .ok o.swap) ∨ ∃ e e', x = .error e ∧ y = .error e' := by
  cases x with
  | ok o => exact .inl ⟨o, rfl, (h o).1 rfl⟩
  | error e =>
    cases y with
    | ok p =>
      have hp := (h p.swap).2 (by rw [Ordering.swap_swap])
      cases hp
    | error e' => exact .inr ⟨e, e', rfl, rfl⟩

lemma andThen (h : Opposite x y) (h' : Opposite x' y') :
    Opposite (Value.andThen x x') (Value.andThen y y') := by
  rcases h.cases with ⟨o, rfl, rfl⟩ | ⟨e, e', rfl, rfl⟩
  · cases o with
    | lt => exact .ok .lt
    | eq => exact h'
    | gt => exact .ok .gt
  · exact .error e e'

end Opposite

/-- Comparing the first of three things with the last comes out as the other two comparisons together,
if neither of these comes out as greater. -/
def Transitive (x y z : Except Failure Ordering) : Prop :=
  ∀ o p, x = .ok o → y = .ok p → o.isLE = true → p.isLE = true → z = .ok (o.then p)

namespace Transitive

variable {x x' y y' z z' : Except Failure Ordering}

lemma of_transCmp {α : Type} (cmp : α → α → Ordering) [Std.TransCmp cmp] (a b c : α) :
    Transitive (.ok (cmp a b)) (.ok (cmp b c)) (.ok (cmp a c)) := by
  rintro _ _ ⟨⟩ ⟨⟩ ho hp
  cases hab : cmp a b with
  | lt => rw [Std.TransCmp.lt_of_lt_of_isLE hab hp, Ordering.lt_then]
  | eq => rw [Std.TransCmp.congr_left hab, Ordering.eq_then]
  | gt =>
    rw [hab] at ho
    cases ho

lemma of_error (e : Failure) : Transitive (.error e) y z := fun _ _ h => nomatch h

lemma lt_left : Transitive (.ok .lt) y (.ok .lt) := by
  rintro _ _ ⟨⟩ - - -
  rfl

lemma eq_left : Transitive (.ok .eq) y y := by
  rintro _ _ ⟨⟩ hy - -
  rw [hy, Ordering.eq_then]

/-- Nothing is asked where a comparison comes out as greater. -/
lemma gt_left : Transitive (.ok .gt) y z := by
  rintro _ _ ⟨⟩ - ho
  cases ho

lemma gt_right : Transitive x (.ok .gt) z := by
  rintro _ _ - ⟨⟩ - hp
  cases hp

lemma andThen (h : Transitive x y z) (h' : Transitive x' y' z') :
    Transitive (Value.andThen x x') (Value.andThen y y') (Value.andThen z z') := by
  intro o p hx hy ho hp
  rcases x with e | _ | _ | _
  · cases hx
  · cases hx
    rcases y with e | _ | _ | _
    · cases hy
    · rw [h .lt .lt rfl rfl rfl rfl]; rfl
    · rw [h .lt .eq rfl rfl rfl rfl]; rfl
    · cases hy; cases hp
  · rcases y with e | _ | _ | _
    · cases hy
    · cases hy
      rw [h .eq .lt rfl rfl rfl rfl]
      cases o with
      | lt => rfl
      | eq => rfl
      | gt => cases ho
    · rw [h .eq .eq rfl rfl rfl rfl]
      exact h' o p hx hy ho hp
    · cases hy; cases hp
  · cases hx; cases ho

end Transitive

lemma andThen_eq_iff {x y : Except Failure Ordering} :
    andThen x y = .ok .eq ↔ x = .ok .eq ∧ y = .ok .eq := by
  rcases x with e | _ | _ | _ <;> simp [andThen]

/-! ## Comparison is an order -/

lemma opposite_of_transCmp {α : Type} (cmp : α → α → Ordering) [Std.TransCmp cmp] (a b : α) :
    Opposite (.ok (cmp a b)) (.ok (cmp b a)) := by
  have hswap : cmp b a = (cmp a b).swap := Std.OrientedCmp.eq_swap
  rw [hswap]
  exact .ok _

lemma opposite_compareItems {vs : List Value}
    (h : ∀ v ∈ vs, ∀ w, Opposite (compare v w) (compare w v)) (ws : List Value) :
    Opposite (compareItems vs ws) (compareItems ws vs) := by
  induction vs generalizing ws with
  | nil =>
    cases ws with
    | nil => exact .ok .eq
    | cons w ws => exact .ok .lt
  | cons v vs ih =>
    cases ws with
    | nil => exact .ok .gt
    | cons w ws =>
      obtain ⟨hv, hvs⟩ := List.forall_mem_cons.1 h
      exact (hv w).andThen (ih hvs ws)

lemma opposite_compareEntries {es : List (String × Value)}
    (h : ∀ e ∈ es, ∀ w, Opposite (compare e.2 w) (compare w e.2)) (fs : List (String × Value)) :
    Opposite (compareEntries es fs) (compareEntries fs es) := by
  induction es generalizing fs with
  | nil =>
    cases fs with
    | nil => exact .ok .eq
    | cons f fs => exact .ok .lt
  | cons e es ih =>
    cases fs with
    | nil => exact .ok .gt
    | cons f fs =>
      obtain ⟨he, hes⟩ := List.forall_mem_cons.1 h
      rw [compareEntries_cons, compareEntries_cons]
      exact (opposite_of_transCmp _ _ _).andThen ((he f.2).andThen (ih hes fs))

/-- Comparing the other way round gives the opposite result, or an error as well. -/
theorem opposite_compare (v w : Value) : Opposite (compare v w) (compare w v) := by
  induction v using induction_members generalizing w with
  | h v ih =>
    cases pairing v w with
    | null => exact .ok .eq
    | bool a b => exact opposite_of_transCmp Ord.compare a b
    | int a b => exact opposite_of_transCmp Ord.compare a.toInt b.toInt
    | double a b => exact opposite_of_transCmp Double.compareTotal a b
    | text hv hw =>
      rw [compare_text hv hw, compare_text hw hv]
      exact opposite_of_transCmp Text.compareTexts _ _
    | array vs ws => exact opposite_compareItems ih ws
    | map es fs => exact opposite_compareEntries (List.forall_mem_map.1 ih) fs
    | object a b => exact opposite_of_transCmp NodeHandle.compareHandles a.node b.node
    | function f g => exact opposite_of_transCmp Ord.compare f.instanceNumber g.instanceNumber
    | apart h =>
      rw [compare_apart h, compare_apart h.symm]
      exact .error _ _

lemma transitive_compareItems {vs : List Value}
    (h : ∀ v ∈ vs, ∀ w u, Transitive (compare v w) (compare w u) (compare v u))
    (ws us : List Value) :
    Transitive (compareItems vs ws) (compareItems ws us) (compareItems vs us) := by
  induction vs generalizing ws us with
  | nil =>
    cases ws with
    | nil => exact .eq_left
    | cons w ws =>
      cases us with
      | nil => exact .gt_right
      | cons u us => exact .lt_left
  | cons v vs ih =>
    obtain ⟨hv, hvs⟩ := List.forall_mem_cons.1 h
    cases ws with
    | nil => exact .gt_left
    | cons w ws =>
      cases us with
      | nil => exact .gt_right
      | cons u us => exact (hv w u).andThen (ih hvs ws us)

lemma transitive_compareEntries {es : List (String × Value)}
    (h : ∀ e ∈ es, ∀ w u, Transitive (compare e.2 w) (compare w u) (compare e.2 u))
    (fs gs : List (String × Value)) :
    Transitive (compareEntries es fs) (compareEntries fs gs) (compareEntries es gs) := by
  induction es generalizing fs gs with
  | nil =>
    cases fs with
    | nil => exact .eq_left
    | cons f fs =>
      cases gs with
      | nil => exact .gt_right
      | cons g gs => exact .lt_left
  | cons e es ih =>
    obtain ⟨he, hes⟩ := List.forall_mem_cons.1 h
    cases fs with
    | nil => exact .gt_left
    | cons f fs =>
      cases gs with
      | nil => exact .gt_right
      | cons g gs =>
        rw [compareEntries_cons, compareEntries_cons, compareEntries_cons]
        exact (Transitive.of_transCmp _ _ _ _).andThen ((he f.2 g.2).andThen (ih hes fs gs))

theorem transitive_compare (v w u : Value) :
    Transitive (compare v w) (compare w u) (compare v u) := by
  induction v using induction_members generalizing w u with
  | h v ih =>
    -- the last of the three values is of the kind of the second, or cannot be compared with it
    have hend : ∀ {x y z : Value}, y.kind.tag ≠ z.kind.tag →
        Transitive (compare x y) (compare y z) (compare x z) := by
      intro x y z h _ _ _ hy
      rw [compare_apart h] at hy
      cases hy
    cases pairing v w with
    | null =>
      cases pairing null u with
      | null => exact fun _ _ h h' _ _ => by cases h; cases h'; rfl
      | text hw hu => cases hw
      | apart h => exact hend h
    | bool a b =>
      cases pairing (bool b) u with
      | bool _ c => exact .of_transCmp Ord.compare a b c
      | text hw hu => cases hw
      | apart h => exact hend h
    | int a b =>
      cases pairing (int b) u with
      | int _ c => exact .of_transCmp Ord.compare a.toInt b.toInt c.toInt
      | text hw hu => cases hw
      | apart h => exact hend h
    | double a b =>
      cases pairing (double b) u with
      | double _ c => exact .of_transCmp Double.compareTotal a b c
      | text hw hu => cases hw
      | apart h => exact hend h
    | text hv hw =>
      cases pairing w u with
      | text hw' hu =>
        rw [compare_text hv hw, compare_text hw hu, compare_text hv hu]
        exact .of_transCmp Text.compareTexts _ _ _
      | apart h => exact hend h
      | _ => cases hw
    | array vs ws =>
      cases pairing (array ws) u with
      | array _ us => exact transitive_compareItems ih ws us
      | text hw hu => cases hw
      | apart h => exact hend h
    | map es fs =>
      cases pairing (map fs) u with
      | map _ gs => exact transitive_compareEntries (List.forall_mem_map.1 ih) fs gs
      | text hw hu => cases hw
      | apart h => exact hend h
    | object a b =>
      cases pairing (object b) u with
      | object _ c => exact .of_transCmp NodeHandle.compareHandles a.node b.node c.node
      | text hw hu => cases hw
      | apart h => exact hend h
    | function f g =>
      cases pairing (function g) u with
      | function _ k =>
        exact .of_transCmp Ord.compare f.instanceNumber g.instanceNumber k.instanceNumber
      | text hw hu => cases hw
      | apart h => exact hend h
    | apart h =>
      rw [compare_apart h]
      exact .of_error _

/-! ## Equality goes with the order -/

lemma compareItems_eq_iff {vs : List Value}
    (h : ∀ v ∈ vs, ∀ w, compare v w = .ok .eq ↔ same v w = true) (ws : List Value) :
    compareItems vs ws = .ok .eq ↔ sameItems vs ws = true := by
  induction vs generalizing ws with
  | nil => cases ws <;> simp [compareItems, sameItems]
  | cons v vs ih =>
    obtain ⟨hv, hvs⟩ := List.forall_mem_cons.1 h
    cases ws with
    | nil => simp [compareItems, sameItems]
    | cons w ws =>
      rw [compareItems_cons, andThen_eq_iff, hv, ih hvs, sameItems, Bool.and_eq_true]

lemma compareEntries_eq_iff {es : List (String × Value)}
    (h : ∀ e ∈ es, ∀ w, compare e.2 w = .ok .eq ↔ same e.2 w = true)
    (fs : List (String × Value)) :
    compareEntries es fs = .ok .eq ↔ sameEntries es fs = true := by
  induction es generalizing fs with
  | nil => cases fs <;> simp [compareEntries, sameEntries]
  | cons e es ih =>
    obtain ⟨he, hes⟩ := List.forall_mem_cons.1 h
    cases fs with
    | nil => simp [compareEntries, sameEntries]
    | cons f fs =>
      rw [compareEntries_cons, andThen_eq_iff, andThen_eq_iff, he, ih hes, sameEntries,
        Bool.and_eq_true, Bool.and_eq_true, beq_iff_eq, Except.ok.injEq, Text.compareTexts_eq_iff,
        and_assoc]

/-- Two values compare as equal exactly if they are equal. -/
theorem compare_eq_iff (v w : Value) : compare v w = .ok .eq ↔ same v w = true := by
  induction v using induction_members generalizing w with
  | h v ih =>
    cases pairing v w with
    | null => simp [compare, same]
    | bool a b => simp [compare, same]
    | int a b => simp [compare, same, Int64.toInt_inj]
    | double a b => simp [compare, same, Double.compareTotal_eq_iff]
    | text hv hw =>
      rw [compare_text hv hw, same_text hv hw, Except.ok.injEq, Text.compareTexts_eq_iff, beq_iff_eq]
    | array vs ws => exact compareItems_eq_iff ih ws
    | map es fs => exact compareEntries_eq_iff (List.forall_mem_map.1 ih) fs
    | object a b => simp [compare, same, NodeHandle.compareHandles_eq_iff]
    | function f g =>
      cases f; cases g
      simp [compare, same]
    | apart h => simp [compare_apart h, same_apart h]

/-! ## Hashes take in what equality looks at -/

/-- What is taken in for the items of an array tells the items apart, whatever comes after them. -/
lemma digestItems_append_inj {vs : List Value}
    (h : ∀ v ∈ vs, ∀ w r t, digest v ++ r = digest w ++ t ↔ same v w = true ∧ r = t)
    {ws : List Value} (hlen : vs.length = ws.length) (r t : List DigestItem) :
    digestItems vs ++ r = digestItems ws ++ t ↔ sameItems vs ws = true ∧ r = t := by
  induction vs generalizing ws with
  | nil =>
    obtain rfl := List.eq_nil_of_length_eq_zero hlen.symm
    simp [digestItems, sameItems]
  | cons v vs ih =>
    obtain ⟨w, ws, rfl⟩ := List.exists_cons_of_length_eq_add_one hlen.symm
    obtain ⟨hv, hvs⟩ := List.forall_mem_cons.1 h
    rw [digestItems, digestItems, List.append_assoc, List.append_assoc, hv,
      ih hvs (Nat.succ.inj hlen), sameItems, Bool.and_eq_true, and_assoc]

lemma digestEntries_append_inj {es : List (String × Value)}
    (h : ∀ e ∈ es, ∀ w r t, digest e.2 ++ r = digest w ++ t ↔ same e.2 w = true ∧ r = t)
    {fs : List (String × Value)} (hlen : es.length = fs.length) (r t : List DigestItem) :
    digestEntries es ++ r = digestEntries fs ++ t ↔ sameEntries es fs = true ∧ r = t := by
  induction es generalizing fs with
  | nil =>
    obtain rfl := List.eq_nil_of_length_eq_zero hlen.symm
    simp [digestEntries, sameEntries]
  | cons e es ih =>
    obtain ⟨f, fs, rfl⟩ := List.exists_cons_of_length_eq_add_one hlen.symm
    obtain ⟨he, hes⟩ := List.forall_mem_cons.1 h
    rw [digestEntries, digestEntries, List.cons_append, List.cons_append, List.cons_append,
      List.append_assoc, List.cons_append, List.append_assoc, List.cons.injEq, DigestItem.text.injEq, he, ih hes (Nat.succ.inj hlen),
      sameEntries, Bool.and_eq_true, Bool.and_eq_true, beq_iff_eq, and_assoc, and_assoc]

lemma digest_apart (h : v.kind.tag ≠ w.kind.tag) (r t : List DigestItem) :
    digest v ++ r ≠ digest w ++ t := by
  cases v <;> cases w <;> first | exact absurd rfl h | simp [digest]

lemma length_eq_of_sameItems {vs ws : List Value} (h : sameItems vs ws = true) :
    vs.length = ws.length := by
  induction vs generalizing ws with
  | nil =>
    cases ws with
    | nil => rfl
    | cons w ws => cases h
  | cons v vs ih =>
    cases ws with
    | nil => cases h
    | cons w ws =>
      rw [sameItems, Bool.and_eq_true] at h
      rw [List.length_cons, List.length_cons, ih h.2]

lemma length_eq_of_sameEntries {es fs : List (String × Value)} (h : sameEntries es fs = true) :
    es.length = fs.length := by
  induction es generalizing fs with
  | nil =>
    cases fs with
    | nil => rfl
    | cons f fs => cases h
  | cons e es ih =>
    cases fs with
    | nil => cases h
    | cons f fs =>
      rw [sameEntries, Bool.and_eq_true] at h
      rw [List.length_cons, List.length_cons, ih h.2]

/-- What the hash of a value takes in is no beginning of what that of another one takes in, so that
what comes after it does not blur it. -/
theorem digest_append_inj (v w : Value) (r t : List DigestItem) :
    digest v ++ r = digest w ++ t ↔ same v w = true ∧ r = t := by
  induction v using induction_members generalizing w r t with
  | h v ih =>
    cases pairing v w with
    | null => simp [digest, same]
    | bool a b => simp [digest, same]
    | int a b => simp [digest, same]
    | double a b =>
      cases a; cases b
      simp [digest, same]
    | array vs ws =>
      rw [digest, digest, same]
      simp only [List.cons_append, List.cons.injEq, true_and, DigestItem.size.injEq]
      constructor
      · rintro ⟨hlen, h⟩
        exact (digestItems_append_inj ih hlen r t).1 h
      · intro h
        have hlen := length_eq_of_sameItems h.1
        exact ⟨hlen, (digestItems_append_inj ih hlen r t).2 h⟩
    | map es fs =>
      rw [digest, digest, same]
      simp only [List.cons_append, List.cons.injEq, true_and, DigestItem.size.injEq]
      have ih := List.forall_mem_map.1 ih
      constructor
      · rintro ⟨hlen, h⟩
        exact (digestEntries_append_inj ih hlen r t).1 h
      · intro h
        have hlen := length_eq_of_sameEntries h.1
        exact ⟨hlen, (digestEntries_append_inj ih hlen r t).2 h⟩
    | object a b => simp [digest, same]
    | function f g =>
      cases f; cases g
      simp [digest, same]
    | text hv hw => simp [digest_text hv, digest_text hw, same_text hv hw]
    | apart h => simp [digest_apart h, same_apart h]

/-- Two values are equal exactly if their hashes take in the same. -/
theorem same_iff_digest_eq (v w : Value) : same v w = true ↔ digest v = digest w := by
  have h := digest_append_inj v w [] []
  rw [List.append_nil, List.append_nil] at h
  rw [h, and_iff_left rfl]

/-- Comparison is an order as far as it is defined: a value compares as equal to itself, comparing two
values the other way round gives the opposite result or an error as well, and if neither the first of
three values is greater than the second nor the second greater than the third, the first compares with
the third and is not greater, and it is less if one of the others was.  Comparison, equality and hashing
agree on which values are equal. -/
theorem compare_agrees_with_equality_and_digest (a b c : Value) :
    compare a a = .ok .eq ∧
    (∀ o, compare a b = .ok o ↔ compare b a = .ok o.swap) ∧
    (∀ o p, compare a b = .ok o → compare b c = .ok p → o ≠ .gt → p ≠ .gt →
      ∃ q, compare a c = .ok q ∧ q ≠ .gt ∧ (o = .lt ∨ p = .lt → q = .lt)) ∧
    (compare a b = .ok .eq ↔ (a == b) = true) ∧
    ((a == b) = true ↔ digest a = digest b) := by
  have hself : compare a a = .ok .eq := (compare_eq_iff a a).2 ((same_iff_digest_eq a a).2 rfl)
  refine ⟨hself, opposite_compare a b, fun o p ho hp hno hnp => ?_, compare_eq_iff a b,
    same_iff_digest_eq a b⟩
  have hc := transitive_compare a b c o p ho hp (Ordering.isLE_iff_ne_gt.2 hno)
    (Ordering.isLE_iff_ne_gt.2 hnp)
  refine ⟨o.then p, hc, ?_, ?_⟩
  · cases o <;> simp_all
  · rintro (rfl | rfl)
    · rfl
    · cases o <;> simp_all

/-- An error surfaces only if everything before it is equal. -/
example : compare (.array [.magic "a", .int 1, .null]) (.array [.string "a", .int 2, .bool true]) =
    .ok .lt := rfl

end Value

end Semdoc
