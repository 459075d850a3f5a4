import Semdoc.Proofs.Log.Computations
import Semdoc.Proofs.Typesystem.Preparation
import Semdoc.Proofs.Validation.Pass

/-!
# Reports of validation

Every check that fails reports an error, and one that reports an error fails.  Validation as a whole is as
sincere as the checks that it makes: the negative result for a node that is not looked at again was reported
when the node was looked at.  So it does not matter whether one asks for the result of a validation or for
its first error.
-/

namespace Semdoc

/-! ## What checks tell -/

namespace Check

/-- The result of a check tells whether all was well before it and it has reported no error. -/
def Tells (before : Bool) (c : Check) : Prop := c.value = (before && !c.failed)

namespace Tells

variable {before : Bool} {c : Check} {cs : List Check}

lemma pure (ok : Bool) : Tells ok (Pure.pure ok) := (Bool.and_true ok).symm

lemma demand (ok : Bool) (text : String) (l : Location) : (demand ok text l).Tells true := by
  cases ok <;> rfl

/-- A check that fails tells so whatever was before. -/
lemma of_value (h : c.Tells true) (hc : c.value = false) : c.Tells before := by
  unfold Tells at h ⊢
  rw [hc, Bool.true_and] at h
  rw [hc, ← h, Bool.and_false]

lemma demand_false (text : String) (l : Location) : (Check.demand false text l).Tells before :=
  of_value (demand false text l) rfl

lemma bind {f : Bool → Check} (hc : c.Tells true) (hf : ∀ ok, (f ok).Tells (before && ok)) :
    Tells before (c >>= f) := by
  unfold Tells at hc hf ⊢
  rw [Logged.value_bind, Logged.failed_bind, hf, hc, Bool.true_and, Bool.not_or, Bool.and_assoc]

lemma nil : (all []).Tells true := pure true

lemma cons (hc : c.Tells true) (hr : (all cs).Tells true) : (all (c :: cs)).Tells true :=
  bind hc fun _ => bind hr fun _ => pure _

/-- The same check for all members of a list. -/
lemma map {α : Type} {f : α → Check} (h : ∀ x, (f x).Tells true) (xs : List α) :
    (all (xs.map f)).Tells true := by
  induction xs with
  | nil => exact nil
  | cons x r ih => exact cons (h x) ih

lemma distinct {α κ : Type} [BEq κ] (key : α → Option κ) (text : α → String)
    (place : α → Location) (seen : List κ) (xs : List α) :
    (distinct key text place seen xs).Tells true := by
  induction xs generalizing seen with
  | nil => exact pure true
  | cons x r ih =>
    rw [Check.distinct]
    split
    · exact ih seen
    · exact bind (demand _ _ _) fun _ => bind (ih _) fun _ => pure _

end Tells

end Check

namespace Store

variable (s : Store) (h : NodeHandle)

lemma tells_checkName : (s.checkName h).Tells true := .demand _ _ _

lemma tells_checkUniqueNames (what : String) (hs : List NodeHandle) :
    (s.checkUniqueNames what hs).Tells true :=
  .distinct _ _ _ _ _

lemma tells_checkParent (type : TypeTag) : (s.checkParent type h).Tells true := by
  unfold checkParent
  dsimp only
  split <;> exact .demand _ _ _

lemma tells_checkReferences (n : Node) : (s.checkReferences h n).Tells true :=
  .map (fun _ => .demand _ _ _) _

/-- Preparing a value tells whether it has reported an error. -/
lemma failed_prepare (type : NodeHandle) (v : Value) :
    (s.prepare type v).failed = !(s.prepare type v).value.ok := by
  have hcandid : (s.prepare type v).value.ok = !(s.prepare type v).failed :=
    candid_preparation s [] type v
  rw [hcandid, Bool.not_not]

lemma tells_checkProject : (s.checkProject h).Tells true :=
  .cons (s.tells_checkUniqueNames _ _) <| .cons (s.tells_checkUniqueNames _ _) <|
    .cons (s.tells_checkUniqueNames _ _) .nil

/-! ### Typesystems -/

lemma tells_checkTypesystem : (s.checkTypesystem h).Tells true :=
  .cons (s.tells_checkName h) <| .cons (s.tells_checkUniqueNames _ _) .nil

lemma tells_checkConstants (l : Location) (seen constants : List String) :
    (checkConstants l seen constants).Tells true := by
  induction constants generalizing seen with
  | nil => exact .pure true
  | cons c r ih =>
    exact .bind (.demand _ _ _) fun _ => .bind (.demand _ _ _) fun _ => .bind (ih _) fun _ => .pure _

lemma tells_checkType (shape : TypeShape) : (s.checkType h shape).Tells true := by
  have hname := s.tells_checkName h
  unfold checkType
  cases shape with
  | enumeration constants =>
    exact .cons hname <| .cons (.demand _ _ _) <| .cons (tells_checkConstants _ _ _) .nil
  | array inner => exact .demand _ _ _
  | struct parent =>
    refine .cons ?_ <| .cons ?_ <| .cons ?_ .nil
    · split
      · exact .pure true
      · exact hname
    · split
      · exact .demand _ _ _
      · exact .pure true
    · split
      · exact .demand _ _ _
      · exact .distinct _ _ _ _ _
  | _ => exact hname

lemma tells_checkAttribute (a : AttributeContent) : (s.checkAttribute h a).Tells true := by
  unfold checkAttribute
  refine .cons (s.tells_checkName h) <| .cons ?_ .nil
  split
  · exact .pure true
  · next t substitute =>
    split
    · exact .demand _ _ _
    · split
      · exact .pure true
      · next v =>
        unfold Check.Tells
        rw [Logged.value_bind, Logged.failed_bind, failed_prepare]
        cases (s.prepare t v).value.ok <;> rfl

/-! ### Ontologies -/

lemma tells_checkTokens (l : Location) (what : String) (tokens : List TokenUse) :
    (checkTokens l what tokens).Tells true :=
  .map (fun _ => .demand _ _ _) _

lemma tells_checkOntology : (s.checkOntology h).Tells true :=
  .cons (s.tells_checkName h) <| .cons (s.tells_checkUniqueNames _ _) <|
    .cons (s.tells_checkUniqueNames _ _) <| .cons (s.tells_checkUniqueNames _ _) .nil

lemma tells_checkFieldOrder (l : Location) (name : String) (fields : List NodeHandle) :
    (s.checkFieldOrder l name fields).Tells true := by
  unfold checkFieldOrder
  dsimp only
  split
  · exact .pure true
  · exact .demand _ _ _
  · exact .demand _ _ _

lemma tells_checkDescriptor (tokens : TokenPair) : (s.checkDescriptor h tokens).Tells true := by
  unfold checkDescriptor
  refine .cons (s.tells_checkParent h _) <| .cons (s.tells_checkName h) <| .cons ?_ <|
    .cons (s.tells_checkFieldOrder _ _ _) <| .cons (s.tells_checkUniqueNames _ _) <|
    .cons (tells_checkTokens _ _ _) .nil
  split <;> exact .demand _ _ _

lemma tells_checkSubclasses : (s.checkSubclasses h).Tells true :=
  .map (fun _ => .demand _ _ _) _

lemma tells_checkClass (c : ClassContent) : (s.checkClass h c).Tells true :=
  .cons (s.tells_checkDescriptor h _) <| .cons (.demand _ _ _) <|
    .cons (tells_checkTokens _ _ _) <| .cons (s.tells_checkSubclasses h) <|
    .cons (.demand _ _ _) .nil

lemma tells_checkFieldName (f : FieldContent) : (s.checkFieldName h f).Tells true := by
  unfold checkFieldName
  dsimp only
  split
  · exact .demand _ _ _
  · split
    · exact .demand _ _ _
    · exact s.tells_checkName h

lemma tells_checkFieldContent (f : FieldContent) : (s.checkFieldContent h f).Tells true := by
  unfold checkFieldContent
  dsimp only
  split
  · exact .cons (.demand _ _ _) <| .cons (.demand _ _ _) .nil
  · exact .cons (.demand _ _ _) <| .cons (s.tells_checkUniqueNames _ _) .nil

lemma tells_checkField (f : FieldContent) : (s.checkField h f).Tells true :=
  .cons (s.tells_checkParent h _) <| .cons (s.tells_checkFieldName h f) <|
    .cons (s.tells_checkFieldContent h f) <| .cons (tells_checkTokens _ _ _) .nil

/-! ### Documents -/

lemma tells_checkDocument : (s.checkDocument h).Tells true := by
  unfold checkDocument
  refine .cons (s.tells_checkUniqueNames _ _) <| .cons ?_ .nil
  split
  · exact .demand _ _ _
  · split
    · exact .pure true
    · exact .demand _ _ _

lemma tells_checkValue (type : NodeHandle) (v : Value) : (s.checkValue type v).Tells true := by
  unfold checkValue Check.Tells
  rw [Logged.value_bind, Logged.failed_bind, failed_prepare]
  cases (s.prepare type v).value.ok <;> rfl

lemma tells_checkPrimitiveField (l : Location) (name : String) (optional : Bool)
    (type : NodeHandle) (content : List NodeHandle) :
    (s.checkPrimitiveField l name optional type content).Tells true := by
  unfold checkPrimitiveField
  split
  · exact .demand _ _ _
  · split
    · exact s.tells_checkValue _ _
    · exact .demand _ _ _
  · exact .demand _ _ _

lemma tells_checkMember (name : String) (descriptor : NodeHandle) (declared : List NodeHandle)
    (child : NodeHandle) : (s.checkMember name descriptor declared child).Tells true := by
  unfold checkMember
  split
  · exact .demand _ _ _
  · split
    · exact .pure true
    · exact .demand _ _ _

lemma tells_checkCount (l : Location) (name : String) (content : List NodeHandle)
    (descriptor : NodeHandle) : (s.checkCount l name content descriptor).Tells true := by
  unfold checkCount
  split
  · exact .pure true
  · exact .demand _ _ _

lemma tells_checkEntityField (descriptor : NodeHandle) (number : Nat) (field : NodeHandle) :
    (s.checkEntityField h descriptor number field).Tells true := by
  unfold checkEntityField
  split
  · exact .pure true
  · dsimp only
    split
    · exact s.tells_checkPrimitiveField _ _ _ _ _
    · split
      · exact .pure true
      · exact .cons (.map (s.tells_checkMember _ _ _) _) <|
          .cons (.map (s.tells_checkCount _ _ _) _) .nil

lemma tells_checkEntity (e : EntityContent) : (s.checkEntity h e).Tells true := by
  unfold checkEntity
  refine .cons ?_ <| .cons (.demand _ _ _) <|
    .cons (.map (fun _ => s.tells_checkEntityField h _ _ _) _) .nil
  split
  · exact s.tells_checkValue _ _
  · exact .pure true

lemma tells_checkStructuredEntity (e : EntityContent) :
    (s.checkStructuredEntity h e).Tells true := by
  unfold checkStructuredEntity
  refine .cons (.demand _ _ _) <| .cons ?_ .nil
  split
  · exact s.tells_checkEntity h e
  · exact .demand _ _ _

lemma tells_checkEndpoints (start stop : NodeHandle) :
    (s.checkEndpoints h start stop).Tells true := by
  unfold checkEndpoints
  split
  · exact .pure true
  · exact .cons (.demand _ _ _) <| .cons (.demand _ _ _) .nil

lemma tells_checkAnnotation (a : Annotation) : (s.checkAnnotation h a).Tells true := by
  unfold checkAnnotation
  refine .bind (s.tells_checkParent h _) fun inDocument => ?_
  split
  · exact .demand_false _ _
  · refine .bind (s.tells_checkEntity h _) fun filled => ?_
    split
    · refine .bind (s.tells_checkEndpoints h _ _) fun ended => ?_
      split
      · next hok =>
        rw [Bool.true_and, hok]
        exact .demand _ _ _
      · next hok =>
        rw [Bool.true_and, Bool.eq_false_iff.2 hok]
        exact .pure false
    · next hsome =>
      -- one of the two demands fails
      refine .of_value (.cons (.demand _ _ _) <| .cons (.demand _ _ _) .nil) ?_
      cases hstart : a.start with
      | none => rfl
      | some start =>
        cases hstop : a.stop with
        | none => rfl
        | some stop => exact (hsome start stop hstart hstop).elim

lemma tells_checkAnchor (mark : Option NodeHandle) : (s.checkAnchor h mark).Tells true := by
  unfold checkAnchor
  split <;> exact .demand _ _ _

/-! ### Nodes -/

lemma tells_checkContent (c : Content) : (s.checkContent h c).Tells true := by
  cases c with
  | project system => exact s.tells_checkProject h
  | typesystem system => exact s.tells_checkTypesystem h
  | type shape => exact s.tells_checkType h shape
  | attr a => exact s.tells_checkAttribute h a
  | ontology => exact s.tells_checkOntology h
  | structuredClass c => exact s.tells_checkClass h c
  | annotationClass tokens => exact s.tells_checkDescriptor h tokens
  | fieldDescriptor f => exact s.tells_checkField h f
  | document => exact s.tells_checkDocument h
  | structuredEntity e => exact s.tells_checkStructuredEntity h e
  | annotationEntity e start stop => exact s.tells_checkAnnotation h _
  | documentPrimitive v => exact .pure true
  | anchor mark => exact s.tells_checkAnchor h mark

/-- The checks of a node fail if and only if they report an error. -/
theorem tells_checkNode (n : Node) : (s.checkNode h n).Tells true :=
  .cons (s.tells_checkReferences h n) <| .cons (s.tells_checkContent h n.content) .nil

end Store

/-! ## What validation tells -/

namespace Validating

/-- There is a negative result. -/
def Doubted (v : Verdicts) : Prop := ∃ k, verdict? v k = some false

lemma doubted_cons {h : NodeHandle} {ok : Bool} {v : Verdicts} (hd : Doubted ((h, ok) :: v)) :
    ok = false ∨ Doubted v := by
  obtain ⟨k, hk⟩ := hd
  unfold verdict? at hk
  rw [List.find?_cons] at hk
  split at hk
  · exact .inl (Option.some.inj hk)
  · exact .inr ⟨k, hk⟩

lemma events_settle (h : NodeHandle) (r : Bool × State) :
    ((do
      record h r.1
      if r.1 then mark h
      return r.1 : Validating Bool) r.2).events = [] := by
  obtain ⟨ok, s, v⟩ := r
  cases ok <;> rfl

/-- From some state on, the result is negative if something was wrong before or an error is reported; and
negative results only come from there, or from negative results that were there already. -/
structure Tells (before : Bool) (st : State) (x : Validating Bool) : Prop where
  negative : before = false ∨ hasError (x st).events = true → (x st).value.1 = false
  explained : (x st).value.1 = false ∨ Doubted (x st).value.2.2 →
    before = false ∨ hasError (x st).events = true ∨ Doubted st.2

namespace Tells

variable {before : Bool} {st : State} {x : Validating Bool}

lemma of_run {ok : Bool} {s : Store} {v : Verdicts} {events : List LogEvent}
    (hx : x st = ⟨(ok, s, v), events⟩)
    (hn : before = false ∨ hasError events = true → ok = false)
    (he : ok = false ∨ Doubted v → before = false ∨ hasError events = true ∨ Doubted st.2) :
    Tells before st x := by
  constructor <;> rwa [hx]

lemma pure (ok : Bool) : Tells ok st (Pure.pure ok) :=
  .of_run (Logged.run_pure ok st) (fun h => h.resolve_right nofun) fun h => h.imp_right .inr

/-- What comes after a result that tells whether all was well until then. -/
lemma bind {f : Bool → Validating Bool} (hx : Tells before st x)
    (hf : ∀ ok st', Tells ok st' (f ok)) : Tells before st (x >>= f) := by
  obtain ⟨hn, he⟩ := hx
  obtain ⟨hn', he'⟩ := hf (x st).value.1 (x st).value.2
  refine .of_run (Logged.run_bind x f st) (fun h => ?_) fun h => ?_
  · rw [hasError_append, Bool.or_eq_true, ← or_assoc] at h
    exact hn' (h.imp_left hn)
  · rw [hasError_append, Bool.or_eq_true]
    rcases he' h with h | h | h
    · exact (he (.inl h)).imp_right (.imp_left .inl)
    · exact .inr (.inl (.inr h))
    · exact (he (.inr h)).imp_right (.imp_left .inl)

/-- A further result counts together with those before it. -/
lemma and (hx : Tells true st x) :
    Tells before st (do
      let ok ← x
      return before && ok) := by
  obtain ⟨hn, he⟩ := hx
  refine .of_run (Logged.run_bind x _ st) (fun h => ?_) fun h => ?_
  · rw [Logged.run_pure, List.append_nil] at h
    exact Bool.and_eq_false_iff.2 (h.imp_right fun h => hn (.inr h))
  · rw [Logged.run_pure, List.append_nil]
    rcases h with h | h
    · refine (Bool.and_eq_false_iff.1 h).imp_right fun h => ?_
      exact (he (.inl h)).resolve_left nofun
    · exact .inr ((he (.inr h)).resolve_left nofun)

lemma check {c : Store → Check} (hc : (c st.1).Tells true) : Tells true st (Validating.check c) := by
  have hc' : (c st.1).value = !hasError (c st.1).events := hc
  have hrun : Validating.check c st = ⟨((c st.1).value, st), (c st.1).events⟩ := by
    show (StateT.lift (c st.1) : Validating Bool) st = _
    rw [Logged.run_lift]
  refine .of_run hrun (fun h => ?_) fun h => ?_
  · rw [hc', h.resolve_left nofun, Bool.not_true]
  · exact .inr (h.imp_left fun h => by simpa [hc'] using h)

lemma within (l : Location) (hx : Tells before st x) : Tells before st (Validating.within l x) := by
  have herror : hasError (Validating.within l x st).events = hasError (x st).events :=
    Logged.failed_within l (x st)
  constructor <;> rw [herror]
  · exact hx.negative
  · exact hx.explained

/-- Nodes are validated one after the other. -/
lemma foldlM {depth : Nat} (hn : ∀ h st, Tells true st (node depth h)) (hs : List NodeHandle)
    (ok : Bool) (st : State) :
    Tells ok st (hs.foldlM (fun ok below => do
      let fine ← node depth below
      return ok && fine) ok) := by
  induction hs generalizing ok st with
  | nil => exact .pure ok
  | cons h r ih => exact .bind (.and (hn h st)) ih

/-- A node counts as valid while it is looked at, and gets its result after that. -/
lemma settle {s : Store} {v : Verdicts} (h : NodeHandle) (hx : Tells true (s, (h, true) :: v) x) :
    Tells true (s, v) (do
      record h true
      let ok ← x
      record h ok
      if ok then mark h
      return ok) := by
  obtain ⟨hn, he⟩ := hx
  have hrun : (do
      record h true
      let ok ← x
      record h ok
      if ok then mark h
      return ok : Validating Bool) (s, v) =
      ⟨Validating.settle h (x (s, (h, true) :: v)).value, (x (s, (h, true) :: v)).events⟩ := by
    refine Logged.ext (value_settle h _) ?_
    exact (congrArg _ (events_settle h _)).trans (List.append_nil _)
  refine .of_run hrun hn fun hd => .inr ?_
  -- the positive result with which the node is entered is no negative one
  have hv : Doubted ((h, true) :: v) → Doubted v := fun hd => (doubted_cons hd).resolve_left nofun
  have hd' := hd.imp_right doubted_cons
  rw [← or_assoc, or_self] at hd'
  exact ((he hd').resolve_left nofun).imp_right hv

end Tells

/-- A handle that reaches no node is reported, and a negative result that is there has been reported. -/
theorem tells_node (depth : Nat) (h : NodeHandle) (st : State) : Tells true st (node depth h) := by
  induction depth generalizing h st with
  | zero => exact .pure true
  | succ depth ih =>
    obtain ⟨s, v⟩ := st
    have hcongr : ∀ {x : Validating Bool}, node (depth + 1) h (s, v) = x (s, v) →
        Tells true (s, v) x → Tells true (s, v) (node (depth + 1) h) := by
      intro x e hx
      obtain ⟨hn, he⟩ := hx
      constructor <;> rwa [e]
    refine hcongr (node_succ depth h s v) ?_
    split
    · exact .check (.demand _ _ _)
    · next n _ =>
      split
      · exact .pure true
      · split
        · next ok hv =>
          refine .of_run (Logged.run_pure ok _) (fun h => h.elim nofun nofun) fun hd => ?_
          cases ok with
          | false => exact .inr (.inr ⟨h, hv⟩)
          | true => exact .inr (.inr (hd.resolve_left nofun))
        · refine .settle h (.within _ (.bind (.check (s.tells_checkNode h n)) fun sound st => ?_))
          exact .foldlM ih _ sound st

end Validating

namespace Store

open Validating

/-- A node that is marked has nothing to be done or reported. -/
lemma validate_of_isValidated {s : Store} {h : NodeHandle} (hv : s.isValidated h = true) :
    s.validate h = pure (true, s) := by
  have hnode : node (s.bound + 1) h (s, []) = ⟨(true, s, []), []⟩ := by
    rw [node_succ]
    unfold isValidated at hv
    cases hn : s.get? h with
    | none =>
      rw [hn] at hv
      cases hv
    | some n =>
      rw [hn] at hv
      simp only [show n.validated = true from hv, if_true]
      rfl
  have hevents : (s.validate h).events = (node (s.bound + 1) h (s, [])).events :=
    List.append_nil _
  refine Logged.ext ?_ ?_
  · show ((node (s.bound + 1) h (s, [])).value.1, (node (s.bound + 1) h (s, [])).value.2.1) = (true, s)
    rw [hnode]
  · rw [hevents, hnode]
    rfl

/-- Validation succeeds if and only if it reports no error. -/
lemma value_validate_iff (s : Store) (h : NodeHandle) :
    (s.validate h).value.1 = true ↔ hasError (s.validate h).events = false := by
  obtain ⟨hn, he⟩ := tells_node (s.bound + 1) h (s, [])
  have hevents : (s.validate h).events = (node (s.bound + 1) h (s, [])).events :=
    List.append_nil _
  have hvalue : (s.validate h).value.1 = (node (s.bound + 1) h (s, [])).value.1 := rfl
  have hnone : ¬ Doubted [] := fun ⟨_, hk⟩ => nomatch hk
  rw [hevents, hvalue]
  constructor
  · intro hok
    by_contra herror
    rw [hn (.inr (by simpa using herror))] at hok
    cases hok
  · intro herror
    by_contra hok
    rcases he (.inl (by simpa using hok)) with h | h | h
    · cases h
    · rw [herror] at h
      cases h
    · exact hnone h

/-- Whether a validation is asked for its result or for its first error, the answer is the same, and so are
the marks that it leaves: it succeeds if and only if it reports no error, and so does each check that it
makes. -/
theorem validated_eq_ok_iff_isValid (s : Store) (h : NodeHandle) :
    ((s.validated h).1 = .ok () ↔ (s.isValid h).1 = true) ∧
      (s.validated h).2 = (s.isValid h).2 ∧
      ((s.isValid h).1 = true ↔ hasError (s.validate h).events = false) ∧
      ∀ k n, (s.checkNode k n).value = true ↔ hasError (s.checkNode k n).events = false := by
  have hvalid : (s.isValid h).1 = true ↔ hasError (s.validate h).events = false :=
    s.value_validate_iff h
  refine ⟨?_, rfl, hvalid, fun k n => ?_⟩
  · rw [hvalid]
    have hok := Logged.toExcept_eq_ok_iff .structural (s.validate h)
    show ((s.validate h).toExcept .structural).map (fun _ => ()) = .ok () ↔ _
    cases hdone : (s.validate h).toExcept .structural with
    | ok a => exact iff_of_true rfl ((hok a).1 hdone).1
    | error f =>
      refine iff_of_false nofun fun herror => ?_
      rw [(hok _).2 ⟨herror, rfl⟩] at hdone
      cases hdone
  · have htells : (s.checkNode k n).value = !hasError (s.checkNode k n).events :=
      s.tells_checkNode k n
    rw [htells, Bool.not_eq_true']

end Store

end Semdoc
