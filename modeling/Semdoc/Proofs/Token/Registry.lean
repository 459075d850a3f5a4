import Mathlib.Algebra.Group.Nat.Defs
import Mathlib.Data.List.Induction
import Mathlib.Data.List.Infix
import Mathlib.Tactic.Lemma
import Semdoc.Token

/-!
# Registered tokens

A registry goes both ways between tokens and numbers, and knows how often each token is wanted.  Numbers
are given out in order, so that one which has been given back is never given out again, and nobody who
still holds it meets another token under it.
-/

namespace Semdoc

namespace Table

variable {κ α : Type} [DecidableEq κ]

lemma lookup_erase (key k : κ) (m : Table κ α) :
    (m.erase key).lookup k = if k = key then none else m.lookup k := by
  induction m with
  | nil => simp [erase]
  | cons e m ih =>
    obtain ⟨i, a⟩ := e
    rw [erase, List.filter_cons, List.lookup_cons]
    by_cases hi : i = key
    · subst hi
      rw [bne_self_eq_false, if_neg Bool.false_ne_true, ← erase, ih]
      split
      · rfl
      · next hk => rw [beq_false_of_ne hk]
    · rw [if_pos (bne_iff_ne.2 hi), List.lookup_cons, ← erase, ih]
      split
      · next hk =>
        rw [if_neg]
        rw [eq_of_beq hk]
        exact hi
      · rfl

lemma lookup_put (key k : κ) (a : α) (m : Table κ α) :
    (m.put key a).lookup k = if k = key then some a else m.lookup k := by
  rw [put, List.lookup_cons, lookup_erase]
  split
  · next hk => rw [if_pos (eq_of_beq hk)]
  · next hk => rw [if_neg (ne_of_beq_false hk), if_neg (ne_of_beq_false hk)]

section Entries

variable {P : κ → α → Prop} {m : Table κ α} {key : κ} {a : α}

/-- What holds of all entries holds after one has been put there. -/
lemma forall_put (h : ∀ k b, m.lookup k = some b → P k b) (ha : P key a) :
    ∀ k b, (m.put key a).lookup k = some b → P k b := by
  intro k b hb
  rw [lookup_put] at hb
  split at hb
  · next hk =>
    cases hb
    exact hk ▸ ha
  · exact h k b hb

/-- What holds of all entries holds after one has been dropped. -/
lemma forall_erase (h : ∀ k b, m.lookup k = some b → P k b) :
    ∀ k b, (m.erase key).lookup k = some b → P k b := by
  intro k b hb
  rw [lookup_erase] at hb
  split at hb
  · cases hb
  · exact h k b hb

end Entries

end Table

/-- What is done with the tokens of a registry. -/
inductive TokenOp where
  | register (text : String)
  | unregister (id : TokenId)
  deriving DecidableEq

namespace TokenRegistry

/-- The registry after an operation. -/
def perform (r : TokenRegistry) : TokenOp → TokenRegistry
  | .register text => (r.register text).2
  | .unregister id => r.unregister id

/-- The registry after some operations on an empty one. -/
def after (ops : List TokenOp) : TokenRegistry := ops.foldl perform {}

/-- Whether an operation registers a token that is not registered. -/
def isFirst (r : TokenRegistry) : TokenOp → Bool
  | .register text => (r.idOf? text).isNone
  | .unregister _ => false

/-- The number of operations that register a token which is not registered then. -/
def firstsFrom (r : TokenRegistry) : List TokenOp → Nat
  | [] => 0
  | op :: ops => (r.isFirst op).toNat + firstsFrom (r.perform op) ops

/-- How often a token is registered for the first time, or again after it was dropped. -/
def firsts (ops : List TokenOp) : Nat := firstsFrom {} ops

/-- A number has been given out in the course of some operations. -/
def Issued (ops : List TokenOp) (id : TokenId) : Prop :=
  ∃ before text rest, ops = before ++ .register text :: rest ∧ ((after before).register text).1 = id

/-- Where the last absence of a token ends: `before` leaves it absent, it is registered then, and it is
registered all through `rest`, up to the last of these operations. -/
structure Since (text : String) (before rest : List TokenOp) : Prop where
  absent : (after before).idOf? text = none
  kept : ∀ p, p <+: rest → p ≠ rest →
    ((after (before ++ .register text :: p)).idOf? text).isSome = true

variable {r : TokenRegistry} {text s : String} {id i : TokenId} {t : RegisteredToken}
  {op : TokenOp} {ops before rest : List TokenOp}

lemma after_append (ops rest : List TokenOp) : after (ops ++ rest) = rest.foldl perform (after ops) :=
  List.foldl_append

lemma after_concat (ops : List TokenOp) (op : TokenOp) :
    after (ops ++ [op]) = (after ops).perform op := after_append ops [op]

lemma firstsFrom_append (r : TokenRegistry) (ops rest : List TokenOp) :
    firstsFrom r (ops ++ rest) = firstsFrom r ops + firstsFrom (ops.foldl perform r) rest := by
  induction ops generalizing r with
  | nil => exact (Nat.zero_add _).symm
  | cons op ops ih => rw [List.cons_append, firstsFrom, firstsFrom, ih, List.foldl_cons, Nat.add_assoc]

lemma firsts_append (ops rest : List TokenOp) :
    firsts (ops ++ rest) = firsts ops + firstsFrom (after ops) rest := firstsFrom_append {} ops rest

lemma firsts_concat (ops : List TokenOp) (op : TokenOp) :
    firsts (ops ++ [op]) = firsts ops + ((after ops).isFirst op).toNat := firsts_append ops [op]

/-! ## What an operation does -/

/-- A token that is registered keeps its number and is wanted once more. -/
lemma register_of_some (hid : r.idOf? text = some id) (ht : r.token? id = some t) :
    r.register text = (id, { r with tokens := r.tokens.put id { t with count := t.count + 1 } }) := by
  simp only [register, hid, ht]

/-- A token that is not registered gets the next number. -/
lemma register_of_none (h : r.idOf? text = none) :
    r.register text = (r.nextId, { r with
      ids := r.ids.put text r.nextId
      tokens := r.tokens.put r.nextId { text, count := 1 }
      nextId := r.nextId + 1 }) := by
  simp only [register, h]

lemma unregister_of_none (h : r.token? id = none) : r.unregister id = r := by
  simp only [unregister, h]

/-- A token that is wanted more than once stays. -/
lemma unregister_of_lt (ht : r.token? id = some t) (h : 1 < t.count) :
    r.unregister id = { r with tokens := r.tokens.put id { t with count := t.count - 1 } } := by
  simp only [unregister, ht, if_neg (Nat.not_le.2 h)]

/-- A token that is wanted only once is dropped in both directions. -/
lemma unregister_of_le (ht : r.token? id = some t) (h : t.count ≤ 1) :
    r.unregister id = { r with tokens := r.tokens.erase id, ids := r.ids.erase t.text } := by
  simp only [unregister, ht, if_pos h]

/-! ## Pairs of tokens and numbers -/

/-- So many numbers have been given out, and tokens and numbers go together. -/
structure Paired (r : TokenRegistry) (n : Nat) : Prop where
  next : r.nextId.toNat = n
  paired : ∀ text id, r.idOf? text = some id ↔ r.textOf? id = some text
  entries : ∀ id t, r.token? id = some t → id.toNat < n ∧ 0 < t.count

namespace Paired

variable {n : Nat} (h : r.Paired n)
include h

lemma exists_token (hid : r.idOf? text = some id) : ∃ t, r.token? id = some t ∧ t.text = text :=
  Option.map_eq_some_iff.1 ((h.paired text id).1 hid)

lemma idOf?_text (ht : r.token? id = some t) : r.idOf? t.text = some id := by
  rw [h.paired, textOf?, ht, Option.map_some]

lemma textOf?_nextId : r.textOf? r.nextId = none := by
  cases ht : r.token? r.nextId with
  | none => rw [textOf?, ht, Option.map_none]
  | some t =>
    have hlt := (h.entries _ t ht).1
    rw [h.next] at hlt
    exact absurd hlt (Nat.lt_irrefl n)

/-- The number of times that a token is wanted changes. -/
lemma recount (ht : r.token? id = some t) {count : Nat} (hc : 0 < count) :
    ({ r with tokens := r.tokens.put id { t with count } } : TokenRegistry).Paired n := by
  refine ⟨h.next, fun s k => ?_, Table.forall_put h.entries ⟨(h.entries id t ht).1, hc⟩⟩
  show r.idOf? s = some k ↔ ((r.tokens.put id { t with count }).lookup k).map (·.text) = some s
  rw [h.paired, textOf?, Table.lookup_put]
  split
  · next hk => rw [hk, ht, Option.map_some, Option.map_some]
  · rfl

/-- A token and its number are added. -/
lemma add (hn : n + 1 < 2 ^ 32) (hid : r.idOf? text = none) : (r.register text).2.Paired (n + 1) := by
  have hnext := h.next
  have hfree := h.textOf?_nextId
  rw [register_of_none hid]
  refine ⟨?_, fun s k => ?_, Table.forall_put (fun k u hu => ?_) ⟨?_, Nat.one_pos⟩⟩
  · show (r.nextId + 1).toNat = n + 1
    rw [UInt32.toNat_add, hnext]
    exact Nat.mod_eq_of_lt hn
  · have hold : r.idOf? s = some k ↔ (r.token? k).map (·.text) = some s := h.paired s k
    show (r.ids.put text r.nextId).lookup s = some k ↔
      ((r.tokens.put r.nextId { text, count := 1 }).lookup k).map (·.text) = some s
    rw [Table.lookup_put, Table.lookup_put]
    by_cases hs : s = text
    · by_cases hk : k = r.nextId
      · simp [hs, hk]
      · rw [if_pos hs, if_neg hk, ← token?, ← hold, hs, hid]
        simp [Ne.symm hk]
    · by_cases hk : k = r.nextId
      · rw [if_neg hs, if_pos hk, ← idOf?, hold, hk, ← textOf?, hfree]
        simp [Ne.symm hs]
      · rw [if_neg hs, if_neg hk]
        exact hold
  · exact ⟨Nat.lt_succ_of_lt (h.entries k u hu).1, (h.entries k u hu).2⟩
  · rw [hnext]
    exact Nat.lt_succ_self n

/-- A token and its number are dropped. -/
lemma drop (ht : r.token? id = some t) :
    ({ r with tokens := r.tokens.erase id, ids := r.ids.erase t.text } : TokenRegistry).Paired n := by
  have hid := h.idOf?_text ht
  refine ⟨h.next, fun s k => ?_, Table.forall_erase h.entries⟩
  have hold : r.idOf? s = some k ↔ (r.token? k).map (·.text) = some s := h.paired s k
  show (r.ids.erase t.text).lookup s = some k ↔
    ((r.tokens.erase id).lookup k).map (·.text) = some s
  rw [Table.lookup_erase, Table.lookup_erase]
  by_cases hs : s = t.text
  · by_cases hk : k = id
    · simp [hs, hk]
    · rw [if_pos hs, if_neg hk, ← token?, ← hold, hs, hid]
      simp [Ne.symm hk]
  · by_cases hk : k = id
    · rw [if_neg hs, if_pos hk, ← idOf?, hold, hk, ht]
      simp [Ne.symm hs]
    · rw [if_neg hs, if_neg hk]
      exact hold

/-- Every operation keeps tokens and numbers together. -/
lemma perform (op : TokenOp) (hn : n + (r.isFirst op).toNat < 2 ^ 32) :
    (r.perform op).Paired (n + (r.isFirst op).toNat) := by
  cases op with
  | register text =>
    show (r.register text).2.Paired (n + (r.idOf? text).isNone.toNat)
    cases hid : r.idOf? text with
    | none =>
      rw [isFirst, hid] at hn
      exact h.add hn hid
    | some id =>
      obtain ⟨t, ht, -⟩ := h.exists_token hid
      rw [register_of_some hid ht]
      exact h.recount ht (Nat.succ_pos _)
  | unregister id =>
    show (r.unregister id).Paired n
    cases ht : r.token? id with
    | none =>
      rw [unregister_of_none ht]
      exact h
    | some t =>
      rcases Nat.lt_or_ge 1 t.count with hc | hc
      · rw [unregister_of_lt ht hc]
        exact h.recount ht (Nat.sub_pos_of_lt hc)
      · rw [unregister_of_le ht hc]
        exact h.drop ht

end Paired

lemma paired_after (ops : List TokenOp) (h : firsts ops < 2 ^ 32) : (after ops).Paired (firsts ops) := by
  induction ops using List.reverseRecOn with
  | nil => exact ⟨rfl, fun _ _ => ⟨nofun, nofun⟩, nofun⟩
  | append_singleton ops op ih =>
    rw [firsts_concat] at h
    rw [after_concat, firsts_concat]
    exact (ih (Nat.lt_of_le_of_lt (Nat.le_add_right _ _) h)).perform op h

/-! ## Numbers that are given out -/

/-- A number that is given out is one of those that have been given out before, or the next one. -/
lemma Paired.register_lt {n : Nat} (h : r.Paired n) (text : String) :
    (r.register text).1.toNat < n + (r.isFirst (.register text)).toNat := by
  rw [isFirst]
  cases hid : r.idOf? text with
  | none =>
    rw [register_of_none hid, h.next]
    exact Nat.lt_succ_self n
  | some id =>
    obtain ⟨t, ht, -⟩ := h.exists_token hid
    rw [register_of_some hid ht]
    exact (h.entries id t ht).1

/-- The numbers that have been given out are the first ones. -/
lemma Issued.toNat_lt (h : Issued ops id) (hn : firsts ops < 2 ^ 32) : id.toNat < firsts ops := by
  obtain ⟨before, text, rest, rfl, rfl⟩ := h
  rw [List.append_cons] at hn ⊢
  rw [firsts_append, firsts_concat] at hn ⊢
  have hlt := (paired_after before (by omega)).register_lt text
  omega

/-! ## How often tokens are wanted -/

/-- How often a token is wanted. -/
def wanted (r : TokenRegistry) (text : String) : Nat :=
  ((r.idOf? text).bind r.token?).elim 0 (·.count)

lemma wanted_of_none (h : r.idOf? text = none) : r.wanted text = 0 := by
  rw [wanted, h]
  rfl

lemma wanted_of_some (hid : r.idOf? text = some id) (ht : r.token? id = some t) :
    r.wanted text = t.count := by
  rw [wanted, hid, Option.bind_some, ht]
  rfl

/-- A new count is that of the token with the number, and of no other. -/
lemma wanted_recount (id : TokenId) (t : RegisteredToken) (text : String) :
    ({ r with tokens := r.tokens.put id t } : TokenRegistry).wanted text =
      if r.idOf? text = some id then t.count else r.wanted text := by
  show ((r.idOf? text).bind fun k => (r.tokens.put id t).lookup k).elim 0 (·.count) = _
  cases hid : r.idOf? text with
  | none => rw [wanted_of_none hid, if_neg nofun, Option.bind_none, Option.elim_none]
  | some k =>
    rw [Option.bind_some, Table.lookup_put, wanted, hid, Option.bind_some]
    by_cases hk : k = id
    · rw [if_pos hk, if_pos (congrArg some hk), Option.elim_some]
    · rw [if_neg hk, if_neg fun e => hk (Option.some.inj e), token?]

namespace Paired

variable {n : Nat} (h : r.Paired n)
include h

/-- Exactly the registered tokens are wanted. -/
lemma wanted_pos_iff : 0 < r.wanted text ↔ (r.idOf? text).isSome = true := by
  cases hid : r.idOf? text with
  | none => rw [wanted_of_none hid, Option.isSome_none]; exact ⟨nofun, nofun⟩
  | some id =>
    obtain ⟨t, ht, -⟩ := h.exists_token hid
    rw [wanted_of_some hid ht, Option.isSome_some]
    exact ⟨fun _ => rfl, fun _ => (h.entries id t ht).2⟩

/-- Two tokens do not have the same number. -/
lemma idOf?_eq_iff (hid : r.idOf? s = some id) : r.idOf? text = some id ↔ text = s := by
  refine ⟨fun e => ?_, fun e => e ▸ hid⟩
  rw [h.paired] at hid e
  exact Option.some.inj (e.symm.trans hid)

lemma idOf?_ne_nextId : r.idOf? text ≠ some r.nextId := by
  rw [ne_eq, h.paired, h.textOf?_nextId]
  exact nofun

/-- The token that is registered is wanted once more. -/
lemma wanted_register (s text : String) :
    (r.register s).2.wanted text = r.wanted text + if s = text then 1 else 0 := by
  cases hid : r.idOf? s with
  | some id =>
    obtain ⟨t, ht, -⟩ := h.exists_token hid
    rw [register_of_some hid ht, wanted_recount]
    by_cases hs : s = text
    · subst hs
      rw [if_pos hid, if_pos rfl, wanted_of_some hid ht]
    · rw [if_neg hs, if_neg]
      · rfl
      · rw [h.idOf?_eq_iff hid]
        exact Ne.symm hs
  | none =>
    rw [register_of_none hid]
    show (((r.ids.put s r.nextId).lookup text).bind fun k =>
      (r.tokens.put r.nextId { text := s, count := 1 }).lookup k).elim 0 (·.count) = _
    rw [Table.lookup_put]
    by_cases hs : text = s
    · subst hs
      rw [if_pos rfl, Option.bind_some, Table.lookup_put, if_pos rfl, if_pos rfl, wanted_of_none hid]
      rfl
    · rw [if_neg hs, if_neg (Ne.symm hs), Nat.add_zero, ← idOf?]
      have hput := wanted_recount (r := r) r.nextId { text := s, count := 1 } text
      rw [if_neg h.idOf?_ne_nextId] at hput
      exact hput

/-- The token whose number is given back is wanted once less. -/
lemma wanted_unregister (id : TokenId) (text : String) :
    (r.unregister id).wanted text =
      r.wanted text - if r.idOf? text = some id then 1 else 0 := by
  cases ht : r.token? id with
  | none =>
    rw [unregister_of_none ht, if_neg, Nat.sub_zero]
    intro hid
    obtain ⟨t, ht', -⟩ := h.exists_token hid
    rw [ht] at ht'
    cases ht'
  | some t =>
    have hid := h.idOf?_text ht
    rcases Nat.lt_or_ge 1 t.count with hc | hc
    · rw [unregister_of_lt ht hc, wanted_recount]
      split
      · next e => rw [wanted_of_some e ht]
      · rfl
    · rw [unregister_of_le ht hc]
      simp only [h.idOf?_eq_iff hid]
      show (((r.ids.erase t.text).lookup text).bind fun k =>
        (r.tokens.erase id).lookup k).elim 0 (·.count) = _
      rw [Table.lookup_erase]
      by_cases hs : text = t.text
      · rw [if_pos hs, if_pos hs, hs, wanted_of_some hid ht, Nat.sub_eq_zero_of_le hc]
        rfl
      · rw [if_neg hs, if_neg hs, Nat.sub_zero, ← idOf?, wanted]
        cases hk : r.idOf? text with
        | none => rfl
        | some k =>
          have hne : k ≠ id := by
            rintro rfl
            exact hs ((h.idOf?_eq_iff hid).1 hk)
          rw [Option.bind_some, Table.lookup_erase, if_neg hne, Option.bind_some, token?]

/-- As long as a token is registered, it has the same number. -/
lemma idOf?_perform (hid : r.idOf? text = some id) (op : TokenOp) :
    (r.perform op).idOf? text = some id ∨ (r.perform op).idOf? text = none := by
  cases op with
  | register s =>
    show (r.register s).2.idOf? text = some id ∨ _
    cases hs : r.idOf? s with
    | some k =>
      obtain ⟨t, ht, -⟩ := h.exists_token hs
      rw [register_of_some hs ht]
      exact .inl hid
    | none =>
      have hne : text ≠ s := by
        rintro rfl
        rw [hid] at hs
        cases hs
      rw [register_of_none hs]
      refine .inl ((Table.lookup_put _ _ _ _).trans ?_)
      rw [if_neg hne]
      exact hid
  | unregister k =>
    show (r.unregister k).idOf? text = some id ∨ (r.unregister k).idOf? text = none
    cases ht : r.token? k with
    | none =>
      rw [unregister_of_none ht]
      exact .inl hid
    | some t =>
      rcases Nat.lt_or_ge 1 t.count with hc | hc
      · rw [unregister_of_lt ht hc]
        exact .inl hid
      · rw [unregister_of_le ht hc]
        show (r.ids.erase t.text).lookup text = some id ∨ (r.ids.erase t.text).lookup text = none
        rw [Table.lookup_erase]
        split
        · exact .inr rfl
        · exact .inl hid

end Paired

/-! ## Since a token was last absent -/

lemma Since.of_concat (h : Since text before (rest ++ [op])) :
    Since text before rest ∧
      ((after (before ++ .register text :: rest)).idOf? text).isSome = true := by
  refine ⟨⟨h.absent, fun p hp _ => h.kept p (hp.trans (List.prefix_append _ _)) ?_⟩,
    h.kept rest (List.prefix_append _ _) ?_⟩
  · rintro rfl
    have hlen := hp.length_le
    rw [List.length_append] at hlen
    exact Nat.not_succ_le_self _ hlen
  · intro e
    have hlen := congrArg List.length e
    rw [List.length_append] at hlen
    exact Nat.succ_ne_self _ hlen.symm

/-- Since a token was last absent it has had one number, and it is wanted as often as it has been
registered and not been given back. -/
lemma Since.balance (h : Since text before rest)
    (hn : firsts (before ++ .register text :: rest) < 2 ^ 32) :
    ((after (before ++ .register text :: rest)).idOf? text = some ((after before).register text).1 ∨
        (after (before ++ .register text :: rest)).idOf? text = none) ∧
      (after (before ++ .register text :: rest)).wanted text +
          rest.count (.unregister ((after before).register text).1) =
        rest.count (.register text) + 1 := by
  induction rest using List.reverseRecOn with
  | nil =>
    have hb : firsts before < 2 ^ 32 := by
      rw [firsts_append] at hn
      omega
    have hw := (paired_after before hb).wanted_register text text
    rw [wanted_of_none h.absent, if_pos rfl] at hw
    rw [after_concat]
    refine ⟨.inl ?_, hw⟩
    show ((after before).register text).2.idOf? text = _
    rw [register_of_none h.absent]
    exact (Table.lookup_put _ _ _ _).trans (if_pos rfl)
  | append_singleton rest op ih =>
    obtain ⟨hs, hpresent⟩ := h.of_concat
    rw [← List.cons_append, ← List.append_assoc] at hn ⊢
    have hm : firsts (before ++ .register text :: rest) < 2 ^ 32 := by
      rw [firsts_concat] at hn
      omega
    obtain ⟨hid, hw⟩ := ih hs hm
    have hr := paired_after _ hm
    rw [← hr.wanted_pos_iff] at hpresent
    have hid' := hid.resolve_right fun e => by rw [wanted_of_none e] at hpresent; cases hpresent
    rw [after_concat, List.count_append, List.count_append, List.count_singleton,
      List.count_singleton]
    refine ⟨hr.idOf?_perform hid' op, ?_⟩
    cases op with
    | register s =>
      show ((after _).register s).2.wanted text + _ = _
      rw [hr.wanted_register]
      simp only [beq_iff_eq, reduceCtorEq, if_false, TokenOp.register.injEq]
      omega
    | unregister k =>
      show ((after _).unregister k).wanted text + _ = _
      rw [hr.wanted_unregister, hid']
      simp only [beq_iff_eq, reduceCtorEq, if_false, TokenOp.unregister.injEq, Option.some_inj,
        eq_comm (a := k)]
      split <;> omega

/-- A token that is absent comes back only when it is registered. -/
lemma Paired.eq_register {n : Nat} (h : r.Paired n) (hn : n + (r.isFirst op).toNat < 2 ^ 32)
    (hold : r.idOf? text = none) (hnew : ((r.perform op).idOf? text).isSome = true) :
    op = .register text := by
  rw [← (h.perform op hn).wanted_pos_iff] at hnew
  have hzero := wanted_of_none hold
  cases op with
  | register s =>
    change 0 < (r.register s).2.wanted text at hnew
    rw [h.wanted_register, hzero] at hnew
    by_contra hne
    rw [if_neg fun e => hne (congrArg TokenOp.register e)] at hnew
    cases hnew
  | unregister k =>
    change 0 < (r.unregister k).wanted text at hnew
    rw [h.wanted_unregister, hzero, Nat.zero_sub] at hnew
    cases hnew

/-- A token that is registered has been absent before, and registered since. -/
lemma exists_since (hn : firsts ops < 2 ^ 32) (h : ((after ops).idOf? text).isSome = true) :
    ∃ before rest, ops = before ++ .register text :: rest ∧ Since text before rest := by
  induction ops using List.reverseRecOn with
  | nil => cases h
  | append_singleton ops op ih =>
    rw [firsts_concat] at hn
    have hm := Nat.lt_of_le_of_lt (Nat.le_add_right _ _) hn
    cases hold : (after ops).idOf? text with
    | some id =>
      obtain ⟨before, rest, rfl, hs⟩ := ih hm (by rw [hold]; rfl)
      refine ⟨before, rest ++ [op], by simp, hs.absent, fun p hp hne => ?_⟩
      rcases List.prefix_concat_iff.1 hp with e | hp
      · exact absurd e hne
      · by_cases e : p = rest
        · rw [e, hold]
          rfl
        · exact hs.kept p hp e
    | none =>
      rw [after_concat] at h
      have hop := (paired_after ops hm).eq_register hn hold h
      exact ⟨ops, [], by rw [hop], hold, fun p hp hne => absurd (List.prefix_nil.1 hp) hne⟩

/-- A token is registered exactly if, since it was last absent, it has been registered more often than
its number has been given back. -/
lemma isSome_idOf?_iff (hn : firsts ops < 2 ^ 32) :
    ((after ops).idOf? text).isSome = true ↔ ∃ before rest, ops = before ++ .register text :: rest ∧
      Since text before rest ∧ rest.count (.unregister ((after before).register text).1) <
        (TokenOp.register text :: rest).count (.register text) := by
  rw [← (paired_after ops hn).wanted_pos_iff]
  constructor
  · intro h
    obtain ⟨before, rest, rfl, hs⟩ := exists_since hn ((paired_after ops hn).wanted_pos_iff.1 h)
    have hb := (hs.balance hn).2
    refine ⟨before, rest, rfl, hs, ?_⟩
    rw [List.count_cons_self]
    omega
  · rintro ⟨before, rest, rfl, hs, hlt⟩
    have hb := (hs.balance hn).2
    rw [List.count_cons_self] at hlt
    omega

/-- In the course of any operations that are not too many, tokens and numbers stay inverse to each other,
and a token is registered exactly if, since it was last absent, it has been registered more often than its
number has been given back.  Registering a token again gives its number; registering one that is absent
gives a number that nobody has been given before; and no number that is given out is a reserved one. -/
theorem tokens_stay_paired (ops : List TokenOp) (hn : firsts ops < 2 ^ 32 - 7) :
    (∀ text id, (after ops).idOf? text = some id ↔ (after ops).textOf? id = some text) ∧
      (∀ text, ((after ops).idOf? text).isSome = true ↔
        ∃ before rest, ops = before ++ .register text :: rest ∧ Since text before rest ∧
          rest.count (.unregister ((after before).register text).1) <
            (TokenOp.register text :: rest).count (.register text)) ∧
      (∀ text id, (after ops).idOf? text = some id → ((after ops).register text).1 = id) ∧
      (∀ text, (after ops).idOf? text = none → ¬ Issued ops ((after ops).register text).1) ∧
      ∀ id, Issued ops id → id.isReserved = false := by
  have hn' : firsts ops < 2 ^ 32 := by omega
  have h := paired_after ops hn'
  refine ⟨h.paired, fun text => isSome_idOf?_iff hn', fun text id hid => ?_, fun text hid hi => ?_,
    fun id hi => ?_⟩
  · obtain ⟨t, ht, -⟩ := h.exists_token hid
    rw [register_of_some hid ht]
  · have hlt := hi.toNat_lt hn'
    rw [register_of_none hid, h.next] at hlt
    exact Nat.lt_irrefl _ hlt
  · have hlt := hi.toNat_lt hn'
    rw [TokenId.isReserved, decide_eq_false_iff_not, UInt32.le_iff_toNat_le]
    show ¬ 4294967289 ≤ id.toNat
    omega

/-- Two tokens are registered, one of them twice, and the other one is given back and comes again with a
new number; numbers that are stale or have never been given out are given back without effect. -/
theorem tokens_stay_paired_returningToken :
    let ops : List TokenOp := [.register "**", .register "__", .register "**", .unregister 1,
      .unregister 1, .unregister 0, .unregister 7, .register "__"]
    firsts ops < 2 ^ 32 - 7 ∧
      (∀ text id, (after ops).idOf? text = some id ↔ (after ops).textOf? id = some text) ∧
      ((after ops).register "**").1 = 0 ∧ ((after ops).register "__").1 = 2 ∧
      ¬ Issued ops ((after ops).register "//").1 := by
  intro ops
  have hn : firsts ops < 2 ^ 32 - 7 := by decide
  obtain ⟨hpaired, -, hpresent, habsent, -⟩ := tokens_stay_paired ops hn
  exact ⟨hn, hpaired, hpresent "**" 0 (by decide), hpresent "__" 2 (by decide),
    habsent "//" (by decide)⟩

end TokenRegistry

end Semdoc
