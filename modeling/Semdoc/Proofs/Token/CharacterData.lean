import Semdoc.Proofs.Literal.NumberValue
import Semdoc.Proofs.Literal.Verdict
import Semdoc.Token

/-!
# Character data

Character data is read as the kind that is asked for.  What is reported while it is read is forgotten: one
error stands for all of it, and a substitute of the same kind for the value.
-/

namespace Semdoc

/-- The kind of the values that data of a kind becomes: what is asked for as a magic string becomes a plain
one. -/
def ValueKind.prepared : ValueKind → ValueKind
  | .magic => .string
  | kind => kind

lemma Entries.mem_of_get? {α : Type} {m : Entries α} {key : String} {a : α} (h : m.get? key = some a) :
    (key, a) ∈ m := by
  induction m with
  | nil => cases h
  | cons e m ih =>
    rw [get?] at h
    split at h
    · next hkey =>
      cases h
      rw [← eq_of_beq hkey]
      exact List.mem_cons_self
    · exact List.mem_cons_of_mem e (ih h)

namespace Literal

/-- A good value is of a kind. -/
def Fits (kind : ValueKind) (o : Outcome Value) : Prop := o.ok = true → o.value.kind = kind

variable {limits : Limits} {kind : ValueKind} {delims : List UInt8}

lemma fits_bad (v : Value) : Fits kind (.bad v) := nofun

lemma yields_readKeyword {words : Entries Value} (hwords : ∀ e ∈ words, e.2.kind = kind) (start : Nat)
    (substitute : Value) : (readKeyword kind delims start words substitute).Yields (Fits kind) := by
  refine .bind fun word => ?_
  cases hv : words.get? word with
  | none => exact .bind fun _ => .bind fun _ => .pure (fits_bad substitute)
  | some v => exact .pure fun _ => hwords _ (Entries.mem_of_get? hv)

/-- A container of the other kind is not good. -/
lemma yields_readTyped_container (hkind : kind = .array ∨ kind = .map) :
    (readTyped limits kind delims).Yields (Fits kind) := by
  refine .bind fun _ => .bind fun start => ?_
  obtain rfl | rfl := hkind
  all_goals
    refine .bind fun o => ?_
    split
    · next h =>
      refine .pure fun hok => ?_
      simpa [hok] using h
    · exact .bind fun _ => .bind fun _ => .pure (fits_bad o.value)

/-- A good value is of the kind that it is read as, for all kinds that have literals. -/
lemma yields_readTyped (hobject : kind ≠ .object) (hfunction : kind ≠ .function) :
    (readTyped limits kind delims).Yields (Fits kind.prepared) := by
  cases kind with
  | int | double => exact .bind fun _ => .bind fun _ => .bind fun _ => .pure fun _ => rfl
  | bool | null => exact .bind fun _ => .bind fun start => yields_readKeyword (by decide) start _
  | string | magic =>
    refine .bind fun _ => .bind fun _ => .bind fun c => ?_
    split
    · exact .bind fun _ => .pure fun _ => rfl
    · exact .bind fun _ => .pure fun _ => rfl
  | array => exact yields_readTyped_container (.inl rfl)
  | map => exact yields_readTyped_container (.inr rfl)
  | object => exact absurd rfl hobject
  | function => exact absurd rfl hfunction

end Literal

namespace TokenRegistry

/-- The value that a text is read as. -/
def valueIn (kind : ValueKind) (text : String) (source : UInt32) : Value :=
  (Literal.readTyped {} kind [] (.ofString text source)).value.1.value

/-- A text is data of a kind: what is read as a value of that kind is a good one, and nothing but blanks
follows. -/
def IsData (kind : ValueKind) (text : String) (source : UInt32) : Prop :=
  let done := (Literal.readTyped {} kind [] (.ofString text source)).value
  done.1.ok = true ∧ ∀ b ∈ (Text.utf8Bytes text).drop done.2.offset, Text.isBlankByte b = true

variable {r : TokenRegistry} {kind : ValueKind} {text : String} {l : Location} {source : UInt32}

instance : Decidable (IsData kind text source) := inferInstanceAs (Decidable (_ ∧ _))

lemma isData_iff :
    IsData kind text source ↔
      ((Literal.readTyped {} kind [] (.ofString text source)).value.1.ok &&
        !(Literal.readTyped {} kind [] (.ofString text source)).value.2.consumeWhitespace.1) = true := by
  have hon : ∃ q, (Literal.readTyped {} kind [] (.ofString text source)).value.2.On
      (Text.utf8Bytes text) q := (Literal.Form.typed kind []).read_on (CharReader.on_ofBytes _ source)
  obtain ⟨q, hq⟩ := hon
  rw [IsData, Bool.and_eq_true, Bool.not_eq_true', hq.consumeWhitespace_fst]

lemma kind_valueIn (hobject : kind ≠ .object) (hfunction : kind ≠ .function)
    (h : IsData kind text source) : (valueIn kind text source).kind = kind.prepared :=
  Literal.yields_readTyped hobject hfunction _ h.1

lemma kind_substituteOf (hobject : kind ≠ .object) (hfunction : kind ≠ .function) :
    (substituteOf kind).kind = kind.prepared := by
  cases kind with
  | object => exact absurd rfl hobject
  | function => exact absurd rfl hfunction
  | _ => rfl

/-! ## Preparing -/

lemma prepare_of_dataKind_none (hnone : r.dataKind = none) :
    r.prepare text l = ⟨.string (Text.normalize r.whitespace text), []⟩ := by
  rw [prepare, hnone]
  rfl

lemma prepare_of_isData (hkind : r.dataKind = some kind)
    (hdata : IsData kind (Text.normalize r.whitespace text) l.source) :
    r.prepare text l = ⟨valueIn kind (Text.normalize r.whitespace text) l.source, []⟩ := by
  rw [prepare, hkind]
  exact if_pos (isData_iff.1 hdata)

lemma prepare_of_not_isData (hkind : r.dataKind = some kind)
    (hdata : ¬ IsData kind (Text.normalize r.whitespace text) l.source) :
    r.prepare text l = ⟨substituteOf kind, [.message
      { severity := .error
        text := s!"Could not read \"{Text.normalize r.whitespace text}\" as {kind.name}"
        location := l }]⟩ := by
  rw [prepare, hkind]
  exact if_neg (mt isData_iff.2 hdata)

/-- Without a kind, character data stays text, with its blanks treated.  With a kind, it is read as a value
of that kind where that can be done, and then nothing is reported; otherwise one error is reported where the
data is, and a substitute takes its place.  Either way the value is of the kind, unless the kind has no
literals. -/
theorem prepare_settles (r : TokenRegistry) (text : String) (l : Location) :
    let s := Text.normalize r.whitespace text
    (r.dataKind = none → r.prepare text l = ⟨.string s, []⟩) ∧
      ∀ kind, r.dataKind = some kind →
        ((r.prepare text l).events = [] ∨
          (r.prepare text l).events = [.message
            { severity := .error
              text := s!"Could not read \"{s}\" as {kind.name}"
              location := l }]) ∧
        ((r.prepare text l).events = [] ↔ IsData kind s l.source) ∧
        (IsData kind s l.source → (r.prepare text l).value = valueIn kind s l.source) ∧
        (¬ IsData kind s l.source → (r.prepare text l).value = substituteOf kind) ∧
        (kind ≠ .object → kind ≠ .function → (r.prepare text l).value.kind = kind.prepared) := by
  refine ⟨prepare_of_dataKind_none, fun kind hkind => ?_⟩
  by_cases hdata : IsData kind (Text.normalize r.whitespace text) l.source
  · rw [prepare_of_isData hkind hdata]
    exact ⟨.inl rfl, iff_of_true rfl hdata, fun _ => rfl, fun h => absurd hdata h,
      fun hobject hfunction => kind_valueIn hobject hfunction hdata⟩
  · rw [prepare_of_not_isData hkind hdata]
    exact ⟨.inr rfl, iff_of_false nofun hdata, fun h => absurd h hdata, fun _ => rfl,
      kind_substituteOf⟩

theorem prepare_settles_mapForArray :
    let r : TokenRegistry := { dataKind := some .array }
    let text := " \x7ba = b\x7d "
    ¬ IsData .array (Text.normalize r.whitespace text) Location.unknown.source ∧
      (r.prepare text .unknown).value = .array [] ∧ (r.prepare text .unknown).value.kind = .array := by
  intro r text
  have hdata : ¬ IsData .array (Text.normalize r.whitespace text) Location.unknown.source := by
    decide +kernel
  obtain ⟨-, -, -, hvalue, hkind⟩ := (prepare_settles r text .unknown).2 .array rfl
  exact ⟨hdata, hvalue hdata, hkind nofun nofun⟩

end TokenRegistry

end Semdoc
