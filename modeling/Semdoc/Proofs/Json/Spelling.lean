import Semdoc.Json.Printer
import Semdoc.Literal.Value
import Semdoc.Proofs.Text.Utf8

/-!
# Spellings of JSON values

The compact and the indented form differ in blanks only.  Both are one spelling of a value, given
the blanks that go before items and behind colons.
-/

namespace Semdoc.Json

open Literal (comma colon openBracket closeBracket openBrace closeBrace)

/-- The blanks of a written form. -/
structure Spacing where
  /-- The blanks before an item or a closing character at a level. -/
  gap : Nat → List UInt8
  /-- The blanks between a key and its value. -/
  afterColon : List UInt8
  blank_gap : ∀ level, ∀ b ∈ gap level, Text.isBlankByte b = true
  blank_afterColon : ∀ b ∈ afterColon, Text.isBlankByte b = true

namespace Spacing

/-- No blanks. -/
def none : Spacing where
  gap _ := []
  afterColon := []
  blank_gap _ _ hb := absurd hb List.not_mem_nil
  blank_afterColon _ hb := absurd hb List.not_mem_nil

lemma utf8Bytes_newLine (level : Nat) :
    Text.utf8Bytes (newLine level) = 10 :: List.replicate (2 * level) 32 := by
  have hspaces : (List.replicate (2 * level) ' ').flatMap String.utf8EncodeChar =
      List.replicate (2 * level) 32 := by
    induction 2 * level with
    | zero => rfl
    | succ n ih =>
      rw [List.replicate_succ, List.replicate_succ, List.flatMap_cons, ih]
      rfl
  have hbreak : Text.utf8Bytes "\n" = [10] := by
    rw [Text.utf8Bytes_eq]
    rfl
  rw [newLine, Text.utf8Bytes_append, hbreak, Text.utf8Bytes_ofList, hspaces]
  rfl

/-- A line for every item. -/
def lines : Spacing where
  gap level := Text.utf8Bytes (newLine level)
  afterColon := [32]
  blank_gap level b hb := by
    rw [utf8Bytes_newLine, List.mem_cons] at hb
    rcases hb with rfl | hb
    · rfl
    · rw [List.eq_of_mem_replicate hb]
      rfl
  blank_afterColon b hb := by
    rw [List.mem_singleton.1 hb]
    rfl

/-- The blanks of the compact and of the indented form. -/
def ofPretty (pretty : Bool) : Spacing := if pretty then lines else none

end Spacing

mutual

/-- The bytes of a value at a level. -/
def spell (s : Spacing) (level : Nat) : Json → List UInt8
  | array [] => [openBracket, closeBracket]
  | array (j :: r) =>
    openBracket :: (spellItems s (level + 1) (j :: r) ++ (s.gap level ++ [closeBracket]))
  | object [] => [openBrace, closeBrace]
  | object (e :: r) =>
    openBrace :: (spellEntries s (level + 1) (e :: r) ++ (s.gap level ++ [closeBrace]))
  | null => Text.utf8Bytes (scalarText null)
  | bool b => Text.utf8Bytes (scalarText (bool b))
  | integer i => Text.utf8Bytes (scalarText (integer i))
  | double d => Text.utf8Bytes (scalarText (double d))
  | string t => Text.utf8Bytes (scalarText (string t))

/-- The bytes of items. -/
def spellItems (s : Spacing) (level : Nat) : List Json → List UInt8
  | [] => []
  | [j] => s.gap level ++ spell s level j
  | j :: k :: r => s.gap level ++ (spell s level j ++ comma :: spellItems s level (k :: r))

/-- The bytes of entries. -/
def spellEntries (s : Spacing) (level : Nat) : List (String × Json) → List UInt8
  | [] => []
  | [(k, j)] =>
    s.gap level ++ (Text.utf8Bytes (quote k) ++ colon :: (s.afterColon ++ spell s level j))
  | (k, j) :: e :: r =>
    s.gap level ++ (Text.utf8Bytes (quote k) ++ colon :: (s.afterColon ++
      (spell s level j ++ comma :: spellEntries s level (e :: r))))

end

/-! ## The two forms -/

section Marks

open Text (utf8Bytes utf8Bytes_ofList)

@[simp] lemma utf8Bytes_openBracket : utf8Bytes "[" = [openBracket] := utf8Bytes_ofList ['[']

@[simp] lemma utf8Bytes_closeBracket : utf8Bytes "]" = [closeBracket] := utf8Bytes_ofList [']']

@[simp] lemma utf8Bytes_openBrace : utf8Bytes "\x7b" = [openBrace] := utf8Bytes_ofList ['\x7b']

@[simp] lemma utf8Bytes_closeBrace : utf8Bytes "\x7d" = [closeBrace] := utf8Bytes_ofList ['\x7d']

@[simp] lemma utf8Bytes_comma : utf8Bytes "," = [comma] := utf8Bytes_ofList [',']

@[simp] lemma utf8Bytes_colon : utf8Bytes ":" = [colon] := utf8Bytes_ofList [':']

@[simp] lemma utf8Bytes_colonSpace : utf8Bytes ": " = [colon, 32] := utf8Bytes_ofList [':', ' ']

@[simp] lemma utf8Bytes_empty : utf8Bytes "" = [] := utf8Bytes_ofList []

end Marks

mutual

/-- The compact form is the spelling without blanks. -/
lemma utf8Bytes_compact (level : Nat) : ∀ j, Text.utf8Bytes (compact j) = spell .none level j
  | array [] => by
    rw [compact, compactItems, spell, Text.utf8Bytes_append, Text.utf8Bytes_append]
    simp
  | array (j :: r) => by
    have ih := utf8Bytes_compactItems (level + 1) (j :: r)
    simp [compact, spell, Text.utf8Bytes_append, ih, Spacing.none]
  | object [] => by
    rw [compact, compactEntries, spell, Text.utf8Bytes_append, Text.utf8Bytes_append]
    simp
  | object (e :: r) => by
    have ih := utf8Bytes_compactEntries (level + 1) (e :: r)
    simp [compact, spell, Text.utf8Bytes_append, ih, Spacing.none]
  | null => by rw [compact, spell]
  | bool b => by rw [compact, spell]
  | integer i => by rw [compact, spell]
  | double d => by rw [compact, spell]
  | string t => by rw [compact, spell]

lemma utf8Bytes_compactItems (level : Nat) :
    ∀ items, Text.utf8Bytes (compactItems items) = spellItems .none level items
  | [] => by simp [compactItems, spellItems]
  | [j] => by
    have ih := utf8Bytes_compact level j
    simp [compactItems, spellItems, ih, Spacing.none]
  | j :: k :: r => by
    have ih := utf8Bytes_compact level j
    have ih' := utf8Bytes_compactItems level (k :: r)
    simp [compactItems, spellItems, Text.utf8Bytes_append, ih, ih', Spacing.none]

lemma utf8Bytes_compactEntries (level : Nat) :
    ∀ entries, Text.utf8Bytes (compactEntries entries) = spellEntries .none level entries
  | [] => by simp [compactEntries, spellEntries]
  | [(k, j)] => by
    have ih := utf8Bytes_compact level j
    simp [compactEntries, spellEntries, Text.utf8Bytes_append, ih, Spacing.none]
  | (k, j) :: e :: r => by
    have ih := utf8Bytes_compact level j
    have ih' := utf8Bytes_compactEntries level (e :: r)
    simp [compactEntries, spellEntries, Text.utf8Bytes_append, ih, ih', Spacing.none]

end

mutual

/-- The indented form is the spelling with a line for every item. -/
lemma utf8Bytes_indented (level : Nat) :
    ∀ j, Text.utf8Bytes (indented level j) = spell .lines level j
  | array [] => by
    rw [indented, spell]
    exact Text.utf8Bytes_ofList ['[', ']']
  | array (j :: r) => by
    have ih := utf8Bytes_indentedItems (level + 1) (j :: r)
    simp [indented, spell, Text.utf8Bytes_append, ih, Spacing.lines]
  | object [] => by
    rw [indented, spell]
    exact Text.utf8Bytes_ofList ['\x7b', '\x7d']
  | object (e :: r) => by
    have ih := utf8Bytes_indentedEntries (level + 1) (e :: r)
    simp [indented, spell, Text.utf8Bytes_append, ih, Spacing.lines]
  | null => by rw [indented, spell]
  | bool b => by rw [indented, spell]
  | integer i => by rw [indented, spell]
  | double d => by rw [indented, spell]
  | string t => by rw [indented, spell]

lemma utf8Bytes_indentedItems (level : Nat) :
    ∀ items, Text.utf8Bytes (indentedItems level items) = spellItems .lines level items
  | [] => by simp [indentedItems, spellItems]
  | [j] => by
    have ih := utf8Bytes_indented level j
    simp [indentedItems, spellItems, Text.utf8Bytes_append, ih, Spacing.lines]
  | j :: k :: r => by
    have ih := utf8Bytes_indented level j
    have ih' := utf8Bytes_indentedItems level (k :: r)
    simp [indentedItems, spellItems, Text.utf8Bytes_append, ih, ih', Spacing.lines]

lemma utf8Bytes_indentedEntries (level : Nat) :
    ∀ entries, Text.utf8Bytes (indentedEntries level entries) = spellEntries .lines level entries
  | [] => by simp [indentedEntries, spellEntries]
  | [(k, j)] => by
    have ih := utf8Bytes_indented level j
    simp [indentedEntries, spellEntries, Text.utf8Bytes_append, ih, Spacing.lines]
  | (k, j) :: e :: r => by
    have ih := utf8Bytes_indented level j
    have ih' := utf8Bytes_indentedEntries level (e :: r)
    simp [indentedEntries, spellEntries, Text.utf8Bytes_append, ih, ih', Spacing.lines]

end

/-- Either form is a spelling of the value. -/
theorem utf8Bytes_render (pretty : Bool) (j : Json) :
    Text.utf8Bytes (j.render pretty) = spell (.ofPretty pretty) 0 j := by
  cases pretty with
  | false => exact utf8Bytes_compact 0 j
  | true => exact utf8Bytes_indented 0 j

/-! ## Pieces of containers -/

/-- Pieces with commas between them, each behind the blanks of a level. -/
def listing (s : Spacing) (level : Nat) : List (List UInt8) → List UInt8
  | [] => []
  | [b] => s.gap level ++ b
  | b :: c :: r => s.gap level ++ (b ++ comma :: listing s level (c :: r))

/-- What stands between the delimiters of a container at a level. -/
def body (s : Spacing) (level : Nat) : List (List UInt8) → List UInt8
  | [] => []
  | b :: r => listing s (level + 1) (b :: r) ++ s.gap level

/-- The bytes of an entry. -/
def spellEntry (s : Spacing) (level : Nat) (e : String × Json) : List UInt8 :=
  Text.utf8Bytes (quote e.1) ++ colon :: (s.afterColon ++ spell s level e.2)

lemma spellItems_eq (s : Spacing) (level : Nat) :
    ∀ items, spellItems s level items = listing s level (items.map (spell s level))
  | [] => by rw [spellItems, List.map_nil, listing]
  | [j] => by rw [spellItems, List.map_cons, List.map_nil, listing]
  | j :: k :: r => by
    rw [spellItems, spellItems_eq s level (k :: r)]
    rfl

lemma spellEntries_eq (s : Spacing) (level : Nat) :
    ∀ entries, spellEntries s level entries = listing s level (entries.map (spellEntry s level))
  | [] => by rw [spellEntries, List.map_nil, listing]
  | [(k, j)] => by rw [spellEntries, List.map_cons, List.map_nil, listing, spellEntry]
  | (k, j) :: e :: r => by
    have hlisting : listing s level (((k, j) :: e :: r).map (spellEntry s level)) = s.gap level ++
        (spellEntry s level (k, j) ++ comma :: listing s level ((e :: r).map (spellEntry s level))) :=
      rfl
    rw [spellEntries, spellEntries_eq s level (e :: r), hlisting, spellEntry]
    simp only [List.append_assoc, List.cons_append]

lemma spell_array (s : Spacing) (level : Nat) (items : List Json) :
    spell s level (array items) =
      openBracket :: (body s level (items.map (spell s (level + 1))) ++ [closeBracket]) := by
  cases items with
  | nil => rw [spell, List.map_nil, body, List.nil_append]
  | cons j r => rw [spell, spellItems_eq, List.map_cons, body, List.append_assoc]

lemma spell_object (s : Spacing) (level : Nat) (entries : List (String × Json)) :
    spell s level (object entries) =
      openBrace :: (body s level (entries.map (spellEntry s (level + 1))) ++ [closeBrace]) := by
  cases entries with
  | nil => rw [spell, List.map_nil, body, List.nil_append]
  | cons e r => rw [spell, spellEntries_eq, List.map_cons, body, List.append_assoc]

end Semdoc.Json
