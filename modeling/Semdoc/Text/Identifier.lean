import Semdoc.Text.Blank

/-! # Identifiers, paths and user tokens

The lexical rules for names.  An identifier starts with an ASCII letter or an underscore; a path
is a sequence of components separated by dots; a user token is a piece of markup that neither
starts nor ends with a letter or digit and contains no blank.
-/

namespace Semdoc.Text

/-- ASCII letters. -/
def isLetter (c : Char) : Bool :=
  ('a' ≤ c && c ≤ 'z') || ('A' ≤ c && c ≤ 'Z')

/-- ASCII digits. -/
def isDigit (c : Char) : Bool :=
  '0' ≤ c && c ≤ '9'

/-- Characters that may start an identifier. -/
def isIdentifierStart (c : Char) : Bool :=
  isLetter c || c == '_'

/-- Characters that may continue an identifier. -/
def isIdentifierPart (c : Char) : Bool :=
  isLetter c || isDigit c || c == '_' || c == '-'

/-- Whether a list of characters is an identifier. -/
def isIdentifierChars : List Char → Bool
  | [] => false
  | c :: r => isIdentifierStart c && r.all isIdentifierPart

/-- Whether a text is an identifier. -/
def isIdentifier (s : String) : Bool :=
  isIdentifierChars s.toList

/-- Splits at every occurrence of a separator; there is always one piece more than separators. -/
def splitChars (sep : Char) : List Char → List (List Char)
  | [] => [[]]
  | c :: r =>
    if c == sep then [] :: splitChars sep r
    else
      match splitChars sep r with
      | [] => [[c]]
      | piece :: pieces => (c :: piece) :: pieces

/-- The components of a path. -/
def splitPath (s : String) : List String :=
  (splitChars '.' s.toList).map String.ofList

/-- A path with dots between its components. -/
def joinPath (path : List String) : String :=
  ".".intercalate path

/-- Whether a text is a dotted sequence of identifiers. -/
def isNamespacedIdentifier (s : String) : Bool :=
  s != "" && (splitChars '.' s.toList).all isIdentifierChars

/-- Markup of the native format that no user token may redefine. -/
def reservedMarkup : List String :=
  ["\\", "%", "%\x7b", "\x7d%", "\x7b!", "<\\", "\\>"]

/-- Whether a text may be used as a user token. -/
def isUserToken (s : String) : Bool :=
  match s.toList, s.toList.getLast? with
  | c :: _, some l =>
    let alnum := fun (c : Char) => isLetter c || isDigit c
    !alnum c && !alnum l && !reservedMarkup.contains s && !s.toList.any isBlank
      && s.toList.any fun c => c != '\x7b' && c != '\x7d'
  | _, _ => false

end Semdoc.Text
