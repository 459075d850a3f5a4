import Semdoc.Double.Text
import Semdoc.Json.Basic

/-! # Writing JSON

A compact form without blanks, and an indented form with one item a line, two blanks of indent for
each level, and empty containers on one line.  Strings escape the quote, the backslash and control
characters only.
-/

namespace Semdoc.Json

/-- The lower-case hexadecimal digit of a number below sixteen. -/
def hexDigit (n : Nat) : Char :=
  if n < 10 then Char.ofNat (48 + n) else Char.ofNat (87 + n)

/-- How a character is written inside a string. -/
def escapeChar (c : Char) : List Char :=
  if c = '"' then ['\\', '"']
  else if c = '\\' then ['\\', '\\']
  else if c = '\x08' then ['\\', 'b']
  else if c = '\t' then ['\\', 't']
  else if c = '\n' then ['\\', 'n']
  else if c = '\x0c' then ['\\', 'f']
  else if c = '\r' then ['\\', 'r']
  else if c.toNat < 0x20 then
    ['\\', 'u', '0', '0', hexDigit (c.toNat / 16), hexDigit (c.toNat % 16)]
  else [c]

/-- A string in quotes. -/
def quote (s : String) : String :=
  String.ofList ('"' :: s.toList.flatMap escapeChar ++ ['"'])

/-- The text of everything but containers. -/
def scalarText : Json → String
  | bool true => "true"
  | bool false => "false"
  | integer i => toString i
  | double d => d.shortestText
  | string s => quote s
  | _ => "null"

mutual

/-- The compact form. -/
def compact : Json → String
  | array items => "[" ++ compactItems items ++ "]"
  | object entries => "\x7b" ++ compactEntries entries ++ "\x7d"
  | null => scalarText null
  | bool b => scalarText (bool b)
  | integer i => scalarText (integer i)
  | double d => scalarText (double d)
  | string s => scalarText (string s)

/-- Items with commas between them. -/
def compactItems : List Json → String
  | [] => ""
  | [j] => compact j
  | j :: k :: r => compact j ++ "," ++ compactItems (k :: r)

/-- Entries with commas between them. -/
def compactEntries : List (String × Json) → String
  | [] => ""
  | [(k, j)] => quote k ++ ":" ++ compact j
  | (k, j) :: e :: r => quote k ++ ":" ++ compact j ++ "," ++ compactEntries (e :: r)

end

/-- A new line with the indent of a level. -/
def newLine (level : Nat) : String :=
  "\n" ++ String.ofList (List.replicate (2 * level) ' ')

mutual

/-- The indented form of a value that stands at a level. -/
def indented (level : Nat) : Json → String
  | array [] => "[]"
  | array (j :: r) => "[" ++ indentedItems (level + 1) (j :: r) ++ newLine level ++ "]"
  | object [] => "\x7b\x7d"
  | object (e :: r) =>
    "\x7b" ++ indentedEntries (level + 1) (e :: r) ++ newLine level ++ "\x7d"
  | null => scalarText null
  | bool b => scalarText (bool b)
  | integer i => scalarText (integer i)
  | double d => scalarText (double d)
  | string s => scalarText (string s)

/-- Items, each on a line of its own. -/
def indentedItems (level : Nat) : List Json → String
  | [] => ""
  | [j] => newLine level ++ indented level j
  | j :: k :: r => newLine level ++ indented level j ++ "," ++ indentedItems level (k :: r)

/-- Entries, each on a line of its own. -/
def indentedEntries (level : Nat) : List (String × Json) → String
  | [] => ""
  | [(k, j)] => newLine level ++ quote k ++ ": " ++ indented level j
  | (k, j) :: e :: r =>
    newLine level ++ quote k ++ ": " ++ indented level j ++ ","
      ++ indentedEntries level (e :: r)

end

/-- The compact or the indented form. -/
def render (pretty : Bool) (j : Json) : String :=
  if pretty then indented 0 j else compact j

end Semdoc.Json
