import Fibers.Document.Basic
import Fibers.Text.Shortest
/-!
# Writing a document as text

The compact JSON text of a document: no whitespace, object entries in their (ascending)
order, numbers in decimal with doubles in their shortest form, and strings escaped the
way the configuration reader's writer escapes them: the quote, the backslash and the
named control characters by a backslash letter, every other control character below
`U+0020` as `\u00xx` with lowercase hexadecimal digits, everything else as it is.
-/

namespace Fibers.Document

/-- A lowercase hexadecimal digit. -/
def hexDigit (n : Nat) : Char :=
  if n < 10 then Char.ofNat ('0'.toNat + n) else Char.ofNat ('a'.toNat + n - 10)

/-- The escaped form of one character inside a string literal. -/
def escapeChar (c : Char) : List Char :=
  if c = '"' then ['\\', '"']
  else if c = '\\' then ['\\', '\\']
  else if c = '\n' then ['\\', 'n']
  else if c = '\r' then ['\\', 'r']
  else if c = '\t' then ['\\', 't']
  else if c = '\x08' then ['\\', 'b']
  else if c = '\x0c' then ['\\', 'f']
  else if c.toNat < 0x20 then
    ['\\', 'u', '0', '0', hexDigit (c.toNat / 16), hexDigit (c.toNat % 16)]
  else [c]

/-- A string literal with its quotes. -/
def quote (s : String) : String :=
  String.ofList ('"' :: (s.toList.flatMap escapeChar ++ ['"']))

mutual
/-- The compact text of a document. -/
def render : Document → String
  | .null => "null"
  | .bool b => if b then "true" else "false"
  | .nat n => toString n
  | .neg n => toString n
  | .float bits => Shortest.render bits
  | .str s => quote s
  | .arr items => "[" ++ renderItems items ++ "]"
  | .obj entries => "\x7b" ++ renderEntries entries ++ "\x7d"

/-- Array elements separated by commas. -/
def renderItems : List Document → String
  | [] => ""
  | [d] => render d
  | d :: rest => render d ++ "," ++ renderItems rest

/-- Object entries separated by commas. -/
def renderEntries : List (String × Document) → String
  | [] => ""
  | [(k, v)] => quote k ++ ":" ++ render v
  | (k, v) :: rest => quote k ++ ":" ++ render v ++ "," ++ renderEntries rest
end

end Fibers.Document
