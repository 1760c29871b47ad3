import Fibers.Text.Printable
/-!
# Quoted strings in messages

Messages show a string between double quotes: the quote, the backslash, the tab, the
carriage return, the line feed and NUL by a backslash letter, every other character that
`shownAsIs` rejects by `\u{hex}` with lowercase digits, and every other character as it
is.
-/

namespace Fibers.Text

/-- The digits of a number in lowercase hexadecimal. -/
def hexDigits (n : Nat) : String := String.ofList (Nat.toDigits 16 n)

/-- The shown form of one character. -/
def escapeShown (c : Char) : String :=
  if c = '"' then "\\\""
  else if c = '\\' then "\\\\"
  else if c = '\t' then "\\t"
  else if c = '\r' then "\\r"
  else if c = '\n' then "\\n"
  else if c = '\x00' then "\\0"
  else if shownAsIs c then String.singleton c
  else "\\u" ++ "\x7b" ++ hexDigits c.toNat ++ "\x7d"

/-- A string between double quotes, escaped for a message. -/
def quoted (s : String) : String :=
  "\"" ++ String.join (s.toList.map escapeShown) ++ "\""

end Fibers.Text
