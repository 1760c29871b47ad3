import Fibers.Document.Basic
import Fibers.Document.Literal
/-!
# Reading a document from text

The reader follows the JSON grammar; each function stops with a fault or yields a value and
the unread rest. Number literals are read as `Literal.number` says. A `\u` escape of a
leading surrogate must be followed by an escape of a trailing one, and a trailing surrogate
alone is refused as well. Arrays and objects nest at most `maxNesting` deep: the opening
bracket one level deeper is refused.

A fault names what went wrong and where: the unread text at that point, and whether the
place is the next character (a fault found by looking ahead) or the end of what was read.
`Document.parse` turns that into a line and a byte column, 1-based lines and columns
counted from the start of the line.

Each reading function takes a fuel bound on the depth of its calls; `Document.parse` passes
twice the length of the text, and every second call along a chain consumes a character.
-/

namespace Fibers.Document.Read

/-- JSON whitespace. -/
def isBlank (c : Char) : Bool := c = ' ' ∨ c = '\t' ∨ c = '\n' ∨ c = '\r'

/-- Drops leading whitespace. -/
def skipBlank : List Char → List Char
  | [] => []
  | c :: r => if isBlank c then skipBlank r else c :: r

/-- The value of a hexadecimal digit. -/
def hexValue (c : Char) : Option Nat :=
  if '0' ≤ c ∧ c ≤ '9' then some (c.toNat - '0'.toNat)
  else if 'a' ≤ c ∧ c ≤ 'f' then some (c.toNat - 'a'.toNat + 10)
  else if 'A' ≤ c ∧ c ≤ 'F' then some (c.toNat - 'A'.toNat + 10)
  else none

/-- The fault of a string cut short. -/
def stringEnd : Fault := ⟨"EOF while parsing a string", [], false⟩

/-- Four hexadecimal digits; four characters that are not all digits are an invalid escape. -/
def hex4 : List Char → Except Fault (Nat × List Char)
  | a :: b :: c :: d :: rest =>
    match hexValue a, hexValue b, hexValue c, hexValue d with
    | some w, some x, some y, some z => .ok (((w * 16 + x) * 16 + y) * 16 + z, rest)
    | _, _, _, _ => .error ⟨"invalid escape", rest, false⟩
  | _ => .error stringEnd

/-- Whether a code is a trailing surrogate. -/
def isTrailing (u : Nat) : Bool := 0xDC00 ≤ u ∧ u ≤ 0xDFFF

/-- The character of a `\u` escape, reading a second escape after a leading surrogate. -/
def unicodeEscape (cs : List Char) : Except Fault (Char × List Char) := do
  let (u, rest) ← hex4 cs
  if isTrailing u then throw ⟨"lone leading surrogate in hex escape", rest, false⟩
  if 0xD800 ≤ u ∧ u ≤ 0xDBFF then
    match rest with
    | [] => throw stringEnd
    | '\\' :: more =>
      match more with
      | [] => throw stringEnd
      | 'u' :: digits =>
        let (v, rest') ← hex4 digits
        if isTrailing v then
          return (Char.ofNat (0x10000 + (u - 0xD800) * 0x400 + (v - 0xDC00)), rest')
        else throw ⟨"lone leading surrogate in hex escape", rest', false⟩
      | _ :: after => throw ⟨"unexpected end of hex escape", after, false⟩
    | _ :: after => throw ⟨"unexpected end of hex escape", after, false⟩
  else return (Char.ofNat u, rest)

/-- The characters of a string body up to its closing quote. -/
def stringBody : Nat → List Char → List Char → Except Fault (String × List Char)
  | 0, _, _ => .error stringEnd
  | _ + 1, _, [] => .error stringEnd
  | fuel + 1, acc, c :: rest =>
    if c = '"' then .ok (String.ofList acc.reverse, rest)
    else if c = '\\' then
      match rest with
      | 'n' :: r => stringBody fuel ('\n' :: acc) r
      | 't' :: r => stringBody fuel ('\t' :: acc) r
      | 'r' :: r => stringBody fuel ('\r' :: acc) r
      | 'b' :: r => stringBody fuel ('\x08' :: acc) r
      | 'f' :: r => stringBody fuel ('\x0c' :: acc) r
      | '/' :: r => stringBody fuel ('/' :: acc) r
      | '\\' :: r => stringBody fuel ('\\' :: acc) r
      | '"' :: r => stringBody fuel ('"' :: acc) r
      | 'u' :: r =>
        match unicodeEscape r with
        | .ok (ch, r') => stringBody fuel (ch :: acc) r'
        | .error e => .error e
      | _ :: r => .error ⟨"invalid escape", r, false⟩
      | [] => .error stringEnd
    else if c.toNat < 0x20 then
      .error ⟨"control character (\\u0000-\\u001F) found while parsing a string", rest, false⟩
    else stringBody fuel (c :: acc) rest

/-- The deepest nesting of arrays and objects the reader accepts. -/
def maxNesting : Nat := 127

/-- The rest of a literal word after its first letter: each letter read must match. -/
def word : List Char → Document → List Char → Except Fault (Document × List Char)
  | [], v, cs => .ok (v, cs)
  | _ :: _, _, [] => .error ⟨"EOF while parsing a value", [], false⟩
  | w :: ws, v, c :: rest =>
    if c = w then word ws v rest else .error ⟨"expected ident", rest, false⟩

mutual
/-- One value, after any whitespace, with `room` more levels of nesting allowed. -/
def value : Nat → Nat → List Char → Except Fault (Document × List Char)
  | 0, _, cs => .error ⟨"recursion limit exceeded", cs, true⟩
  | fuel + 1, room, cs =>
    match skipBlank cs with
    | [] => .error ⟨"EOF while parsing a value", [], true⟩
    | c :: rest =>
      if c = '\x7b' then
        if room = 0 then .error ⟨"recursion limit exceeded", c :: rest, true⟩
        else objectBody fuel (room - 1) [] true rest
      else if c = '[' then
        if room = 0 then .error ⟨"recursion limit exceeded", c :: rest, true⟩
        else arrayBody fuel (room - 1) [] true rest
      else if c = '"' then
        match stringBody (rest.length + 1) [] rest with
        | .ok (s, r) => .ok (.str s, r)
        | .error e => .error e
      else if c = 't' then word "rue".toList (.bool true) rest
      else if c = 'f' then word "alse".toList (.bool false) rest
      else if c = 'n' then word "ull".toList .null rest
      else if c = '-' ∨ c.isDigit then Literal.number (c :: rest)
      else .error ⟨"expected value", c :: rest, true⟩

/-- The elements of an array after its opening bracket. -/
def arrayBody : Nat → Nat → List Document → Bool → List Char →
    Except Fault (Document × List Char)
  | 0, _, _, _, cs => .error ⟨"recursion limit exceeded", cs, true⟩
  | fuel + 1, room, acc, first, cs =>
    match skipBlank cs with
    | [] => .error ⟨"EOF while parsing a list", [], true⟩
    | ']' :: rest => .ok (.arr acc.reverse, rest)
    | c :: rest =>
      let next : Except Fault (List Char) :=
        if first then .ok (c :: rest)
        else if c = ',' then
          match skipBlank rest with
          | [] => .error ⟨"EOF while parsing a value", [], true⟩
          | ']' :: r => .error ⟨"trailing comma", ']' :: r, true⟩
          | r => .ok r
        else .error ⟨"expected `,` or `]`", c :: rest, true⟩
      match next with
      | .error e => .error e
      | .ok r =>
        match value fuel room r with
        | .error e => .error e
        | .ok (v, r') => arrayBody fuel room (v :: acc) false r'

/-- The entries of an object after its opening brace. -/
def objectBody : Nat → Nat → List (String × Document) → Bool → List Char →
    Except Fault (Document × List Char)
  | 0, _, _, _, cs => .error ⟨"recursion limit exceeded", cs, true⟩
  | fuel + 1, room, acc, first, cs =>
    match skipBlank cs with
    | [] => .error ⟨"EOF while parsing an object", [], true⟩
    | '\x7d' :: rest => .ok (Document.ofEntries acc.reverse, rest)
    | c :: rest =>
      let key : Except Fault (List Char) :=
        if first then
          if c = '"' then .ok rest else .error ⟨"key must be a string", c :: rest, true⟩
        else if c = ',' then
          match skipBlank rest with
          | [] => .error ⟨"EOF while parsing a value", [], true⟩
          | '"' :: r => .ok r
          | '\x7d' :: r => .error ⟨"trailing comma", '\x7d' :: r, true⟩
          | r => .error ⟨"key must be a string", r, true⟩
        else .error ⟨"expected `,` or `\x7d`", c :: rest, true⟩
      match key with
      | .error e => .error e
      | .ok r1 =>
        match stringBody (r1.length + 1) [] r1 with
        | .error e => .error e
        | .ok (k, r2) =>
          match skipBlank r2 with
          | ':' :: r3 =>
            match value fuel room r3 with
            | .error e => .error e
            | .ok (v, r4) => objectBody fuel room ((k, v) :: acc) false r4
          | [] => .error ⟨"EOF while parsing an object", [], true⟩
          | r => .error ⟨"expected `:`", r, true⟩
end

/-- The line and byte column of a fault in `text`: the column of the character looked at,
or of the last character read. -/
def place (text : List Char) (f : Fault) : Nat × Nat :=
  let read := text.take (text.length - f.rest.length)
  let line := 1 + read.count '\n'
  let column := ((read.reverse.takeWhile (· ≠ '\n')).map Char.utf8Size).foldr (· + ·) 0
  (line, if f.atNext ∧ !f.rest.isEmpty then column + 1 else column)

/-- The text of a fault: what went wrong, then its line and column. -/
def describe (text : List Char) (f : Fault) : String :=
  let (line, column) := place text f
  f.message ++ " at line " ++ toString line ++ " column " ++ toString column

end Read

/-- Reads a whole text as one document, allowing whitespace around it. -/
def parse (text : String) : Except String Document :=
  let cs := text.toList
  match Read.value (2 * cs.length + 2) Read.maxNesting cs with
  | .error f => .error (Read.describe cs f)
  | .ok (v, rest) =>
    match Read.skipBlank rest with
    | [] => .ok v
    | r => .error (Read.describe cs ⟨"trailing characters", r, true⟩)

end Fibers.Document
