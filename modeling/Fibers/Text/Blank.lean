/-!
# Unicode white space

`isWhiteSpace` is the Unicode `White_Space` property: the ASCII tab to carriage return,
the space, next line, no-break space, ogham space mark, the spaces from en quad to hair
space, the line and paragraph separators, the narrow no-break space, the medium
mathematical space and the ideographic space. `trim` drops such characters from both ends.
-/

namespace Fibers.Text

/-- The Unicode `White_Space` property. -/
def isWhiteSpace (c : Char) : Bool :=
  let n := c.toNat
  (0x09 ≤ n ∧ n ≤ 0x0D) ∨ n = 0x20 ∨ n = 0x85 ∨ n = 0xA0 ∨ n = 0x1680 ∨
    (0x2000 ≤ n ∧ n ≤ 0x200A) ∨ n = 0x2028 ∨ n = 0x2029 ∨ n = 0x202F ∨ n = 0x205F ∨
    n = 0x3000

/-- Characters with white space dropped from both ends. -/
def trimChars (cs : List Char) : List Char :=
  ((cs.dropWhile isWhiteSpace).reverse.dropWhile isWhiteSpace).reverse

/-- A string with white space dropped from both ends. -/
def trim (s : String) : String := String.ofList (trimChars s.toList)

end Fibers.Text
