/-!
# Lists and maps as text

The runtime prints its lists and ordered maps the way its diagnostics show them: items
between brackets, separated by a comma and a space (`[0, 1]`), and map entries as a key, a
colon, a space and the value, between braces (`{0: [0, 1]}`). An empty list is `[]` and an
empty map `{}`.
-/

namespace Fibers.Text

/-- The text of a list of numbers: `[1, 2]`. -/
def listText (xs : List Nat) : String := "[" ++ ", ".intercalate (xs.map toString) ++ "]"

/-- The text of a map whose entries are already rendered, in the order given:
`\x7b0: 1, 2: 3\x7d`. -/
def mapText (entries : List (String × String)) : String :=
  "\x7b" ++ ", ".intercalate (entries.map (fun (k, v) => k ++ ": " ++ v)) ++ "\x7d"

end Fibers.Text
