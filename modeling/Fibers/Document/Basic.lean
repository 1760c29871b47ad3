/-!
# Documents

A document is a JSON value as the runtime's readers see it. A number literal without a
fraction or exponent keeps its integer class when it fits a 64-bit word (`nat` below
`2^64`, `neg` from `-2^63` to `-1`); every other number is a binary64 value, kept as its
bit pattern, computed as `Literal.number` describes. An object holds one entry per key, in ascending key order, the
last occurrence of a key winning.
-/

namespace Fibers

/-- A JSON value. -/
inductive Document where
  | null
  | bool (b : Bool)
  /-- A non-negative integer literal below `2^64`. -/
  | nat (n : Nat)
  /-- A negative integer literal, at least `-2^63`. -/
  | neg (n : Int)
  /-- Any other number, as the bit pattern of its binary64 value. -/
  | float (bits : UInt64)
  | str (s : String)
  | arr (items : List Document)
  /-- Entries in ascending key order, one per key. -/
  | obj (entries : List (String × Document))
  deriving Inhabited

namespace Document

/-- Inserts an entry into a key-ordered list, replacing an entry of the same key. -/
def insertEntry (k : String) (v : Document) : List (String × Document) → List (String × Document)
  | [] => [(k, v)]
  | (k', v') :: rest =>
    if k = k' then (k, v) :: rest
    else if k < k' then (k, v) :: (k', v') :: rest
    else (k', v') :: insertEntry k v rest

/-- An object built from entries in reading order: the last entry of a key wins. -/
def ofEntries (entries : List (String × Document)) : Document :=
  .obj (entries.foldl (fun acc (k, v) => insertEntry k v acc) [])

/-- The value under a key of an object. -/
def get? (d : Document) (key : String) : Option Document :=
  match d with
  | .obj entries => entries.lookup key
  | _ => none

/-- The elements of an array. -/
def items? : Document → Option (List Document)
  | .arr items => some items
  | _ => none

/-- A string value. -/
def str? : Document → Option String
  | .str s => some s
  | _ => none

/-- A boolean value. -/
def bool? : Document → Option Bool
  | .bool b => some b
  | _ => none

/-- A non-negative integer value. -/
def nat? : Document → Option Nat
  | .nat n => some n
  | _ => none

/-- An integer value of either sign. -/
def int? : Document → Option Int
  | .nat n => some n
  | .neg n => some n
  | _ => none

/-- `true` for `null`. -/
def isNull : Document → Bool
  | .null => true
  | _ => false

/-- An object from entries already in ascending key order. -/
def record (entries : List (String × Document)) : Document := ofEntries entries

end Document

end Fibers
