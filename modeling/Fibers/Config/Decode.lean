import Fibers.Config.Basic
import Fibers.Text.Quoted
import Fibers.Text.Shortest
/-!
# Reading settings from a document

A configuration is read from an object, whose entries are visited in ascending key order
so that the first fault reported is at the least bad key, or from an array holding the
settings in their declared order. Settings that are absent keep the value of a base
configuration and unknown keys are ignored. An array longer than the twelve settings is
refused once all twelve have been read.

A fault names what was found and what was expected. A negative integer where a word was
expected is a wrong value; anything else of the wrong kind is a wrong type.
-/

namespace Fibers

/-- What a setting, or the whole configuration, expects. -/
inductive Expected where
  /-- A machine word, under the name of its type. -/
  | word (typeName : String)
  | boolean
  | string
  | sequence
  /-- The whole set of settings. -/
  | settings
  deriving Inhabited, BEq

/-- The text of what is expected. -/
def Expected.text : Expected → String
  | .word typeName => typeName
  | .boolean => "a boolean"
  | .string => "a string"
  | .sequence => "a sequence"
  | .settings => "struct FiberConfig"

/-- How a fault names the value it found. -/
def Document.describe : Document → String
  | .null => "null"
  | .bool b => s!"boolean `{b}`"
  | .nat n => s!"integer `{n}`"
  | .neg n => s!"integer `{n}`"
  | .float bits => "floating point `" ++ Shortest.render bits ++ "`"
  | .str s => "string " ++ Text.quoted s
  | .arr _ => "sequence"
  | .obj _ => "map"

/-- Why a document is not a configuration. -/
inductive DecodeError where
  /-- A value of the wrong kind. -/
  | invalidType (found : Document) (expected : Expected)
  /-- A value of the right kind out of range. -/
  | invalidValue (found : Document) (expected : Expected)
  /-- An array with more elements than there are settings. -/
  | invalidLength (length : Nat)
  deriving Inhabited

/-- The text of a decoding fault. -/
def DecodeError.message : DecodeError → String
  | .invalidType found expected =>
    "invalid type: " ++ found.describe ++ ", expected " ++ expected.text
  | .invalidValue found expected =>
    "invalid value: " ++ found.describe ++ ", expected " ++ expected.text
  | .invalidLength length => s!"invalid length {length}, expected fewer elements in array"

namespace Config

/-- A machine word of the named type. -/
def decodeWord (typeName : String) (d : Document) : Except DecodeError Nat :=
  match d with
  | .nat n => .ok n
  | .neg _ => .error (.invalidValue d (.word typeName))
  | _ => .error (.invalidType d (.word typeName))

/-- A boolean. -/
def decodeBool (d : Document) : Except DecodeError Bool :=
  match d with
  | .bool b => .ok b
  | _ => .error (.invalidType d .boolean)

/-- A string. -/
def decodeString (d : Document) : Except DecodeError String :=
  match d with
  | .str s => .ok s
  | _ => .error (.invalidType d .string)

/-- A sequence of words, read element by element. -/
def decodeWords (d : Document) : Except DecodeError (List Nat) :=
  match d with
  | .arr items => items.mapM (decodeWord "usize")
  | _ => .error (.invalidType d .sequence)

/-- The settings in declared order: each field's name, and how a document sets it. -/
def fields : List (String × (Document → Config → Except DecodeError Config)) := [
  ("stack_size", fun d c => return { c with stackSize := ← decodeWord "usize" d }),
  ("stack_pool_limit", fun d c => return { c with stackPoolLimit := ← decodeWord "usize" d }),
  ("guard_page", fun d c => return { c with guardPage := ← decodeBool d }),
  ("run_queue_capacity", fun d c => return { c with runQueueCapacity := ← decodeWord "usize" d }),
  ("local_queue_capacity", fun d c =>
    return { c with localQueueCapacity := ← decodeWord "usize" d }),
  ("scheduling", fun d c => return { c with scheduling := ← decodeString d }),
  ("concurrency", fun d c => return { c with concurrency := ← decodeWord "usize" d }),
  ("workers_per_group", fun d c => return { c with workersPerGroup := ← decodeWord "usize" d }),
  ("cpu_affinity", fun d c => return { c with cpuAffinity := ← decodeWords d }),
  ("numa_aware", fun d c => return { c with numaAware := ← decodeBool d }),
  ("work_stealing_ratio", fun d c => return { c with workStealingRatio := ← decodeWord "u64" d }),
  ("cross_numa_work_stealing_ratio", fun d c =>
    return { c with crossNumaWorkStealingRatio := ← decodeWord "u64" d })]

/-- Sets the entries of an object, in its (ascending) key order. -/
def decodeEntries (base : Config) (entries : List (String × Document)) :
    Except DecodeError Config :=
  entries.foldlM (fun c (k, v) =>
    match fields.lookup k with
    | some set => set v c
    | none => .ok c) base

/-- Sets the fields from the elements of an array, in declared order; fields past the end
keep their base values. -/
def decodeItems (base : Config) (items : List Document) : Except DecodeError Config := do
  let c ← (fields.zip (items.map some ++ List.replicate fields.length none)).foldlM
    (fun c ((_, set), v) => match v with
      | some d => set d c
      | none => .ok c) base
  if items.length > fields.length then throw (.invalidLength items.length)
  return c

/-- A configuration from a document, absent settings taken from `base`. -/
def ofDocument (base : Config) (d : Document) : Except DecodeError Config :=
  match d with
  | .obj entries => decodeEntries base entries
  | .arr items => decodeItems base items
  | _ => .error (.invalidType d .settings)

end Config

end Fibers
