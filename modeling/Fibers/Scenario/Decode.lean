import Fibers.Scenario.Step
import Fibers.Document.Write
/-!
# Reading scenarios from documents

A step is a word (`"yield"`, `"context"`, `"group"`, `"group_debug"`, `"timers_fired"`) or
an object. An object is the step of the first key it has in a fixed order (`log` before
`spawn` before `start_detached`, and so on), and its other keys are that step's arguments;
a missing or malformed number counts as `0`, a missing flag as `false`, and the entries of
a list of numbers that are not numbers are left out. A logged value that is not a string
is logged as its document text; a panic's message is its text when it is a string and
`panic` otherwise.

A call of the main thread is an object whose first key in a fixed order holds a number
(`batch`: a list); anything else is an unknown call. A barrier count that is not a number
is `1`.

Repeated steps nest at most `maxNesting` deep; a repeated step without a body repeats
nothing. The failures are texts: an unknown word, an object with no known key, nesting too
deep, a list of bodies that is not a list, and a body that is not a list of steps.
-/

namespace Fibers

namespace Scenario

/-- A number argument: missing or malformed counts as `0`. -/
def natArg (d : Document) (key : String) : Nat :=
  match d.get? key with
  | some (.nat n) => n
  | _ => 0

/-- A flag argument: anything but `true` counts as `false`. -/
def flagArg (d : Document) (key : String) : Bool :=
  match d.get? key with
  | some (.bool b) => b
  | _ => false

/-- The text a log step writes. -/
def textOf : Document → String
  | .str s => s
  | d => d.render

/-- The keys that make an object a step, in the order they are looked for. -/
def stepKeys : List String :=
  ["log", "spawn", "start_detached", "batch", "join", "join_all", "detach", "drop", "lock",
   "unlock", "try_lock", "set", "wait", "wait_for", "is_set", "cv_wait", "cv_wait_for",
   "notify_one", "notify_all", "count_down", "barrier_wait", "is_open", "sleep_ms", "inc", "rmw",
   "loop", "panic", "oneshot", "joinable", "block_ms", "waitable_timer", "group_timer"]

/-- The spawn an object asks for: a named interface, the checked one for any other name,
and `dflt` when it names none. -/
def spawnOf (d : Document) (dflt : SpawnApi) : SpawnSpec :=
  let api := match d.get? "api" with
    | some (.str "spawn") => SpawnApi.plain
    | some (.str "spawn_with") => .attributed
    | some (.str _) => .checked
    | _ => dflt
  let placement := match d.get? "group", d.get? "placement" with
    | some (.nat g), _ => Placement.group g
    | _, some (.str "random") => .random
    | _, _ => .nearest
  { target := natArg d "spawn", api, placement, dispatch := flagArg d "dispatch",
    groupLocal := flagArg d "local", reactor := flagArg d "reactor" }

/-- The numbers of a list argument, leaving out entries that are not numbers. -/
def natsArg (d : Document) (key : String) : List Nat :=
  (((d.get? key).bind Document.items?).getD []).filterMap Document.nat?

/-- The message of a panic step. -/
def panicText (d : Document) : String := ((d.get? "panic").bind Document.str?).getD "panic"

/-- A word step. -/
def wordStep : String → Except String Step
  | "yield" => .ok .yield
  | "context" => .ok .context
  | "group" => .ok .currentGroup
  | "group_debug" => .ok .groupDebug
  | "timers_fired" => .ok .timersFired
  | other => .error ("unknown step `" ++ other ++ "`")

/-- The refusal of a body that is not a list of steps. -/
def notSteps : String := "steps must be an array"

mutual
/-- A step, with `room` levels of repetition left to nest. -/
def stepOf (room : Nat) (d : Document) : Except String Step :=
  match d with
  | .str s => wordStep s
  | .obj _ =>
    match stepKeys.find? (fun k => (d.get? k).isSome) with
    | some "log" => .ok (.log (textOf ((d.get? "log").getD .null)))
    | some "spawn" => .ok (.spawn (spawnOf d .checked))
    | some "start_detached" => .ok (.startDetached (natArg d "start_detached"))
    | some "batch" => .ok (.batch (natsArg d "batch"))
    | some "join" => .ok (.join (natArg d "join"))
    | some "join_all" => .ok (.joinAll (natArg d "join_all"))
    | some "detach" => .ok (.detach (natArg d "detach"))
    | some "drop" => .ok (.drop (natArg d "drop"))
    | some "lock" => .ok (.lock (natArg d "lock"))
    | some "unlock" => .ok (.unlock (natArg d "unlock"))
    | some "try_lock" => .ok (.tryLock (natArg d "try_lock"))
    | some "set" => .ok (.set (natArg d "set"))
    | some "wait" => .ok (.wait (natArg d "wait"))
    | some "wait_for" => .ok (.waitFor (natArg d "wait_for") (natArg d "ms"))
    | some "is_set" => .ok (.isSet (natArg d "is_set"))
    | some "cv_wait" => .ok (.cvWait (natArg d "cv_wait") (natArg d "m"))
    | some "cv_wait_for" => .ok (.cvWaitFor (natArg d "cv_wait_for") (natArg d "m") (natArg d "ms"))
    | some "notify_one" => .ok (.notifyOne (natArg d "notify_one"))
    | some "notify_all" => .ok (.notifyAll (natArg d "notify_all"))
    | some "count_down" => .ok (.countDown (natArg d "count_down"))
    | some "barrier_wait" => .ok (.barrierWait (natArg d "barrier_wait"))
    | some "is_open" => .ok (.isOpen (natArg d "is_open"))
    | some "sleep_ms" => .ok (.sleep (natArg d "sleep_ms"))
    | some "inc" => .ok (.inc (natArg d "inc"))
    | some "rmw" => .ok (.rmw (natArg d "rmw"))
    | some "loop" =>
      match room with
      | 0 => .error "loops nested too deeply"
      | room + 1 => do
        let body ← match d.get? "body" with
          | none => .ok []
          | some b => match b.items? with
            | some items => stepsOf room items
            | none => .error notSteps
        return .loop (natArg d "loop") body
    | some "panic" => .ok (.panic (panicText d))
    | some "oneshot" => .ok (.oneshot (natArg d "oneshot") (flagArg d "early"))
    | some "joinable" => .ok (.joinable (natArg d "joinable"))
    | some "block_ms" => .ok (.block (natArg d "block_ms"))
    | some "waitable_timer" => .ok (.waitableTimer (natArg d "waitable_timer"))
    | some "group_timer" =>
      let interval := match d.get? "interval" with
        | some (.nat i) => some i
        | _ => none
      let limit := match d.get? "limit" with
        | some (.nat n) => n
        | _ => 1
      .ok (.groupTimer (natArg d "group_timer") interval limit (flagArg d "cancel"))
    | _ => .error "step has no known key"
  | _ => .error "step has no known key"

/-- A list of steps, with `room` levels of repetition left to nest. -/
def stepsOf (room : Nat) : List Document → Except String (List Step)
  | [] => .ok []
  | d :: rest => do
    let s ← stepOf room d
    let ss ← stepsOf room rest
    return s :: ss
end

/-- The number under a key of a call, if it holds one. -/
def callNumber (d : Document) (key : String) : Option Nat := (d.get? key).bind Document.nat?

/-- A call of the main thread. -/
def callOf (d : Document) : Call :=
  match d with
  | .str "info" => .info
  | .obj _ =>
    match callNumber d "spawn", callNumber d "join", callNumber d "join_all",
      callNumber d "detach", callNumber d "start_detached", (d.get? "batch").bind Document.items? with
    | some _, _, _, _, _, _ => .spawn (spawnOf d .plain)
    | none, some j, _, _, _, _ => .join j
    | none, none, some j, _, _, _ => .joinAll j
    | none, none, none, some j, _, _ => .detach j
    | none, none, none, none, some j, _ => .startDetached j
    | none, none, none, none, none, some items => .batch (items.filterMap Document.nat?)
    | none, none, none, none, none, none => .unknown
  | _ => .unknown

/-- A body: a list of steps. -/
def bodyOf (d : Document) : Except String (List Step) :=
  match d.items? with
  | some items => stepsOf maxNesting items
  | none => .error notSteps

/-- A scenario from a request: `fibers`, `barriers`, `thread`, `main`, `root` and `finish`. -/
def ofDocument (d : Document) : Except String Scenario := do
  let bodies ← match d.get? "fibers" with
    | some (.arr items) => items.mapM bodyOf
    | _ => .error "fibers must be an array"
  let plain ← match d.get? "thread" with
    | some (.arr items) => some <$> stepsOf maxNesting items
    | some _ => .error notSteps
    | none => pure none
  let calls := match d.get? "main" with
    | some (.arr items) => some (items.map callOf)
    | _ => none
  let root := match d.get? "root" with
    | some (.bool b) => b
    | _ => true
  let finish := match d.get? "finish" with
    | some (.str "shutdown") => Finish.shutdown
    | some (.str "drop") => .shutdown
    | _ => .observe
  let barriers := (((d.get? "barriers").bind Document.items?).getD []).map
    (fun c => (Document.nat? c).getD 1)
  return { bodies, barriers, plain, calls, root, finish }

end Scenario

end Fibers
