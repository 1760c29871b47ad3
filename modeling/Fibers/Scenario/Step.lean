/-!
# Scenarios

A scenario is what a run of the runtime executes: numbered fiber bodies, the first of which
is the root, optional exit barriers with their counts, an optional plain thread running steps
of its own, and calls the main thread makes through the runtime's public interface.

A body is a list of steps. A step names shared objects by number: there are eight mutexes,
eight events, eight condition variables and eight counters, and a number picks the object
of its remainder modulo eight, while the log lines keep the number as written.
-/

namespace Fibers

/-- Where a new fiber goes. -/
inductive Placement where
  /-- The caller's group, else a group on the caller's node. -/
  | nearest
  | random
  | group (id : Nat)
  deriving Inhabited, BEq, Repr

/-- How a spawn is asked for and what a failure does. -/
inductive SpawnApi where
  /-- Attributes honoured, failure reported to the caller. -/
  | checked
  /-- Default attributes, failure fatal. -/
  | plain
  /-- Attributes honoured, failure fatal. -/
  | attributed
  deriving Inhabited, BEq, Repr

/-- A request for a new joinable fiber running body `target`. -/
structure SpawnSpec where
  target : Nat
  api : SpawnApi := .checked
  placement : Placement := .nearest
  /-- Run the new fiber at once when the caller is a fiber of the target group. -/
  dispatch : Bool := false
  groupLocal : Bool := false
  reactor : Bool := false
  deriving Inhabited, Repr

namespace SpawnSpec

/-- The attributes in force: a plain spawn takes the defaults. -/
def effective (s : SpawnSpec) : SpawnSpec :=
  match s.api with
  | .plain => { target := s.target, api := .plain }
  | _ => s

end SpawnSpec

/-- One step of a body or of the plain thread. -/
inductive Step where
  | yield
  /-- Logs whether the caller is a fiber. -/
  | context
  /-- Logs the caller's group. -/
  | currentGroup
  /-- Logs the debugging text of the caller's group. -/
  | groupDebug
  /-- Logs how many timer callbacks the caller's group has run. -/
  | timersFired
  | log (text : String)
  | spawn (s : SpawnSpec)
  | startDetached (target : Nat)
  | batch (targets : List Nat)
  | join (target : Nat)
  | joinAll (target : Nat)
  | detach (target : Nat)
  | drop (target : Nat)
  | joinable (target : Nat)
  | lock (m : Nat)
  | unlock (m : Nat)
  | tryLock (m : Nat)
  | set (e : Nat)
  | wait (e : Nat)
  | waitFor (e ms : Nat)
  | isSet (e : Nat)
  | cvWait (c m : Nat)
  | cvWaitFor (c m ms : Nat)
  | notifyOne (c : Nat)
  | notifyAll (c : Nat)
  | countDown (b : Nat)
  | barrierWait (b : Nat)
  | isOpen (b : Nat)
  /-- Sleeps the caller: a fiber on a timer, a thread on the clock. -/
  | sleep (ms : Nat)
  | inc (k : Nat)
  /-- Reads counter `k`, yields, and writes back the value read plus one. -/
  | rmw (k : Nat)
  | loop (times : Nat) (body : List Step)
  | panic (text : String)
  /-- Waits on an event a timer sets `ms` from now, set at once when `early`. -/
  | oneshot (ms : Nat) (early : Bool)
  /-- Sleeps the whole thread the caller runs on. -/
  | block (ms : Nat)
  | waitableTimer (ms : Nat)
  /-- A timer of the caller's group that counts its calls. -/
  | groupTimer (ms : Nat) (interval : Option Nat) (limit : Nat) (cancel : Bool)
  deriving Inhabited, Repr

/-- A call of the main thread through the runtime's public interface. -/
inductive Call where
  | info
  | spawn (s : SpawnSpec)
  | join (target : Nat)
  | joinAll (target : Nat)
  | detach (target : Nat)
  | startDetached (target : Nat)
  | batch (targets : List Nat)
  | unknown
  deriving Inhabited, Repr

/-- How the main thread ends a run. -/
inductive Finish where
  /-- Waits for the fibers for a while and reports a run that does not end as stuck. -/
  | observe
  /-- Shuts the runtime down, which waits for every fiber. -/
  | shutdown
  deriving Inhabited, BEq, Repr

/-- Everything a run executes. -/
structure Scenario where
  bodies : List (List Step)
  /-- The counts of the scenario's exit barriers. -/
  barriers : List Nat := []
  /-- The steps of the plain thread, if there is one. -/
  plain : Option (List Step) := none
  /-- The main thread's calls, if it makes any. -/
  calls : Option (List Call) := none
  /-- Whether body 0 is started as the root fiber. -/
  root : Bool := true
  finish : Finish := .observe
  deriving Inhabited, Repr

namespace Scenario

/-- The steps of body `d`; a body that does not exist is empty. -/
def body (s : Scenario) (d : Nat) : List Step := s.bodies.getD d []

end Scenario

/-- The deepest nesting of repeated steps a scenario may use. -/
def maxNesting : Nat := 8

end Fibers
