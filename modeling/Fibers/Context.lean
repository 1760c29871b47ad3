import Fibers.Error
/-!
# Calls on a thread outside any runtime

Some entry points need a runtime or a fiber worker around the caller. Called from a plain
thread, spawning reports that there is no runtime, starting a detached fiber or creating a
timed event aborts, and the fiber utilities fall back to the thread: a yield or a sleep is
the thread's own, the caller is not a fiber and belongs to no group.
-/

namespace Fibers

/-- An entry point called from a plain thread. -/
inductive PlainCall where
  | trySpawn
  | startDetached
  | batchStartDetached
  | isFiberContext
  | yieldNow
  /-- Sleeps for some milliseconds; shows whether at least that much time passed. -/
  | sleepFor
  /-- Sleeps until an instant already past. -/
  | sleepUntilPast
  | oneshotEvent
  | waitableTimer
  | currentGroup
  deriving Inhabited, BEq, DecidableEq, Repr

/-- Starting a detached fiber needs a runtime around the caller. -/
def Abort.startOutside : Abort := .fatal "start_detached called outside of a fiber runtime"

/-- Starting a batch of detached fibers needs a runtime around the caller. -/
def Abort.batchOutside : Abort := .fatal "batch_start_detached called outside of a fiber runtime"

/-- A timed event belongs to the group of the worker that creates it. -/
def Abort.oneshotOutside : Abort := .fatal "OneshotTimedEvent created outside of a fiber worker"

/-- A waitable timer belongs to the group of the worker that creates it. -/
def Abort.timerOutside : Abort := .fatal "WaitableTimer created outside of a fiber worker"

/-- A spawn that fails where failure is not reported to the caller. -/
def Abort.spawnFailed (e : Error) : Abort := .fatal ("failed to spawn fiber: " ++ e.message)

/-- Dropping the handle of a fiber nobody joined or detached. -/
def Abort.droppedHandle : Abort := .fatal "joinable fiber dropped without join or detach"

/-- What a call shows: nothing, or a flag. -/
def PlainCall.outside : PlainCall → Except Failure (Option Bool)
  | .trySpawn => .error (.error .noRuntime)
  | .startDetached => .error (.abort Abort.startOutside)
  | .batchStartDetached => .error (.abort Abort.batchOutside)
  | .isFiberContext => .ok (some false)
  | .yieldNow => .ok none
  | .sleepFor => .ok (some true)
  | .sleepUntilPast => .ok none
  | .oneshotEvent => .error (.abort Abort.oneshotOutside)
  | .waitableTimer => .error (.abort Abort.timerOutside)
  | .currentGroup => .ok none

end Fibers
