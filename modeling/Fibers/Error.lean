/-!
# Errors and aborts

`Error` lists the conditions the runtime reports to its caller, each with its message.
`Abort` lists the ways a run stops without an answer of its own: the runtime's fatal
abort (a broken contract, such as a joinable fiber dropped without join), a panic with
its payload (the arithmetic checks of a debug build), or no answer at all.
-/

namespace Fibers

/-- A condition reported to the caller. -/
inductive Error where
  /-- A configuration value is out of range or inconsistent. -/
  | invalidConfig (detail : String)
  /-- No scheduling algorithm has this name. -/
  | unknownScheduling (name : String)
  /-- The run queue stayed full for every retry. -/
  | runQueueOverflow
  /-- No scheduling group has this id. -/
  | noSuchGroup (id : Nat)
  /-- The system refused a thread. -/
  | threadSpawn (cause : String)
  /-- The caller is neither a fiber nor a worker of a running runtime. -/
  | noRuntime
  /-- A worker thread ended by panicking. -/
  | workerPanicked (index : Nat)
  deriving Inhabited, BEq, DecidableEq

namespace Error

/-- The name of the condition. -/
def kind : Error → String
  | .invalidConfig _ => "InvalidConfig"
  | .unknownScheduling _ => "UnknownScheduling"
  | .runQueueOverflow => "RunQueueOverflow"
  | .noSuchGroup _ => "NoSuchGroup"
  | .threadSpawn _ => "ThreadSpawn"
  | .noRuntime => "NoRuntime"
  | .workerPanicked _ => "WorkerPanicked"

/-- The message of the condition. -/
def message : Error → String
  | .invalidConfig detail => "invalid configuration: " ++ detail
  | .unknownScheduling name => "unknown scheduling algorithm `" ++ name ++ "`"
  | .runQueueOverflow => "run queue overflow"
  | .noSuchGroup id => s!"scheduling group {id} does not exist"
  | .threadSpawn cause => "failed to spawn thread: " ++ cause
  | .noRuntime => "not running inside a fiber runtime"
  | .workerPanicked index => s!"fiber worker {index} panicked"

end Error

/-- How a run stops without an answer of its own. -/
inductive Abort where
  /-- The runtime aborted, printing this text. -/
  | fatal (text : String)
  /-- A panic with this payload. -/
  | panic (text : String)
  /-- The run did not finish. -/
  | hang
  deriving Inhabited, BEq, DecidableEq

/-- Why an operation gave no value: a condition reported to its caller, or an abort. -/
inductive Failure where
  | error (e : Error)
  | abort (a : Abort)
  deriving Inhabited, BEq

instance : Coe Error Failure := ⟨.error⟩

instance : Coe Abort Failure := ⟨.abort⟩

/-- The payload of a checked subtraction that went below zero. -/
def Abort.subtractOverflow : Abort := .panic "attempt to subtract with overflow"

/-- The payload of a checked addition past the word. -/
def Abort.addOverflow : Abort := .panic "attempt to add with overflow"

/-- The payload of a checked multiplication past the word. -/
def Abort.multiplyOverflow : Abort := .panic "attempt to multiply with overflow"

/-- The payload of a checked negation of the most negative word. -/
def Abort.negateOverflow : Abort := .panic "attempt to negate with overflow"

/-- The payload of a division by zero. -/
def Abort.divideByZero : Abort := .panic "attempt to divide by zero"

end Fibers
