import Fibers.World.Spawn
import Fibers.Context
import Fibers.Text.Listing
/-!
# Steps and tasks

A task is carried out by its holder: a fiber running on a worker, or a plain thread (the
main thread or the scenario's thread). The same step means different things to the two:

* a fiber yields to its scheduler, suspends when it blocks and sleeps on a timer of its
  group; a thread's yield does nothing, it blocks on its own wait slot and sleeps on the
  clock;
* a thread is not inside the runtime: spawning reports that, starting detached fibers and
  creating timed events abort, and the group it belongs to is none.

Carrying out a task says what the holder does next: go on, yield, suspend, switch to a
fiber started by a dispatch, or (a fiber) return.
-/

namespace Fibers

/-- Who carries out a task. -/
inductive Holder where
  /-- Fiber `f` running on worker `k`. -/
  | fiber (f k : Nat)
  | thread (t : Nat)
  deriving Inhabited, BEq, Repr

/-- What the holder does after a task. -/
inductive Outcome where
  | next
  | yield
  | suspend
  /-- Run this fiber at once; the holder stays ready. -/
  | switchTo (f : Nat)
  | exit
  deriving Inhabited, BEq, Repr

namespace Holder

/-- The thread that carries out the holder's tasks. -/
def actor : Holder → Actor
  | .fiber _ k => .worker k
  | .thread t => .thread t

end Holder

namespace Frame

/-- Takes the oldest handle of body `d`. -/
def takeHandle (fr : Frame) (d : Nat) : Option Nat × Frame :=
  match fr.handles.find? (·.1 == d) with
  | some h => (some h.2, { fr with handles := fr.handles.erase h })
  | none => (none, fr)

/-- Takes every handle of body `d`, in spawn order. -/
def takeHandles (fr : Frame) (d : Nat) : List Nat × Frame :=
  ((fr.handles.filter (·.1 == d)).map Prod.snd, { fr with handles := fr.handles.filter (·.1 != d) })

/-- Whether a handle of body `d` is held. -/
def holds (fr : Frame) (d : Nat) : Bool := fr.handles.any (·.1 == d)

/-- Lets go of the latest guard of mutex `m`, if one is held. -/
def dropGuard (fr : Frame) (m : Nat) : Option Frame :=
  if m ∈ fr.guards then some { fr with guards := (fr.guards.reverse.erase m).reverse } else none

end Frame

namespace World

/-! ## The holder's state -/

/-- The tasks of a holder. -/
def tasksOf (w : World) : Holder → List Task
  | .fiber f _ => (w.fiber f).tasks
  | .thread t => (w.thread t).tasks

/-- Replaces the tasks of a holder. -/
def setTasks (w : World) (h : Holder) (ts : List Task) : World :=
  match h with
  | .fiber f _ => w.modifyFiber f (fun x => { x with tasks := ts })
  | .thread t => w.modifyThread t (fun x => { x with tasks := ts })

/-- Puts tasks in front of a holder's tasks. -/
def pushTasks (w : World) (h : Holder) (ts : List Task) : World :=
  w.setTasks h (ts ++ w.tasksOf h)

/-- The frame of a holder. -/
def frameOf (w : World) : Holder → Frame
  | .fiber f _ => (w.fiber f).frame
  | .thread t => (w.thread t).frame

/-- Replaces the frame of a holder. -/
def setFrame (w : World) (h : Holder) (fr : Frame) : World :=
  match h with
  | .fiber f _ => w.modifyFiber f (fun x => { x with frame := fr })
  | .thread t => w.modifyThread t (fun x => { x with frame := fr })

/-- Logs a line of a holder: a fiber's lines start with its body's number. -/
def say (w : World) (h : Holder) (text : String) : World :=
  let label := match h with
    | .fiber f _ => toString (w.fiber f).body
    | .thread t => (w.thread t).label
  w.log (label ++ ":" ++ text)

/-- The group of the worker a holder runs on. -/
def groupOfHolder (w : World) : Holder → Option Nat
  | .fiber _ k => some (w.worker k).group
  | .thread _ => none

/-- The thread number of a holder. -/
def threadNo (w : World) (h : Holder) : Nat := w.threadOf h.actor

/-- The debugging text of group `g`. -/
def groupDebugText (w : World) (g : Nat) : String :=
  let p := (w.group g).plan
  "SchedulingGroup \x7b id: " ++ toString g ++ ", node_id: " ++ toString p.nodeId ++
    ", group_size: " ++ toString p.workers ++ ", affinity: " ++ Text.listText p.affinity ++ ", .. \x7d"

/-! ## Blocking -/

/-- The holder blocks on block `b`: a fiber suspends, a thread waits on its slot. -/
def blockOn (w : World) (h : Holder) (b : Nat) (deadline : Option Nat) (sequel : Sequel)
    (timeout : Option (Nat × Nat)) : World × Outcome :=
  match h with
  | .fiber _ _ => (w.pushTasks h [.resumed sequel timeout], .suspend)
  | .thread t => (w.modifyThread t (fun x => { x with wait := some ⟨b, deadline, sequel⟩ }), .next)

/-- The holder blocks on block `b` for at most `ms` milliseconds: a fiber arms a timeout on
its group's timer thread, a thread waits with a deadline. -/
def blockFor (w : World) (h : Holder) (b ms : Nat) (sequel : Sequel) :
    Except Abort (World × Outcome) :=
  match h with
  | .fiber _ k => do
    let r := w.timeouts.length
    let w := { w with timeouts := w.timeouts ++ [({ block := b } : Timeout)] }
    let (w, t) ← w.armTimer (w.worker k).group (w.worker k).thread (w.timerDeadline ms) none
      (.timeout r)
    return w.blockOn h b none sequel (some (r, t))
  | .thread _ => return w.blockOn h b (some (w.now + millis ms)) sequel none

/-- What a holder does once its wait is over, woken or timed out. -/
def follow (w : World) (h : Holder) (sequel : Sequel) (woken : Bool) : World :=
  match sequel with
  | .none => w
  | .own m => w.setFrame h { w.frameOf h with guards := (w.frameOf h).guards ++ [m] }
  | .reportWait e => w.say h ("wait_for" ++ toString e ++ "=" ++ toString woken)
  | .relock m => w.pushTasks h [.step (.lock m)]
  | .relockReport c m =>
    w.pushTasks h [.step (.lock m), .note ("cv_timeout" ++ toString c ++ "=" ++ toString !woken)]

/-- Waits on event `e` of the world's list. -/
def awaitEvent (w : World) (h : Holder) (e : Nat) : World × Outcome :=
  match w.enqueue (match h with | .fiber f _ => .fiber f | .thread t => .thread t) (.event e) with
  | (w, some b) => w.blockOn h b none .none none
  | (w, none) => (w, .next)

/-- The waiter a holder queues. -/
def waiterOf : Holder → Waiter
  | .fiber f _ => .fiber f
  | .thread t => .thread t

/-- Waits until barrier `b` of the world's list opens. -/
def awaitLatch (w : World) (h : Holder) (b : Nat) : World × Outcome :=
  if (w.latch b).isOpen then (w, .next)
  else
    match w.enqueue (waiterOf h) (.latch b) with
    | (w, some blk) => w.blockOn h blk none .none none
    | (w, none) => (w, .next)

/-! ## Spawning -/

/-- The group a placement picks for a holder. A random pick and a pick from outside any
group take the first group. -/
def selectGroup (w : World) (h : Holder) : Placement → Except Error Nat
  | .group id => if id < w.groups.length then .ok id else .error (.noSuchGroup id)
  | .random => .ok 0
  | .nearest => .ok ((w.groupOfHolder h).getD 0)

/-- A joinable spawn through the runtime, by a fiber or by the main thread. -/
def spawnJoinable (w : World) (h : Holder) (s : SpawnSpec) : Except Abort (World × Outcome) :=
  let s := s.effective
  let fatal := match s.api with
    | .checked => false
    | _ => true
  match w.selectGroup h s.placement with
  | .error e =>
    if fatal then .error (Abort.spawnFailed e) else .ok (w.say h ("spawn_err=" ++ e.message), .next)
  | .ok g =>
    let (w, f) := w.describe s.target g s.groupLocal s.reactor true
    let w := { w with live := w.live + 1 }
    let dispatch := match h with
      | .fiber _ k => s.dispatch && (w.worker k).group == g
      | .thread _ => false
    if dispatch then .ok (w.pushTasks h [.launch f, .adopt f], .next)
    else .ok (w.pushTasks h [.attempt f 0 fatal], .next)

/-- Keeps the handle of fiber `f`. -/
def keepHandle (w : World) (h : Holder) (f : Nat) : World :=
  match (w.fiber f).latch with
  | some b => w.setFrame h { w.frameOf h with handles := (w.frameOf h).handles ++ [((w.fiber f).body, b)] }
  | none => w

/-- Describes detached fibers of the given bodies in group `g`, counting them live. -/
def describeAll (w : World) (g : Nat) (ds : List Nat) : World × List Nat :=
  let (w, fs) := ds.foldl (fun (w, fs) d =>
    let (w, f) := w.describe d g false false false
    (w, fs ++ [f])) (w, [])
  ({ w with live := w.live + fs.length }, fs)

/-! ## Steps -/

/-- The mutex, event, condition variable or counter a number picks. -/
def shared (n : Nat) : Nat := n % sharedObjects

/-- Carries out one step. -/
def runStep (w : World) (h : Holder) : Step → Except Abort (World × Outcome)
  | .yield => .ok (w, match h with | .fiber _ _ => .yield | .thread _ => .next)
  | .context =>
    .ok (w.say h ("fiber=" ++ toString (match h with | .fiber _ _ => true | .thread _ => false)), .next)
  | .currentGroup =>
    .ok (w.say h (match w.groupOfHolder h with
      | some g => "group=Some(" ++ toString g ++ ")"
      | none => "group=None"), .next)
  | .groupDebug =>
    .ok (w.say h (match w.groupOfHolder h with
      | some g => "Some(" ++ w.groupDebugText g ++ ")"
      | none => "None"), .next)
  | .timersFired =>
    .ok (w.say h (match w.groupOfHolder h with
      | some g => "timers_fired=Some(" ++ toString (w.group g).timer.fired ++ ")"
      | none => "timers_fired=None"), .next)
  | .log text => .ok (w.say h text, .next)
  | .spawn s =>
    match h with
    | .fiber _ _ => w.spawnJoinable h s
    | .thread _ =>
      match s.api with
      | .checked => .ok (w.say h ("spawn_err=" ++ Error.noRuntime.message), .next)
      | _ => .error (Abort.spawnFailed .noRuntime)
  | .startDetached d =>
    match h with
    | .fiber _ k =>
      let (w, f) := w.describe d (w.worker k).group false false false
      .ok ({ w with live := w.live + 1 }.pushTasks h [.startForever f], .next)
    | .thread _ => .error Abort.startOutside
  | .batch ds =>
    match h with
    | .fiber _ k =>
      if ds.isEmpty then .ok (w, .next)
      else
        let (w, fs) := w.describeAll (w.worker k).group ds
        .ok (w.pushTasks h [.startRest fs], .next)
    | .thread _ => .error Abort.batchOutside
  | .join d =>
    match (w.frameOf h).takeHandle d with
    | (some b, fr) => .ok ((w.setFrame h fr).pushTasks h [.awaitLatch b], .next)
    | (none, _) => .ok (w.say h ("join" ++ toString d ++ "=none"), .next)
  | .joinAll d =>
    let (bs, fr) := (w.frameOf h).takeHandles d
    .ok ((w.setFrame h fr).pushTasks h (bs.map Task.awaitLatch), .next)
  | .detach d => .ok (w.setFrame h ((w.frameOf h).takeHandle d).2, .next)
  | .drop d =>
    if (w.frameOf h).holds d then .error Abort.droppedHandle else .ok (w, .next)
  | .joinable d =>
    .ok (w.say h ("joinable" ++ toString d ++ "=" ++
      (if (w.frameOf h).holds d then "true" else "none")), .next)
  | .lock m =>
    match w.lockMutex (shared m) (waiterOf h) with
    | (w, none) => .ok (w.follow h (.own (shared m)) true, .next)
    | (w, some b) => .ok (w.blockOn h b none (.own (shared m)) none)
  | .unlock m =>
    match (w.frameOf h).dropGuard (shared m) with
    | some fr =>
      let (w, cs) := (w.setFrame h fr).unlockMutex (shared m)
      .ok (w.addChores h.actor cs, .next)
    | none => .ok (w.say h ("unlock" ++ toString m ++ "=not_held"), .next)
  | .tryLock m =>
    let (w, ok) := w.tryLockMutex (shared m)
    let w := if ok then w.follow h (.own (shared m)) true else w
    .ok (w.say h ("try_lock" ++ toString m ++ "=" ++ toString ok), .next)
  | .set e =>
    let (w, cs) := w.setEvent (shared e)
    .ok (w.addChores h.actor cs, .next)
  | .wait e => .ok (w.awaitEvent h (shared e))
  | .waitFor e ms =>
    match w.enqueue (waiterOf h) (.event (shared e)) with
    | (w, some b) => w.blockFor h b ms (.reportWait e)
    | (w, none) => .ok (w.follow h (.reportWait e) true, .next)
  | .isSet e =>
    .ok (w.say h ("is_set" ++ toString e ++ "=" ++ toString (w.event (shared e)).isSet), .next)
  | .cvWait c m =>
    match (w.frameOf h).dropGuard (shared m) with
    | some fr =>
      match (w.setFrame h fr).enqueue (waiterOf h) (.condvar (shared c)) with
      | (w, some b) =>
        let (w, cs) := w.unlockMutex (shared m)
        .ok ((w.addChores h.actor cs).blockOn h b none (.relock m) none)
      | (w, none) => .ok (w, .next)
    | none => .ok (w.say h ("cv_wait" ++ toString c ++ "=not_held"), .next)
  | .cvWaitFor c m ms =>
    match (w.frameOf h).dropGuard (shared m) with
    | some fr =>
      match (w.setFrame h fr).enqueue (waiterOf h) (.condvar (shared c)) with
      | (w, some b) =>
        let (w, cs) := w.unlockMutex (shared m)
        (w.addChores h.actor cs).blockFor h b ms (.relockReport c m)
      | (w, none) => .ok (w, .next)
    | none => .ok (w.say h ("cv_wait" ++ toString c ++ "=not_held"), .next)
  | .notifyOne c =>
    let (w, cs) := w.notifyCondvar (shared c) false
    .ok (w.addChores h.actor cs, .next)
  | .notifyAll c =>
    let (w, cs) := w.notifyCondvar (shared c) true
    .ok (w.addChores h.actor cs, .next)
  | .countDown b =>
    if w.hasBarrier b then do
      let (w, cs) ← w.countDownLatch b
      return (w.addChores h.actor cs, .next)
    else .ok (w.say h ("barrier" ++ toString b ++ "=none"), .next)
  | .barrierWait b =>
    if w.hasBarrier b then .ok (w.awaitLatch h b)
    else .ok (w.say h ("barrier" ++ toString b ++ "=none"), .next)
  | .isOpen b =>
    if w.hasBarrier b then
      .ok (w.say h ("is_open" ++ toString b ++ "=" ++ toString (w.latch b).isOpen), .next)
    else .ok (w.say h ("barrier" ++ toString b ++ "=none"), .next)
  | .sleep ms =>
    if ms = 0 then .ok (w, .next)
    else
      match h with
      | .fiber _ k => do
        let (w, e) := w.newEvent
        let (w, t) ← w.armTimer (w.worker k).group (w.worker k).thread (w.timerDeadline ms) none
          (.setEvent e)
        return (w.pushTasks h [.awaitEvent e, .dropTimer t], .next)
      | .thread _ => .ok (w.sleepFor h.actor (millis ms), .next)
  | .inc k =>
    .ok ({ w with counters := w.counters.modify (shared k) (· + 1) }, .next)
  | .rmw k =>
    let w := w.pushTasks h [.store (shared k) (w.counter (shared k) + 1)]
    .ok (w, match h with | .fiber _ _ => .yield | .thread _ => .next)
  | .loop n body =>
    match n with
    | 0 => .ok (w, .next)
    | n + 1 => .ok (w.pushTasks h (body.map Task.step ++ [.step (.loop n body)]), .next)
  | .panic text => .ok ((w.say h ("panic=" ++ text)).setTasks h [.finish], .next)
  | .oneshot ms early =>
    match h with
    | .fiber _ k => do
      let (w, e) := w.newEvent
      let (w, t) ← w.armTimer (w.worker k).group (w.worker k).thread (w.timerDeadline ms) none
        (.setEvent e)
      let w := if early then (w.setEvent e).1 else w
      return (w.pushTasks h [.awaitEvent e, .noteSet "oneshot=" e, .dropTimer t], .next)
    | .thread _ => .error Abort.oneshotOutside
  | .block ms => .ok (w.sleepFor h.actor (millis ms), .next)
  | .waitableTimer ms =>
    match h with
    | .fiber _ k => do
      let (w, e) := w.newEvent
      let (w, t) ← w.armTimer (w.worker k).group (w.worker k).thread (w.timerDeadline ms) none
        (.setEvent e)
      return (w.pushTasks h
        [.noteSet "has_fired=" e, .awaitEvent e, .noteSet "has_fired=" e, .dropTimer t], .next)
    | .thread _ => .error Abort.timerOutside
  | .groupTimer ms interval limit cancel =>
    match h with
    | .fiber _ k => do
      let g := (w.worker k).group
      let (w, e) := w.newEvent
      let c := w.tallies.length
      let (w, t) ← w.armTimer g (w.worker k).thread (w.timerDeadline ms) (interval.map periodNanos)
        (.tally c)
      let w := { w with tallies := w.tallies ++
        [({ limit, event := e, timer := t, periodic := interval.isSome } : Tally)] }
      if cancel then return ((w.cancelTimer t).say h "group_timer=cancelled", .next)
      else return (w.pushTasks h [.awaitEvent e, .reportTally c], .next)
    | .thread _ => .ok (w.say h "group_timer=none", .next)

/-! ## Calls of the main thread -/

/-- Carries out one call of the main thread. -/
def runCall (w : World) (h : Holder) : Call → Except Abort (World × Outcome)
  | .info =>
    let c := w.config
    .ok (w.say h ("info=groups:" ++ toString w.groups.length ++ ",workers:" ++
      toString w.workers.length ++ ",scheduling:" ++ c.scheduling ++ ",stack_size:" ++
      toString c.stackSize), .next)
  | .spawn s => w.spawnJoinable h s
  | .join d =>
    match (w.frameOf h).takeHandle d with
    | (some b, fr) =>
      .ok ((w.setFrame h fr).pushTasks h [.awaitLatch b, .note ("joined" ++ toString d)], .next)
    | (none, _) => .ok (w.say h ("join" ++ toString d ++ "=none"), .next)
  | .joinAll d =>
    let (bs, fr) := (w.frameOf h).takeHandles d
    .ok ((w.setFrame h fr).pushTasks h
      (bs.map Task.awaitLatch ++ [.note ("joined_all" ++ toString d)]), .next)
  | .detach d => .ok (w.setFrame h ((w.frameOf h).takeHandle d).2, .next)
  | .startDetached d =>
    let (w, f) := w.describe d 0 false false false
    .ok ({ w with live := w.live + 1 }.pushTasks h [.startForever f], .next)
  | .batch ds =>
    if ds.isEmpty then .ok (w, .next)
    else
      let (w, fs) := w.describeAll 0 ds
      .ok (w.pushTasks h [.startRest fs], .next)
  | .unknown => .ok (w.say h "unknown_call", .next)

/-! ## Tasks -/

/-- How long the main thread watches a run: 300 ms. -/
def watchSpan : Nat := 300000000

/-- Whether the run is quiet: no fiber is live and the plain thread is done. -/
def quiet (w : World) : Bool := w.live == 0 && !(w.threads.drop 1).any Thread.busy

/-- Carries out the first task of a holder. -/
def perform (w : World) (h : Holder) : Except Abort (World × Outcome) :=
  match w.tasksOf h with
  | [] => .ok (w, .next)
  | task :: rest =>
    let w := w.setTasks h rest
    match task with
    | .step s => w.runStep h s
    | .call c => w.runCall h c
    | .resumed sequel none => .ok (w.follow h sequel true, .next)
    | .resumed sequel (some (r, t)) =>
      let timedOut := (w.timeouts.getD r default).timedOut
      let w := { w with timeouts := w.timeouts.modify r (fun x => { x with gone := true }) }
      let w := w.cancelTimer t
      let w := if timedOut then w.withdraw (w.timeouts.getD r default).block else w
      .ok (w.follow h sequel !timedOut, .next)
    | .settled sequel woken => .ok (w.follow h sequel woken, .next)
    | .store k v => .ok ({ w with counters := w.counters.set k v }, .next)
    | .note text => .ok (w.say h text, .next)
    | .noteSet text e => .ok (w.say h (text ++ toString (w.event e).isSet), .next)
    | .awaitEvent e => .ok (w.awaitEvent h e)
    | .awaitLatch b => .ok (w.awaitLatch h b)
    | .dropTimer t => .ok (w.cancelTimer t, .next)
    | .reportTally c =>
      .ok (w.say h ("group_timer=" ++ toString (w.tallies.getD c default).calls), .next)
    | .attempt f n fatal =>
      let r := w.fiber f
      match w.push (w.threadNo h) r.group (r.entity f) false with
      | (w, true) => .ok (w.keepHandle h f, .next)
      | (w, false) =>
        let w := w.sleepFor h.actor (attemptDelay n)
        if n + 1 < attempts then .ok (w.pushTasks h [.attempt f (n + 1) fatal], .next)
        else .ok (w.pushTasks h [.giveUp f fatal], .next)
    | .giveUp f fatal =>
      -- the description is dropped with its work, and no longer counts as live
      let w := { w.modifyFiber f (fun x => { x with tasks := [] }) with live := w.live - 1 }
      if fatal then .error (Abort.spawnFailed .runQueueOverflow)
      else .ok (w.say h ("spawn_err=" ++ Error.runQueueOverflow.message), .next)
    | .startForever f =>
      let r := w.fiber f
      match w.push (w.threadNo h) r.group (r.entity f) false with
      | (w, true) => .ok (w, .next)
      | (w, false) => .ok ((w.sleepFor h.actor retryDelay).pushTasks h [.startForever f], .next)
    | .startRest fs =>
      match fs with
      | [] => .ok (w, .next)
      | f :: _ =>
        let g := (w.fiber f).group
        let (w, rest) := w.pushAll (w.threadNo h) g (fs.map (fun i => (w.fiber i).entity i))
        if rest.isEmpty then .ok (w, .next)
        else .ok ((w.sleepFor h.actor retryDelay).pushTasks h [.startRest (rest.map Entity.id)], .next)
    | .launch f =>
      match h with
      | .fiber _ k => do
        match ← w.instantiate k f with
        | (w, true) => return (w, .switchTo f)
        | (w, false) => return ((w.sleepFor h.actor stackRetryDelay).pushTasks h [.launch f], .next)
      | .thread _ => .ok (w, .next)
    | .adopt f => .ok (w.keepHandle h f, .next)
    | .finish =>
      let fr := w.frameOf h
      let w := w.setFrame h {}
      let ends := match h with
        | .fiber _ _ => [Task.exit]
        | .thread _ => []
      .ok (w.pushTasks h (fr.guards.map Task.release ++ ends), .next)
    | .release m =>
      let (w, cs) := w.unlockMutex m
      .ok (w.addChores h.actor cs, .next)
    | .exit => .ok (w, .exit)
    | .startPlain => .ok (w.modifyThread 1 (fun x => { x with started := true }), .next)
    | .watch => .ok (w.pushTasks h [.observe (w.now + watchSpan)], .next)
    | .observe deadline =>
      if w.quiet then .ok ({ w with ending := some .quiet }, .next)
      else if deadline ≤ w.now then .ok ({ w with ending := some .stuck }, .next)
      else .ok (w.pushTasks h [.observe deadline], .next)
    | .shutdown =>
      if w.live == 0 then .ok ({ w with ending := some .quiet }, .next)
      else .ok (w.pushTasks h [.shutdown], .next)

end World

end Fibers
