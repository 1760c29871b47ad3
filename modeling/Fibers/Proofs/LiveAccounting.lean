import Mathlib
import Fibers.Proofs.LiveSteps
/-!
# The live-fiber accounting holds over every run

Every action of every actor keeps the invariant `Census.Inv` of the live-fiber accounting, and a
world just started has it; so every world a run can get to has it, in whatever order the actors
act and the clock moves (`World.Reaches`). Read back in the runtime's own terms
(`World.Accounted`): the live count is the number of fibers submitted and not yet returned,
those still being handed to a run queue included; the stacks outstanding are those of the live
fibers that have one; a fiber's exit barrier opens exactly when the fiber has returned, so a
join that passes it sees the fiber no longer counted and its stack no longer outstanding; a spawn
that gave up leaves no handle; and the run ends quiet only once no fiber is live.

What a task of a holder does is `Fibers.Proofs.LiveSteps`; here the actors around the tasks.

## Contents
1. What the invariant gives an actor: readiness, fibers free to queue.
2. Chores.
3. Workers: the scheduling loop, taking an entity, running a fiber and its exit.
4. Plain threads and timer threads.
5. Actions and the clock.
6. The start of a run.
7. Every world a run gets to is accounted.
-/

namespace Fibers

namespace Census

variable {v v₁ : Census}

/-! ## 1. What the invariant gives an actor -/

/-- A fiber running on a worker with tasks left is ready to take them on. -/
theorem Inv.ready_running (hi : v.Inv) {k f : Nat} (hl : v.load k = .running f)
    (ht : v.tasksOf (.fiber f k) ≠ []) : v.Ready (.fiber f k) :=
  ⟨hi.places.running k f hl, by simpa [FiberView.busy, tasksOf] using ht⟩

/-- A thread with tasks is one of the census's threads. -/
theorem ready_thread {t : Nat} (ht : v.tasksOf (.thread t) ≠ []) : v.Ready (.thread t) := by
  by_contra hlt
  simp [tasksOf, thread, List.getD_eq_getElem?_getD, List.getElem?_eq_none (Nat.le_of_not_lt hlt)] at ht

/-- A fiber with a stack is not in flight and was not dropped: it may be queued. -/
theorem Inv.free_of_started (hi : v.Inv) {f : Nat} (hs : (v.fiber f).started = true) :
    f ∉ v.spawning ∧ (v.fiber f).dropped = false :=
  ⟨fun hf => by simp [(hi.places.spawning f hf).1] at hs, by simp [FiberView.dropped, hs]⟩

/-- What a worker is about to take is not in flight and was not dropped. -/
theorem Inv.free_of_entering (hi : v.Inv) {k : Nat} {e : Entity} (hl : v.load k = .entering e) :
    e.id ∉ v.spawning ∧ (v.fiber e.id).dropped = false :=
  ⟨fun hf => hi.places.apart _ hf (mem_placed_of_load hl), hi.places.placed _ (mem_placed_of_load hl)⟩

/-- Queueing one entity of a fiber that is not in flight and was not dropped. -/
theorem Inv.queue (hi : v.Inv) {g : Nat} {s : Scheduler} {e : Entity}
    (hs : (v.sched g).Sound → s.entities.Perm (e :: (v.sched g).entities) ∧ s.Sound)
    (he : e.id ∉ v.spawning ∧ (v.fiber e.id).dropped = false) : (v.setSched g s).Inv := by
  have hperm := hs (hi.places.sound g)
  refine hi.setSched (fun _ => hperm.2) fun e' he' => ?_
  rcases List.mem_cons.mp (hperm.1.subset he') with rfl | he'
  · exact .inr he
  · exact .inl he'

/-- Draws from run queues change no fiber. -/
theorem Draws.fibers {o : Option Entity} (hd : v.Draws v₁ o) : v₁.fibers = v.fibers := by
  induction hd with
  | stay => rfl
  | skip hd _ ih =>
    obtain ⟨g, s', rfl, -⟩ := hd
    exact ih
  | found hd =>
    obtain ⟨g, s', rfl, -⟩ := hd
    rfl

/-- Nothing let go of. -/
theorem Rewaited.refl (v : Census) : v.Rewaited v [] := ⟨rfl, fun _ hb => .inl hb⟩

@[simp] theorem spawning_setChores {a : Actor} {cs : List Chore} : (v.setChores a cs).spawning = v.spawning := by
  cases a <;> rfl

@[simp] theorem fiber_setChores {a : Actor} {cs : List Chore} {f : Nat} : (v.setChores a cs).fiber f = v.fiber f := by
  cases a <;> rfl

/-- A worker's fiber, which has a stack, is to be put back in a run queue. -/
theorem Inv.requeue (hi : v.Inv) {f : Nat} (hst : (v.fiber f).started = true) (a : Actor) (y : Bool) :
    (v.setChores a (v.choresOf a ++ [.requeue f y])).Inv := by
  refine hi.setChores fun x hx => ?_
  rw [List.flatMap_append, List.mem_append] at hx
  rcases hx with hx | hx
  · exact hi.places.chores x (mem_choreFibers_of_choresOf hx)
  · simp only [List.flatMap_cons, List.flatMap_nil, List.append_nil, Chore.fibers, List.mem_singleton] at hx
    exact hx ▸ hst

/-- A worker puts its fiber back to be requeued and takes what a draw from the run queues handed
out. -/
theorem Inv.requeue_draw (hi : v.Inv) {o : Option Entity} (hd : v.Draws v₁ o) {f : Nat}
    (hst : (v.fiber f).started = true) (k : Nat) (y : Bool) :
    ((v₁.setChores (.worker k) (v₁.choresOf (.worker k) ++ [.requeue f y])).setLoad k (Load.ofTaken o)).Inv := by
  obtain ⟨hi₁, ho⟩ := hi.draws hd
  have hst₁ : (v₁.fiber f).started = true := by rw [fiber, hd.fibers]; exact hst
  refine (hi₁.requeue hst₁ _ y).setLoad ?_
  cases o with
  | none => trivial
  | some e => exact ho e rfl

end Census

namespace World

variable {w w₁ w' : World} {k f : Nat}

/-! ## 2. Chores -/

/-- Handing an entity of a fiber that is free to queue to a run queue. -/
theorem inv_push (hi : w.census.Inv) {t g : Nat} {e : Entity} {y ok : Bool}
    (he : e.id ∉ w.census.spawning ∧ (w.census.fiber e.id).dropped = false)
    (hp : w.push t g e y = (w₁, ok)) : w₁.census.Inv ∧ w₁.census.fibers = w.census.fibers := by
  rcases push_census w hp with ⟨-, rfl⟩ | ⟨-, s', hs', e₁⟩
  · exact ⟨hi, rfl⟩
  rw [e₁]
  refine ⟨hi.queue (fun hs => ?_) he, rfl⟩
  rw [census_sched] at hs ⊢
  exact Scheduler.push_sound hs hs'

/-- A waiting plain thread is one of the world's threads. -/
theorem lt_of_wait {t : Nat} {tw : ThreadWait} (h : (w.thread t).wait = some tw) : t < w.threads.length := by
  by_contra hlt
  simp only [World.thread, List.getD_eq_getElem?_getD, List.getElem?_eq_none (Nat.le_of_not_lt hlt),
    Option.getD_none] at h
  cases h

/-- A plain thread woken settles its wait first. -/
theorem census_settle {t : Nat} (ht : t < w.threads.length) (T : Task) :
    (w.modifyThread t (fun x => { x with wait := none, tasks := T :: x.tasks })).census =
      w.census.setTasks (.thread t) ([T] ++ w.census.tasksOf (.thread t)) := by
  have hview : (w.threads.modify t (fun x => { x with wait := none, tasks := T :: x.tasks })).map Thread.view =
      (w.threads.map Thread.view).modify t
        (fun x => { x with tasks := [T] ++ (w.census.thread t).tasks }) := by
    rw [List.modify_eq_set, List.modify_eq_set, List.map_set, List.getElem?_map]
    simp [Census.thread, census, List.getD_eq_getElem?_getD, List.getElem?_eq_getElem ht, Thread.view]
  simp only [modifyThread, census, blockRefs, Census.setTasks, Census.tasksOf, hview]
  rw [map_modify_of_eq (g := fun x : Thread => x.chores)
    (f := fun x => { x with wait := none, tasks := T :: x.tasks }) fun _ => rfl]

/-- One chore of an actor: a fiber it makes ready has a stack; a thread it wakes settles. -/
theorem inv_doChore (hi : w.census.Inv) {a : Actor} {c : Chore}
    (hc : ∀ f ∈ c.fibers, (w.census.fiber f).started = true) :
    (w.doChore a c).1.census.Inv ∧ (w.doChore a c).1.census.fibers = w.census.fibers := by
  cases c with
  | wake x =>
    cases x with
    | fiber f =>
      exact inv_push hi (hi.free_of_started (hc f (by simp [Chore.fibers]))) (Prod.mk.eta).symm
    | thread t =>
      simp only [doChore, wakeThread]
      split
      · next tw htw =>
        have ht := lt_of_wait htw
        rw [census_settle ht]
        refine ⟨hi.pushPlain (show w.census.Has (.thread t) by simpa [Census.Has, census] using ht)
          (fun _ _ h => by cases h)
          (by simp [Task.ends, Task.spawning, Task.adopting]), ?_⟩
        simp [Census.setTasks]
      · exact ⟨hi, rfl⟩
  | requeue f y => exact inv_push hi (hi.free_of_started (hc f (by simp [Chore.fibers]))) (Prod.mk.eta).symm

/-- An actor's first chore: done, or put off while the run queue is full. -/
theorem inv_choreStep (hi : w.census.Inv) (a : Actor) : (w.choreStep a).census.Inv := by
  unfold choreStep
  split
  · exact hi
  · next c rest hcs =>
    have hstarted : ∀ x ∈ (c :: rest).flatMap Chore.fibers, (w.census.fiber x).started = true :=
      fun x hx => hi.places.chores x (Census.mem_choreFibers_of_choresOf (by rwa [census_choresOf, hcs]))
    obtain ⟨hi₁, hf₁⟩ := inv_doChore hi (a := a) (c := c) fun x hx => hstarted x
      (by simp only [List.flatMap_cons, List.mem_append]; exact .inl hx)
    rcases hd : w.doChore a c with ⟨w₁, _ | _⟩ <;> rw [hd] at hi₁ hf₁ <;> dsimp only
    · simpa using hi₁
    · rw [census_setChores]
      refine hi₁.setChores fun x hx => ?_
      simp only [Census.fiber, hf₁]
      exact hstarted x (by simp only [List.flatMap_cons, List.mem_append]; exact .inr hx)

/-! ## 3. Workers -/

theorem census_takeOn (k f : Nat) : (w.takeOn k f).census = w.census.setLoad k (.running f) := by
  unfold takeOn
  dsimp only
  change ((w.modifyFiber f _).setPhase k (.fiber f)).census = _
  rw [census_setPhase, census_modifyFiber_of w]
  · rfl
  · intro; rfl

theorem inv_seek (hi : w.census.Inv) (k : Nat) : (w.seek k).census.Inv := by
  obtain ⟨v₁, o, hd, he⟩ := seek_census w k
  rw [he]
  exact hi.draw hd k

theorem inv_roused (hi : w.census.Inv) (k : Nat) : (w.roused k).census.Inv := by
  obtain ⟨v₁, o, hd, he⟩ := roused_census w k
  rw [he]
  exact hi.draw hd k

theorem inv_look (hi : w.census.Inv) (k : Nat) : (w.look k).census.Inv := by
  obtain ⟨v₁, o, hd, he | ⟨-, he⟩⟩ := look_census w k <;> rw [he]
  · exact hi.draw hd k
  · exact (hi.draws hd).1

theorem inv_wakeUp (hi : w.census.Inv) (k : Nat) : (w.wakeUp k).census.Inv := by
  unfold wakeUp
  dsimp only
  rw [census_setPhase, census_modifyGroup_idle]
  split <;> exact hi.setLoad trivial

/-- Worker `k` takes an entity: a fiber with its stack runs at once, a description first gets its
stack. -/
theorem inv_enter (hi : w.census.Inv) {e : Entity} (hl : w.census.load k = .entering e)
    (hs : w.enter k e = .ok w') : w'.census.Inv := by
  obtain ⟨hsp, hd⟩ := hi.free_of_entering hl
  unfold enter at hs
  split at hs
  · next hst =>
    obtain rfl := Except.ok.inj hs
    rw [census_takeOn]
    exact hi.setLoad (show (w.census.fiber e.id).started = true by simpa [FiberRec.view] using hst)
  · next hst =>
    obtain ⟨⟨w₁, ok⟩, hin, hs⟩ := except_bind_eq_ok hs
    have hst' : (w.census.fiber e.id).started = false := by simpa [FiberRec.view] using hst
    have hb : (w.census.fiber e.id).busy = true := by
      rw [FiberView.dropped_eq, hst'] at hd
      simpa using hd
    rcases instantiate_census w hin with ⟨rfl, e₁⟩ | ⟨rfl, e₁⟩ <;> obtain rfl := Except.ok.inj hs
    · -- no stack to be had: the worker pauses and tries again
      simpa [e₁] using hi
    · rw [census_takeOn, e₁]
      refine (hi.instantiate hst' hb hsp).setLoad ?_
      show (Census.fiber _ e.id).started = true
      rw [Census.fiber_modify (v := { w.census with outstanding := w.census.outstanding + 1 }) _
        (Census.lt_of_busy hb), if_pos rfl]

@[simp] theorem census_latches_getD (b : Nat) : w.census.latches.getD b 0 = (w.latch b).count := by
  simp only [census, World.latch, List.getD_eq_getElem?_getD, List.getElem?_map]
  cases w.latches[b]? <;> rfl

/-- The census once a returned fiber let go of its last task, its stack went back and the live
count dropped. -/
theorem census_released {f k : Nat} {P : Pool} (hP : P.outstanding = w.pool.outstanding - 1) :
    ({ w.setTasks (.fiber f k) [] with pool := P, live := (w.setTasks (.fiber f k) []).live - 1 } : World).census =
      { w.census with
        fibers := w.census.fibers.modify f (fun y => { y with tasks := [] })
        latches := w.census.latches
        live := w.census.live - 1
        outstanding := w.census.outstanding - 1 } := by
  simp only [census, setTasks, modifyFiber]
  -- the pool's count is given; the fibers' views change as the census's do
  congr 1
  exact map_modify_view fun _ => rfl

/-- Fiber `f` returns on worker `k`: it lets go of its last task, its stack goes back and the
live count drops, then its exit barrier is counted down and the worker goes back to the top of
its loop. -/
theorem inv_retire (hi : w.census.Inv) (hl : w.census.load k = .running f)
    (ht : w.tasksOf (.fiber f k) = [.exit]) (hs : (w.setTasks (.fiber f k) []).retire k f = .ok w₁) :
    (w₁.setPhase k .seek).census.Inv := by
  have hst : (w.census.fiber f).started = true := hi.places.running k f hl
  have ht' : (w.census.fiber f).tasks = [.exit] := by rw [census_fiber]; exact ht
  -- the fiber ran, so it holds a stack, and the pool gets it back
  obtain ⟨s, hstack⟩ : ∃ s, (w.fiber f).stack = some s := by
    rw [census_fiber] at hst
    exact Option.isSome_iff_exists.mp hst
  have hfib : (w.setTasks (.fiber f k) []).fiber f = { w.fiber f with tasks := [] } := by
    simp only [setTasks, modifyFiber, World.fiber, List.getD_eq_getElem?_getD, List.getElem?_modify_eq]
    cases w.fibers[f]? <;> rfl
  unfold retire at hs
  rw [hfib] at hs
  dsimp only at hs
  rw [hstack] at hs
  dsimp only at hs
  rw [census_setPhase]
  have hP : ((w.setTasks (.fiber f k) []).pool.deallocate ((w.setTasks (.fiber f k) []).worker k).thread s).outstanding =
      w.pool.outstanding - 1 := by
    rw [Pool.outstanding_deallocate]
    rfl
  rcases hlatch : (w.fiber f).latch with _ | b <;> rw [hlatch] at hs <;> dsimp only at hs
  · -- no exit barrier
    obtain rfl := Except.ok.inj hs
    have hln : (w.census.fiber f).latch = none := by simp [FiberRec.view, hlatch]
    rw [census_released hP]
    exact (hi.exit ht' hst (fun b hb => by rw [hln] at hb; cases hb) fun _ => rfl).setLoad trivial
  · -- the exit barrier is counted down after the count dropped: it opens, and its waiters wake
    obtain ⟨⟨w₂, cs⟩, hc, hs⟩ := except_bind_eq_ok hs
    obtain rfl := Except.ok.inj hs
    obtain ⟨-, hrw, hw⟩ := countDownLatch_census _ hc
    rw [census_released hP] at hrw hw
    have hlb : (w.census.fiber f).latch = some b := by simp [FiberRec.view, hlatch]
    -- the barrier held one count, for the fiber that had not returned
    have hcount : (w.latch b).count = 1 := by
      have := hi.latches.count f b hlb
      rw [census_latches_getD, FiberView.returned, ht'] at this
      simpa using this
    have hls : ∀ b', (w.census.fiber f).latch = some b' →
        w.census.latches.set b ((w.latch b).count - 1) = w.census.latches.set b' 0 := by
      intro b' hb'
      rw [hlb] at hb'
      cases hb'
      rw [hcount]
    have hx := hi.exit ht' hst hls fun hn => by rw [hlb] at hn; cases hn
    have hi₂ := hx.rewaited hrw (by simp)
    rw [census_addChores]
    exact (hi₂.addWakes hx (by rw [hrw.1]) hw _).setLoad trivial

/-- A holder with no task left does nothing. -/
theorem perform_of_nil {h : Holder} (ht : w.tasksOf h = []) : w.perform h = .ok (w, .next) := by
  unfold perform
  rw [ht]

/-- A holder whose next task is its exit lets go of it and reports the exit. -/
theorem perform_of_exit {h : Holder} {rest : List Task} (ht : w.tasksOf h = .exit :: rest) :
    w.perform h = .ok (w.setTasks h rest, .exit) := by
  unfold perform
  rw [ht]

/-- Worker `k` runs a task of its fiber `f` and does what the fiber asks: goes on with it, puts
it back and takes the next entity, runs the fiber handed over, or retires it. -/
theorem inv_runFiber (hi : w.census.Inv) (hl : w.census.load k = .running f) (hq : w.ending ≠ some .quiet)
    (hs : w.runFiber k f = .ok w') : w'.census.Inv := by
  unfold runFiber at hs
  obtain ⟨⟨w₁, o⟩, hp, hs⟩ := except_bind_eq_ok hs
  rcases ht : w.tasksOf (.fiber f k) with _ | ⟨t, rest⟩
  · -- no task left: nothing to do
    rw [perform_of_nil ht] at hp
    obtain ⟨rfl, rfl⟩ := Prod.mk.inj (Except.ok.inj hp)
    obtain rfl := Except.ok.inj hs
    exact hi
  have hr := hi.ready_running hl (by rw [census_tasksOf, ht]; exact List.cons_ne_nil _ _)
  by_cases hx : t = .exit
  · -- the body is done: the worker retires the fiber
    subst hx
    have hrest : rest = [] := by
      have hf : (w.census.fiber f).tasks = .exit :: rest := by rw [census_fiber]; exact ht
      exact (hf ▸ hi.counts.ends f).eq_nil rfl
    subst hrest
    rw [perform_of_exit ht] at hp
    obtain ⟨rfl, rfl⟩ := Prod.mk.inj (Except.ok.inj hp)
    obtain ⟨w₂, hre, hs⟩ := except_bind_eq_ok hs
    obtain rfl := Except.ok.inj hs
    exact inv_retire hi hl ht hre
  have L := leaves_perform hi hr hq (fun rest' h => hx (List.cons.inj (ht.symm.trans h)).1) hp
  -- the fiber still runs on the worker, so it has its stack
  have hl₁ : w₁.census.load k = .running f := by rw [Census.load, L.loads]; exact hl
  have hst₁ := L.inv.places.running k f hl₁
  cases o with
  | next =>
    obtain rfl := Except.ok.inj hs
    exact L.inv
  | yield =>
    dsimp only at hs
    split at hs
    · rcases hpop : w₁.popShared (w.worker k).group with ⟨w₂, _ | e⟩ <;> rw [hpop] at hs <;>
        obtain rfl := Except.ok.inj hs
      · exact (L.inv.draws (popShared_draws w₁ hpop)).1
      · rw [census_setPhase, census_addChores]
        exact L.inv.requeue_draw (popShared_draws w₁ hpop) hst₁ k true
    · obtain rfl := Except.ok.inj hs
      rw [census_setPhase, census_addChores]
      exact (L.inv.requeue hst₁ _ true).setLoad trivial
  | suspend =>
    dsimp only at hs
    split at hs
    · rcases hpop : w₁.popShared (w.worker k).group with ⟨w₂, _ | e⟩ <;> rw [hpop] at hs <;>
        obtain rfl := Except.ok.inj hs <;> rw [census_setPhase]
      · exact L.inv.draw (popShared_draws w₁ hpop) k
      · exact L.inv.draw (popShared_draws w₁ hpop) k
    · obtain rfl := Except.ok.inj hs
      rw [census_setPhase]
      exact L.inv.setLoad trivial
  | switchTo t' =>
    obtain rfl := Except.ok.inj hs
    rw [census_setPhase, census_addChores]
    refine (L.inv.requeue hst₁ _ false).setLoad ?_
    exact L.inv.free_of_started L.continues
  | exit => exact absurd L.continues id

/-- One action of worker `k`: a chore first, else the next step of its loop. -/
theorem inv_workerStep (hi : w.census.Inv) (hq : w.ending ≠ some .quiet) (hs : w.workerStep k = .ok w') :
    w'.census.Inv := by
  unfold workerStep at hs
  -- the worker's sleep is over, which the census does not see
  have hi₁ : (w.modifyWorker k fun x => { x with sleepUntil := none }).census.Inv := by simpa using hi
  have hq₁ : (w.modifyWorker k fun x => { x with sleepUntil := none }).ending ≠ some .quiet := hq
  generalize w.modifyWorker k (fun x => { x with sleepUntil := none }) = w₁ at hi₁ hq₁ hs
  dsimp only at hs
  split at hs
  · obtain rfl := Except.ok.inj hs
    exact inv_choreStep hi₁ _
  split at hs
  · obtain rfl := Except.ok.inj hs
    exact inv_seek hi₁ k
  · obtain rfl := Except.ok.inj hs
    exact inv_look hi₁ k
  · obtain rfl := Except.ok.inj hs
    exact inv_wakeUp hi₁ k
  · obtain rfl := Except.ok.inj hs
    exact inv_roused hi₁ k
  · next e hph =>
    exact inv_enter hi₁ (by rw [census_load, hph]; rfl) hs
  · next f hph =>
    exact inv_runFiber hi₁ (by rw [census_load, hph]; rfl) hq₁ hs

/-! ## 4. Plain threads and timer threads -/

/-- A plain thread carries out its first task; what comes of it is the thread's own business. -/
theorem inv_perform_thread (hi : w.census.Inv) (hq : w.ending ≠ some .quiet) {t : Nat} {o : Outcome}
    (hs : w.perform (.thread t) = .ok (w', o)) : w'.census.Inv := by
  rcases ht : w.tasksOf (.thread t) with _ | ⟨task, rest⟩
  · rw [perform_of_nil ht] at hs
    obtain ⟨rfl, rfl⟩ := Prod.mk.inj (Except.ok.inj hs)
    exact hi
  have ht' : w.census.tasksOf (.thread t) = task :: rest := by rw [census_tasksOf, ht]
  have hr := Census.ready_thread (v := w.census) (by rw [ht']; exact List.cons_ne_nil _ _)
  by_cases hx : task = .exit
  · -- an exit among a thread's tasks only lets go of it
    subst hx
    rw [perform_of_exit ht] at hs
    obtain ⟨rfl, rfl⟩ := Prod.mk.inj (Except.ok.inj hs)
    rw [census_setTasks]
    exact (hi.pop hr ht' fun _ _ h => by cases h).inv
  · exact (leaves_perform hi hr hq (fun rest' h => hx (List.cons.inj (ht.symm.trans h)).1) hs).inv

/-- One action of plain thread `t`: a chore first; else, waiting, it takes its block back once
the deadline passed; else its first task. -/
theorem inv_threadStep (hi : w.census.Inv) (hq : w.ending ≠ some .quiet) {t : Nat} (hs : w.threadStep t = .ok w') :
    w'.census.Inv := by
  unfold threadStep at hs
  -- the thread's sleep is over, which the census does not see
  have hi₁ : (w.modifyThread t fun x => { x with sleepUntil := none }).census.Inv := by simpa using hi
  have hq₁ : (w.modifyThread t fun x => { x with sleepUntil := none }).ending ≠ some .quiet := hq
  generalize w.modifyThread t (fun x => { x with sleepUntil := none }) = w₁ at hi₁ hq₁ hs
  dsimp only at hs
  split at hs
  · obtain rfl := Except.ok.inj hs
    exact inv_choreStep hi₁ _
  split at hs
  · next tw htw =>
    rcases hc : w₁.claim tw.block with ⟨w₂, _ | _⟩ <;> rw [hc] at hs <;> dsimp only at hs <;>
      obtain rfl := Except.ok.inj hs <;>
      have e₂ : w₂.census = w₁.census := by rw [← census_claim w₁ tw.block, hc]
    · -- a wake claimed the block first: the thread waits for it without a deadline
      simpa [e₂] using hi₁
    · -- the thread takes its block back and settles the wait, timed out
      have hrw := withdraw_census w₂ tw.block
      rw [e₂] at hrw
      have hlen : (w₂.withdraw tw.block).threads.length = w₁.threads.length := by
        have := congrArg (fun v : Census => v.threads.length) hrw.1
        simpa [census] using this
      have ht : t < (w₂.withdraw tw.block).threads.length := hlen ▸ lt_of_wait htw
      rw [census_settle ht]
      exact (hi₁.rewaited hrw (by simp)).pushPlain (show Census.Has _ (.thread t) by simpa [Census.Has, census] using ht)
        (fun _ _ h => by cases h) (by simp [Task.ends, Task.spawning, Task.adopting])
  · rcases hp : w₁.perform (.thread t) with a | ⟨w₂, o⟩ <;> rw [hp] at hs
    · cases hs
    · obtain rfl := Except.ok.inj hs
      exact inv_perform_thread hi₁ hq₁ hp

/-- The record of a timeout that a timer serves exists. -/
theorem timeout_lt (hi : w.census.Inv) {t r : Nat} (h : w.callbacks.getD t (.setEvent 0) = .timeout r) :
    r < w.timeouts.length := by
  have ht : t < w.callbacks.length := by
    by_contra ht
    simp [List.getD_eq_getElem?_getD, List.getElem?_eq_none (Nat.le_of_not_lt ht)] at h
  have hr : r ∈ w.census.timeoutRefs := by
    simp only [census, List.mem_flatMap]
    refine ⟨.timeout r, ?_, by simp [Callback.timeoutRefs]⟩
    rw [List.getD_eq_getElem?_getD, List.getElem?_eq_getElem ht, Option.getD_some] at h
    exact h ▸ List.getElem_mem ht
  simpa [census] using hi.places.timeouts r hr

/-- Claiming a block changes only the claims. -/
theorem claim_eq (b : Nat) :
    w.claim b = ({ w with claimed := (Waitable.claim w.claimed b).1 }, (Waitable.claim w.claimed b).2) := rfl

/-- A timer's callback lets go of blocks and wakes the waiters of blocks held; nothing else of
what it does is seen by the census. -/
theorem fire_census (hi : w.census.Inv) (t : Nat) :
    w.census.Rewaited (w.fire t).1.census [] ∧ w.census.Wakes (w.fire t).2 := by
  unfold fire
  split
  · exact setEvent_census w (Prod.mk.eta).symm
  · next r hcb =>
    dsimp only
    split
    · exact ⟨.refl _, fun c hc => by cases hc⟩
    rw [claim_eq]
    generalize Waitable.claim w.claimed (w.timeouts.getD r default).block = cl
    rcases cl with ⟨cl, _ | _⟩ <;> dsimp only
    · exact ⟨.refl _, fun c hc => by cases hc⟩
    · -- the timeout claimed its block: the record says so, and the block's waiter wakes
      have hb : (w.timeouts.getD r default).block ∈ w.blockRefs := by
        have hr := timeout_lt hi hcb
        simp only [blockRefs, List.mem_append, List.mem_map]
        exact .inr ⟨_, List.getElem_mem hr, by rw [List.getD_eq_getElem?_getD, List.getElem?_eq_getElem hr]; rfl⟩
      have e : ({ w with claimed := cl, timeouts := w.timeouts.modify r fun x => { x with timedOut := true } } :
          World).census = w.census := census_modifyTimeout { w with claimed := cl } fun _ => rfl
      generalize ({ w with claimed := cl, timeouts := w.timeouts.modify r fun x => { x with timedOut := true } } :
          World) = w₂ at e ⊢
      rw [e, ← e]
      refine ⟨.refl _, wakes_census w₂ fun b hb' => ?_⟩
      rw [List.mem_singleton.mp hb', show w₂.blockRefs = w.blockRefs from congrArg Census.blockRefs e]
      exact hb
  · next c hcb =>
    dsimp only
    -- counting the call is not seen by the census
    generalize hw₁ : ({ w with tallies := w.tallies.modify c fun x =>
      { x with calls := (w.tallies.getD c default).calls + 1 } } : World) = w₁
    rw [show w.census = w₁.census by rw [← hw₁]; rfl]
    split
    · -- the tally reached its limit: its event is set, its timer cancelled when periodic
      split
      · exact setEvent_census (w := w₁.cancelTimer _) (Prod.mk.eta).symm
      · exact setEvent_census (w := w₁) (Prod.mk.eta).symm
    · exact ⟨.refl _, fun c hc => by cases hc⟩

/-- One action of a group's timer thread: a chore, or the firing of its next due timer. -/
theorem inv_timerStep (hi : w.census.Inv) (g : Nat) : (w.timerStep g).census.Inv := by
  unfold timerStep
  split
  · exact inv_choreStep hi _
  dsimp only
  -- the timer thread collects its due timers, which the census does not see
  generalize (((w.group g).timer.collect w.timers).popDue w.timers w.now) = pd
  have hi₁ : (w.setTimerThread g pd.1).census.Inv := by simpa using hi
  split
  · exact hi₁
  · next p hp =>
    obtain ⟨hrw, hw⟩ := fire_census hi₁ p.timer
    generalize (w.setTimerThread g pd.1).fire p.timer = fc at hrw hw ⊢
    rcases fc with ⟨w₂, cs⟩
    dsimp only
    -- a timer re-armed past the word halts the timer thread, which the census does not see
    exact inv_addChores_of_wakes hi₁ (by rw [census_setTimerThread w₂]; exact hrw) hw _

/-! ## 5. Actions and the clock -/

/-- One action of any actor, while the run has not ended quiet. -/
theorem inv_act (hi : w.census.Inv) (hq : w.ending ≠ some .quiet) {a : Actor} (hs : w.act a = .ok w') :
    w'.census.Inv := by
  unfold act at hs
  -- the actor is recorded as the current one, which the census does not see
  cases a <;> dsimp only at hs
  case worker k => exact inv_workerStep (w := { w with current := some (.worker k) }) hi hq hs
  case thread t => exact inv_threadStep (w := { w with current := some (.thread t) }) hi hq hs
  case timer g =>
    obtain rfl := Except.ok.inj hs
    exact inv_timerStep (by simpa using hi) g

@[simp] theorem census_tick (t : Nat) : ({ w with now := t, current := none } : World).census = w.census := rfl

end World

/-! ## 6. The start of a run

A run starts with no fiber: nothing names one, no block or timeout record exists, and every run
queue is empty and fit to run. -/

/-- What each call of a map gives has a property; so does each result of the whole map. -/
theorem mapM_except_forall {ε α β : Type} (P : β → Prop) {f : α → Except ε β}
    (hf : ∀ a b, f a = .ok b → P b) : ∀ (l : List α) (bs : List β), l.mapM f = .ok bs → ∀ b ∈ bs, P b
  | [], bs, h => by
    cases h
    simp
  | a :: l, bs, h => by
    rw [List.mapM_cons] at h
    obtain ⟨b, hb, h⟩ := except_bind_eq_ok h
    obtain ⟨bs', hbs, h⟩ := except_bind_eq_ok h
    cases h
    simpa using ⟨hf a b hb, mapM_except_forall P hf l bs' hbs⟩

/-- An entry read with a default is an entry of the list, or the default. -/
theorem getD_mem_or_default {α : Type} (l : List α) (n : Nat) (d : α) : l.getD n d ∈ l ∨ l.getD n d = d := by
  rw [List.getD_eq_getElem?_getD]
  rcases h : l[n]? with _ | a
  · exact .inr rfl
  · exact .inl (List.mem_of_getElem? h)

namespace Scheduler

/-- A scheduler as a configuration creates it holds nothing and is fit to run. -/
theorem create_fresh {c : Config} {n : Nat} {s : Scheduler} (h : Scheduler.create c n = .ok s) :
    s.entities = [] ∧ s.Sound := by
  unfold Scheduler.create at h
  split at h
  · split at h
    · next q hq =>
      cases h
      unfold SharedQueue.create at hq
      split at hq
      · cases hq
      split at hq
      · cases hq
      cases hq
      exact ⟨rfl, trivial⟩
    · cases h
  split at h
  · split at h
    · cases h
    · cases h
      exact ⟨Stealing.create_entities _ _, Stealing.create_wf (by omega) _, Stealing.create_classes _ _⟩
  · cases h

/-- A worker entering a scheduler fit to run moves no entity and leaves it fit to run. -/
theorem enter_fresh {s s' : Scheduler} {t i : Nat} (hs : s.Sound) (h : s.enter t i = .ok s') :
    s'.entities = s.entities ∧ s'.Sound := by
  cases s with
  | shared q =>
    cases h
    exact ⟨rfl, trivial⟩
  | stealing st =>
    simp only [enter] at h
    rcases he : st.enter t i with a | st' <;> rw [he] at h <;> cases h
    obtain ⟨hent, hd, hw⟩ := Stealing.enter_ok hs.1 he
    exact ⟨hent, hw, hs.2.drawn hd⟩

end Scheduler

/-- A group as the start of a run leaves it: nothing queued, its scheduler fit to run, no chore
for its timer thread. -/
structure GroupState.Fresh (gs : GroupState) : Prop where
  entities : gs.sched.entities = []
  sound : gs.sched.Sound
  chores : gs.timerChores = []

theorem GroupState.fresh_default : (default : GroupState).Fresh := ⟨rfl, trivial, rfl⟩

/-- Creating the groups of a plan gives fresh groups. -/
theorem createGroups_fresh {c : Config} {plans : List GroupPlan} {gs : List GroupState}
    (h : createGroups c plans = .ok gs) : ∀ x ∈ gs, x.Fresh := by
  refine mapM_except_forall _ (fun ⟨p, id⟩ x hx => ?_) _ gs h
  dsimp only at hx
  split at hx
  · cases hx
  obtain ⟨s, hs, hx⟩ := except_bind_eq_ok hx
  cases hx
  obtain ⟨he, hsd⟩ := Scheduler.create_fresh hs
  exact ⟨he, hsd, rfl⟩

/-- Entering the workers into their groups keeps the groups fresh; the workers seek work and have
no chores. -/
theorem createWorkers_fresh {c : Config} {gs₀ gs : List GroupState} {ws : List Worker}
    (hg : ∀ x ∈ gs₀, x.Fresh) (h : createWorkers c gs₀ = .ok (gs, ws)) :
    (∀ x ∈ gs, x.Fresh) ∧ ∀ x ∈ ws, x.phase = .seek ∧ x.chores = [] := by
  unfold createWorkers at h
  obtain ⟨gs₁, hf, h⟩ := except_bind_eq_ok h
  cases h
  refine ⟨foldlM_except_inv (fun gs : List GroupState => ∀ x ∈ gs, x.Fresh) (fun gs x gs' hgs hx => ?_) _ _ _ hg hf, ?_⟩
  · dsimp only at hx
    split at hx
    · next s he =>
      cases hx
      intro y hy
      -- the group entered is one of the list, or the default for a group out of range
      have hst : (gs.getD x.group default).Fresh := by
        rcases getD_mem_or_default gs x.group default with hm | hd
        · exact hgs _ hm
        · rw [hd]
          exact GroupState.fresh_default
      rcases List.mem_or_eq_of_mem_set hy with hm | rfl
      · exact hgs y hm
      · obtain ⟨hent, hsd⟩ := Scheduler.enter_fresh hst.sound he
        exact ⟨hent.trans hst.entities, hsd, hst.chores⟩
    · cases hx
  · simp only [List.mem_map]
    rintro x ⟨⟨⟨g, i⟩, k⟩, -, rfl⟩
    exact ⟨rfl, rfl⟩

/-- The main thread's tasks start no spawn and keep no handle of a launched fiber: its calls do
that only once carried out. -/
theorem refs_mainTasks (sc : Scenario) : ∀ t ∈ mainTasks sc, t.spawning = [] ∧ t.adopting = [] := by
  intro t ht
  simp only [mainTasks, List.mem_append, List.mem_map] at ht
  rcases ht with ((h | h) | ⟨c, -, rfl⟩) | h
  · split at h <;> simp only [List.mem_singleton, List.not_mem_nil] at h
    subst h
    exact ⟨rfl, rfl⟩
  · split at h <;> simp only [List.mem_singleton, List.not_mem_nil] at h
    subst h
    exact ⟨rfl, rfl⟩
  · exact ⟨rfl, rfl⟩
  · split at h <;> simp only [List.mem_singleton] at h <;> subst h <;> exact ⟨rfl, rfl⟩

namespace Census

variable {v : Census}

/-- A census without fibers keeps the accounting when nothing in it names a fiber, a block or a
timeout record, its counts are zero and its run queues are fit to run. -/
theorem inv_of_vacant (hf : v.fibers = []) (hl : v.live = 0) (ho : v.outstanding = 0)
    (hsp : v.spawning = []) (had : v.adopting = []) (hh : v.handles = []) (hp : v.placed = [])
    (hr : ∀ k f, v.load k ≠ .running f) (hc : v.choreFibers = []) (hb : v.blockRefs = [])
    (ht : v.timeoutRefs = []) (hs : ∀ g, (v.sched g).Sound) (hbar : v.barriers ≤ v.latches.length)
    (he : v.ending = none) : v.Inv where
  counts := ⟨by simp [hl, hf], by simp [ho, hf], fun f => by simpa [fiber, hf] using Task.Ends.nil⟩
  places := ⟨by simp [hsp], by simp [hsp], by simp [hsp], by simp [hp], fun k f h => absurd h (hr k f),
    by simp [hc], by simp [hb], by simp [hb], by simp [ht], hs⟩
  latches := ⟨hbar, by simp [fiber, hf], by simp [fiber, hf], by simp [fiber, hf]⟩
  handles := ⟨by simp [hh], by simp [fiber, hf], by simp [had]⟩
  quiet h := by simp [he] at h

end Census

namespace World

variable {w w' : World}

/-- A world as a run starts it. -/
structure Fresh (w : World) : Prop where
  fibers : w.fibers = []
  live : w.live = 0
  outstanding : w.pool.outstanding = 0
  groups : ∀ x ∈ w.groups, x.Fresh
  workers : ∀ x ∈ w.workers, x.phase = .seek ∧ x.chores = []
  threads : ∀ x ∈ w.threads, x.chores = [] ∧ x.frame.handles = [] ∧ ∀ t ∈ x.tasks, t.spawning = [] ∧ t.adopting = []
  blockRefs : w.blockRefs = []
  callbacks : w.callbacks = []
  latches : w.scenario.barriers.length ≤ w.latches.length
  ending : w.ending = none

/-- A fresh world keeps the accounting: its census is vacant. -/
theorem Fresh.inv (h : w.Fresh) : w.census.Inv := by
  refine Census.inv_of_vacant (by simp [census, h.fibers]) h.live h.outstanding ?_ ?_ ?_ ?_ ?_ ?_
    (by simp [census, h.blockRefs]) (by simp [census, h.callbacks]) ?_ (by simpa [census] using h.latches) h.ending
  · simp [census, Census.spawning, Census.tasks, h.fibers, Thread.view]
    exact fun t x hx ht => ((h.threads x hx).2.2 t ht).1
  · simp [census, Census.adopting, Census.tasks, h.fibers, Thread.view]
    exact fun t x hx ht => ((h.threads x hx).2.2 t ht).2
  · simp [census, Census.handles, h.fibers, Thread.view]
    exact fun x hx => (h.threads x hx).2.1
  · simp [census, Census.placed]
    exact ⟨fun x hx => (h.groups x hx).entities, fun x hx => by rw [(h.workers x hx).1]; rfl⟩
  · intro k f hk
    change (w.workers.map fun x => x.phase.load).getD k .idle = .running f at hk
    rcases getD_mem_or_default (w.workers.map fun x => x.phase.load) k .idle with hm | hd
    · obtain ⟨x, hx, hx'⟩ := List.mem_map.mp hm
      rw [← hx', (h.workers x hx).1] at hk
      cases hk
    · rw [hd] at hk
      cases hk
  · simp only [census, Census.choreFibers, List.flatMap_eq_nil_iff, List.mem_append, List.mem_flatten,
      List.mem_map]
    rintro c ((⟨_, ⟨x, hx, rfl⟩, hc⟩ | ⟨_, ⟨x, hx, rfl⟩, hc⟩) | ⟨_, ⟨x, hx, rfl⟩, hc⟩)
    · rw [(h.workers x hx).2] at hc
      cases hc
    · rw [(h.threads x hx).1] at hc
      cases hc
    · rw [(h.groups x hx).chores] at hc
      cases hc
  · intro g
    change ((w.groups.map GroupState.sched).getD g default).Sound
    rcases getD_mem_or_default (w.groups.map GroupState.sched) g default with hm | hd
    · obtain ⟨x, hx, hx'⟩ := List.mem_map.mp hm
      rw [← hx']
      exact (h.groups x hx).sound
    · rw [hd]
      trivial

/-- Starting a run gives a fresh world, whatever the system, configuration, scenario and machine. -/
theorem fresh_start {k : Kernel} {c : Config} {sc : Scenario} {m : Nat}
    (h : World.start k c sc m = .ok w) : w.Fresh := by
  unfold World.start at h
  dsimp only at h
  split at h
  · cases h
  split at h
  · next plans _ =>
    simp only [pure_bind] at h
    split at h
    · cases h
    split at h
    · next pool hpool =>
      obtain ⟨gs₀, hg, h⟩ := except_bind_eq_ok h
      obtain ⟨⟨groups, workers⟩, hw, h⟩ := except_bind_eq_ok h
      cases h
      obtain ⟨hgs, hws⟩ := createWorkers_fresh (createGroups_fresh hg) hw
      refine ⟨rfl, rfl, ?_, hgs, hws, ?_, by simp [blockRefs], rfl, by simp, rfl⟩
      · -- a new pool has handed out no stack
        obtain ⟨u, -, hpool⟩ := except_bind_eq_ok hpool
        cases hpool
        rfl
      · intro x hx
        rcases List.mem_cons.mp hx with rfl | hx
        · exact ⟨rfl, rfl, refs_mainTasks sc⟩
        · split at hx <;> simp only [List.mem_singleton, List.not_mem_nil] at hx
          subst hx
          refine ⟨rfl, rfl, fun t ht => ?_⟩
          simp only [List.mem_append, List.mem_map, List.mem_singleton] at ht
          rcases ht with ⟨a, -, rfl⟩ | rfl <;> exact ⟨rfl, rfl⟩
    · cases h
  · cases h

/-! ## 7. Every world a run gets to is accounted -/

/-- The worlds a run can get to: one just started, and one that an action of any actor or a move
of the clock leads to while the run has no ending. Any actor may act, so every interleaving of the
actors is among them. -/
inductive Reaches : World → Prop
  | start {k : Kernel} {c : Config} {sc : Scenario} {m : Nat} {w : World} :
      World.start k c sc m = .ok w → Reaches w
  | act {w w' : World} {a : Actor} : Reaches w → w.ending = none → w.act a = .ok w' → Reaches w'
  | tick {w : World} (t : Nat) : Reaches w → w.ending = none → Reaches { w with now := t, current := none }

/-- A run goes from world to world by the actions it picks and the moves of its clock. -/
theorem Reaches.run (h : w.Reaches) (fuel : Nat) (hr : w.run fuel = .ok w') : w'.Reaches := by
  induction fuel generalizing w with
  | zero =>
    obtain rfl := Except.ok.inj hr
    exact h
  | succ fuel ih =>
    unfold World.run at hr
    split at hr
    · obtain rfl := Except.ok.inj hr
      exact h
    next hend =>
    have he : w.ending = none := Option.not_isSome_iff_eq_none.mp hend
    split at hr
    · obtain ⟨w₁, hact, hr⟩ := except_bind_eq_ok hr
      exact ih (h.act he hact) hr
    · split at hr
      · exact ih (h.tick _ he) hr
      · obtain rfl := Except.ok.inj hr
        exact h

/-- Every world a run gets to keeps the invariant of the live-fiber accounting. -/
theorem Reaches.inv (h : w.Reaches) : w.census.Inv := by
  induction h with
  | start hs => exact (fresh_start hs).inv
  | act _ he hs ih => exact inv_act ih (by simp [he]) hs
  | tick t _ _ ih => exact ih

/-- The live-fiber accounting read in the runtime's own terms. -/
structure Accounted (w : World) : Prop where
  /-- The live count is the number of fibers with work left: submitted and not yet returned; a
  spawn that gave up is no longer among them. -/
  live : w.live = w.fibers.countP fun r => !r.tasks.isEmpty
  /-- A fiber whose spawn is in flight, still to be handed to a run queue or retrying on a full
  one, is counted, and has no stack yet. -/
  inFlight : ∀ f ∈ w.census.spawning, (w.fiber f).tasks ≠ [] ∧ (w.fiber f).stack = none
  /-- The stacks outstanding are those of the fibers with work left that hold one. -/
  outstanding : w.pool.outstanding = w.fibers.countP fun r => !r.tasks.isEmpty && r.stack.isSome
  /-- A joinable fiber's exit barrier is open exactly when the fiber has returned, so a join that
  passes it finds the fiber neither counted nor holding an outstanding stack. -/
  joined : ∀ f b, (w.fiber f).latch = some b →
    ((w.latch b).count = 0 ↔ (w.fiber f).stack.isSome ∧ (w.fiber f).tasks = [])
  /-- No handle names the exit barrier of a fiber whose spawn gave up. -/
  detached : ∀ f b, (w.fiber f).latch = some b → (w.fiber f).stack = none → (w.fiber f).tasks = [] →
    ∀ d ∈ w.census.handles, d.2 ≠ b
  /-- A run ends quiet only once no fiber is live: every fiber ever submitted has finished. -/
  quiet : w.ending = some .quiet → w.live = 0 ∧ ∀ r ∈ w.fibers, r.tasks = []

/-- The invariant of the census, read back in the runtime's terms. -/
theorem accounted_of_inv (hi : w.census.Inv) : w.Accounted := by
  have hlive : w.live = w.fibers.countP fun r => !r.tasks.isEmpty := by
    simpa [census, List.countP_map, Function.comp_def, FiberView.busy, FiberRec.view] using hi.counts.live
  refine ⟨hlive, fun f hf => ?_, ?_, fun f b hb => ?_, fun f b hb hs ht d hd => ?_, fun hq => ?_⟩
  · have := hi.places.spawning f hf
    simp only [census_fiber, FiberRec.view, FiberView.busy] at this
    exact ⟨by simpa using this.2, by simpa using this.1⟩
  · simpa [census, List.countP_map, Function.comp_def, FiberView.busy, FiberRec.view] using hi.counts.outstanding
  · -- the barrier holds one count until the fiber returns, and none after
    have hc := hi.latches.count f b (by simpa [FiberRec.view] using hb)
    rw [census_latches_getD, census_fiber] at hc
    rw [hc]
    simp [FiberView.returned, FiberRec.view]
  · exact hi.handles.free f b (by simpa [FiberRec.view] using hb)
      (.inr (by simp [FiberView.dropped, FiberRec.view, hs, ht])) d hd
  · have h0 := hi.quiet hq
    refine ⟨h0, fun r hr => ?_⟩
    rw [show w.census.live = w.live from rfl, hlive, List.countP_eq_zero] at h0
    simpa using h0 r hr

/-- Every world a run of the runtime gets to, in any interleaving of its actors and the moves of
its clock, is accounted. -/
theorem accounted_of_reaches (h : w.Reaches) : w.Accounted := accounted_of_inv h.inv

/-- A root fiber that spawns a joinable child and joins it, then a shutdown: the run ends quiet,
and its last world is accounted. -/
theorem spawn_join_shutdown_accounted :
    ∃ w₀ w, World.start Kernel.granting {} { bodies := [[.spawn { target := 1 }, .join 1], []], finish := .shutdown } 1 = .ok w₀ ∧
      w₀.run 500 = .ok w ∧ w.ending = some .quiet ∧ w.Accounted := by
  have h₀ : World.start Kernel.granting {} { bodies := [[.spawn { target := 1 }, .join 1], []], finish := .shutdown } 1 = .ok _ :=
    rfl
  exact ⟨_, _, h₀, rfl, rfl, accounted_of_reaches ((Reaches.start h₀).run 500 rfl)⟩

end World

end Fibers
