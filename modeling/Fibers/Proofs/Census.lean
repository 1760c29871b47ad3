import Mathlib
import Fibers.World.Run
import Fibers.Proofs.QueueClasses
import Fibers.Proofs.WaitQueue
import Fibers.Proofs.StackConservation
/-!
# The census of a world

The accounting of live fibers reads little of a world: of each fiber its exit barrier,
whether it has a stack, its tasks and the handles it holds; of each plain thread its tasks
and handles; what each worker holds (nothing, an entity it is about to take, or the fiber it
runs); each group's scheduler; the chores of every thread; who waits on each wait block; the
block numbers that some waitable or timeout still holds; the counts of the barriers; the
live count, the stacks outstanding and how the run ended.

That is the census of a world (`World.census`). Most of what a world does leaves it as it
is: logging, the clock, timers, counters, parking and unparking workers, the pool's caches.
This module says, for the operations of the world that scheduling and waiting are made of,
how the census changes, as an equation where the change is exact and as a relation where
only its shape matters (`Census.Draws` for taking from run queues, `Census.Rewaited` for the
blocks the waitables hold).

## Contents
1. What tasks, chores and phases refer to.
2. Lists changed at one place.
3. The census, its lookups and its changes.
4. Run queues: sound schedulers, and draws.
5. Waitables: what stays queued and who is woken.
6. The pool's outstanding count.
7. How the operations of a world change its census.
-/

namespace Fibers

/-! ## 1. What tasks, chores and phases refer to -/

/-- What a worker holds: nothing, an entity it is about to take, or the fiber it runs. -/
inductive Load where
  | idle
  | entering (e : Entity)
  | running (f : Nat)
  deriving Inhabited

namespace Phase

/-- What a worker in this phase holds. -/
def load : Phase → Load
  | .enter e => .entering e
  | .fiber f => .running f
  | _ => .idle

end Phase

namespace Load

/-- What a worker holds after a draw: the entity drawn, or nothing. -/
def ofTaken : Option Entity → Load
  | some e => .entering e
  | none => .idle

/-- The fiber a worker is about to take. -/
def taking : Load → List Nat
  | .entering e => [e.id]
  | _ => []

@[simp] theorem taking_ofTaken (o : Option Entity) : (ofTaken o).taking = (o.map Entity.id).toList := by
  cases o <;> rfl

end Load

namespace Task

/-- The fibers a task is still to hand to a run queue or to launch: spawns in flight. -/
def spawning : Task → List Nat
  | .attempt f _ _ => [f]
  | .giveUp f _ => [f]
  | .startForever f => [f]
  | .startRest fs => fs
  | .launch f => [f]
  | _ => []

/-- The fibers whose spawn a task may still give up: joinable spawns that found the run
queue full. -/
def trying : Task → List Nat
  | .attempt f _ _ => [f]
  | .giveUp f _ => [f]
  | _ => []

/-- The fiber whose handle a task is to keep once a dispatch has launched it. -/
def adopting : Task → List Nat
  | .adopt f => [f]
  | _ => []

/-- The tasks that end a fiber's body. -/
def ends : Task → Bool
  | .finish => true
  | .exit => true
  | _ => false

theorem trying_sublist_spawning (t : Task) : t.trying.Sublist t.spawning := by
  cases t <;> simp [trying, spawning]

end Task

namespace Chore

/-- The fiber a chore makes ready, if any. -/
def fibers : Chore → List Nat
  | .wake (.fiber f) => [f]
  | .wake (.thread _) => []
  | .requeue f _ => [f]

end Chore

/-! ## 2. Lists changed at one place -/

section Lists

variable {α β : Type} {l : List α} {i : Nat} {f : α → α} {g : α → β}

/-- Changing one element and then viewing the list is viewing it and changing the view. -/
theorem map_modify_view {k : β → β} (h : ∀ x, g (f x) = k (g x)) :
    (l.modify i f).map g = (l.map g).modify i k := by
  apply List.ext_getElem (by simp)
  intro j h₁ h₂
  simp only [List.getElem_map, List.getElem_modify]
  split <;> simp [h]

/-- A change that the view does not see leaves the view alone. -/
theorem map_modify_of_eq (h : ∀ x, g (f x) = g x) : (l.modify i f).map g = l.map g := by
  rw [map_modify_view (k := id) (by simpa using h), List.modify_id]

/-- A change that sets the view to a value. -/
theorem map_modify_eq_set {c : β} (h : ∀ x, g (f x) = c) : (l.modify i f).map g = (l.map g).set i c := by
  rw [map_modify_view (k := fun _ => c) (by simpa using h), List.set_eq_modify]

/-- A change that the view does not see at the place changed leaves the view alone. -/
theorem map_modify_of_eq_at (h : ∀ x, l[i]? = some x → g (f x) = g x) : (l.modify i f).map g = l.map g := by
  apply List.ext_getElem (by simp)
  intro j h₁ h₂
  simp only [List.getElem_map, List.getElem_modify]
  split
  · next hij => subst hij; exact h _ (List.getElem?_eq_getElem (by simpa using h₂))
  · rfl

theorem flatMap_modify_of_eq {F : α → List β} (h : ∀ x, F (f x) = F x) :
    (l.modify i f).flatMap F = l.flatMap F := by
  rw [List.flatMap_def, List.flatMap_def, map_modify_of_eq h]

/-- Replacing one element of a list that is flattened by a view. -/
theorem flatMap_set_perm (F : α → List β) (a : α) :
    ∀ {l : List α} {i : Nat} (hi : i < l.length),
      ((l.set i a).flatMap F ++ F l[i]).Perm (F a ++ l.flatMap F)
  | [], _, h => absurd h (by simp)
  | x :: l, 0, _ => by
    simp only [List.set_cons_zero, List.flatMap_cons, List.getElem_cons_zero, List.append_assoc]
    exact List.perm_append_comm.append_left (F a)
  | x :: l, i + 1, h => by
    have ih := flatMap_set_perm F a (l := l) (i := i) (by simpa using h)
    simp only [List.set_cons_succ, List.flatMap_cons, List.getElem_cons_succ, List.append_assoc]
    exact (ih.append_left (F x)).trans (List.perm_append_comm_assoc (F x) (F a) (l.flatMap F))

/-- Changing one element of a list that is flattened by a view. -/
theorem flatMap_modify_perm (F : α → List β) (f : α → α) :
    ∀ {l : List α} {i : Nat} (hi : i < l.length),
      ((l.modify i f).flatMap F ++ F l[i]).Perm (F (f l[i]) ++ l.flatMap F)
  | [], _, h => absurd h (by simp)
  | x :: l, 0, _ => by
    simp only [List.modify_zero_cons, List.flatMap_cons, List.getElem_cons_zero, List.append_assoc]
    exact List.perm_append_comm.append_left (F (f x))
  | x :: l, i + 1, h => by
    have ih := flatMap_modify_perm F f (l := l) (i := i) (by simpa using h)
    simp only [List.modify_succ_cons, List.flatMap_cons, List.getElem_cons_succ, List.append_assoc]
    exact (ih.append_left (F x)).trans (List.perm_append_comm_assoc (F x) _ (l.flatMap F))

theorem mem_flatMap_set {a : α} {F : α → List β} {x : β} (h : x ∈ (l.set i a).flatMap F) :
    x ∈ l.flatMap F ∨ x ∈ F a := by
  obtain ⟨b, hb, hx⟩ := List.mem_flatMap.mp h
  rcases List.mem_or_eq_of_mem_set hb with hb | rfl
  · exact .inl (List.mem_flatMap.mpr ⟨b, hb, hx⟩)
  · exact .inr hx

theorem flatMap_set_of_eq {a : α} {F : α → List β} (h : ∀ x, l[i]? = some x → F a = F x) :
    (l.set i a).flatMap F = l.flatMap F := by
  rw [List.set_eq_modify, List.flatMap_def, List.flatMap_def, map_modify_of_eq_at h]

theorem flatMap_set_eq_modify {a : α} {F : α → List β} (h : ∀ x, F a = F (f x)) :
    (l.set i a).flatMap F = (l.modify i f).flatMap F := by
  simp only [List.flatMap_def]
  congr 1
  apply List.ext_getElem (by simp)
  intro j h₁ h₂
  by_cases hij : i = j
  · subst hij
    simpa using h _
  · simp [hij]

end Lists

/-! ## 3. The census -/

/-- What the accounting reads of a fiber. -/
structure FiberView where
  latch : Option Nat := none
  started : Bool := false
  tasks : List Task := []
  handles : List (Nat × Nat) := []
  deriving Inhabited

/-- What the accounting reads of a plain thread. -/
structure ThreadView where
  tasks : List Task := []
  handles : List (Nat × Nat) := []
  deriving Inhabited

/-- What the accounting reads of a world. -/
structure Census where
  fibers : List FiberView
  threads : List ThreadView
  /-- What each worker holds. -/
  loads : List Load
  scheds : List Scheduler
  workerChores : List (List Chore)
  threadChores : List (List Chore)
  timerChores : List (List Chore)
  /-- Who waits on each wait block. -/
  waiters : List Waiter
  /-- The blocks some waitable or timeout still holds. -/
  blockRefs : List Nat
  /-- The timeout records that timers were armed with. -/
  timeoutRefs : List Nat
  timeouts : Nat
  /-- The counts of the barriers. -/
  latches : List Nat
  barriers : Nat
  live : Nat
  outstanding : Nat
  ending : Option Ending

namespace FiberRec

/-- What the accounting reads of a fiber record. -/
def view (r : FiberRec) : FiberView :=
  { latch := r.latch, started := r.stack.isSome, tasks := r.tasks, handles := r.frame.handles }

end FiberRec

namespace Thread

/-- What the accounting reads of a plain thread. -/
def view (t : Thread) : ThreadView := { tasks := t.tasks, handles := t.frame.handles }

end Thread

namespace Callback

/-- The timeout record a callback serves. -/
def timeoutRefs : Callback → List Nat
  | .timeout r => [r]
  | _ => []

end Callback

namespace World

/-- Every block number a waitable holds, and the block of every timeout record. -/
def blockRefs (w : World) : List Nat :=
  w.mutexes.flatMap (·.waiters.queue) ++ w.events.flatMap (·.waiters.queue) ++
    w.condvars.flatMap (·.waiters.queue) ++ w.latches.flatMap (·.waiters.queue) ++
    w.timeouts.map (·.block)

/-- The census of a world. -/
def census (w : World) : Census where
  fibers := w.fibers.map FiberRec.view
  threads := w.threads.map Thread.view
  loads := w.workers.map (·.phase.load)
  scheds := w.groups.map (·.sched)
  workerChores := w.workers.map (·.chores)
  threadChores := w.threads.map (·.chores)
  timerChores := w.groups.map (·.timerChores)
  waiters := w.blocks.map Block.waiter
  blockRefs := w.blockRefs
  timeoutRefs := w.callbacks.flatMap Callback.timeoutRefs
  timeouts := w.timeouts.length
  latches := w.latches.map Barrier.count
  barriers := w.scenario.barriers.length
  live := w.live
  outstanding := w.pool.outstanding
  ending := w.ending

end World

namespace Census

def fiber (v : Census) (f : Nat) : FiberView := v.fibers.getD f {}
def thread (v : Census) (t : Nat) : ThreadView := v.threads.getD t {}
def load (v : Census) (k : Nat) : Load := v.loads.getD k .idle
def sched (v : Census) (g : Nat) : Scheduler := v.scheds.getD g default

/-- The tasks of a holder. -/
def tasksOf (v : Census) : Holder → List Task
  | .fiber f _ => (v.fiber f).tasks
  | .thread t => (v.thread t).tasks

/-- The handles a holder keeps. -/
def handlesOf (v : Census) : Holder → List (Nat × Nat)
  | .fiber f _ => (v.fiber f).handles
  | .thread t => (v.thread t).handles

/-- The chores of an actor. -/
def choresOf (v : Census) : Actor → List Chore
  | .worker k => v.workerChores.getD k []
  | .thread t => v.threadChores.getD t []
  | .timer g => v.timerChores.getD g []

def setTasks (v : Census) (h : Holder) (ts : List Task) : Census :=
  match h with
  | .fiber f _ => { v with fibers := v.fibers.modify f (fun x => { x with tasks := ts }) }
  | .thread t => { v with threads := v.threads.modify t (fun x => { x with tasks := ts }) }

def setHandles (v : Census) (h : Holder) (hs : List (Nat × Nat)) : Census :=
  match h with
  | .fiber f _ => { v with fibers := v.fibers.modify f (fun x => { x with handles := hs }) }
  | .thread t => { v with threads := v.threads.modify t (fun x => { x with handles := hs }) }

def setChores (v : Census) (a : Actor) (cs : List Chore) : Census :=
  match a with
  | .worker k => { v with workerChores := v.workerChores.set k cs }
  | .thread t => { v with threadChores := v.threadChores.set t cs }
  | .timer g => { v with timerChores := v.timerChores.set g cs }

def setLoad (v : Census) (k : Nat) (l : Load) : Census := { v with loads := v.loads.set k l }

def setSched (v : Census) (g : Nat) (s : Scheduler) : Census := { v with scheds := v.scheds.set g s }

end Census

/-! ## 4. Run queues -/

namespace Scheduler

/-- A scheduler fit to run: with work stealing, well formed and every queue of its class. -/
def Sound : Scheduler → Prop
  | .shared _ => True
  | .stealing st => st.WF ∧ st.Classes

/-- Queueing on a sound scheduler adds exactly the entity queued. -/
theorem push_sound {s s' : Scheduler} {t : Nat} {e : Entity} {y : Bool} (hs : s.Sound)
    (h : s.push t e y = some s') : s'.entities.Perm (e :: s.entities) ∧ s'.Sound := by
  cases s with
  | shared q =>
    refine ⟨(push_perm (s := .shared q) trivial h).1, ?_⟩
    simp only [push, Option.map_eq_some_iff] at h
    obtain ⟨q', -, rfl⟩ := h
    trivial
  | stealing st =>
    simp only [push, Option.some.injEq] at h
    subst h
    exact ⟨Stealing.pushReady_perm hs.1 e y,
      Stealing.pushReady_wf hs.1 e y, Stealing.pushReady_classes hs.1 hs.2 e y⟩

end Scheduler

namespace Census

variable {v v₁ v' : Census} {g : Nat} {s s' : Scheduler} {o : Option Entity} {e : Entity}

theorem setSched_sched : v.setSched g (v.sched g) = v := by
  simp only [setSched, sched]
  congr 1
  apply List.ext_getElem (by simp)
  intro j h₁ h₂
  simp only [List.getElem_set]
  split
  · next hj => subst hj; simp [List.getD_eq_getElem?_getD, List.getElem?_eq_getElem h₂]
  · rfl

@[simp] theorem setSched_setSched : (v.setSched g s).setSched g s' = v.setSched g s' := by
  simp [setSched]

/-- Group `g`'s scheduler handed out `o`, and nothing else changed. -/
def Drew (v v' : Census) (o : Option Entity) : Prop :=
  ∃ g s', v' = v.setSched g s' ∧
    ((v.sched g).Sound → (v.sched g).entities.Perm (o.toList ++ s'.entities) ∧ s'.Sound)

/-- Draws that came back empty, then possibly one that found an entity. -/
inductive Draws : Census → Census → Option Entity → Prop
  | stay (v : Census) : Draws v v none
  | skip {v v₁ v' : Census} {o : Option Entity} : v.Drew v₁ none → Draws v₁ v' o → Draws v v' o
  | found {v v' : Census} {e : Entity} : v.Drew v' (some e) → Draws v v' (some e)

theorem Drew.draws (h : v.Drew v' o) : v.Draws v' o := by
  cases o with
  | none => exact .skip h (.stay _)
  | some e => exact .found h

theorem Draws.trans (h₁ : v.Draws v₁ none) (h₂ : v₁.Draws v' o) : v.Draws v' o := by
  generalize hn : (none : Option Entity) = n at h₁
  induction h₁ with
  | stay => exact h₂
  | skip h _ ih => exact .skip h (ih h₂ hn)
  | found => cases hn

end Census

/-! ## 5. Waitables -/

namespace Waitable

variable {w : Waitable} {claimed : List Nat} {b x : Nat}

theorem mem_add (h : x ∈ (w.add b).1.queue) : x ∈ w.queue ∨ x = b := by
  unfold add at h
  split at h
  · exact .inl h
  · simpa using h

theorem mem_remove (h : x ∈ (w.remove b).1.queue) : x ∈ w.queue := by
  unfold remove at h
  split at h
  · exact List.mem_of_mem_erase h
  · exact h

theorem mem_wakeOne (h : x ∈ (w.wakeOne claimed).1.queue) : x ∈ w.queue :=
  (popClaim_suffix claimed w.queue).subset h

theorem wakeOne_found (h : (w.wakeOne claimed).2.2 = some b) : b ∈ w.queue := by
  simp only [wakeOne, popClaim_found] at h
  exact List.mem_of_find?_eq_some h

theorem mem_claimAll : ∀ {l claimed : List Nat}, x ∈ (claimAll claimed l).2 → x ∈ l
  | [], _, h => by simp [claimAll] at h
  | b :: rest, claimed, h => by
    unfold claimAll at h
    split at h
    · exact List.mem_cons_of_mem b (mem_claimAll h)
    · rcases List.mem_cons.mp h with rfl | h
      · exact List.mem_cons_self
      · exact List.mem_cons_of_mem b (mem_claimAll h)

@[simp] theorem queue_wakeAll : (w.wakeAll claimed).1.queue = [] := rfl

@[simp] theorem queue_persist : (w.persist claimed).1.queue = [] := rfl

theorem mem_wakeAll (h : x ∈ (w.wakeAll claimed).2.2) : x ∈ w.queue := mem_claimAll h

theorem mem_persist (h : x ∈ (w.persist claimed).2.2) : x ∈ w.queue := mem_claimAll h

end Waitable

namespace Mutex

variable {m : Mutex} {claimed : List Nat} {b x : Nat}

theorem mem_lock (h : x ∈ (m.lock b).1.waiters.queue) : x ∈ m.waiters.queue ∨ x = b := by
  unfold lock at h
  split at h
  · exact .inl h
  · exact Waitable.mem_add h

theorem mem_unlock (h : x ∈ (m.unlock claimed).1.waiters.queue) : x ∈ m.waiters.queue := by
  unfold unlock at h
  split at h
  · exact h
  · exact Waitable.mem_wakeOne h

theorem unlock_found (h : (m.unlock claimed).2.2 = some b) : b ∈ m.waiters.queue := by
  unfold unlock at h
  split at h
  · cases h
  · exact Waitable.wakeOne_found h

end Mutex

namespace Barrier

variable {l l' : Barrier} {claimed claimed' woken : List Nat}

/-- A count-down that does not abort: the count drops by one, and only the last one wakes
the blocks queued, and empties the queue. -/
theorem countDown_ok (h : l.countDown claimed = .ok (l', claimed', woken)) :
    0 < l.count ∧ l'.count = l.count - 1 ∧ (∀ x ∈ l'.waiters.queue, x ∈ l.waiters.queue) ∧
      ∀ x ∈ woken, x ∈ l.waiters.queue := by
  unfold countDown at h
  by_cases h₀ : l.count = 0
  · simp [h₀] at h
  · by_cases h₁ : l.count = 1
    · simp only [h₁, if_true] at h
      obtain ⟨rfl, -, rfl⟩ := h
      exact ⟨by omega, by simp [h₁], by simp, fun x hx => Waitable.mem_persist hx⟩
    · simp only [h₀, h₁, if_false, Except.ok.injEq, Prod.mk.injEq] at h
      obtain ⟨rfl, -, rfl⟩ := h
      exact ⟨by omega, rfl, fun x hx => hx, by simp⟩

end Barrier

namespace Census

/-- Who waits on block `b`. -/
def waiter (v : Census) (b : Nat) : Waiter := v.waiters.getD b default

/-- Only the waitables changed: every block still held was held before, or is one of `extra`. -/
def Rewaited (v v' : Census) (extra : List Nat) : Prop :=
  v' = { v with blockRefs := v'.blockRefs } ∧ ∀ b ∈ v'.blockRefs, b ∈ v.blockRefs ∨ b ∈ extra

/-- Chores that wake the waiters of blocks held. -/
def Wakes (v : Census) (cs : List Chore) : Prop := ∀ c ∈ cs, ∃ b ∈ v.blockRefs, c = .wake (v.waiter b)

theorem Rewaited.trans {v₁ v' : Census} {v : Census} {a b : List Nat} (h₁ : v.Rewaited v₁ a)
    (h₂ : v₁.Rewaited v' b) : v.Rewaited v' (a ++ b) := by
  refine ⟨by rw [h₂.1, h₁.1], fun x hx => ?_⟩
  rcases h₂.2 x hx with hx | hx
  · rcases h₁.2 x hx with hx | hx
    · exact .inl hx
    · exact .inr (List.mem_append_left _ hx)
  · exact .inr (List.mem_append_right _ hx)

theorem Rewaited.mono {v v' : Census} {a b : List Nat} (h : v.Rewaited v' a)
    (hab : ∀ x ∈ a, x ∈ v.blockRefs ∨ x ∈ b) : v.Rewaited v' b := by
  refine ⟨h.1, fun x hx => ?_⟩
  rcases h.2 x hx with hx | hx
  · exact .inl hx
  · exact hab x hx

end Census

/-! ## 6. The pool's outstanding count -/

namespace Pool

variable {p p' q : Pool} {t home : Nat} {batch : List Nat}

@[simp] theorem outstanding_setCache (c : List Nat) : (p.setCache t c).outstanding = p.outstanding := rfl

@[simp] theorem outstanding_shardOf : (p.shardOf t).1.outstanding = p.outstanding := by
  unfold shardOf
  split <;> rfl

theorem outstanding_grow (h : p.grow = .ok (q, batch)) : q.outstanding = p.outstanding := by
  rcases grow_cases h with ⟨rfl, -⟩ | ⟨-, -, rfl, -⟩ <;> rfl

theorem outstanding_refill (h : p.refill home = .ok (q, batch)) : q.outstanding = p.outstanding := by
  rcases refill_cases h with ⟨i, -, -, rfl, -⟩ | ⟨-, hg⟩
  · rfl
  · exact outstanding_grow hg

theorem outstanding_fillCache (h : (p.fillCache t).2 = .ok q) : q.outstanding = p.outstanding := by
  rcases fillCache_cases h with ⟨-, rfl⟩ | ⟨-, r, batch, hr, rfl⟩
  · rfl
  · rw [outstanding_setCache, outstanding_refill hr, outstanding_shardOf, outstanding_setCache]

/-- A stack handed out is one more outstanding; none handed out changes nothing. -/
theorem allocate_outstanding {o : Option PoolStack} (h : p.allocate t = (p', .ok o)) :
    p'.outstanding = p.outstanding + (if o.isSome then 1 else 0) := by
  rcases allocate_cases h with ⟨a, -, he, -⟩ |
      ⟨q, hq, ⟨c, s, -, rfl, he⟩ | ⟨-, ⟨a, he, -⟩ | ⟨he, rfl⟩ | ⟨st, -, he, rfl⟩⟩⟩
  · cases he
  · cases he
    simp [outstanding_fillCache hq]
  · cases he
  · cases he
    simp [outstanding_fillCache hq]
  · cases he
    simp [outstanding_fillCache hq]

@[simp] theorem outstanding_deallocate (s : PoolStack) :
    (p.deallocate t s).outstanding = p.outstanding - 1 := by
  unfold deallocate
  split
  · rfl
  · dsimp only
    split <;> simp [setShard]

end Pool

/-! ## 7. How the operations of a world change its census -/

namespace World

variable (w : World)

@[simp] theorem census_fiber (f : Nat) : w.census.fiber f = (w.fiber f).view := by
  simp only [Census.fiber, census, World.fiber, List.getD_eq_getElem?_getD, List.getElem?_map]
  cases w.fibers[f]? <;> rfl

@[simp] theorem census_thread (t : Nat) : w.census.thread t = (w.thread t).view := by
  simp only [Census.thread, census, World.thread, List.getD_eq_getElem?_getD, List.getElem?_map]
  cases w.threads[t]? <;> rfl

@[simp] theorem census_load (k : Nat) : w.census.load k = (w.worker k).phase.load := by
  simp only [Census.load, census, World.worker, List.getD_eq_getElem?_getD, List.getElem?_map]
  cases w.workers[k]? <;> rfl

@[simp] theorem census_sched (g : Nat) : w.census.sched g = (w.group g).sched := by
  simp only [Census.sched, census, World.group, List.getD_eq_getElem?_getD, List.getElem?_map]
  cases w.groups[g]? <;> rfl

@[simp] theorem census_choresOf (a : Actor) : w.census.choresOf a = w.choresOf a := by
  cases a with
  | worker k =>
    simp only [Census.choresOf, census, choresOf, World.worker, List.getD_eq_getElem?_getD, List.getElem?_map]
    cases w.workers[k]? <;> rfl
  | thread t =>
    simp only [Census.choresOf, census, choresOf, World.thread, List.getD_eq_getElem?_getD, List.getElem?_map]
    cases w.threads[t]? <;> rfl
  | timer g =>
    simp only [Census.choresOf, census, choresOf, World.group, List.getD_eq_getElem?_getD, List.getElem?_map]
    cases w.groups[g]? <;> rfl

@[simp] theorem census_tasksOf (h : Holder) : w.census.tasksOf h = w.tasksOf h := by
  cases h <;> simp [Census.tasksOf, tasksOf, FiberRec.view, Thread.view]

@[simp] theorem census_handlesOf (h : Holder) : w.census.handlesOf h = (w.frameOf h).handles := by
  cases h <;> simp [Census.handlesOf, frameOf, FiberRec.view, Thread.view]

/-! ### Changes the census does not see -/

@[simp] theorem census_log (line : String) : (w.log line).census = w.census := rfl

@[simp] theorem census_say (h : Holder) (text : String) : (w.say h text).census = w.census := rfl

@[simp] theorem census_cancelTimer (t : Nat) : (w.cancelTimer t).census = w.census := rfl

@[simp] theorem census_claim (b : Nat) : (w.claim b).1.census = w.census := rfl

theorem census_modifyFiber_of {f : Nat} {g : FiberRec → FiberRec} (h : ∀ x, (g x).view = x.view) :
    (w.modifyFiber f g).census = w.census := by
  simp only [modifyFiber, census, blockRefs]
  rw [map_modify_of_eq h]

theorem census_modifyWorker_of {k : Nat} {g : Worker → Worker} (hp : ∀ x, (g x).phase = x.phase)
    (hc : ∀ x, (g x).chores = x.chores) : (w.modifyWorker k g).census = w.census := by
  simp only [modifyWorker, census, blockRefs]
  rw [map_modify_of_eq (g := fun x : Worker => x.phase.load) (fun x => by rw [hp]),
    map_modify_of_eq (g := Worker.chores) hc]

theorem census_modifyThread_of {t : Nat} {g : Thread → Thread} (hv : ∀ x, (g x).view = x.view)
    (hc : ∀ x, (g x).chores = x.chores) : (w.modifyThread t g).census = w.census := by
  simp only [modifyThread, census, blockRefs]
  rw [map_modify_of_eq hv, map_modify_of_eq (g := Thread.chores) hc]

theorem census_modifyGroup_of {i : Nat} {g : GroupState → GroupState}
    (hs : ∀ x, (g x).sched = x.sched) (hc : ∀ x, (g x).timerChores = x.timerChores) :
    (w.modifyGroup i g).census = w.census := by
  simp only [modifyGroup, census, blockRefs]
  rw [map_modify_of_eq (g := GroupState.sched) hs, map_modify_of_eq (g := GroupState.timerChores) hc]

@[simp] theorem census_sleepFor (a : Actor) (ns : Nat) : (w.sleepFor a ns).census = w.census := by
  cases a
  · exact census_modifyWorker_of w (fun _ => rfl) (fun _ => rfl)
  · exact census_modifyThread_of w (fun _ => rfl) (fun _ => rfl)
  · exact census_modifyGroup_of w (fun _ => rfl) (fun _ => rfl)

@[simp] theorem census_modifyGroup_idle (g : Nat) (F : GroupState → List Nat) :
    (w.modifyGroup g (fun gs => { gs with idle := F gs })).census = w.census :=
  census_modifyGroup_of w (fun _ => rfl) (fun _ => rfl)

@[simp] theorem census_modifyGroup_timerSleep (g : Nat) (F : GroupState → Option Nat) :
    (w.modifyGroup g (fun gs => { gs with timerSleep := F gs })).census = w.census :=
  census_modifyGroup_of w (fun _ => rfl) (fun _ => rfl)

@[simp] theorem census_setTimerThread (g : Nat) (tt : TimerThread) :
    (w.setTimerThread g tt).census = w.census :=
  census_modifyGroup_of w (fun _ => rfl) (fun _ => rfl)

@[simp] theorem census_modifyWorker_sleepUntil (k : Nat) (F : Worker → Option Nat) :
    (w.modifyWorker k (fun x => { x with sleepUntil := F x })).census = w.census :=
  census_modifyWorker_of w (fun _ => rfl) (fun _ => rfl)

@[simp] theorem census_modifyWorker_victims (k : Nat) (F : Worker → VictimQueue) :
    (w.modifyWorker k (fun x => { x with victims := F x })).census = w.census :=
  census_modifyWorker_of w (fun _ => rfl) (fun _ => rfl)

@[simp] theorem census_modifyThread_sleepUntil (t : Nat) (F : Thread → Option Nat) :
    (w.modifyThread t (fun x => { x with sleepUntil := F x })).census = w.census :=
  census_modifyThread_of w (fun _ => rfl) (fun _ => rfl)

@[simp] theorem census_modifyThread_started (t : Nat) (F : Thread → Bool) :
    (w.modifyThread t (fun x => { x with started := F x })).census = w.census :=
  census_modifyThread_of w (fun _ => rfl) (fun _ => rfl)

@[simp] theorem census_modifyThread_wait (t : Nat) (F : Thread → Option ThreadWait) :
    (w.modifyThread t (fun x => { x with wait := F x })).census = w.census :=
  census_modifyThread_of w (fun _ => rfl) (fun _ => rfl)

/-! ### Changes of one holder, one actor, one worker or one group -/

@[simp] theorem census_setTasks (h : Holder) (ts : List Task) :
    (w.setTasks h ts).census = w.census.setTasks h ts := by
  cases h <;> simp only [setTasks, census, modifyFiber, modifyThread, Census.setTasks] <;>
    congr 1
  · exact map_modify_view (fun _ => rfl)
  · exact map_modify_view (fun _ => rfl)
  · exact map_modify_of_eq (fun _ => rfl)

@[simp] theorem census_pushTasks (h : Holder) (ts : List Task) :
    (w.pushTasks h ts).census = w.census.setTasks h (ts ++ w.census.tasksOf h) := by
  simp [pushTasks]

@[simp] theorem census_setFrame (h : Holder) (fr : Frame) :
    (w.setFrame h fr).census = w.census.setHandles h fr.handles := by
  cases h <;> simp only [setFrame, census, modifyFiber, modifyThread, Census.setHandles] <;>
    congr 1
  · exact map_modify_view (fun _ => rfl)
  · exact map_modify_view (fun _ => rfl)
  · exact map_modify_of_eq (fun _ => rfl)

@[simp] theorem census_setChores (a : Actor) (cs : List Chore) :
    (w.setChores a cs).census = w.census.setChores a cs := by
  cases a <;> simp only [setChores, census, modifyWorker, modifyThread, modifyGroup,
    Census.setChores] <;> congr 1
  · exact map_modify_of_eq (fun _ => rfl)
  · exact map_modify_eq_set (fun _ => rfl)
  · exact map_modify_of_eq (fun _ => rfl)
  · exact map_modify_eq_set (fun _ => rfl)
  · exact map_modify_of_eq (fun _ => rfl)
  · exact map_modify_eq_set (fun _ => rfl)

@[simp] theorem census_addChores (a : Actor) (cs : List Chore) :
    (w.addChores a cs).census = w.census.setChores a (w.census.choresOf a ++ cs) := by
  simp [addChores]

@[simp] theorem census_setPhase (k : Nat) (p : Phase) :
    (w.setPhase k p).census = w.census.setLoad k p.load := by
  simp only [setPhase, census, modifyWorker, Census.setLoad]
  congr 1
  · exact map_modify_eq_set (fun _ => rfl)
  · exact map_modify_of_eq (fun _ => rfl)

@[simp] theorem census_setSched (g : Nat) (s : Scheduler) :
    (w.setSched g s).census = w.census.setSched g s := by
  simp only [setSched, census, modifyGroup, Census.setSched]
  congr 1
  · exact map_modify_eq_set (fun _ => rfl)
  · exact map_modify_of_eq (fun _ => rfl)

/-! ### Parking and unparking -/

/-- A parked worker that is let go holds nothing before and after. -/
theorem census_unpark (g i : Nat) {next : Phase} (hn : next.load = .idle) :
    (w.unpark g i next).census = w.census := by
  have hg := census_modifyGroup_idle w g (fun gs => gs.idle.erase i)
  unfold unpark
  dsimp only
  split
  · rename_i k _
    split
    · rename_i d hp
      rw [← hg]
      simp only [modifyWorker, census, blockRefs]
      congr 1
      · apply map_modify_of_eq_at
        intro x hx
        simp only [World.worker, List.getD_eq_getElem?_getD, hx, Option.getD_some] at hp
        simp only [hp, hn]
        rfl
      · exact map_modify_of_eq (fun _ => rfl)
    · exact hg
  · exact hg

@[simp] theorem census_wakeOneShared (g : Nat) : (w.wakeOneShared g).census = w.census := by
  unfold wakeOneShared
  split
  · exact census_unpark w _ _ rfl
  · rfl

theorem census_foldl_unpark (g : Nat) {next : Phase} (hn : next.load = .idle) :
    ∀ (is : List Nat) (w : World), (is.foldl (fun w i => w.unpark g i next) w).census = w.census
  | [], _ => rfl
  | i :: is, w => by
    rw [List.foldl_cons, census_foldl_unpark g hn is, census_unpark w g i hn]

@[simp] theorem census_wakeAllShared (g : Nat) : (w.wakeAllShared g).census = w.census :=
  census_foldl_unpark g rfl _ w

@[simp] theorem census_notifyOne (g : Nat) : (w.notifyOne g).census = w.census := by
  unfold notifyOne
  split
  · exact census_unpark w _ _ rfl
  · rfl

@[simp] theorem census_notifyAll (g : Nat) : (w.notifyAll g).census = w.census :=
  census_foldl_unpark g rfl _ w

theorem census_foldl_wakeOneShared (g : Nat) :
    ∀ (is : List Nat) (w : World), (is.foldl (fun w _ => w.wakeOneShared g) w).census = w.census
  | [], _ => rfl
  | i :: is, w => by rw [List.foldl_cons, census_foldl_wakeOneShared g is, census_wakeOneShared]

theorem census_foldl_notifyOne (g : Nat) :
    ∀ (is : List Nat) (w : World), (is.foldl (fun w _ => w.notifyOne g) w).census = w.census
  | [], _ => rfl
  | i :: is, w => by rw [List.foldl_cons, census_foldl_notifyOne g is, census_notifyOne]

@[simp] theorem census_park (k : Nat) : (w.park k).census = w.census.setLoad k .idle := by
  simp [park, Phase.load]

@[simp] theorem census_wakeUp (k : Nat) : (w.wakeUp k).census = w.census.setLoad k .idle := by
  simp only [wakeUp, census_setPhase, census_modifyGroup_idle]
  split <;> rfl

/-! ### Run queues -/

@[simp] theorem census_pushReady (t g : Nat) (st : Stealing) (e : Entity) (y : Bool) :
    (w.pushReady t g st e y).census = w.census.setSched g (.stealing (st.pushReady t e y)) := by
  unfold pushReady
  split_ifs <;> simp

/-- A push either changes nothing, or replaces the group's scheduler by the scheduler's push. -/
theorem push_census {t g : Nat} {e : Entity} {y ok : Bool} {w' : World} (h : w.push t g e y = (w', ok)) :
    (ok = false ∧ w' = w) ∨
      (ok = true ∧ ∃ s', (w.group g).sched.push t e y = some s' ∧ w'.census = w.census.setSched g s') := by
  unfold push at h
  split at h
  · rename_i q hq
    split at h
    · rename_i q' hq'
      simp only [Prod.mk.injEq] at h
      obtain ⟨rfl, rfl⟩ := h
      exact .inr ⟨rfl, .shared q', by simp [hq, Scheduler.push, hq'], by simp⟩
    · simp only [Prod.mk.injEq] at h
      exact .inl ⟨h.2.symm, h.1.symm⟩
  · rename_i st hst
    simp only [Prod.mk.injEq] at h
    obtain ⟨rfl, rfl⟩ := h
    exact .inr ⟨rfl, _, by simp [hst, Scheduler.push], census_pushReady ..⟩

theorem lt_of_stealing {g : Nat} {st : Stealing} (h : (w.group g).sched = .stealing st) :
    g < w.groups.length := by
  by_contra hg
  simp [World.group, List.getD_eq_getElem?_getD, List.getElem?_eq_none (Nat.le_of_not_lt hg)] at h
  cases h

theorem SharedQueue.pushAll_split (q : SharedQueue) :
    ∀ (es : List Entity) {q' : SharedQueue} {rest : List Entity}, q.pushAll es = (q', rest) →
      ∃ pre, es = pre ++ rest ∧ q'.queue = q.queue ++ pre
  | [], _, _, h => by
    simp only [SharedQueue.pushAll, Prod.mk.injEq] at h
    obtain ⟨rfl, rfl⟩ := h
    exact ⟨[], rfl, by simp⟩
  | e :: es, q', rest, h => by
    unfold SharedQueue.pushAll at h
    split at h
    · rename_i q₁ h₁
      obtain ⟨pre, hes, hq⟩ := SharedQueue.pushAll_split q₁ es h
      refine ⟨e :: pre, by simp [hes], ?_⟩
      unfold SharedQueue.push at h₁
      split at h₁
      · cases h₁
      · simp only [Option.some.injEq] at h₁
        subst h₁
        simp [hq]
    · simp only [Prod.mk.injEq] at h
      obtain ⟨rfl, rfl⟩ := h
      exact ⟨[], rfl, by simp⟩

/-- Starting a batch replaces the group's scheduler by one holding a first part of the batch;
the rest comes back. -/
theorem pushAll_census {t g : Nat} {es rest : List Entity} {w' : World}
    (h : w.pushAll t g es = (w', rest)) :
    ∃ s' pre, w'.census = w.census.setSched g s' ∧ es = pre ++ rest ∧
      ((w.group g).sched.Sound → s'.entities.Perm (pre ++ (w.group g).sched.entities) ∧ s'.Sound) := by
  unfold pushAll at h
  split at h
  · rename_i q hq
    rcases hp : q.pushAll es with ⟨q', rest'⟩
    simp only [hp, Prod.mk.injEq] at h
    obtain ⟨rfl, rfl⟩ := h
    obtain ⟨pre, hes, hq'⟩ := SharedQueue.pushAll_split q es hp
    refine ⟨.shared q', pre, ?_, hes, fun _ => ⟨?_, trivial⟩⟩
    · split
      · simp
      · rw [census_foldl_wakeOneShared, census_setSched]
    · simp [Scheduler.entities, hq, hq', List.perm_append_comm]
  · rename_i st hst
    simp only [Prod.mk.injEq] at h
    obtain ⟨rfl, rfl⟩ := h
    -- the batch is queued entity by entity, each time on the scheduler the last one left
    have key : ∀ (F : World → Entity → World),
        (∀ w e st, (w.group g).sched = .stealing st →
          (F w e).census = w.census.setSched g (.stealing (st.startAll t [e]))) →
        ∀ (es : List Entity) (w : World) (st : Stealing), (w.group g).sched = .stealing st →
          (es.foldl F w).census = w.census.setSched g (.stealing (st.startAll t es)) := by
      intro F hstep es
      induction es with
      | nil =>
        intro w st hs
        simp only [List.foldl_nil, Stealing.startAll]
        rw [← hs, ← census_sched, Census.setSched_sched]
      | cons e es ih =>
        intro w st hs
        have hg := lt_of_stealing w hs
        have step := hstep w e st hs
        have hs₁ : ((F w e).group g).sched = .stealing (st.startAll t [e]) := by
          rw [← census_sched, step]
          simp [Census.sched, Census.setSched, census, List.getD_eq_getElem?_getD, hg]
        rw [List.foldl_cons, ih _ _ hs₁, step, Census.setSched_setSched]
        simp [Stealing.startAll]
    refine ⟨.stealing (st.startAll t es), es, ?_, by simp, fun hs => ?_⟩
    · split <;> simp only [census_notifyAll, census_foldl_notifyOne] <;>
        refine key _ (fun w e st hs => ?_) es w st hst <;>
        simp only [hs, Stealing.startAll, List.foldl_cons, List.foldl_nil] <;>
        split_ifs <;> simp [census_pushReady]
    · rw [hst] at hs
      obtain ⟨hp, hw, hc⟩ := Stealing.startAll_ok t es hs.1 hs.2
      exact ⟨by simpa [Scheduler.entities, hst] using hp, hw, hc⟩

theorem SharedQueue.pop_perm {q q' : SharedQueue} {o : Option Entity} (h : q.pop = (q', o)) :
    q.queue.Perm (o.toList ++ q'.queue) := by
  unfold SharedQueue.pop at h
  split at h <;> simp only [Prod.mk.injEq] at h <;> obtain ⟨rfl, rfl⟩ := h <;> simp [*]

theorem SharedQueue.remoteAcquire_perm {q q' : SharedQueue} {o : Option Entity}
    (h : q.remoteAcquire = (q', o)) : q.queue.Perm (o.toList ++ q'.queue) := by
  unfold SharedQueue.remoteAcquire at h
  rcases hp : q.pop with ⟨q₁, _ | e⟩
  · simp only [hp] at h
    obtain ⟨rfl, rfl⟩ := h
    exact SharedQueue.pop_perm hp
  · have := SharedQueue.pop_perm hp
    simp only [hp] at h
    split_ifs at h <;> simp only [Prod.mk.injEq] at h <;> obtain ⟨rfl, rfl⟩ := h
    · simpa using this.trans (List.perm_append_singleton _ _).symm
    · exact this

/-- Taking the front of a group's shared queue. -/
theorem popShared_draws {g : Nat} {w' : World} {o : Option Entity} (h : w.popShared g = (w', o)) :
    w.census.Draws w'.census o := by
  unfold popShared at h
  split at h
  · rename_i q hq
    rcases hp : q.pop with ⟨q', o'⟩
    simp only [hp, Prod.mk.injEq] at h
    obtain ⟨rfl, rfl⟩ := h
    refine Census.Drew.draws ⟨g, .shared q', by simp, fun _ => ⟨?_, trivial⟩⟩
    simpa [hq, Scheduler.entities] using SharedQueue.pop_perm hp
  · simp only [Prod.mk.injEq] at h
    obtain ⟨rfl, rfl⟩ := h
    exact .stay _

/-- A work-stealing operation that hands out what it takes and keeps its queues sound. -/
def StealingTake (op : Stealing → Stealing × Option Entity) : Prop :=
  ∀ {st st' : Stealing} {o : Option Entity}, op st = (st', o) → st.WF → st.Classes →
    st.entities.Perm (o.toList ++ st'.entities) ∧ st'.WF ∧ st'.Classes

theorem withStealing_draws {g : Nat} {op : Stealing → Stealing × Option Entity} (hop : StealingTake op)
    {w' : World} {o : Option Entity} (h : w.withStealing g op = (w', o)) :
    w.census.Draws w'.census o := by
  unfold withStealing at h
  split at h
  · rename_i st hst
    rcases hp : op st with ⟨st', o'⟩
    simp only [hp, Prod.mk.injEq] at h
    obtain ⟨rfl, rfl⟩ := h
    refine Census.Drew.draws ⟨g, .stealing st', by simp, fun hs => ?_⟩
    simp only [census_sched, hst] at hs ⊢
    exact hop hp hs.1 hs.2
  · simp only [Prod.mk.injEq] at h
    obtain ⟨rfl, rfl⟩ := h
    exact .stay _

theorem stealingTake_of {op : Stealing → Stealing × Option Entity}
    (hg : ∀ {st st' o}, op st = (st', o) → st.WF → Stealing.Gave st st' o)
    (hd : ∀ {st st' o}, op st = (st', o) → Stealing.Drawn st st') : StealingTake op :=
  fun h hw hc => ⟨(hg h hw).1, (hg h hw).2, hc.drawn (hd h)⟩

theorem stealingTake_acquire (t i : Nat) : StealingTake (fun st => st.acquire t i) :=
  stealingTake_of (fun h hw => Stealing.acquire_gave hw h) Stealing.acquire_drawn

theorem stealingTake_acquireReactor : StealingTake Stealing.acquireReactor :=
  stealingTake_of (fun h hw => Stealing.acquireReactor_gave hw h) Stealing.acquireReactor_drawn

theorem stealingTake_stealFromPeers (i : Nat) : StealingTake (fun st => st.stealFromPeers i) :=
  stealingTake_of (fun h hw => Stealing.stealFromPeers_gave hw h) Stealing.stealFromPeers_drawn

theorem stealingTake_stealGlobal (t : Nat) : StealingTake (fun st => st.stealGlobal t) :=
  stealingTake_of (fun h hw => Stealing.stealGlobal_gave hw h) Stealing.stealGlobal_drawn

/-- A thief of another group takes from group `g`. -/
theorem remoteAcquire_draws {g : Nat} {w' : World} {o : Option Entity} (h : w.remoteAcquire g = (w', o)) :
    w.census.Draws w'.census o := by
  unfold remoteAcquire at h
  split at h
  · rename_i q hq
    rcases hp : q.remoteAcquire with ⟨q', o'⟩
    simp only [hp, Prod.mk.injEq] at h
    obtain ⟨rfl, rfl⟩ := h
    refine Census.Drew.draws ⟨g, .shared q', by split_ifs <;> simp, fun _ => ⟨?_, trivial⟩⟩
    simpa [hq, Scheduler.entities] using SharedQueue.remoteAcquire_perm hp
  · rename_i st hst
    rcases hp : st.remoteAcquire with ⟨st', o'⟩
    simp only [hp, Prod.mk.injEq] at h
    obtain ⟨rfl, rfl⟩ := h
    refine Census.Drew.draws ⟨g, .stealing st', by simp, fun hs => ?_⟩
    simp only [census_sched, hst] at hs ⊢
    exact stealingTake_of (fun h hw => Stealing.remoteAcquire_gave hw h) Stealing.remoteAcquire_drawn
      hp hs.1 hs.2

theorem stealDue_draws (k : Nat) :
    ∀ (fuel : Nat) (w : World) {w' : World} {o : Option Entity}, stealDue k fuel w = (w', o) →
      w.census.Draws w'.census o
  | 0, w, w', o, h => by
    simp only [stealDue, Prod.mk.injEq] at h
    obtain ⟨rfl, rfl⟩ := h
    exact .stay _
  | fuel + 1, w, w', o, h => by
    unfold stealDue at h
    dsimp only at h
    split at h
    · simp only [Prod.mk.injEq] at h
      obtain ⟨rfl, rfl⟩ := h
      exact .stay _
    · rename_i i _
      rw [← census_modifyWorker_victims w k (fun _ => ((w.worker k).victims.reschedule i))]
      split at h
      · rename_i w₁ e hr
        simp only [Prod.mk.injEq] at h
        obtain ⟨rfl, rfl⟩ := h
        exact remoteAcquire_draws _ hr
      · rename_i w₁ hr
        exact (remoteAcquire_draws _ hr).trans (stealDue_draws k fuel w₁ h)

theorem stealForeign_draws {k : Nat} {w' : World} {o : Option Entity} (h : w.stealForeign k = (w', o)) :
    w.census.Draws w'.census o := by
  unfold stealForeign at h
  dsimp only at h
  split at h
  · simp only [Prod.mk.injEq] at h
    obtain ⟨rfl, rfl⟩ := h
    exact .stay _
  · rw [← census_modifyWorker_victims w k (fun _ => (w.worker k).victims.tick)]
    exact stealDue_draws k _ _ h

theorem acquire_draws {k : Nat} {w' : World} {o : Option Entity} (h : w.acquire k = (w', o)) :
    w.census.Draws w'.census o :=
  withStealing_draws w (stealingTake_acquire _ _) h

theorem acquireAny_draws {k : Nat} {w' : World} {o : Option Entity} (h : w.acquireAny k = (w', o)) :
    w.census.Draws w'.census o := by
  unfold acquireAny at h
  split at h
  · rename_i w₁ e ha
    simp only [Prod.mk.injEq] at h
    obtain ⟨rfl, rfl⟩ := h
    exact acquire_draws w ha
  · rename_i w₁ ha
    exact (acquire_draws w ha).trans (withStealing_draws w₁ stealingTake_acquireReactor h)

/-! ### The scheduling loop -/

theorem seek_census (k : Nat) :
    ∃ v₁ o, w.census.Draws v₁ o ∧ (w.seek k).census = v₁.setLoad k (Load.ofTaken o) := by
  unfold seek
  dsimp only
  split_ifs
  · rcases h₁ : w.popShared (w.worker k).group with ⟨w₁, _ | e⟩
    · rcases h₂ : w₁.stealForeign k with ⟨w₂, _ | e⟩
      · exact ⟨_, _, (popShared_draws w h₁).trans (stealForeign_draws w₁ h₂),
          by simp [h₂, Load.ofTaken, Phase.load]⟩
      · exact ⟨_, _, (popShared_draws w h₁).trans (stealForeign_draws w₁ h₂),
          by simp [h₂, Load.ofTaken, Phase.load]⟩
    · exact ⟨_, _, popShared_draws w h₁, by simp [Load.ofTaken, Phase.load]⟩
  · rcases h₁ : w.acquire k with ⟨w₁, _ | e⟩
    · exact ⟨_, _, acquire_draws w h₁, by simp [Load.ofTaken, Phase.load]⟩
    · exact ⟨_, _, acquire_draws w h₁, by simp [Load.ofTaken, Phase.load]⟩

theorem roused_census (k : Nat) :
    ∃ v₁ o, w.census.Draws v₁ o ∧ (w.roused k).census = v₁.setLoad k (Load.ofTaken o) := by
  unfold roused
  dsimp only
  rcases h₁ : w.popShared (w.worker k).group with ⟨w₁, _ | e⟩
  · rcases h₂ : w₁.stealForeign k with ⟨w₂, _ | e⟩
    · exact ⟨_, _, (popShared_draws w h₁).trans (stealForeign_draws w₁ h₂),
        by simp [h₂, Load.ofTaken, Phase.load]⟩
    · exact ⟨_, _, (popShared_draws w h₁).trans (stealForeign_draws w₁ h₂),
        by simp [h₂, Load.ofTaken, Phase.load]⟩
  · exact ⟨_, _, popShared_draws w h₁, by simp [Load.ofTaken, Phase.load]⟩

/-- The idle round draws until something is found; it may end holding nothing without
parking, when other deques still hold work or a last check finds some. -/
theorem look_census (k : Nat) :
    ∃ v₁ o, w.census.Draws v₁ o ∧
      ((w.look k).census = v₁.setLoad k (Load.ofTaken o) ∨ (o = none ∧ (w.look k).census = v₁)) := by
  unfold look
  dsimp only
  split_ifs
  · rcases h₁ : w.popShared (w.worker k).group with ⟨w₁, _ | e⟩
    · exact ⟨_, _, popShared_draws w h₁, .inl (by simp [Load.ofTaken])⟩
    · exact ⟨_, _, popShared_draws w h₁, .inl (by simp [Load.ofTaken, Phase.load])⟩
  · rcases h₁ : w.withStealing (w.worker k).group (fun st => st.stealFromPeers (w.worker k).index)
      with ⟨w₁, _ | e⟩
    · have d₁ := withStealing_draws w (stealingTake_stealFromPeers _) h₁
      rcases h₂ : w₁.withStealing (w.worker k).group (fun st => st.stealGlobal (w.worker k).thread)
        with ⟨w₂, _ | e⟩
      · have d₂ := d₁.trans (withStealing_draws w₁ (stealingTake_stealGlobal _) h₂)
        simp only [h₂]
        split_ifs
        · exact ⟨_, _, d₂, .inr ⟨rfl, rfl⟩⟩
        · rcases h₃ : w₂.stealForeign k with ⟨w₃, _ | e⟩
          · have d₃ := d₂.trans (stealForeign_draws w₂ h₃)
            rcases h₄ : w₃.acquireAny k with ⟨w₄, _ | e⟩
            · have d₄ := d₃.trans (acquireAny_draws w₃ h₄)
              simp only [h₄]
              split_ifs
              · rcases h₅ : w₄.acquireAny k with ⟨w₅, _ | e⟩
                · exact ⟨_, _, d₄.trans (acquireAny_draws w₄ h₅), .inr ⟨rfl, by simp⟩⟩
                · exact ⟨_, _, d₄.trans (acquireAny_draws w₄ h₅),
                    .inl (by simp [Load.ofTaken, Phase.load])⟩
              · exact ⟨_, _, d₄, .inl (by simp [Load.ofTaken])⟩
            · exact ⟨_, _, d₃.trans (acquireAny_draws w₃ h₄),
                .inl (by simp [h₄, Load.ofTaken, Phase.load])⟩
          · exact ⟨_, _, d₂.trans (stealForeign_draws w₂ h₃),
              .inl (by simp [Load.ofTaken, Phase.load])⟩
      · exact ⟨_, _, d₁.trans (withStealing_draws w₁ (stealingTake_stealGlobal _) h₂),
          .inl (by simp [h₂, Load.ofTaken, Phase.load])⟩
    · exact ⟨_, _, withStealing_draws w (stealingTake_stealFromPeers _) h₁,
        .inl (by simp [Load.ofTaken, Phase.load])⟩

/-! ### Waits -/

@[simp] theorem census_waiter (b : Nat) : w.census.waiter b = (w.block b).waiter := by
  simp only [Census.waiter, census, World.block, List.getD_eq_getElem?_getD, List.getElem?_map]
  cases w.blocks[b]? <;> rfl

theorem wakes_census {bs : List Nat} (h : ∀ b ∈ bs, b ∈ w.blockRefs) : w.census.Wakes (w.wakes bs) := by
  intro c hc
  obtain ⟨b, hb, rfl⟩ := List.mem_map.mp hc
  exact ⟨b, h b hb, by simp⟩

theorem mem_blockRefs_of_waitable {s : Site} {x : Nat} (h : x ∈ (w.waitableOf s).queue) :
    x ∈ w.blockRefs := by
  have key : ∀ {α : Type} [Inhabited α] (l : List α) (i : Nat) (d : α) (F : α → List Nat), F d = [] →
      x ∈ F (l.getD i d) → x ∈ l.flatMap F := by
    intro α _ l i d F hd hx
    rw [List.getD_eq_getElem?_getD] at hx
    cases hi : l[i]? with
    | none => simp [hi, hd] at hx
    | some a => exact List.mem_flatMap.mpr ⟨a, List.mem_of_getElem? hi, by simpa [hi] using hx⟩
  cases s <;> simp only [waitableOf, World.mutex, World.event, World.condvar, World.latch, blockRefs,
    List.mem_append] at h ⊢
  · exact .inl (.inl (.inl (.inl (key _ _ {} (fun m : Mutex => m.waiters.queue) rfl h))))
  · exact .inl (.inl (.inl (.inr (key _ _ {} (fun e : Event => e.waiters.queue) rfl h))))
  · exact .inl (.inl (.inr (key _ _ {} (fun c : CondVar => c.waiters.queue) rfl h)))
  · exact .inl (.inr (key _ _ ⟨0, {}⟩ (fun b : Barrier => b.waiters.queue) rfl h))

theorem setWaitable_rewaited (s : Site) (q : Waitable) :
    w.census.Rewaited (w.setWaitable s q).census q.queue := by
  cases s with
  | mutex m =>
    refine ⟨rfl, fun x hx => ?_⟩
    simp only [census, setWaitable, blockRefs, List.mem_append] at hx ⊢
    rcases hx with (((hx | hx) | hx) | hx) | hx
    · rw [List.modify_eq_set] at hx
      rcases mem_flatMap_set hx with hx | hx
      · exact .inl (.inl (.inl (.inl (.inl hx))))
      · exact .inr hx
    · exact .inl (.inl (.inl (.inl (.inr hx))))
    · exact .inl (.inl (.inl (.inr hx)))
    · exact .inl (.inl (.inr hx))
    · exact .inl (.inr hx)
  | event e =>
    refine ⟨rfl, fun x hx => ?_⟩
    simp only [census, setWaitable, blockRefs, List.mem_append] at hx ⊢
    rcases hx with (((hx | hx) | hx) | hx) | hx
    · exact .inl (.inl (.inl (.inl (.inl hx))))
    · rw [List.modify_eq_set] at hx
      rcases mem_flatMap_set hx with hx | hx
      · exact .inl (.inl (.inl (.inl (.inr hx))))
      · exact .inr hx
    · exact .inl (.inl (.inl (.inr hx)))
    · exact .inl (.inl (.inr hx))
    · exact .inl (.inr hx)
  | condvar c =>
    refine ⟨rfl, fun x hx => ?_⟩
    simp only [census, setWaitable, blockRefs, List.mem_append] at hx ⊢
    rcases hx with (((hx | hx) | hx) | hx) | hx
    · exact .inl (.inl (.inl (.inl (.inl hx))))
    · exact .inl (.inl (.inl (.inl (.inr hx))))
    · rw [List.modify_eq_set] at hx
      rcases mem_flatMap_set hx with hx | hx
      · exact .inl (.inl (.inl (.inr hx)))
      · exact .inr hx
    · exact .inl (.inl (.inr hx))
    · exact .inl (.inr hx)
  | latch b =>
    have hl : (w.latches.modify b fun x => { x with waiters := q }).map Barrier.count =
        w.latches.map Barrier.count := map_modify_of_eq (fun _ => rfl)
    refine ⟨by simp only [census, setWaitable, hl], fun x hx => ?_⟩
    simp only [census, setWaitable, blockRefs, List.mem_append] at hx ⊢
    rcases hx with (((hx | hx) | hx) | hx) | hx
    · exact .inl (.inl (.inl (.inl (.inl hx))))
    · exact .inl (.inl (.inl (.inl (.inr hx))))
    · exact .inl (.inl (.inl (.inr hx)))
    · rw [List.modify_eq_set] at hx
      rcases mem_flatMap_set hx with hx | hx
      · exact .inl (.inl (.inr hx))
      · exact .inr hx
    · exact .inl (.inr hx)

@[simp] theorem census_newBlock (b : Block) :
    (w.newBlock b).1.census = { w.census with waiters := w.census.waiters ++ [b.waiter] } := by
  simp [newBlock, census, blockRefs]

@[simp] theorem newBlock_number (b : Block) : (w.newBlock b).2 = w.census.waiters.length := by
  simp [newBlock, census]

@[simp] theorem waitableOf_newBlock (b : Block) (s : Site) :
    (w.newBlock b).1.waitableOf s = w.waitableOf s := by
  cases s <;> rfl

/-- Queueing a new block of `waiter` at a site. -/
theorem enqueue_census {waiter : Waiter} {s : Site} {w' : World} {o : Option Nat}
    (h : w.enqueue waiter s = (w', o)) :
    (o = none ∧ w' = w) ∨ (o = some w.census.waiters.length ∧
      ({ w.census with waiters := w.census.waiters ++ [waiter] } : Census).Rewaited w'.census
        [w.census.waiters.length]) := by
  unfold enqueue at h
  dsimp only at h
  split at h
  · rename_i q hq
    simp only [Prod.mk.injEq] at h
    obtain ⟨rfl, rfl⟩ := h
    refine .inr ⟨by simp, ?_⟩
    have hr := setWaitable_rewaited (w.newBlock ⟨waiter, s⟩).1 s q
    rw [census_newBlock] at hr
    refine hr.mono (fun x hx => ?_)
    have hx' : x ∈ ((w.waitableOf s).add (w.newBlock ⟨waiter, s⟩).2).1.queue := by
      rw [← waitableOf_newBlock w ⟨waiter, s⟩, hq]
      exact hx
    rcases Waitable.mem_add hx' with hx | hx
    · exact .inl (mem_blockRefs_of_waitable w hx)
    · exact .inr (by simp [hx])
  · simp only [Prod.mk.injEq] at h
    exact .inl ⟨h.2.symm, h.1.symm⟩

theorem census_setMutex (m : Nat) (mx : Mutex) (claimed : List Nat) :
    ({ w with mutexes := w.mutexes.set m mx, claimed } : World).census =
      (w.setWaitable (.mutex m) mx.waiters).census := by
  simp only [census, setWaitable, blockRefs]
  rw [flatMap_set_eq_modify (f := fun x => { x with waiters := mx.waiters }) (fun _ => rfl)]

theorem census_setEvent (e : Nat) (ev : Event) (claimed : List Nat) :
    ({ w with events := w.events.set e ev, claimed } : World).census =
      (w.setWaitable (.event e) ev.waiters).census := by
  simp only [census, setWaitable, blockRefs]
  rw [flatMap_set_eq_modify (f := fun _ => ⟨ev.waiters⟩) (fun _ => rfl)]

theorem census_setCondvar (c : Nat) (cv : CondVar) (claimed : List Nat) :
    ({ w with condvars := w.condvars.set c cv, claimed } : World).census =
      (w.setWaitable (.condvar c) cv.waiters).census := by
  simp only [census, setWaitable, blockRefs]
  rw [flatMap_set_eq_modify (f := fun _ => ⟨cv.waiters⟩) (fun _ => rfl)]

/-- A change to a waitable that keeps only blocks it held. -/
theorem setWaitable_rewaited_of {s : Site} {q : Waitable} (hq : ∀ x ∈ q.queue, x ∈ (w.waitableOf s).queue) :
    w.census.Rewaited (w.setWaitable s q).census [] :=
  (setWaitable_rewaited w s q).mono fun x hx => .inl (mem_blockRefs_of_waitable w (hq x hx))

/-- Locking: at once, or queueing a new block of the waiter. -/
theorem lockMutex_census {m : Nat} {waiter : Waiter} {w' : World} {o : Option Nat}
    (h : w.lockMutex m waiter = (w', o)) :
    (o = none ∧ w'.census = w.census) ∨ (o = some w.census.waiters.length ∧
      ({ w.census with waiters := w.census.waiters ++ [waiter] } : Census).Rewaited w'.census
        [w.census.waiters.length]) := by
  unfold lockMutex at h
  dsimp only at h
  split_ifs at h
  · simp only [Prod.mk.injEq] at h
    obtain ⟨rfl, rfl⟩ := h
    refine .inl ⟨rfl, ?_⟩
    simp only [census, blockRefs]
    rw [flatMap_modify_of_eq (f := fun x : Mutex => { x with count := 1 })
      (F := fun x : Mutex => x.waiters.queue) (fun _ => rfl)]
  · simp only [Prod.mk.injEq] at h
    obtain ⟨rfl, rfl⟩ := h
    refine .inr ⟨by simp, ?_⟩
    set w₁ := (w.newBlock ⟨waiter, .mutex m⟩).1
    have hr := setWaitable_rewaited w₁ (.mutex m)
      ((w₁.mutex m).lock (w.newBlock ⟨waiter, .mutex m⟩).2).1.waiters
    rw [census_newBlock] at hr
    rw [census_setMutex]
    refine hr.mono (fun x hx => ?_)
    rcases Mutex.mem_lock hx with hx | hx
    · exact .inl (mem_blockRefs_of_waitable w (s := .mutex m) hx)
    · exact .inr (by simp [hx])

@[simp] theorem census_tryLockMutex (m : Nat) : (w.tryLockMutex m).1.census = w.census := by
  simp only [tryLockMutex, census, blockRefs]
  rw [flatMap_set_of_eq]
  intro x hx
  have hw : (w.mutex m).tryLock.1.waiters = (w.mutex m).waiters := by
    unfold Mutex.tryLock
    split <;> rfl
  simp [World.mutex, List.getD_eq_getElem?_getD, hx] at hw ⊢
  exact congrArg Waitable.queue hw

theorem unlockMutex_census {m : Nat} {w' : World} {cs : List Chore} (h : w.unlockMutex m = (w', cs)) :
    w.census.Rewaited w'.census [] ∧ w.census.Wakes cs := by
  unfold unlockMutex at h
  dsimp only at h
  simp only [Prod.mk.injEq] at h
  obtain ⟨rfl, rfl⟩ := h
  refine ⟨?_, wakes_census w fun b hb => ?_⟩
  · rw [census_setMutex]
    exact setWaitable_rewaited_of w fun x hx => Mutex.mem_unlock hx
  · rw [Option.mem_toList] at hb
    exact mem_blockRefs_of_waitable w (s := .mutex m) (Mutex.unlock_found hb)

theorem setEvent_census {e : Nat} {w' : World} {cs : List Chore} (h : w.setEvent e = (w', cs)) :
    w.census.Rewaited w'.census [] ∧ w.census.Wakes cs := by
  unfold setEvent at h
  dsimp only at h
  simp only [Prod.mk.injEq] at h
  obtain ⟨rfl, rfl⟩ := h
  refine ⟨?_, wakes_census w fun b hb => ?_⟩
  · rw [census_setEvent]
    exact setWaitable_rewaited_of w fun x hx => by simp [Event.set] at hx
  · exact mem_blockRefs_of_waitable w (s := .event e) (Waitable.mem_persist hb)

theorem notifyCondvar_census {c : Nat} {all : Bool} {w' : World} {cs : List Chore}
    (h : w.notifyCondvar c all = (w', cs)) : w.census.Rewaited w'.census [] ∧ w.census.Wakes cs := by
  unfold notifyCondvar at h
  split_ifs at h
  · simp only [Prod.mk.injEq] at h
    obtain ⟨rfl, rfl⟩ := h
    refine ⟨?_, wakes_census w fun b hb => ?_⟩
    · rw [census_setCondvar]
      exact setWaitable_rewaited_of w fun x hx => by simp [CondVar.notifyAll] at hx
    · exact mem_blockRefs_of_waitable w (s := .condvar c) (Waitable.mem_wakeAll hb)
  · simp only [Prod.mk.injEq] at h
    obtain ⟨rfl, rfl⟩ := h
    refine ⟨?_, wakes_census w fun b hb => ?_⟩
    · rw [census_setCondvar]
      exact setWaitable_rewaited_of w fun x hx => Waitable.mem_wakeOne hx
    · rw [Option.mem_toList] at hb
      exact mem_blockRefs_of_waitable w (s := .condvar c) (Waitable.wakeOne_found hb)

theorem withdraw_census (b : Nat) : w.census.Rewaited (w.withdraw b).census [] :=
  setWaitable_rewaited_of w fun _ hx => Waitable.mem_remove hx

/-- A count-down that does not abort lowers the barrier's count by one. -/
theorem countDownLatch_census {b : Nat} {w' : World} {cs : List Chore}
    (h : w.countDownLatch b = .ok (w', cs)) :
    0 < (w.latch b).count ∧
      ({ w.census with latches := w.census.latches.set b ((w.latch b).count - 1) } : Census).Rewaited
        w'.census [] ∧ w.census.Wakes cs := by
  unfold countDownLatch at h
  rcases hc : (w.latch b).countDown w.claimed with a | ⟨l, claimed, woken⟩
  · simp [hc, bind, Except.bind] at h
  · simp only [hc, bind, Except.bind, pure, Except.pure, Except.ok.injEq, Prod.mk.injEq] at h
    obtain ⟨rfl, rfl⟩ := h
    obtain ⟨hpos, hcount, hq, hw⟩ := Barrier.countDown_ok hc
    refine ⟨hpos, ⟨?_, fun x hx => ?_⟩, wakes_census w fun b' hb => ?_⟩
    · simp [census, List.map_set, hcount]
    · simp only [census, blockRefs, List.mem_append] at hx ⊢
      rcases hx with (((hx | hx) | hx) | hx) | hx
      · exact .inl (.inl (.inl (.inl (.inl hx))))
      · exact .inl (.inl (.inl (.inl (.inr hx))))
      · exact .inl (.inl (.inl (.inr hx)))
      · rcases mem_flatMap_set hx with hx | hx
        · exact .inl (.inl (.inr hx))
        · have := mem_blockRefs_of_waitable w (s := .latch b) (hq x hx)
          simp only [blockRefs, List.mem_append] at this
          exact .inl this
      · exact .inl (.inr hx)
    · exact mem_blockRefs_of_waitable w (s := .latch b) (hw b' hb)

end World

end Fibers
