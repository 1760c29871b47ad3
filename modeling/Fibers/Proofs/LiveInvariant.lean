import Mathlib
import Fibers.Proofs.Census
/-!
# The invariant of the live-fiber accounting

A fiber counts as live from its spawn until it returns, or until its joinable spawn gives up
on a full run queue; the stacks outstanding are those of the live fibers that have one. Both
counts hold because of where the fibers can be, which `Census.Inv` states of a world's census:

* *Counts* (`Census.Counts`). The live count is the number of fibers with work left, the
  stacks outstanding the number of those that hold a stack, and each fiber's tasks end its
  body exactly once, so its work runs out only at its return.
* *Places* (`Census.Places`). A fiber whose spawn is in flight (a task of its spawner is still
  to queue or launch it) is named by that one task and by nothing else: no run queue holds it,
  no worker is about to take it, it has no stack. A fiber a run queue holds, or a worker is
  about to take, was not dropped by its spawn; fibers that run, wait or are named by a chore
  have a stack.
* *Latches* (`Census.Latches`). The exit barrier of a joinable fiber is its own, comes after the
  scenario's barriers, and is open exactly when the fiber has returned.
* *Handles* (`Census.Handles`). No handle names the exit barrier of a fiber whose spawn may still
  give up, or gave up.

Each change of a census gets its lemma here, under the side condition that keeps the
invariant; `Fibers.Proofs.LiveAccounting` puts them together for the operations of a world.
-/

namespace Fibers

/-! ## 1. Fibers and their tasks -/

namespace FiberView

/-- The fiber has work left: it has not returned, and its spawn did not give up. -/
def busy (x : FiberView) : Bool := !x.tasks.isEmpty

/-- The fiber has returned: it ran, and has no work left. -/
def returned (x : FiberView) : Bool := x.started && x.tasks.isEmpty

/-- The spawn of the fiber gave up: it never ran, and has no work left. -/
def dropped (x : FiberView) : Bool := !x.started && x.tasks.isEmpty

/-- What the accounting reads of a fiber besides its tasks and handles. -/
def status (x : FiberView) : Option Nat × Bool × Bool := (x.latch, x.started, x.busy)

theorem returned_eq (x : FiberView) : x.returned = (x.started && !x.busy) := by
  simp [returned, busy]

theorem dropped_eq (x : FiberView) : x.dropped = (!x.started && !x.busy) := by
  simp [dropped, busy]

end FiberView

namespace Task

/-- The tasks of a fiber end its body once: the last one ends it, and no other does. -/
inductive Ends : List Task → Prop
  | nil : Ends []
  | last {t : Task} : t.ends = true → Ends [t]
  | cons {t : Task} {ts : List Task} : t.ends = false → ts ≠ [] → Ends ts → Ends (t :: ts)

namespace Ends

variable {t : Task} {ts ps : List Task}

/-- Carrying out a task that does not end the body leaves work. -/
theorem tail (h : Ends (t :: ts)) (ht : t.ends = false) : ts ≠ [] ∧ Ends ts := by
  cases h with
  | last h => simp [h] at ht
  | cons _ hne h => exact ⟨hne, h⟩

/-- The task that ends the body is the last. -/
theorem eq_nil (h : Ends (t :: ts)) (ht : t.ends = true) : ts = [] := by
  cases h with
  | last _ => rfl
  | cons h _ _ => simp [h] at ht

/-- Tasks that do not end the body, put in front of work left. -/
theorem append (h : Ends ts) (hne : ts ≠ []) (hps : ∀ p ∈ ps, p.ends = false) : Ends (ps ++ ts) := by
  induction ps with
  | nil => exact h
  | cons p ps ih =>
    exact .cons (hps p (by simp)) (by simp [hne]) (ih fun q hq => hps q (by simp [hq]))

/-- Tasks that do not end the body, followed by one that does. -/
theorem of_last (hps : ∀ p ∈ ps, p.ends = false) (ht : t.ends = true) : Ends (ps ++ [t]) :=
  append (.last ht) (by simp) hps

end Ends

end Task

/-! ## 2. What a census refers to -/

namespace Census

variable {v v' : Census} {h : Holder} {ts : List Task} {f g k : Nat}

/-- Every task of every holder: the fibers' in fiber order, then the threads'. -/
def tasks (v : Census) : List Task := v.fibers.flatMap (·.tasks) ++ v.threads.flatMap (·.tasks)

/-- The fibers whose spawn is in flight. -/
def spawning (v : Census) : List Nat := v.tasks.flatMap Task.spawning

/-- The fibers whose joinable spawn may still give up. -/
def trying (v : Census) : List Nat := v.tasks.flatMap Task.trying

/-- The fibers launched by a dispatch whose handle is still to be kept. -/
def adopting (v : Census) : List Nat := v.tasks.flatMap Task.adopting

/-- Every handle some holder keeps. -/
def handles (v : Census) : List (Nat × Nat) := v.fibers.flatMap (·.handles) ++ v.threads.flatMap (·.handles)

/-- The fibers a run queue holds or a worker is about to take. -/
def placed (v : Census) : List Nat :=
  v.scheds.flatMap (fun s => s.entities.map Entity.id) ++ v.loads.flatMap Load.taking

/-- The fibers that chores are to make ready. -/
def choreFibers (v : Census) : List Nat :=
  (v.workerChores.flatten ++ v.threadChores.flatten ++ v.timerChores.flatten).flatMap Chore.fibers

/-- What the accounting reads of every fiber besides its tasks and handles. -/
def statuses (v : Census) : List (Option Nat × Bool × Bool) := v.fibers.map FiberView.status

/-- The holder is one of the census's fibers or threads. -/
def Has (v : Census) : Holder → Prop
  | .fiber f _ => f < v.fibers.length
  | .thread t => t < v.threads.length

theorem trying_subperm_spawning (v : Census) : v.trying.Subperm v.spawning := by
  unfold trying spawning
  induction v.tasks with
  | nil => exact List.nil_subperm
  | cons t ts ih => simpa using (t.trying_sublist_spawning.subperm).append ih

/-! ### Fibers out of range -/

theorem lt_of_busy (h : (v.fiber f).busy = true) : f < v.fibers.length := by
  by_contra hf
  simp [fiber, List.getD_eq_getElem?_getD, List.getElem?_eq_none (Nat.le_of_not_lt hf),
    FiberView.busy] at h

theorem lt_of_started (h : (v.fiber f).started = true) : f < v.fibers.length := by
  by_contra hf
  simp [fiber, List.getD_eq_getElem?_getD, List.getElem?_eq_none (Nat.le_of_not_lt hf)] at h

theorem lt_of_latch {b : Nat} (h : (v.fiber f).latch = some b) : f < v.fibers.length := by
  by_contra hf
  simp [fiber, List.getD_eq_getElem?_getD, List.getElem?_eq_none (Nat.le_of_not_lt hf)] at h

theorem lt_of_not_dropped (h : (v.fiber f).dropped = false) : f < v.fibers.length := by
  by_contra hf
  simp [fiber, List.getD_eq_getElem?_getD, List.getElem?_eq_none (Nat.le_of_not_lt hf),
    FiberView.dropped] at h

theorem has_of_tasksOf (h : v.tasksOf h' ≠ []) : v.Has h' := by
  cases h' with
  | fiber f k => exact lt_of_busy (f := f) (by simpa [FiberView.busy, tasksOf] using h)
  | thread t =>
    by_contra ht
    simp [tasksOf, thread, List.getD_eq_getElem?_getD, List.getElem?_eq_none (Nat.le_of_not_lt ht)] at h

/-! ### Statuses -/

theorem status_fiber (v : Census) (f : Nat) : (v.fiber f).status = v.statuses.getD f (none, false, false) := by
  simp only [fiber, statuses, List.getD_eq_getElem?_getD, List.getElem?_map]
  cases v.fibers[f]? <;> rfl

section SameStatuses

variable (hs : v'.statuses = v.statuses)
include hs

theorem fiber_status_of_statuses (f : Nat) : (v'.fiber f).status = (v.fiber f).status := by
  rw [status_fiber, status_fiber, hs]

theorem latch_of_statuses (f : Nat) : (v'.fiber f).latch = (v.fiber f).latch :=
  congrArg Prod.fst (fiber_status_of_statuses hs f)

theorem started_of_statuses (f : Nat) : (v'.fiber f).started = (v.fiber f).started :=
  congrArg (·.2.1) (fiber_status_of_statuses hs f)

theorem busy_of_statuses (f : Nat) : (v'.fiber f).busy = (v.fiber f).busy :=
  congrArg (·.2.2) (fiber_status_of_statuses hs f)

theorem returned_of_statuses (f : Nat) : (v'.fiber f).returned = (v.fiber f).returned := by
  rw [FiberView.returned_eq, FiberView.returned_eq, started_of_statuses hs, busy_of_statuses hs]

theorem dropped_of_statuses (f : Nat) : (v'.fiber f).dropped = (v.fiber f).dropped := by
  rw [FiberView.dropped_eq, FiberView.dropped_eq, started_of_statuses hs, busy_of_statuses hs]

/-- A count of the fibers by what the status says. -/
theorem countP_of_statuses {p : FiberView → Bool} {q : Option Nat × Bool × Bool → Bool}
    (hp : ∀ x, p x = q x.status) : v'.fibers.countP p = v.fibers.countP p := by
  have key : ∀ u : Census, u.fibers.countP p = u.statuses.countP q := by
    intro u
    simp only [statuses, List.countP_map]
    exact List.countP_congr (fun x _ => by simp [hp])
  rw [key, key, hs]

end SameStatuses

/-! ### Changing the tasks of a holder -/

theorem tasks_setTasks_perm (ts : List Task) (hh : v.Has h) : ((v.setTasks h ts).tasks ++ v.tasksOf h).Perm (ts ++ v.tasks) := by
  cases h with
  | fiber f k =>
    have hp := flatMap_modify_perm FiberView.tasks (fun x => { x with tasks := ts }) (l := v.fibers) hh
    have hget : (v.fiber f).tasks = v.fibers[f].tasks := by
      simp [fiber, List.getD_eq_getElem?_getD, List.getElem?_eq_getElem hh]
    simp only [setTasks, tasks, tasksOf, hget]
    rw [← Multiset.coe_eq_coe] at hp ⊢
    simp only [← Multiset.coe_add] at hp ⊢
    rw [add_right_comm, hp, add_assoc]
  | thread t =>
    have hp := flatMap_modify_perm ThreadView.tasks (fun x => { x with tasks := ts }) (l := v.threads) hh
    have hget : (v.thread t).tasks = v.threads[t].tasks := by
      simp [thread, List.getD_eq_getElem?_getD, List.getElem?_eq_getElem hh]
    simp only [setTasks, tasks, tasksOf, hget]
    rw [← Multiset.coe_eq_coe] at hp ⊢
    simp only [← Multiset.coe_add] at hp ⊢
    rw [add_assoc, hp, add_left_comm]

/-- What the tasks of a census refer to, after one holder's tasks changed. -/
theorem refs_setTasks_perm (F : Task → List Nat) (ts : List Task) (hh : v.Has h) :
    ((v.setTasks h ts).tasks.flatMap F ++ (v.tasksOf h).flatMap F).Perm (ts.flatMap F ++ v.tasks.flatMap F) := by
  simpa only [List.flatMap_append] using (tasks_setTasks_perm ts hh).flatMap_right F

theorem mem_refs_setTasks {F : Task → List Nat} {x : Nat} (hh : v.Has h)
    (hx : x ∈ (v.setTasks h ts).tasks.flatMap F) : x ∈ ts.flatMap F ∨ x ∈ v.tasks.flatMap F := by
  have := (refs_setTasks_perm F ts hh).subset (List.mem_append_left _ hx)
  simpa using this

/-- Carrying out the first task of a holder: what its tasks referred to is what the rest and
that task refer to. -/
theorem refs_pop_perm (F : Task → List Nat) {t : Task} {rest : List Task} (hh : v.Has h)
    (ht : v.tasksOf h = t :: rest) :
    ((v.setTasks h rest).tasks.flatMap F ++ F t).Perm (v.tasks.flatMap F) := by
  have hp := refs_setTasks_perm F rest hh
  rw [ht, List.flatMap_cons] at hp
  rw [← Multiset.coe_eq_coe] at hp ⊢
  simp only [← Multiset.coe_add] at hp ⊢
  rw [← add_assoc, add_comm _ (rest.flatMap F : Multiset Nat)] at hp
  exact add_left_cancel hp

end Census

/-! ## 3. The invariant -/

namespace Task.Ends

/-- Carrying out tasks that do not end the body keeps the rest ending it once. -/
theorem of_append {ps ts : List Task} (h : Ends (ps ++ ts)) (hps : ∀ p ∈ ps, p.ends = false) : Ends ts := by
  induction ps with
  | nil => exact h
  | cons p ps ih =>
    exact ih (h.tail (hps p (by simp))).2 fun q hq => hps q (by simp [hq])

end Task.Ends

namespace Census

variable {v v' : Census}

/-- The live count is the number of fibers with work left, the stacks outstanding the number
of those that hold one, and each fiber's tasks end its body once. -/
structure Counts (v : Census) : Prop where
  live : v.live = v.fibers.countP FiberView.busy
  outstanding : v.outstanding = v.fibers.countP (fun x => x.busy && x.started)
  ends : ∀ f, Task.Ends (v.fiber f).tasks

/-- Where fibers can be. A spawn in flight names a fiber with work and no stack, and no other
task, run queue or worker names it; what a run queue or a worker holds was not dropped; what
runs, is to be made ready by a chore or waits on a block has a stack; the blocks that some
waitable or timeout holds exist, as do the timeout records that timers were armed with; and
every scheduler is fit to run. -/
structure Places (v : Census) : Prop where
  spawning : ∀ f ∈ v.spawning, (v.fiber f).started = false ∧ (v.fiber f).busy = true
  nodup : v.spawning.Nodup
  apart : ∀ f ∈ v.spawning, f ∉ v.placed
  placed : ∀ f ∈ v.placed, (v.fiber f).dropped = false
  running : ∀ k f, v.load k = .running f → (v.fiber f).started = true
  chores : ∀ f ∈ v.choreFibers, (v.fiber f).started = true
  blocks : ∀ b ∈ v.blockRefs, b < v.waiters.length
  waiters : ∀ b ∈ v.blockRefs, ∀ f, v.waiter b = .fiber f → (v.fiber f).started = true
  timeouts : ∀ r ∈ v.timeoutRefs, r < v.timeouts
  sound : ∀ g, (v.sched g).Sound

/-- The exit barrier of a joinable fiber comes after the scenario's barriers, is its own, and
is open exactly when the fiber has returned. -/
structure Latches (v : Census) : Prop where
  barriers : v.barriers ≤ v.latches.length
  range : ∀ f b, (v.fiber f).latch = some b → v.barriers ≤ b ∧ b < v.latches.length
  own : ∀ f g b, (v.fiber f).latch = some b → (v.fiber g).latch = some b → f = g
  count : ∀ f b, (v.fiber f).latch = some b →
    v.latches.getD b 0 = if (v.fiber f).returned then 0 else 1

/-- Every handle names the exit barrier of a fiber, never one whose spawn may still give up or
gave up; a fiber launched by a dispatch can give up no more. -/
structure Handles (v : Census) : Prop where
  latch : ∀ d ∈ v.handles, ∃ f, (v.fiber f).latch = some d.2
  free : ∀ f b, (v.fiber f).latch = some b → (f ∈ v.trying ∨ (v.fiber f).dropped = true) →
    ∀ d ∈ v.handles, d.2 ≠ b
  adopting : ∀ f ∈ v.adopting, f ∉ v.trying ∧ (v.fiber f).dropped = false

/-- The invariant of the live-fiber accounting; a run ends quiet only with no fiber live. -/
structure Inv (v : Census) : Prop where
  counts : v.Counts
  places : v.Places
  latches : v.Latches
  handles : v.Handles
  quiet : v.ending = some .quiet → v.live = 0

/-! ## 4. Letting go

Most changes of a census only let go of what it refers to: a holder carries out a task that
does not end its body, lets go of handles, does a chore, a worker takes an entity from a run
queue, a waitable lets go of blocks. `Within` says so once, and `Inv.within` shows that the
invariant survives it. -/

/-- `v'` agrees with `v` on every fiber's status and on what the invariant counts, and refers
to nothing that `v` does not refer to. -/
structure Within (v' v : Census) : Prop where
  statuses : v'.statuses = v.statuses
  tasks : ∀ f, ∃ ps, (∀ p ∈ ps, p.ends = false) ∧ (v.fiber f).tasks = ps ++ (v'.fiber f).tasks
  live : v'.live = v.live
  outstanding : v'.outstanding = v.outstanding
  ending : v'.ending = v.ending
  latches : v'.latches = v.latches
  barriers : v'.barriers = v.barriers
  spawning : v'.spawning.Subperm v.spawning
  trying : ∀ f ∈ v'.trying, f ∈ v.trying
  adopting : ∀ f ∈ v'.adopting, f ∈ v.adopting
  handles : ∀ d ∈ v'.handles, d ∈ v.handles
  placed : ∀ f ∈ v'.placed, f ∈ v.placed
  running : ∀ k f, v'.load k = .running f → v.load k = .running f
  chores : ∀ f ∈ v'.choreFibers, f ∈ v.choreFibers
  blockRefs : ∀ b ∈ v'.blockRefs, b ∈ v.blockRefs
  waiters : v'.waiters = v.waiters
  timeoutRefs : ∀ r ∈ v'.timeoutRefs, r ∈ v.timeoutRefs
  timeouts : v'.timeouts = v.timeouts
  sound : (∀ g, (v.sched g).Sound) → ∀ g, (v'.sched g).Sound

theorem Inv.within (hi : v.Inv) (hw : v'.Within v) : v'.Inv := by
  have hs := hw.statuses
  refine ⟨⟨?_, ?_, fun f => ?_⟩, ⟨fun f hf => ?_, ?_, fun f hf => ?_, fun f hf => ?_,
    fun k f hk => ?_, fun f hf => ?_, fun b hb => ?_, fun b hb f hf => ?_, fun r hr => ?_,
    hw.sound hi.places.sound⟩, ⟨?_, fun f b hb => ?_, fun f g b hf hg => ?_, fun f b hb => ?_⟩,
    ⟨fun d hd => ?_, fun f b hb hf d hd => ?_, fun f hf => ?_⟩, fun he => ?_⟩
  · rw [hw.live, hi.counts.live,
      countP_of_statuses hs (p := FiberView.busy) (q := (·.2.2)) (fun _ => rfl)]
  · rw [hw.outstanding, hi.counts.outstanding,
      countP_of_statuses hs (p := fun x => x.busy && x.started) (q := fun s => s.2.2 && s.2.1)
        (fun _ => rfl)]
  · obtain ⟨ps, hps, he⟩ := hw.tasks f
    exact Task.Ends.of_append (he ▸ hi.counts.ends f) hps
  · rw [started_of_statuses hs, busy_of_statuses hs]
    exact hi.places.spawning f (List.Subperm.subset hw.spawning hf)
  · obtain ⟨l, hp, hl⟩ := hw.spawning
    exact hp.nodup_iff.mp (hi.places.nodup.sublist hl)
  · exact fun hp => hi.places.apart f (List.Subperm.subset hw.spawning hf) (hw.placed f hp)
  · rw [dropped_of_statuses hs]
    exact hi.places.placed f (hw.placed f hf)
  · rw [started_of_statuses hs]
    exact hi.places.running k f (hw.running k f hk)
  · rw [started_of_statuses hs]
    exact hi.places.chores f (hw.chores f hf)
  · rw [hw.waiters]
    exact hi.places.blocks b (hw.blockRefs b hb)
  · rw [started_of_statuses hs]
    exact hi.places.waiters b (hw.blockRefs b hb) f (by simpa [waiter, hw.waiters] using hf)
  · rw [hw.timeouts]
    exact hi.places.timeouts r (hw.timeoutRefs r hr)
  · rw [hw.barriers, hw.latches]
    exact hi.latches.barriers
  · rw [hw.barriers, hw.latches]
    exact hi.latches.range f b (by rwa [latch_of_statuses hs] at hb)
  · exact hi.latches.own f g b (by rwa [latch_of_statuses hs] at hf) (by rwa [latch_of_statuses hs] at hg)
  · rw [hw.latches, returned_of_statuses hs]
    exact hi.latches.count f b (by rwa [latch_of_statuses hs] at hb)
  · obtain ⟨f, hf⟩ := hi.handles.latch d (hw.handles d hd)
    exact ⟨f, by rw [latch_of_statuses hs]; exact hf⟩
  · rw [latch_of_statuses hs] at hb
    rw [dropped_of_statuses hs] at hf
    exact hi.handles.free f b hb (hf.imp (hw.trying f) id) d (hw.handles d hd)
  · rw [dropped_of_statuses hs]
    obtain ⟨ht, hd⟩ := hi.handles.adopting f (hw.adopting f hf)
    exact ⟨fun h => ht (hw.trying f h), hd⟩
  · rw [hw.live]
    exact hi.quiet (hw.ending ▸ he)

end Census

end Fibers
