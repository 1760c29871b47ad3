import Mathlib
import Fibers.Proofs.QueueConservation
/-!
# What a group shows of one fiber

A fiber is *held ready* by a place that will run it or queue it: a slot of a run queue, the
entity a master is about to run, the entity or target a switch handed over, and a fiber a
master or a waker is about to queue. A master *handles* the fiber it runs, the fiber
suspending on it, and the fiber that switched to it until it has carried out the switch. A
waker that claimed a fiber's block and has not yet made the fiber ready holds a *claim*.

The view of fiber `g` (`Lifecycle.look`) gathers its words (state, scheduler lock, queued
block), how many places hold it ready, how the masters handle it and how many wakers claimed
it. `Look.Ok` says which views a fiber may show: one that no master handles is ready and held
exactly once, or waiting with its block queued or claimed, or dead with nothing left to run;
one that a master handles is held nowhere else, and its words follow what the master does
with it (`Handling.Fits`).

The lemmas of this module say how each change of a group moves a view, so that the proofs of
the steps never look inside the lists of masters and wakers.
-/

namespace Fibers

/-! ## 1. Lists with one element replaced -/

section Lists

variable {α β : Type} [Inhabited α]

theorem count_flatMap_modify [BEq β] (h : α → List β) (f : α → α) (b : β) :
    ∀ (l : List α) (i : Nat), i < l.length →
      ((l.modify i f).flatMap h).count b + (h (l.getD i default)).count b =
        (l.flatMap h).count b + (h (f (l.getD i default))).count b
  | [], _, hi => absurd hi (by simp)
  | x :: l, 0, _ => by
    simp only [List.modify_zero_cons, List.flatMap_cons, List.count_append, List.getD_cons_zero]
    omega
  | x :: l, i + 1, hi => by
    have := count_flatMap_modify h f b l i (by simpa using hi)
    simp only [List.modify_succ_cons, List.flatMap_cons, List.count_append, List.getD_cons_succ]
    omega

theorem filterMap_modify_of_eq (h : α → Option β) (f : α → α) :
    ∀ (l : List α) (i : Nat), h (f (l.getD i default)) = h (l.getD i default) →
      (l.modify i f).filterMap h = l.filterMap h
  | [], _, _ => by simp
  | x :: l, 0, hf => by
    simp only [List.getD_cons_zero] at hf
    simp only [List.modify_zero_cons, List.filterMap_cons, hf]
  | x :: l, i + 1, hf => by
    simp only [List.getD_cons_succ] at hf
    simp only [List.modify_succ_cons, List.filterMap_cons, filterMap_modify_of_eq h f l i hf]

/-- When one element alone contributes to a filter map, replacing it replaces its
contribution. -/
theorem filterMap_modify_of_only (h : α → Option β) (f : α → α) :
    ∀ (l : List α) (i : Nat), i < l.length → l.filterMap h = (h (l.getD i default)).toList →
      (l.modify i f).filterMap h = (h (f (l.getD i default))).toList
  | [], _, hi, _ => absurd hi (by simp)
  | x :: l, 0, _, hl => by
    simp only [List.getD_cons_zero, List.filterMap_cons] at hl ⊢
    simp only [List.modify_zero_cons, List.filterMap_cons]
    cases hx : h x with
    | none =>
      rw [hx] at hl
      simp only [Option.toList_none] at hl
      cases hfx : h (f x) <;> simp [hl]
    | some y =>
      rw [hx] at hl
      simp only [Option.toList_some, List.cons.injEq, true_and] at hl
      cases hfx : h (f x) <;> simp [hl]
  | x :: l, i + 1, hi, hl => by
    simp only [List.getD_cons_succ, List.filterMap_cons] at hl ⊢
    simp only [List.modify_succ_cons, List.filterMap_cons]
    have hil : i < l.length := by simpa using hi
    have hmem : l.getD i default ∈ l := by
      rw [List.getD_eq_getElem _ _ hil]; exact List.getElem_mem hil
    cases hx : h x with
    | none =>
      rw [hx] at hl
      simpa using filterMap_modify_of_only h f l i hil (by simpa using hl)
    | some y =>
      -- the head contributes, so the element at `i` cannot: the list would be too long
      exfalso
      rw [hx] at hl
      cases hd : h (l.getD i default) with
      | none => rw [hd] at hl; simp at hl
      | some z =>
        simp only [hd, Option.toList_some, List.cons.injEq] at hl
        have : z ∈ l.filterMap h := List.mem_filterMap.mpr ⟨_, hmem, hd⟩
        rw [hl.2] at this
        simp at this

theorem count_filterMap_modify [BEq β] (h : α → Option β) (f : α → α) (b : β) :
    ∀ (l : List α) (i : Nat), i < l.length →
      ((l.modify i f).filterMap h).count b + (h (l.getD i default)).toList.count b =
        (l.filterMap h).count b + (h (f (l.getD i default))).toList.count b
  | [], _, hi => absurd hi (by simp)
  | x :: l, 0, _ => by
    simp only [List.modify_zero_cons, List.getD_cons_zero, List.filterMap_cons]
    cases h x <;> cases h (f x) <;> simp only [Option.toList_none, Option.toList_some, List.count_cons,
      List.count_nil] <;> omega
  | x :: l, i + 1, hi => by
    have := count_filterMap_modify h f b l i (by simpa using hi)
    simp only [List.modify_succ_cons, List.getD_cons_succ, List.filterMap_cons]
    cases h x <;> simp only [List.count_cons] <;> omega

end Lists

/-! ## 2. Holders, handlers and claims -/

/-- What a master does with the fiber it handles. -/
inductive Handling where
  | running
  | suspending (stage : SuspendStage)
  /-- Switched away; `suspend` when it suspended, rather than yielded or switched to another. -/
  | switched (suspend : Bool)
  deriving Inhabited, DecidableEq, Repr

namespace SwitchAction

/-- Whether the fiber suspended. -/
def isSuspend : SwitchAction → Bool
  | .suspend _ => true
  | _ => false

/-- The fibers an action hands to the master to run next. -/
def holds : SwitchAction → List Nat
  | .suspend next | .yield next => next.toList.map Entity.id
  | .switchTo t => [t]

end SwitchAction

namespace MasterPhase

/-- The fiber the master runs, or that is suspending on it, or that switched to it and whose
action it has not yet carried out. -/
def on : MasterPhase → Option Nat
  | .running f | .suspending f _ | .switched f _ => some f
  | _ => none

/-- What the master does with fiber `g`, if it handles it. -/
def handling (g : Nat) : MasterPhase → Option Handling
  | .running f => if f = g then some .running else none
  | .suspending f stage => if f = g then some (.suspending stage) else none
  | .switched f a => if f = g then some (.switched a.isSuspend) else none
  | _ => none

/-- The fibers the master holds ready. -/
def holds : MasterPhase → List Nat
  | .run e => [e.id]
  | .switched _ a => a.holds
  | .requeue f _ next => f :: next.toList.map Entity.id
  | _ => []

end MasterPhase

namespace WakerPhase

/-- The fiber whose block the waker claimed and has not yet made ready. -/
def claim : WakerPhase → Option Nat
  | .resume f => some f
  | _ => none

/-- The fiber the waker is about to queue. -/
def holds : WakerPhase → List Nat
  | .push e => [e.id]
  | _ => []

end WakerPhase

namespace Scheduler

/-- The fibers a scheduler holds, once per slot. -/
def ids (s : Scheduler) : List Nat := s.entities.map Entity.id

end Scheduler

namespace Lifecycle

/-- Every place that holds a fiber ready, once per place. -/
def readyHolds (l : Lifecycle) : List Nat :=
  l.sched.ids ++ l.masters.flatMap (·.phase.holds) ++ l.wakers.flatMap (·.phase.holds)

/-- The fibers the masters handle. -/
def handled (l : Lifecycle) : List Nat := l.masters.filterMap (·.phase.on)

/-- Every holder of a fiber: the places that hold it ready and the master that handles it. -/
def holders (l : Lifecycle) : List Nat := l.readyHolds ++ l.handled

/-- The fibers whose blocks wakers claimed and have not yet made ready. -/
def claims (l : Lifecycle) : List Nat := l.wakers.filterMap (·.phase.claim)

/-- What the masters do with fiber `g`. -/
def handlings (l : Lifecycle) (g : Nat) : List Handling := l.masters.filterMap (·.phase.handling g)

end Lifecycle

/-! ## 3. The view of one fiber -/

/-- What a group shows of one fiber. -/
structure Look where
  cell : FiberCell
  /-- The places that hold it ready. -/
  held : Nat
  /-- What the masters that handle it do with it. -/
  handling : List Handling
  /-- The wakers that claimed its block and have not yet made it ready. -/
  claims : Nat

namespace Look

/-- Its pending wake: its block queued, or claimed by a waker. -/
def wake (k : Look) : Nat := (if k.cell.published then 1 else 0) + k.claims

end Look

namespace Handling

/-- The words of a fiber that a master handles, by what the master does with it. -/
def Fits (h : Handling) (c : FiberCell) (wake : Nat) : Prop :=
  match h with
  | .running => c.state = .running ∧ c.locked = false ∧ wake = 0
  | .suspending .publish => c.state = .running ∧ c.locked = true ∧ wake = 0
  | .suspending .mark => c.state = .running ∧ c.locked = true ∧ wake = 1
  | .suspending .pop => c.state = .waiting ∧ c.locked = true ∧ wake = 1
  | .switched true => c.state = .waiting ∧ c.locked = true ∧ wake = 1
  | .switched false => c.state = .running ∧ c.locked = false ∧ wake = 0

end Handling

namespace FiberCell

/-- The words of a fiber that no master handles, by its state. -/
def Rests (c : FiberCell) (held wake : Nat) : Prop :=
  c.locked = false ∧
    match c.state with
    | .ready => held = 1 ∧ wake = 0
    | .running => False
    | .waiting => held = 0 ∧ wake = 1
    | .dead => held = 0 ∧ wake = 0 ∧ c.program = []

end FiberCell

namespace Look

/-- The views a fiber may show. -/
def Ok (k : Look) : Prop :=
  match k.handling with
  | [] => k.cell.Rests k.held k.wake
  | [h] => k.held = 0 ∧ h.Fits k.cell k.wake
  | _ :: _ :: _ => False

end Look

namespace Lifecycle

/-- The view of fiber `g`. -/
def look (l : Lifecycle) (g : Nat) : Look :=
  ⟨l.fiber g, l.readyHolds.count g, l.handlings g, l.claims.count g⟩

/-! ## 4. How the changes of a group move the views -/

variable {l : Lifecycle} {f g i r : Nat}

@[simp] theorem masters_updateFiber (h : FiberCell → FiberCell) : (l.updateFiber f h).masters = l.masters := rfl
@[simp] theorem wakers_updateFiber (h : FiberCell → FiberCell) : (l.updateFiber f h).wakers = l.wakers := rfl
@[simp] theorem sched_updateFiber (h : FiberCell → FiberCell) : (l.updateFiber f h).sched = l.sched := rfl
@[simp] theorem counter_updateFiber (h : FiberCell → FiberCell) : (l.updateFiber f h).counter = l.counter := rfl
@[simp] theorem length_updateFiber (h : FiberCell → FiberCell) :
    (l.updateFiber f h).fibers.length = l.fibers.length := by
  simp [updateFiber]

@[simp] theorem fibers_setPhase (p : MasterPhase) : (l.setPhase i p).fibers = l.fibers := rfl
@[simp] theorem wakers_setPhase (p : MasterPhase) : (l.setPhase i p).wakers = l.wakers := rfl
@[simp] theorem sched_setPhase (p : MasterPhase) : (l.setPhase i p).sched = l.sched := rfl
@[simp] theorem counter_setPhase (p : MasterPhase) : (l.setPhase i p).counter = l.counter := rfl
@[simp] theorem length_setPhase (p : MasterPhase) : (l.setPhase i p).masters.length = l.masters.length := by
  simp [setPhase]

@[simp] theorem fibers_setWakerPhase (p : WakerPhase) : (l.setWakerPhase r p).fibers = l.fibers := rfl
@[simp] theorem masters_setWakerPhase (p : WakerPhase) : (l.setWakerPhase r p).masters = l.masters := rfl
@[simp] theorem sched_setWakerPhase (p : WakerPhase) : (l.setWakerPhase r p).sched = l.sched := rfl
@[simp] theorem counter_setWakerPhase (p : WakerPhase) : (l.setWakerPhase r p).counter = l.counter := rfl
@[simp] theorem length_setWakerPhase (p : WakerPhase) :
    (l.setWakerPhase r p).wakers.length = l.wakers.length := by
  simp [setWakerPhase]

@[simp] theorem fibers_setSched (s : Scheduler) : (l.setSched s).fibers = l.fibers := rfl
@[simp] theorem masters_setSched (s : Scheduler) : (l.setSched s).masters = l.masters := rfl
@[simp] theorem wakers_setSched (s : Scheduler) : (l.setSched s).wakers = l.wakers := rfl
@[simp] theorem sched_setSched (s : Scheduler) : (l.setSched s).sched = s := rfl
@[simp] theorem counter_setSched (s : Scheduler) : (l.setSched s).counter = l.counter := rfl

@[simp] theorem masters_addFiber (c : FiberCell) : (l.addFiber c).masters = l.masters := rfl
@[simp] theorem wakers_addFiber (c : FiberCell) : (l.addFiber c).wakers = l.wakers := rfl
@[simp] theorem sched_addFiber (c : FiberCell) : (l.addFiber c).sched = l.sched := rfl
@[simp] theorem counter_addFiber (c : FiberCell) : (l.addFiber c).counter = l.counter := rfl
@[simp] theorem length_addFiber (c : FiberCell) : (l.addFiber c).fibers.length = l.fibers.length + 1 := by
  simp [addFiber]

theorem fiber_updateFiber_self (hf : f < l.fibers.length) (h : FiberCell → FiberCell) :
    (l.updateFiber f h).fiber f = h (l.fiber f) := by
  simp [updateFiber, fiber, List.getD_eq_getElem?_getD, hf]

theorem fiber_updateFiber_ne (hg : g ≠ f) (h : FiberCell → FiberCell) :
    (l.updateFiber f h).fiber g = l.fiber g := by
  simp [updateFiber, fiber, List.getD_eq_getElem?_getD, Ne.symm hg]

theorem fiber_addFiber_lt (hg : g < l.fibers.length) (c : FiberCell) : (l.addFiber c).fiber g = l.fiber g := by
  simp [addFiber, fiber, List.getD_eq_getElem?_getD, List.getElem?_append_left hg]

theorem fiber_addFiber_self (c : FiberCell) : (l.addFiber c).fiber l.fibers.length = c := by
  simp [addFiber, fiber, List.getD_eq_getElem?_getD]

theorem master_setPhase_self (hi : i < l.masters.length) (p : MasterPhase) :
    (l.setPhase i p).master i = { l.master i with phase := p } := by
  simp [setPhase, master, List.getD_eq_getElem?_getD, hi]

/-! ### The places holding a fiber ready -/

@[simp] theorem readyHolds_updateFiber (h : FiberCell → FiberCell) :
    (l.updateFiber f h).readyHolds = l.readyHolds := rfl

@[simp] theorem readyHolds_addFiber (c : FiberCell) : (l.addFiber c).readyHolds = l.readyHolds := rfl

theorem count_readyHolds_setPhase (hi : i < l.masters.length) (p : MasterPhase) (g : Nat) :
    (l.setPhase i p).readyHolds.count g + (l.master i).phase.holds.count g =
      l.readyHolds.count g + p.holds.count g := by
  have := count_flatMap_modify (fun m : Master => m.phase.holds) (fun m => { m with phase := p }) g
    l.masters i hi
  simp only [readyHolds, setPhase, master, List.count_append] at this ⊢
  omega

theorem count_readyHolds_setWakerPhase (hr : r < l.wakers.length) (p : WakerPhase) (g : Nat) :
    (l.setWakerPhase r p).readyHolds.count g + (l.waker r).phase.holds.count g =
      l.readyHolds.count g + p.holds.count g := by
  have := count_flatMap_modify (fun w : Waker => w.phase.holds) (fun w => { w with phase := p }) g
    l.wakers r hr
  simp only [readyHolds, setWakerPhase, waker, List.count_append] at this ⊢
  omega

theorem count_readyHolds_setSched (s : Scheduler) (g : Nat) :
    (l.setSched s).readyHolds.count g + l.sched.ids.count g = l.readyHolds.count g + s.ids.count g := by
  simp only [readyHolds, sched_setSched, masters_setSched, wakers_setSched, List.count_append]
  omega

/-! ### What the masters do with a fiber -/

@[simp] theorem handlings_updateFiber (h : FiberCell → FiberCell) :
    (l.updateFiber f h).handlings g = l.handlings g := rfl

@[simp] theorem handlings_addFiber (c : FiberCell) : (l.addFiber c).handlings g = l.handlings g := rfl

@[simp] theorem handlings_setSched (s : Scheduler) : (l.setSched s).handlings g = l.handlings g := rfl

@[simp] theorem handlings_setWakerPhase (p : WakerPhase) : (l.setWakerPhase r p).handlings g = l.handlings g := rfl

theorem handlings_setPhase_of_eq (p : MasterPhase) (h : p.handling g = (l.master i).phase.handling g) :
    (l.setPhase i p).handlings g = l.handlings g :=
  filterMap_modify_of_eq (fun m : Master => m.phase.handling g) (fun m => { m with phase := p }) l.masters i h

theorem handlings_setPhase_of_only (hi : i < l.masters.length) (p : MasterPhase)
    (h : l.handlings g = ((l.master i).phase.handling g).toList) :
    (l.setPhase i p).handlings g = (p.handling g).toList :=
  filterMap_modify_of_only (fun m : Master => m.phase.handling g) (fun m => { m with phase := p }) l.masters i hi h

/-! ### The claims of wakers -/

@[simp] theorem claims_updateFiber (h : FiberCell → FiberCell) : (l.updateFiber f h).claims = l.claims := rfl
@[simp] theorem claims_addFiber (c : FiberCell) : (l.addFiber c).claims = l.claims := rfl
@[simp] theorem claims_setSched (s : Scheduler) : (l.setSched s).claims = l.claims := rfl
@[simp] theorem claims_setPhase (p : MasterPhase) : (l.setPhase i p).claims = l.claims := rfl

theorem count_claims_setWakerPhase (hr : r < l.wakers.length) (p : WakerPhase) (g : Nat) :
    (l.setWakerPhase r p).claims.count g + ((l.waker r).phase.claim).toList.count g =
      l.claims.count g + (p.claim).toList.count g :=
  count_filterMap_modify (fun w : Waker => w.phase.claim) (fun w => { w with phase := p }) g l.wakers r hr

end Lifecycle

end Fibers
