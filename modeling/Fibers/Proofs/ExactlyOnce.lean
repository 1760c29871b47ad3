import Mathlib
import Fibers.Proofs.LifecycleSteps
import Fibers.Proofs.QueueClasses
/-!
# No body runs twice, and no increment is lost

`Fibers.Proofs.LifecycleSteps` shows that every step of a group keeps `Lifecycle.Inv` and
that none aborts. This module reads off what that means for the fibers of a run from a group
just started (`Lifecycle.fibers_run_exactly_once`, with what holds at every moment gathered in
`Lifecycle.Sound`):

* each step moves each fiber's state only along the lifecycle
  (ready → running → waiting → ready, running → ready, running → dead), `FiberState.Moves`;
* every increment of the shared counter uses up one `work` operation of a body: the counter
  and the operations left, those of fibers not yet started included, always add up to those
  of the root's body (`Lifecycle.pending`), so once every fiber is dead the counter holds
  exactly that;
* at every moment a fiber has at most one holder, a master runs only a ready fiber whose lock
  is free, and a waiting fiber has exactly one wake on its way.

Nothing here says that every fiber gets to die: with a full shared run queue a master can be
left holding a fiber it cannot queue (`Lifecycle.dispatch_into_full_queue_stalls`).

A step's effect on the fibers is `Lifecycle.Advance`, proved per kind of step from the facts
`Lifecycle.Inv` gives; a run's is `Lifecycle.Progress`, by induction on the schedule.
-/
namespace Fibers

/-! ## 1. The moves of a fiber's state -/

namespace FiberState

/-- How one step may change a fiber's state: a master runs a ready fiber, a running fiber
suspends, a waker makes a waiting fiber ready, a master makes a fiber that yielded or switched
away ready again, and a fiber's body ends. -/
inductive Moves : FiberState → FiberState → Prop where
  | stay (s : FiberState) : Moves s s
  | run : Moves .ready .running
  | suspend : Moves .running .waiting
  | resume : Moves .waiting .ready
  | requeue : Moves .running .ready
  | exit : Moves .running .dead

end FiberState

/-! ## 2. The increments a body has yet to make -/

namespace FiberOp

mutual

/-- The increments an operation has yet to make, those of the fiber it starts included. -/
def increments : FiberOp → Nat
  | .work => 1
  | .wait => 0
  | .yield => 0
  | .spawn _ _ body => incrementsOf body
  | .dispatch _ _ body => incrementsOf body

/-- The increments a body has yet to make. -/
def incrementsOf : List FiberOp → Nat
  | [] => 0
  | op :: rest => increments op + incrementsOf rest

end

@[simp] theorem incrementsOf_nil : incrementsOf [] = 0 := by simp [incrementsOf]

@[simp] theorem incrementsOf_cons (op : FiberOp) (rest : List FiberOp) :
    incrementsOf (op :: rest) = op.increments + incrementsOf rest := by
  simp [incrementsOf]

end FiberOp

namespace Lifecycle

/-- The increments the fibers of a group have yet to make. -/
def pending (l : Lifecycle) : Nat := (l.fibers.map (fun c => FiberOp.incrementsOf c.program)).sum

section Sums

variable {α : Type} [Inhabited α]

theorem sum_map_modify (h : α → Nat) (f : α → α) :
    ∀ (xs : List α) (i : Nat), i < xs.length →
      ((xs.modify i f).map h).sum + h (xs.getD i default) = (xs.map h).sum + h (f (xs.getD i default))
  | [], _, hi => absurd hi (by simp)
  | x :: xs, 0, _ => by
    simp only [List.modify_zero_cons, List.map_cons, List.sum_cons, List.getD_cons_zero]
    omega
  | x :: xs, i + 1, hi => by
    have := sum_map_modify h f xs i (by simpa using hi)
    simp only [List.modify_succ_cons, List.map_cons, List.sum_cons, List.getD_cons_succ]
    omega

end Sums

variable {l l' : Lifecycle} {f g i r : Nat}

theorem pending_updateFiber (hf : f < l.fibers.length) (h : FiberCell → FiberCell) :
    (l.updateFiber f h).pending + FiberOp.incrementsOf (l.fiber f).program =
      l.pending + FiberOp.incrementsOf (h (l.fiber f)).program :=
  sum_map_modify (fun c : FiberCell => FiberOp.incrementsOf c.program) h l.fibers f hf

/-! ## 3. What one step does to the fibers -/

/-- What a step does to the fibers that exist: it moves each one's state along the lifecycle,
and makes an increment only by using one up. -/
structure Advance (l l' : Lifecycle) : Prop where
  grows : l.fibers.length ≤ l'.fibers.length
  moves : ∀ g, g < l.fibers.length → (l.fiber g).state.Moves (l'.fiber g).state
  work : l'.counter + l'.pending = l.counter + l.pending

/-- A step that changes no fiber and no increment. -/
theorem advance_of_eq (hf : l'.fibers = l.fibers) (hc : l'.counter = l.counter) : Advance l l' where
  grows := by rw [hf]
  moves g _ := by
    rw [show l'.fiber g = l.fiber g by simp [fiber, hf]]
    exact .stay _
  work := by simp [pending, hf, hc]

/-- Whether a step advances depends only on the fibers and the counter it leaves. -/
theorem Advance.congr (ha : Advance l l') {l₂ : Lifecycle} (hf : l₂.fibers = l'.fibers)
    (hc : l₂.counter = l'.counter) : Advance l l₂ where
  grows := hf ▸ ha.grows
  moves g hg := by
    rw [show l₂.fiber g = l'.fiber g by simp [fiber, hf]]
    exact ha.moves g hg
  work := by
    have := ha.work
    simp only [pending, hf, hc] at this ⊢
    exact this

theorem fiber_updateFiber_of_le (hf : l.fibers.length ≤ f) (h : FiberCell → FiberCell) (g : Nat) :
    (l.updateFiber f h).fiber g = l.fiber g := by
  simp [fiber, updateFiber, List.modify_eq_self hf]

theorem state_updateFiber {h : FiberCell → FiberCell} (hs : (h (l.fiber f)).state = (l.fiber f).state)
    (g : Nat) : ((l.updateFiber f h).fiber g).state = (l.fiber g).state := by
  by_cases hf : f < l.fibers.length
  · by_cases hg : g = f
    · subst hg
      rw [fiber_updateFiber_self hf, hs]
    · rw [fiber_updateFiber_ne hg]
  · rw [fiber_updateFiber_of_le (by omega)]

/-- Changing one fiber's words: its state moves as given, and its body keeps its increments. -/
theorem advance_updateFiber {h : FiberCell → FiberCell}
    (hs : (l.fiber f).state.Moves (h (l.fiber f)).state)
    (hw : FiberOp.incrementsOf (h (l.fiber f)).program = FiberOp.incrementsOf (l.fiber f).program) :
    Advance l (l.updateFiber f h) := by
  by_cases hf : f < l.fibers.length
  · refine ⟨by simp, fun g _ => ?_, ?_⟩
    · by_cases hg : g = f
      · subst hg
        rw [fiber_updateFiber_self hf]
        exact hs
      · rw [fiber_updateFiber_ne hg]
        exact .stay _
    · have := pending_updateFiber hf h
      simp only [counter_updateFiber]
      omega
  · exact advance_of_eq (List.modify_eq_self (by omega)) rfl

/-- A fiber's next operation leaves its body: the fiber's state stays, and the increments the
operation stood for are made, by the counter, or left to the fibers it starts. -/
theorem advance_op {op : FiberOp} {rest : List FiberOp} (hf : f < l.fibers.length)
    (hp : (l.fiber f).program = op :: rest) {h : FiberCell → FiberCell}
    (hs : (h (l.fiber f)).state = (l.fiber f).state) (hr : (h (l.fiber f)).program = rest)
    (cs : List FiberCell) (n : Nat) (hn : n + (cs.map fun c => FiberOp.incrementsOf c.program).sum = op.increments)
    {l₂ : Lifecycle} (hfib : l₂.fibers = (l.updateFiber f h).fibers ++ cs) (hcnt : l₂.counter = l.counter + n) :
    Advance l l₂ where
  grows := by simp [hfib]
  moves g hg := by
    have hg₁ : g < (l.updateFiber f h).fibers.length := by simpa using hg
    rw [show l₂.fiber g = (l.updateFiber f h).fiber g by simp [fiber, hfib, List.getElem?_append_left hg₁],
      state_updateFiber hs]
    exact .stay _
  work := by
    have h₁ := pending_updateFiber hf h
    have h₂ : l₂.pending = (l.updateFiber f h).pending + (cs.map fun c => FiberOp.incrementsOf c.program).sum := by
      simp [pending, hfib]
    simp only [hp, hr, FiberOp.incrementsOf_cons] at h₁
    omega

/-! ## 4. Every step advances -/

theorem Inv.advance_perform (hi : l.Inv) (hm : i < l.masters.length) (hp : (l.master i).phase = .running f)
    (h : l.perform i f = some l') : Advance l l' := by
  obtain ⟨hf, -, -, hs, hl, -, -⟩ := hi.running hm hp
  unfold Lifecycle.perform at h
  cases hprog : (l.fiber f).program with
  | nil =>
    simp only [hprog, Option.some.injEq] at h
    subst h
    exact (advance_updateFiber (by rw [hs]; exact .exit) rfl).congr rfl rfl
  | cons op rest =>
    cases op with
    | work =>
      simp only [hprog, Option.some.injEq] at h
      subst h
      exact advance_op hf hprog rfl rfl [] 1 rfl (List.append_nil _).symm rfl
    | wait =>
      simp only [hprog, hl, Bool.false_eq_true, if_false, Option.some.injEq] at h
      subst h
      exact advance_op hf hprog rfl rfl [] 0 rfl (List.append_nil _).symm rfl
    | yield =>
      -- whatever the scheduler hands over, only the fiber's body changes
      have ha : ∀ l₂ : Lifecycle, l₂.fibers = (l.updateFiber f (fun c => { c with program := rest })).fibers →
          l₂.counter = l.counter → Advance l l₂ := fun l₂ hfib hcnt =>
        advance_op hf hprog (h := fun c => { c with program := rest }) rfl rfl [] 0 rfl (by simp [hfib]) hcnt
      simp only [hprog, sched_updateFiber] at h
      cases hsched : l.sched with
      | shared q =>
        simp only [hsched] at h
        rcases hq : q.pop with ⟨q', _ | e⟩
        · simp only [hq, Option.some.injEq] at h
          exact ha l' (by rw [← h]) (by rw [← h]; rfl)
        · simp only [hq, Option.some.injEq] at h
          exact ha l' (by rw [← h]; rfl) (by rw [← h]; rfl)
      | stealing st =>
        simp only [hsched, Option.some.injEq] at h
        exact ha l' (by rw [← h]; rfl) (by rw [← h]; rfl)
    | spawn gl rc body =>
      simp only [hprog] at h
      split at h
      · simp only [Option.some.injEq] at h
        subst h
        exact advance_op hf hprog rfl rfl [_] 0 (by simp [FiberOp.increments]) rfl rfl
      · simp at h
    | dispatch gl rc body =>
      simp only [hprog, Option.some.injEq] at h
      subst h
      exact advance_op hf hprog rfl rfl [_] 0 (by simp [FiberOp.increments]) rfl rfl

theorem Inv.advance_suspendStep (hi : l.Inv) (hm : i < l.masters.length) {st : SuspendStage}
    (hp : (l.master i).phase = .suspending f st) : Advance l (l.suspendStep i f st) := by
  cases st with
  | publish => exact (advance_updateFiber (.stay _) rfl).congr rfl rfl
  | mark =>
    obtain ⟨-, -, -, hs, -, -⟩ := hi.handled hm (g := f) (h := .suspending .mark) (by simp [hp, MasterPhase.handling])
    exact (advance_updateFiber (by rw [hs]; exact .suspend) rfl).congr rfl rfl
  | pop => exact advance_of_eq rfl rfl

theorem Inv.advance_afterSwitch (hi : l.Inv) (hm : i < l.masters.length) {a : SwitchAction}
    (hp : (l.master i).phase = .switched f a) (h : l.afterSwitch i f a = .ok (some l')) : Advance l l' := by
  cases a with
  | suspend next =>
    simp only [Lifecycle.afterSwitch, Except.ok.injEq, Option.some.injEq] at h
    subst h
    exact (advance_updateFiber (.stay _) rfl).congr rfl rfl
  | yield next =>
    obtain ⟨hs, hl⟩ := hi.running_of_switched hm hp rfl
    simp only [Lifecycle.afterSwitch, markReady_of hl hs, Except.map, Option.map_some, Except.ok.injEq,
      Option.some.injEq] at h
    subst h
    exact (advance_updateFiber (by rw [hs]; exact .requeue) rfl).congr rfl rfl
  | switchTo t =>
    obtain ⟨hs, hl⟩ := hi.running_of_switched hm hp rfl
    simp only [Lifecycle.afterSwitch, markReady_of hl hs, Except.map, Option.map_some, Except.ok.injEq,
      Option.some.injEq] at h
    subst h
    exact (advance_updateFiber (by rw [hs]; exact .requeue) rfl).congr rfl rfl

theorem Inv.advance_masterStep (hi : l.Inv) (h : l.masterStep i = .ok (some l')) : Advance l l' := by
  unfold Lifecycle.masterStep at h
  by_cases hm : i < l.masters.length
  · rw [if_pos hm] at h
    cases hp : (l.master i).phase with
    | idle =>
      simp only [hp, Except.ok.injEq] at h
      unfold Lifecycle.seek at h
      split at h
      · simp only [Option.some.injEq] at h
        subst h
        exact advance_of_eq rfl rfl
      · simp at h
    | run e =>
      simp only [hp] at h
      obtain ⟨-, -, -, hready, hunl, -⟩ := hi.held (held_of_run hm hp)
      simp only [Lifecycle.launch, hunl, hready, Bool.false_eq_true, if_false, if_true, Except.ok.injEq,
        Option.some.injEq] at h
      subst h
      exact (advance_updateFiber (by rw [hready]; exact .run) rfl).congr rfl rfl
    | running f =>
      simp only [hp, Except.ok.injEq] at h
      exact hi.advance_perform hm hp h
    | suspending f st =>
      simp only [hp, Except.ok.injEq, Option.some.injEq] at h
      exact h ▸ hi.advance_suspendStep hm hp
    | switched f a =>
      simp only [hp] at h
      exact hi.advance_afterSwitch hm hp h
    | requeue f y next =>
      simp only [hp, Except.ok.injEq] at h
      unfold Lifecycle.requeue at h
      split at h
      · simp only [Option.some.injEq] at h
        subst h
        exact advance_of_eq rfl rfl
      · simp at h
  · simp only [hm, if_false, Except.ok.injEq, reduceCtorEq] at h

theorem Inv.advance_wakerStep (hi : l.Inv) (h : l.wakerStep r f = .ok (some l')) : Advance l l' := by
  unfold Lifecycle.wakerStep at h
  by_cases hr : r < l.wakers.length
  · rw [if_pos hr] at h
    cases hp : (l.waker r).phase with
    | idle =>
      simp only [hp] at h
      by_cases hpub : (l.fiber f).published = true
      · simp only [hpub, if_true, Except.ok.injEq, Option.some.injEq] at h
        subst h
        exact (advance_updateFiber (.stay _) rfl).congr rfl rfl
      · simp only [hpub, Bool.false_eq_true, if_false, Except.ok.injEq, reduceCtorEq] at h
    | resume g =>
      simp only [hp] at h
      cases hl : (l.fiber g).locked
      · have hs := hi.waiting_of_resume hr hp hl
        simp only [markReady_of hl hs, Except.map, Option.map_some, Except.ok.injEq,
          Option.some.injEq] at h
        subst h
        exact (advance_updateFiber (by rw [hs]; exact .resume) rfl).congr rfl rfl
      · simp [markReady_of_locked hl, Except.map] at h
    | push e =>
      simp only [hp] at h
      split at h
      · simp only [Except.ok.injEq, Option.some.injEq] at h
        subst h
        exact advance_of_eq rfl rfl
      · simp at h
  · simp only [hr, if_false, Except.ok.injEq, reduceCtorEq] at h

/-- **Every step moves each fiber along the lifecycle, and makes an increment only by using
one up.** -/
theorem Inv.advance (hi : l.Inv) {a : Turn} (h : l.step a = .ok (some l')) : Advance l l' := by
  cases a with
  | master i => exact hi.advance_masterStep h
  | waker r f => exact hi.advance_wakerStep h

/-! ## 5. Runs -/

/-- What a run does to the fibers that exist: it adds fibers, moves each state along the
lifecycle, and keeps the increments made and to make. -/
structure Progress (l l' : Lifecycle) : Prop where
  grows : l.fibers.length ≤ l'.fibers.length
  moves : ∀ g, g < l.fibers.length → Relation.ReflTransGen FiberState.Moves (l.fiber g).state (l'.fiber g).state
  work : l'.counter + l'.pending = l.counter + l.pending

theorem Progress.refl (l : Lifecycle) : Progress l l := ⟨le_rfl, fun _ _ => .refl, rfl⟩

theorem Advance.progress (ha : Advance l l') : Progress l l' :=
  ⟨ha.grows, fun g hg => .single (ha.moves g hg), ha.work⟩

theorem Progress.trans {l₁ : Lifecycle} (h₁ : Progress l l₁) (h₂ : Progress l₁ l') : Progress l l' where
  grows := h₁.grows.trans h₂.grows
  moves g hg := (h₁.moves g hg).trans (h₂.moves g (lt_of_lt_of_le hg h₁.grows))
  work := h₂.work.trans h₁.work

theorem Inv.advance_next (hi : l.Inv) {a : Turn} (h : l.next a = .ok l') : Advance l l' := by
  unfold Lifecycle.next at h
  rcases hs : l.step a with e | _ | l₁
  · simp [hs] at h
  · simp only [hs, Except.ok.injEq] at h
    subst h
    exact advance_of_eq rfl rfl
  · simp only [hs, Except.ok.injEq] at h
    subst h
    exact hi.advance hs

/-- **Along a run each fiber's state only moves along the lifecycle, and the increments made
and to make stay the same.** -/
theorem Inv.progress_run (hi : l.Inv) {schedule : List Turn} (h : l.run schedule = .ok l') : Progress l l' := by
  induction schedule generalizing l with
  | nil =>
    simp only [Lifecycle.run, List.foldlM_nil, pure, Except.pure, Except.ok.injEq] at h
    subst h
    exact .refl l
  | cons a rest ih =>
    obtain ⟨l₁, h₁, hi₁⟩ := hi.next a
    simp only [Lifecycle.run, List.foldlM_cons, h₁] at h
    exact (hi.advance_next h₁).progress.trans (ih hi₁ h)

end Lifecycle

/-! ## 6. A group just started -/

theorem nextPowerOfTwo_go_ge (n : Nat) : ∀ (fuel p : Nat), p ≤ nextPowerOfTwo.go n p fuel
  | 0, _ => le_rfl
  | fuel + 1, p => by
    unfold nextPowerOfTwo.go
    split_ifs
    · exact le_rfl
    · have := nextPowerOfTwo_go_ge n fuel (2 * p)
      omega

/-- A shared run queue has room for at least one entity. -/
theorem nextPowerOfTwo_pos (n : Nat) : 0 < nextPowerOfTwo n := nextPowerOfTwo_go_ge n 64 1

namespace Scheduler

/-- The workers entering a shared queue change nothing. -/
theorem enterAll_shared (q : SharedQueue) :
    ∀ is : List Nat, is.foldlM (fun (s : Scheduler) i => s.enter (2 + i) i) (.shared q) =
      (Except.ok (.shared q) : Except Abort Scheduler)
  | [] => rfl
  | i :: rest => by
    simp only [List.foldlM_cons, enter]
    exact enterAll_shared q rest

/-- The workers entering a work-stealing group claim their slots and move no entity. -/
theorem enterAll_stealing {st : Stealing} (hw : st.WF) {is : List Nat} {s : Scheduler}
    (h : is.foldlM (fun (s : Scheduler) i => s.enter (2 + i) i) (.stealing st) = .ok s) :
    ∃ st', s = .stealing st' ∧ st'.entities = st.entities ∧ st'.WF := by
  induction is generalizing st with
  | nil =>
    simp only [List.foldlM_nil, pure, Except.pure, Except.ok.injEq] at h
    exact ⟨st, h.symm, rfl, hw⟩
  | cons i rest ih =>
    simp only [List.foldlM_cons, enter] at h
    rcases he : st.enter (2 + i) i with a | st₁
    · simp [he, bind, Except.bind] at h
    · simp only [he] at h
      obtain ⟨hent, -, hw₁⟩ := Stealing.enter_ok hw he
      obtain ⟨st', rfl, hent', hw'⟩ := ih hw₁ h
      exact ⟨st', rfl, hent'.trans hent, hw'⟩

/-- A scheduler just created and entered by its workers queues a first entity, and holds
only it. -/
theorem startFiber_created {c : Config} {n : Nat} {s₀ s : Scheduler} (hc : create c n = .ok s₀)
    (he : (List.range n).foldlM (fun s i => s.enter (2 + i) i) s₀ = .ok s) (t : Nat) (e : Entity) :
    (s.startFiber t e).1.entities = [e] ∧ (s.startFiber t e).1.WF := by
  cases s₀ with
  | shared q =>
    rw [enterAll_shared, Except.ok.injEq] at he
    subst he
    have hq : q.queue = [] ∧ 0 < q.capacity := by
      unfold create SharedQueue.create at hc
      split_ifs at hc <;> simp at hc
      subst hc
      exact ⟨rfl, nextPowerOfTwo_pos _⟩
    have hpush : q.push e = some { q with queue := [e] } := by
      simp [SharedQueue.push, SharedQueue.isFull, hq.1, Nat.pos_iff_ne_zero.mp hq.2]
    simp [startFiber, hpush, entities, WF]
  | stealing st =>
    obtain ⟨rfl, hn⟩ := Stealing.eq_create_of_scheduler hc
    obtain ⟨st', rfl, hent, hw⟩ := enterAll_stealing (Stealing.create_wf hn _) he
    refine ⟨?_, Stealing.pushReady_wf hw e false⟩
    have := Stealing.pushReady_perm hw e false (t := t)
    rw [hent, Stealing.create_entities] at this
    exact List.perm_singleton.mp this

end Scheduler

namespace Lifecycle

variable {l : Lifecycle}

/-- What a group just started is made of: its root fiber, queued, idle masters and wakers,
and a counter at zero. -/
theorem start_ok {c : Config} {workers wakers : Nat} {root : List FiberOp}
    (h : Lifecycle.start c workers wakers root = .ok l) :
    l.sched.entities = [({ program := root } : FiberCell).entity 0] ∧ l.sched.WF ∧
      (∀ m ∈ l.masters, m.phase = .idle) ∧ (∀ w ∈ l.wakers, w.phase = .idle) ∧
      l.fibers = [{ program := root }] ∧ l.counter = 0 := by
  unfold Lifecycle.start at h
  rcases hc : Scheduler.create c workers with a | s₀
  · simp [hc, bind, Except.bind] at h
  rcases he : (List.range workers).foldlM (fun s i => s.enter (2 + i) i) s₀ with a | s
  · simp [hc, he, bind, Except.bind, throw, throwThe, MonadExceptOf.throw] at h
  simp only [hc, he, bind, Except.bind, pure, Except.pure, Except.ok.injEq] at h
  subst h
  obtain ⟨hent, hw⟩ := Scheduler.startFiber_created hc he 0 (({ program := root } : FiberCell).entity 0)
  refine ⟨hent, hw, fun m hm => ?_, fun w hw => ?_, rfl, rfl⟩
  · obtain ⟨i, -, rfl⟩ := List.mem_map.mp hm
    rfl
  · rw [(List.mem_replicate.mp hw).2]

/-- **A group just started keeps the invariant**: its root fiber is ready, held once, by the
scheduler, and nothing else refers to a fiber. -/
theorem Inv.start {c : Config} {workers wakers : Nat} {root : List FiberOp}
    (h : Lifecycle.start c workers wakers root = .ok l) : l.Inv := by
  obtain ⟨hent, hw, hm, hr, hfib, -⟩ := start_ok h
  have hholds : ∀ g, l.readyHolds.count g = if g = 0 then 1 else 0 := by
    intro g
    have h₁ : l.masters.flatMap (·.phase.holds) = [] :=
      List.flatMap_eq_nil_iff.mpr (fun m hm' => by rw [hm m hm']; rfl)
    have h₂ : l.wakers.flatMap (·.phase.holds) = [] :=
      List.flatMap_eq_nil_iff.mpr (fun w hw' => by rw [hr w hw']; rfl)
    simp only [readyHolds, h₁, h₂, Scheduler.ids, hent, FiberCell.entity, List.append_nil, List.map_cons,
      List.map_nil, List.count_singleton, beq_iff_eq]
    split_ifs <;> omega
  have hhand : ∀ g, l.handlings g = [] := fun g =>
    List.filterMap_eq_nil_iff.mpr (fun m hm' => by rw [hm m hm']; rfl)
  have hclaims : l.claims = [] := List.filterMap_eq_nil_iff.mpr (fun w hw' => by rw [hr w hw']; rfl)
  refine ⟨fun g hg => ?_, fun g hg => ⟨?_, hhand g, by simp [look, hclaims]⟩, hw⟩
  · rw [hfib, List.length_singleton, Nat.lt_one_iff] at hg
    subst hg
    refine (Look.ok_of_nil (hhand 0)).mpr ?_
    simp [look, fiber, hfib, FiberCell.Rests, hholds, Look.wake, hclaims]
  · rw [hfib, List.length_singleton] at hg
    simp only [look, hholds]
    split_ifs <;> omega

end Lifecycle

/-! ## 7. What the invariant says of holders, waits and dead fibers -/

namespace MasterPhase

theorem count_on (p : MasterPhase) (g : Nat) : p.on.toList.count g = (p.handling g).toList.length := by
  cases p <;> simp [on, handling, List.count_singleton, apply_ite]

end MasterPhase

namespace Handling

/-- A fiber a master handles is running or waiting. -/
theorem Fits.state {x : Handling} {c : FiberCell} {w : Nat} (h : x.Fits c w) :
    c.state = .running ∨ c.state = .waiting := by
  cases x with
  | running => exact .inl h.1
  | suspending st =>
    cases st with
    | publish => exact .inl h.1
    | mark => exact .inl h.1
    | pop => exact .inr h.1
  | switched b =>
    cases b with
    | false => exact .inl h.1
    | true => exact .inr h.1

end Handling

namespace Look

/-- A fiber in order is held ready by at most one place, and by none while a master handles
it. -/
theorem Ok.held_add_length_le {k : Look} (h : k.Ok) : k.held + k.handling.length ≤ 1 := by
  unfold Ok at h
  split at h
  · rename_i hn
    obtain ⟨-, hs⟩ := h
    rw [hn, List.length_nil]
    cases hc : k.cell.state <;> simp only [hc] at hs <;> omega
  · rename_i x hx
    rw [hx, h.1]
    rfl
  · exact h.elim

/-- A ready fiber in order is held ready exactly once. -/
theorem Ok.held_of_ready {k : Look} (h : k.Ok) (hs : k.cell.state = .ready) : k.held = 1 := by
  unfold Ok at h
  split at h
  · obtain ⟨-, hr⟩ := h
    rw [hs] at hr
    exact hr.1
  · rcases h.2.state with h' | h' <;> simp [hs] at h'
  · exact h.elim

/-- A waiting fiber in order that no master handles is held nowhere, and has one wake on its
way. -/
theorem Ok.of_waiting {k : Look} (h : k.Ok) (hs : k.cell.state = .waiting) (hn : k.handling = []) :
    k.held = 0 ∧ k.wake = 1 := by
  obtain ⟨-, hr⟩ := (ok_of_nil hn).mp h
  rw [hs] at hr
  exact hr

/-- A dead fiber in order has nothing left of its body. -/
theorem Ok.program_of_dead {k : Look} (h : k.Ok) (hs : k.cell.state = .dead) : k.cell.program = [] := by
  unfold Ok at h
  split at h
  · obtain ⟨-, hr⟩ := h
    rw [hs] at hr
    exact hr.2.2
  · rcases h.2.state with h' | h' <;> simp [hs] at h'
  · exact h.elim

end Look

namespace Lifecycle

variable {l : Lifecycle}

/-- A fiber is handled once for each master that handles it. -/
theorem count_handled (l : Lifecycle) (g : Nat) : l.handled.count g = (l.handlings g).length := by
  simp only [handled, handlings, List.filterMap_eq_flatMap_toList, List.count_flatMap, List.length_flatMap,
    Function.comp_def, MasterPhase.count_on]

/-- **A fiber has at most one holder**: a slot of the run queue, a hand, or a master handling
it. -/
theorem Inv.holders_le (hi : l.Inv) (g : Nat) : l.holders.count g ≤ 1 := by
  rw [holders, List.count_append, count_handled]
  by_cases hg : g < l.fibers.length
  · exact (hi.ok g hg).held_add_length_le
  · obtain ⟨h0, hn, -⟩ := hi.absent g (by omega)
    simp only [look] at h0 hn
    simp [h0, hn]

/-- Once every fiber is dead, no increment is left to make. -/
theorem Inv.pending_eq_zero (hi : l.Inv) (hd : ∀ g, g < l.fibers.length → (l.fiber g).state = .dead) :
    l.pending = 0 := by
  refine List.sum_eq_zero (fun n hn => ?_)
  obtain ⟨c, hc, rfl⟩ := List.mem_map.mp hn
  obtain ⟨g, hg, rfl⟩ := List.getElem_of_mem hc
  have hf : l.fiber g = l.fibers[g] := by simp [fiber, hg]
  have hp : (l.fiber g).program = [] := (hi.ok g hg).program_of_dead (hd g hg)
  rw [← hf, hp]
  rfl

/-! ## 8. No body runs twice, and no increment is lost -/

/-- What holds of a group at every moment of a run from its start with root body `root`. -/
structure Sound (root : List FiberOp) (l : Lifecycle) : Prop where
  /-- No step aborts: the fatal checks of making a fiber ready and of running one never fail. -/
  step_ok : ∀ a, ∃ o, l.step a = .ok o
  /-- Each step moves each fiber's state along one edge of the lifecycle, or leaves it. -/
  moves : ∀ a l', l.step a = .ok (some l') → ∀ g, g < l.fibers.length →
    (l.fiber g).state.Moves (l'.fiber g).state
  /-- A fiber has at most one holder: a slot of the run queue, the entity a master is about to
  run or a switch handed over, a fiber about to be queued, or a master handling it. -/
  one_holder : ∀ g, l.holders.count g ≤ 1
  /-- A master about to run a fiber finds it ready, and its scheduler lock free. -/
  run_ready : ∀ i e, i < l.masters.length → (l.master i).phase = .run e →
    (l.fiber e.id).state = .ready ∧ (l.fiber e.id).locked = false
  /-- A ready fiber is held ready exactly once: it runs once before it can be ready again. -/
  ready_held : ∀ g, g < l.fibers.length → (l.fiber g).state = .ready → l.readyHolds.count g = 1
  /-- A waiting fiber that no master handles is held nowhere, and exactly one wake is on its
  way: its block queued, or claimed by one waker. -/
  waiting_woken : ∀ g, g < l.fibers.length → (l.fiber g).state = .waiting → l.handlings g = [] →
    l.readyHolds.count g = 0 ∧ (l.look g).wake = 1
  /-- A waker that claimed a block while the fiber was still suspending finds the fiber waiting
  once its scheduler lock is free. -/
  claimed_waiting : ∀ g, 0 < l.claims.count g → (l.fiber g).locked = false → (l.fiber g).state = .waiting
  /-- The increments made and those left add up to the increments of the root's body. -/
  work : l.counter + l.pending = FiberOp.incrementsOf root
  /-- Once every fiber is dead, the counter holds exactly the increments of the root's body. -/
  done : (∀ g, g < l.fibers.length → (l.fiber g).state = .dead) → l.counter = FiberOp.incrementsOf root

/-- A group in order whose increments add up to those of `root` is sound. -/
theorem Inv.sound (hi : l.Inv) {root : List FiberOp} (hw : l.counter + l.pending = FiberOp.incrementsOf root) :
    l.Sound root where
  step_ok := hi.step_ok
  moves _ _ h := (hi.advance h).moves
  one_holder := hi.holders_le
  run_ready i e hm hp := by
    obtain ⟨-, -, -, hready, hunl, -⟩ := hi.held (held_of_run hm hp)
    exact ⟨hready, hunl⟩
  ready_held g hg hs := (hi.ok g hg).held_of_ready hs
  waiting_woken g hg hs hn := (hi.ok g hg).of_waiting hs hn
  claimed_waiting g hc hu := (hi.claimed hc hu).2.2.2.1
  work := hw
  done hd := by
    rw [← hw, hi.pending_eq_zero hd, Nat.add_zero]

/-- **No body runs twice, and no increment is lost.** From a group just started, under either
scheduling algorithm and whatever the interleaving of masters and wakers, every run goes
through, and at every moment: no step aborts, each fiber's state moves only along the
lifecycle, a fiber has at most one holder, a master runs only a ready fiber whose lock is free,
a waiting fiber has exactly one wake on its way, and the increments made and left add up to
those of the root's body; so once every fiber is dead, the counter holds exactly these.
Whether every fiber dies is another matter: see `dispatch_into_full_queue_stalls`. -/
theorem fibers_run_exactly_once {c : Config} {workers wakers : Nat} {root : List FiberOp} {l₀ : Lifecycle}
    (hstart : Lifecycle.start c workers wakers root = .ok l₀) (schedule : List Turn) :
    ∃ l, l₀.run schedule = .ok l ∧ l.Sound root := by
  have hi₀ := Inv.start hstart
  obtain ⟨-, -, -, -, hfib, hcnt⟩ := start_ok hstart
  obtain ⟨l, hrun, hi⟩ := hi₀.run schedule
  refine ⟨l, hrun, hi.sound ?_⟩
  rw [(hi₀.progress_run hrun).work, hcnt]
  simp [pending, hfib]

/-- The root fiber spawns one that adds one, and adds one itself. -/
theorem fibers_run_exactly_once_spawn :
    ∃ l₀, Lifecycle.start {} 1 1 [.spawn false false [.work], .work] = .ok l₀ ∧
      ∃ l, l₀.run [.master 0, .master 0, .master 0, .master 0, .master 0, .master 0,
        .master 0, .master 0, .master 0, .master 0] = .ok l ∧
        l.Sound [.spawn false false [.work], .work] := by
  obtain ⟨l₀, h₀⟩ : ∃ l₀, Lifecycle.start {} 1 1 [.spawn false false [.work], .work] = .ok l₀ := ⟨_, rfl⟩
  exact ⟨l₀, h₀, fibers_run_exactly_once h₀ _⟩

/-- On one worker, both fibers of that body die and the counter holds 2. -/
example : (match Lifecycle.start {} 1 1 [.spawn false false [.work], .work] with
    | .ok l => (l.run (List.replicate 10 (.master 0))).toOption.map (fun l => (l.counter, l.fibers.map (·.state)))
    | .error _ => none) = some (2, [.dead, .dead]) := by
  rfl

/-- A group none of whose masters and wakers can take a step stays as it is. -/
theorem step_eq_none_of_stalled (h0 : l.step (.master 0) = .ok none) (hm : l.masters.length = 1)
    (hw : l.wakers.length = 0) (a : Turn) : l.step a = .ok none := by
  cases a with
  | master i =>
    cases i with
    | zero => exact h0
    | succ i => simp [Lifecycle.step, masterStep, hm]
  | waker r f => simp [Lifecycle.step, wakerStep, hw]

/-- Bodies need not run to completion. With a run queue of one slot and one worker, the root
spawns a fiber, which fills the slot, then starts one by dispatch: its master has to queue the
root again, finds no room, and no master or waker can ever take a step, with the root not
dead. -/
theorem dispatch_into_full_queue_stalls :
    ∃ l₀ l, Lifecycle.start { runQueueCapacity := 1 } 1 0
        [.spawn false false [.work], .dispatch false false [.work], .work] = .ok l₀ ∧
      l₀.run (List.replicate 5 (.master 0)) = .ok l ∧
      (∀ a, l.step a = .ok none) ∧ (l.fiber 0).state ≠ .dead := by
  refine ⟨_, _, rfl, rfl, step_eq_none_of_stalled rfl rfl rfl, by decide⟩

end Lifecycle

end Fibers
