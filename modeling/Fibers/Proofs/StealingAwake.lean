import Mathlib
import Fibers.Proofs.ParkingStealing
/-!
# A work-stealing group never falls asleep with shared work queued

Work in the reactor queue, the global queue or a deque is *shared*: any worker of the group
can take it. A worker that finds nothing takes the sleep lock, counts itself a sleeper,
looks for work once more, reads the stop flag and waits on the condition variable, which
releases the lock. A producer that made an entity ready notifies one sleeper, unless there
are none or some worker is stealing; a notification takes the lock and wakes the first
waiter.

A notification skipped for a thief may leave an entity queued while a peer sleeps (the
thief may take another one first), so not every entity is taken as soon as it could be.
What holds, in every state any schedule reaches before the stop, is that the group as a
whole never falls asleep with shared work queued: once no producer is inside a call, some
worker can take its next step (`StealWorld.some_worker_steps`).

The invariant is `StealWorld.Awake`: while shared work is queued, some worker is not
*dormant* (between finding no work under the lock and being notified), or some producer
has still to notify. A worker turns dormant only from a look that found no work; a
producer that queued work notifies next; and a notification ends skipped because nobody
sleeps or a thief is about (who is not dormant), or by waking the first waiter, who then is
not dormant. The sleeper count, the thief count and the holder of the lock tie the answers
of those accesses to the workers' stages.
-/

namespace Fibers

/-! ## 1. Work any worker can take -/

namespace Stealing

variable {s : Stealing} {t i : Nat}

/-- Work any worker can take: queued in the reactor queue, the global queue or a deque. A
pinned queue's work is for one worker only. -/
def shared (s : Stealing) : Bool :=
  !s.reactor.isEmpty || !s.global.isEmpty || s.deques.any (!·.isEmpty)

/-- A worker looking for work sees the shared work. -/
theorem hasWork_of_shared (h : s.shared = true) (i : Nat) : s.hasWork i = true := by
  simp only [shared, Bool.or_eq_true] at h
  simp only [hasWork, Bool.or_eq_true]
  tauto

theorem reactor_of_unshared (h : s.shared = false) : s.reactor.items = [] := by
  simp only [shared, Bool.or_eq_false_iff] at h
  simpa [Injector.isEmpty] using h.1.1

theorem global_of_unshared (h : s.shared = false) : s.global.items = [] := by
  simp only [shared, Bool.or_eq_false_iff] at h
  simpa [Injector.isEmpty] using h.1.2

theorem deque_of_unshared (h : s.shared = false) (i : Nat) : s.deque i = [] := by
  simp only [shared, Bool.or_eq_false_iff, List.any_eq_false] at h
  rw [deque, List.getD_eq_getElem?_getD]
  cases hd : s.deques[i]? with
  | none => rfl
  | some d => simpa using h.2 d (List.mem_of_getElem? hd)

theorem shared_tick (t : Nat) : (s.tick t).1.shared = s.shared := by
  unfold tick
  split <;> rfl

theorem shared_popPinned (i : Nat) : (s.popPinned i).1.shared = s.shared := by
  unfold popPinned
  split <;> rfl

/-! Each take from queues with no shared work finds none of it, and leaves them as they
were. -/

theorem popDeque_of_unshared (h : s.shared = false) (i : Nat) : s.popDeque i = (s, none) := by
  simp [popDeque, deque_of_unshared h i]

theorem popLocal_of_unshared (h : s.shared = false) (t : Nat) : s.popLocal t = (s, none) := by
  unfold popLocal
  split
  · exact popDeque_of_unshared h _
  · rfl

theorem acquireReactor_of_unshared (h : s.shared = false) : s.acquireReactor = (s, none) := by
  simp [acquireReactor, Injector.steal, reactor_of_unshared h]

theorem stealGlobal_of_unshared (h : s.shared = false) (t : Nat) :
    s.stealGlobal t = (s, none) := by
  have hg := global_of_unshared h
  unfold stealGlobal
  split
  · simp [Injector.stealBatch, hg, modify_self]
  · simp [Injector.steal, hg]

theorem stealFromPeers_of_unshared (h : s.shared = false) (i : Nat) :
    s.stealFromPeers i = (s, none) := by
  have hn : ((List.range (s.size - 1)).map (fun off => (i + off + 1) % s.size)).find?
      (fun v => !(s.deque v).isEmpty) = none :=
    List.find?_eq_none.2 (by simp [deque_of_unshared h])
  simp only [stealFromPeers, hn]

/-- An acquisition from queues with no shared work may take pinned work, and leaves no
shared work. -/
theorem shared_acquire (h : s.shared = false) (t i : Nat) : (s.acquire t i).1.shared = false := by
  have h₁ : (s.tick t).1.shared = false := by rw [shared_tick]; exact h
  unfold acquire
  rcases ht : s.tick t with ⟨s₁, due⟩
  rw [ht] at h₁
  have h₂ : (s₁.popPinned i).1.shared = false := by rw [shared_popPinned]; exact h₁
  rcases hp : s₁.popPinned i with ⟨s₂, o⟩
  rw [hp] at h₂
  cases due <;> cases o <;>
    simp [acquireReactor_of_unshared h₁, hp, popLocal_of_unshared h₂, stealGlobal_of_unshared h₂, h₂]

end Stealing

namespace StealHub

variable {h h' : StealHub} {acc : StealAccess} {a : Answer}

/-- Shared work appears only where a producer makes an entity ready or queues it globally. -/
theorem access_shared (hs : h.access acc = some (h', a)) (he : h.queues.shared = false)
    (hne : h'.queues.shared = true) :
    (∃ t e y, acc = .ready t e y) ∨ ∃ e, acc = .pushGlobal e := by
  cases acc <;> simp [access] at hs
  case ready t e y => exact .inl ⟨t, e, y, rfl⟩
  case pushGlobal e => exact .inr ⟨e, rfl⟩
  case acquire t w =>
    obtain ⟨rfl, -⟩ := hs
    simp [Stealing.shared_acquire he] at hne
  case acquireReactor =>
    obtain ⟨rfl, -⟩ := hs
    simp [Stealing.acquireReactor_of_unshared he, he] at hne
  case stealPeers w =>
    obtain ⟨rfl, -⟩ := hs
    simp [Stealing.stealFromPeers_of_unshared he, he] at hne
  case stealGlobal t =>
    obtain ⟨rfl, -⟩ := hs
    simp [Stealing.stealGlobal_of_unshared he, he] at hne
  -- every other access leaves the queues' shared work as it was
  all_goals
    have key : h'.queues.shared = h.queues.shared := by
      first
        | (obtain ⟨rfl, -⟩ := hs; rfl)
        | (obtain ⟨-, rfl, -⟩ := hs; rfl)
        | (split_ifs at hs <;> simp at hs <;> obtain ⟨rfl, -⟩ := hs <;> rfl)
    rw [key, he] at hne
    cases hne

theorem access_sleepers (hs : h.access acc = some (h', a)) (hj : acc ≠ .joinSleepers)
    (hl : acc ≠ .leaveSleepers) : h'.sleepers = h.sleepers := by
  cases acc <;> simp at hj hl <;> simp [access] at hs
  all_goals first
    | (obtain ⟨rfl, -⟩ := hs; rfl)
    | (obtain ⟨-, rfl, -⟩ := hs; rfl)
    | (split_ifs at hs <;> simp at hs <;> obtain ⟨rfl, -⟩ := hs <;> rfl)

/-- Every access but a wait keeps some of the waiters, in order. -/
theorem access_waiters_sublist (hs : h.access acc = some (h', a)) (hw : ∀ u, acc ≠ .wait u) :
    h'.waiters.Sublist h.waiters := by
  cases acc
  case wait u => exact absurd rfl (hw u)
  case sleep u timed =>
    simp only [access] at hs
    -- a timed wait ends by leaving the list; one already notified leaves it alone
    split_ifs at hs <;> simp only [Option.some.injEq, Prod.mk.injEq] at hs <;> rw [← hs.1]
    exact List.erase_sublist
  case notify all =>
    simp only [access, Option.some.injEq, Prod.mk.injEq] at hs
    rw [← hs.1]
    split
    · exact List.nil_sublist _
    · exact List.drop_sublist _ _
  all_goals simp [access] at hs
  all_goals first
    | (obtain ⟨rfl, -⟩ := hs; exact List.Sublist.refl _)
    | (obtain ⟨-, rfl, -⟩ := hs; exact List.Sublist.refl _)
    | (split_ifs at hs <;> simp at hs <;> obtain ⟨rfl, -⟩ := hs <;> exact List.Sublist.refl _)

theorem access_wait_waiters {u : Nat} (hs : h.access (.wait u) = some (h', a)) :
    h'.waiters = h.waiters ++ [u] := by
  simp only [access, Option.some.injEq, Prod.mk.injEq] at hs
  rw [← hs.1]

/-- A waiter whose wait ends is a waiter no more. -/
theorem access_sleep_not_mem {u : Nat} {b : Bool} (hs : h.access (.sleep u b) = some (h', a))
    (hn : h.waiters.Nodup) : u ∉ h'.waiters := by
  simp only [access] at hs
  split_ifs at hs with hu hb <;> simp only [Option.some.injEq, Prod.mk.injEq] at hs
  · rw [← hs.1]
    exact hn.not_mem_erase
  · rw [← hs.1]
    exact hu

/-- A notification wakes every waiter, or the first. -/
theorem access_notify_waiters {all : Bool} (hs : h.access (.notify all) = some (h', a)) :
    h'.waiters = if all then [] else h.waiters.drop 1 := by
  simp only [access, Option.some.injEq, Prod.mk.injEq] at hs
  rw [← hs.1]

end StealHub

/-! ## 2. Stages on the way to sleep, and notifications on their way -/

namespace StealStage

/-- Counted among the sleepers: from joining them under the lock to leaving them. -/
def sleeping : StealStage → Bool
  | .look | .backOff | .stopCheck | .quit | .wait | .sleep | .relock | .unjoin => true
  | _ => false

/-- Between finding no work under the lock and waking up: about to read the stop flag,
about to wait, or waiting. -/
def resting : StealStage → Bool
  | .stopCheck | .wait | .sleep => true
  | _ => false

variable {g : StealStage} {t w : Nat} {v : Bool} {acc : StealAccess} {a : Answer}

theorem sleeping_of_resting (h : g.resting = true) : g.sleeping = true := by
  cases g <;> simp_all [resting, sleeping]

theorem resting_of_thieving (h : g.thieving = true) : g.resting = false := by
  cases g <;> simp_all [thieving, resting]

/-- A resting worker that is not yet waiting holds the sleep lock. -/
theorem holds_of_resting (h : g.resting = true) (hs : g ≠ .sleep) : g.holds = true := by
  cases g <;> simp_all [resting, holds]

/-- A worker comes to rest only from a look that found no work, or while resting. -/
theorem resting_after (h : (g.after a).resting = true) :
    (g = .look ∧ a.flag = false) ∨ g.resting = true := by
  cases hg : g.after a <;> simp [hg, resting] at h
  · exact .inl (after_eq_stopCheck hg)
  · exact .inr (by rw [(after_eq_wait hg).1]; rfl)
  · exact .inr (by rw [after_eq_sleep hg]; rfl)

theorem access_eq_joinSleepers (h : g.access t w v = some .joinSleepers) : g = .join := by
  cases g <;> simp [access] at h ⊢
  cases ‹Signal› <;> simp [Signal.access] at h

/-- A worker leaves the sleepers after its look found work, after reading the stop flag
set, or after its wait. -/
theorem access_eq_leaveSleepers (h : g.access t w v = some .leaveSleepers) :
    g = .backOff ∨ g = .quit ∨ g = .unjoin := by
  cases g <;> simp [access] at h ⊢
  cases ‹Signal› <;> simp [Signal.access] at h

/-- Any other step keeps a worker counted among the sleepers or not. -/
theorem sleeping_after (hacc : g.access t w v = some acc) (hj : acc ≠ .joinSleepers)
    (hl : acc ≠ .leaveSleepers) : (g.after a).sleeping = g.sleeping := by
  cases g <;> simp [access] at hacc <;> subst hacc <;> simp at hj hl
  all_goals simp only [after]
  all_goals (repeat' split) <;> rfl

end StealStage

namespace StealFeed

/-- The call has queued work and has a notification still to make. -/
def rousing : StealFeed → Bool
  | .notify _ _ _ | .batch _ (_ + 1) => true
  | _ => false

/-- A batch still pushing counts every entity it has to push, so that its notifications
follow the pushes. -/
def Owed : StealFeed → Prop
  | .batch es count => es.length ≤ count
  | .notify _ _ next => next.Owed
  | _ => True

variable {f : StealFeed} {size p t : Nat} {a : Answer}

theorem notifyEach_owed (n : Nat) : (notifyEach n).Owed := by
  induction n with
  | zero => trivial
  | succ n ih => exact ih

theorem begin_owed (op : StealOp) : (begin op).Owed := by
  cases op with
  | ready e y => trivial
  | batch es => exact Nat.le_refl _

theorem Owed.after (hc : f.Owed) (size : Nat) (a : Answer) : (f.after size a).Owed := by
  cases f with
  | idle => trivial
  | ready e y => simp only [StealFeed.after, readyNotify]; split <;> trivial
  | batch es count =>
    cases es with
    | nil =>
      simp only [StealFeed.after]
      split
      · trivial
      · exact notifyEach_owed count
    | cons e rest =>
      have hr : rest.length ≤ count := Nat.le_of_succ_le hc
      simp only [StealFeed.after]
      split
      · unfold readyNotify; split <;> exact hr
      · exact hr
  | notify all k next =>
    simp only [StealFeed.after]
    split
    · exact hc
    · exact hc

/-- Queueing work leaves the call with a notification to make. -/
theorem rousing_after_push (hc : f.Owed)
    (hacc : (∃ t' e y, f.access p t = .ready t' e y) ∨ ∃ e, f.access p t = .pushGlobal e) :
    (f.after size a).rousing = true := by
  cases f with
  | ready e y => simp only [StealFeed.after, readyNotify]; split <;> rfl
  | batch es count =>
    cases es with
    | nil => simp [access] at hacc
    | cons e rest =>
      -- the batch counted `e`, so a notification follows
      obtain ⟨n, rfl⟩ : ∃ n, count = n + 1 := ⟨count - 1, by simp [Owed] at hc; omega⟩
      simp only [StealFeed.after]
      split
      · unfold readyNotify; split <;> rfl
      · rfl
  | notify all k next => cases k <;> simp [access, Signal.access] at hacc
  | idle => simp [access] at hacc

/-- A rousing call stays rousing, unless it is a notification that ends: a look that skips
it, or the send. -/
theorem rousing_after (hf : f.rousing = true) (size : Nat) (a : Answer) :
    (f.after size a).rousing = true ∨ (∃ all next, f = .notify all .look next ∧ a.flag = true) ∨
      ∃ all next, f = .notify all .send next := by
  cases f with
  | batch es count =>
    obtain ⟨n, rfl⟩ : ∃ n, count = n + 1 := by
      cases count with
      | zero => simp [rousing] at hf
      | succ n => exact ⟨n, rfl⟩
    left
    cases es with
    | nil =>
      simp only [StealFeed.after]
      split
      · rfl
      · rfl
    | cons e rest =>
      simp only [StealFeed.after]
      split
      · unfold readyNotify; split <;> rfl
      · rfl
  | notify all k next =>
    cases k with
    | look =>
      by_cases ha : a.flag = true
      · exact .inr (.inl ⟨all, next, rfl, ha⟩)
      · left
        simp [StealFeed.after, Signal.after, ha, rousing]
    | grab => exact .inl rfl
    | send => exact .inr (.inr ⟨all, next, rfl⟩)
  | _ => simp [rousing] at hf

theorem rousing_idle : StealFeed.idle.rousing = false := rfl

end StealFeed

/-! ## 3. One step of the world -/

namespace StealWorld

variable {s s' : StealWorld} {p : Party} {acc : StealAccess} {a : Answer}

theorem step_access (hs : s.step p = some (s', acc, a)) : s.hub.access acc = some (s'.hub, a) := by
  cases p with
  | worker w =>
    obtain ⟨x, hub, -, -, hh, rfl⟩ := step_worker hs
    exact hh
  | producer q =>
    obtain ⟨x, x', hub, -, hh, rfl, -⟩ := step_producer hs
    exact hh
  | stopper =>
    obtain ⟨hub, -, hh, rfl⟩ := step_stopper hs
    exact hh

/-- Another party's step leaves a worker where it was. -/
theorem worker_step_ne {u : Nat} (hs : s.step p = some (s', acc, a)) (hp : p ≠ .worker u) :
    s'.workers[u]? = s.workers[u]? := by
  cases p with
  | worker w =>
    obtain ⟨x, hub, -, -, -, rfl⟩ := step_worker hs
    exact List.getElem?_set_ne (fun h => hp (by rw [h]))
  | producer q =>
    obtain ⟨x, x', hub, -, -, rfl, -⟩ := step_producer hs
    rfl
  | stopper =>
    obtain ⟨hub, -, -, rfl⟩ := step_stopper hs
    rfl

/-- Another party's step leaves a producer where it was. -/
theorem producer_step_ne {q : Nat} (hs : s.step p = some (s', acc, a)) (hp : p ≠ .producer q) :
    s'.producers[q]? = s.producers[q]? := by
  cases p with
  | worker w =>
    obtain ⟨x, hub, -, -, -, rfl⟩ := step_worker hs
    rfl
  | producer r =>
    obtain ⟨x, x', hub, -, -, rfl, -⟩ := step_producer hs
    exact List.getElem?_set_ne (fun h => hp (by rw [h]))
  | stopper =>
    obtain ⟨hub, -, -, rfl⟩ := step_stopper hs
    rfl

theorem workers_length_step (hs : s.step p = some (s', acc, a)) :
    s'.workers.length = s.workers.length := by
  cases p with
  | worker w =>
    obtain ⟨x, hub, -, -, -, rfl⟩ := step_worker hs
    exact List.length_set
  | producer q =>
    obtain ⟨x, x', hub, -, -, rfl, -⟩ := step_producer hs
    rfl
  | stopper =>
    obtain ⟨hub, -, -, rfl⟩ := step_stopper hs
    rfl

/-- Only worker `u` begins to wait as itself, from its waiting stage. -/
theorem wait_step {u : Nat} (hs : s.step p = some (s', acc, a)) (hacc : acc = .wait u) :
    ∃ x, p = .worker u ∧ s.workers[u]? = some x ∧ x.stage = .wait ∧
      s'.workers[u]? = some { x with stage := .sleep } := by
  subst hacc
  cases p with
  | worker w =>
    obtain ⟨x, hub, hx, hacc, -, rfl⟩ := step_worker hs
    obtain ⟨hg, rfl⟩ := StealStage.access_eq_wait hacc
    refine ⟨x, rfl, hx, hg, ?_⟩
    rw [List.getElem?_set_self (List.getElem?_eq_some_iff.1 hx).1, hg]
    rfl
  | producer q =>
    obtain ⟨x, x', hub, -, -, -, hcase⟩ := step_producer hs
    rcases hcase with ⟨-, h, -⟩ | ⟨h, -⟩
    · cases h
    · exact absurd h.symm ((StealFeed.access_ne _ _ _).2 u)
  | stopper =>
    obtain ⟨hub, hk, -, -⟩ := step_stopper hs
    cases hst : s.stopper <;> simp [hst, StealStop.access] at hk

/-- Queueing work is a producer's access of its current call. -/
theorem push_step (hs : s.step p = some (s', acc, a))
    (hacc : (∃ t e y, acc = .ready t e y) ∨ ∃ e, acc = .pushGlobal e) :
    ∃ q x x', p = .producer q ∧ s.producers[q]? = some x ∧ s'.producers[q]? = some x' ∧
      acc = x.feed.access q x.thread ∧ x'.feed = x.feed.after s.workers.length a := by
  cases p with
  | worker w =>
    obtain ⟨x, hub, -, hacc', -, -⟩ := step_worker hs
    exfalso
    revert hacc'
    rcases hacc with ⟨t, e, y, rfl⟩ | ⟨e, rfl⟩ <;>
      cases x.stage <;> (try cases ‹Signal›) <;> simp [StealStage.access, Signal.access]
  | producer q =>
    obtain ⟨x, x', hub, hx, -, rfl, hcase⟩ := step_producer hs
    rcases hcase with ⟨-, rfl, -⟩ | ⟨rfl, hafter⟩
    · rcases hacc with ⟨t, e, y, h⟩ | ⟨e, h⟩ <;> cases h
    · exact ⟨q, x, x', rfl, hx, List.getElem?_set_self (List.getElem?_eq_some_iff.1 hx).1, rfl,
        hafter⟩
  | stopper =>
    obtain ⟨hub, hk, -, -⟩ := step_stopper hs
    exfalso
    cases hst : s.stopper <;> simp [hst, StealStop.access] at hk <;> subst hk <;>
      rcases hacc with ⟨t, e, y, h⟩ | ⟨e, h⟩ <;> cases h

/-- The stop flag, once set, stays set. -/
theorem stopped_of_step (hi : Inv s) (hs : s.step p = some (s', acc, a))
    (h' : s'.hub.queues.stopped = false) : s.hub.queues.stopped = false := by
  have hi' := hi.step hs
  rw [hi'.stopped] at h'
  rw [hi.stopped]
  cases p with
  | stopper =>
    obtain ⟨hub, -, -, rfl⟩ := step_stopper hs
    cases hk : s.stopper <;> simp_all [StealStop.stored, StealStop.after]
  | worker w =>
    obtain ⟨x, hub, -, -, -, rfl⟩ := step_worker hs
    exact h'
  | producer q =>
    obtain ⟨x, x', hub, -, -, rfl, -⟩ := step_producer hs
    exact h'

end StealWorld

/-! ## 4. Dormant workers, and the invariant -/

namespace StealWorld

variable {s s' : StealWorld} {p : Party} {acc : StealAccess} {a : Answer} {w : Nat}

/-- Worker `w` sleeps until notified: it found no work under the lock, has no foreign group
to poll, and is about to read the stop flag, about to wait, or waits not yet notified. -/
def Dormant (s : StealWorld) (w : Nat) : Prop :=
  ∃ x, s.workers[w]? = some x ∧ x.stage.resting = true ∧ x.victims = false ∧
    (x.stage = .sleep → w ∈ s.hub.waiters)

theorem not_dormant_of_resting {x : StealWorker} (hx : s.workers[w]? = some x)
    (hr : x.stage.resting = false) : ¬ s.Dormant w := by
  rintro ⟨y, hy, hr', -⟩
  rw [hx, Option.some.injEq] at hy
  subst hy
  rw [hr] at hr'
  cases hr'

/-- A worker holding no lock and notified is not dormant. -/
theorem not_dormant_of_notified {x : StealWorker} (hx : s.workers[w]? = some x)
    (hh : x.stage.holds = false) (hw : w ∉ s.hub.waiters) : ¬ s.Dormant w := by
  rintro ⟨y, hy, hr, -, hsl⟩
  rw [hx, Option.some.injEq] at hy
  subst hy
  by_cases hst : x.stage = .sleep
  · exact hw (hsl hst)
  · rw [StealStage.holds_of_resting hr hst] at hh
    cases hh

/-- A worker turns dormant only at a look that found no work: every other step keeps its
stage, or notifies it. -/
theorem Dormant.of_step (hs : s.step p = some (s', acc, a)) (hd : s'.Dormant w) :
    s.Dormant w ∨ s'.hub.queues.shared = false := by
  obtain ⟨x', hx', hrest, hvic, hwait⟩ := hd
  by_cases hp : p = .worker w
  · subst hp
    obtain ⟨x, hub, hx, hacc, hh, rfl⟩ := step_worker hs
    rw [List.getElem?_set_self (List.getElem?_eq_some_iff.1 hx).1, Option.some.injEq] at hx'
    subst hx'
    rcases StealStage.resting_after hrest with ⟨hg, hf⟩ | hg
    · -- its look found no work, so none is shared
      right
      rw [hg] at hacc
      simp only [StealStage.access, Option.some.injEq] at hacc
      subst hacc
      simp only [StealHub.access, Option.some.injEq, Prod.mk.injEq] at hh
      obtain ⟨rfl, rfl⟩ := hh
      cases hsh : s.hub.queues.shared
      · rfl
      · rw [Stealing.hasWork_of_shared hsh] at hf
        cases hf
    · -- it was resting already; from waiting it would wake, and rest no more
      refine .inl ⟨x, hx, hg, hvic, fun hsl => ?_⟩
      simp [hsl, StealStage.after, StealStage.resting] at hrest
  · -- another party's step neither moves it nor makes it a waiter again
    refine .inl ⟨x', by rw [← worker_step_ne hs hp]; exact hx', hrest, hvic, fun hsl => ?_⟩
    rcases StealHub.access_waiters (step_access hs) (hwait hsl) with hm | hacc
    · exact hm
    · obtain ⟨y, hpw, -⟩ := wait_step hs hacc
      exact absurd hpw hp

/-- The sleeper count counts the workers between joining the sleepers and leaving them. -/
def SleeperCount (s : StealWorld) : Prop :=
  s.hub.sleepers = s.workers.countP (·.stage.sleeping)

/-- Only a worker joins or leaves the sleepers. -/
theorem worker_of_sleepers (hs : s.step p = some (s', acc, a))
    (hacc : acc = .joinSleepers ∨ acc = .leaveSleepers) : ∃ w, p = .worker w := by
  cases p with
  | worker w => exact ⟨w, rfl⟩
  | producer q =>
    obtain ⟨x, x', hub, -, -, -, hcase⟩ := step_producer hs
    exfalso
    rcases hcase with ⟨-, rfl, -⟩ | ⟨rfl, -⟩
    · rcases hacc with h | h <;> cases h
    · revert hacc
      cases x.feed <;> (try cases ‹List _›) <;> (try cases ‹Signal›) <;>
        simp [StealFeed.access, Signal.access]
      -- a batch's push is a ready or a global push
      split <;> simp
  | stopper =>
    obtain ⟨hub, hk, -, -⟩ := step_stopper hs
    exfalso
    cases hst : s.stopper <;> simp [hst, StealStop.access] at hk <;> subst hk <;>
      rcases hacc with h | h <;> cases h

theorem SleeperCount.step (hc : s.SleeperCount) (hs : s.step p = some (s', acc, a)) :
    s'.SleeperCount := by
  by_cases hsl : acc = .joinSleepers ∨ acc = .leaveSleepers
  · obtain ⟨w, rfl⟩ := worker_of_sleepers hs hsl
    obtain ⟨x, hub, hx, hacc, hh, rfl⟩ := step_worker hs
    -- the count changes by the worker's own stage only
    have hcnt := countP_set_add (p := (·.stage.sleeping)) hx { x with stage := x.stage.after a }
    dsimp only at hcnt
    unfold SleeperCount at hc ⊢
    rcases hsl with rfl | rfl
    · -- joining: one more
      have hg := StealStage.access_eq_joinSleepers hacc
      have h1 : x.stage.sleeping = false := by rw [hg]; rfl
      have h2 : (x.stage.after a).sleeping = true := by rw [hg]; rfl
      rw [h1, h2] at hcnt
      simp only [StealHub.access, Option.some.injEq, Prod.mk.injEq] at hh
      obtain ⟨rfl, -⟩ := hh
      simp at hcnt
      dsimp only
      omega
    · -- leaving: one fewer
      have hg := StealStage.access_eq_leaveSleepers hacc
      have h1 : x.stage.sleeping = true := by rcases hg with hg | hg | hg <;> rw [hg] <;> rfl
      have h2 : (x.stage.after a).sleeping = false := by
        rcases hg with hg | hg | hg <;> rw [hg] <;> rfl
      rw [h1, h2] at hcnt
      simp only [StealHub.access, Option.some.injEq, Prod.mk.injEq] at hh
      obtain ⟨rfl, -⟩ := hh
      simp at hcnt
      dsimp only
      omega
  · have hj : acc ≠ .joinSleepers := fun h => hsl (.inl h)
    have hl : acc ≠ .leaveSleepers := fun h => hsl (.inr h)
    have hsame := StealHub.access_sleepers (step_access hs) hj hl
    unfold SleeperCount at hc ⊢
    rw [hsame, hc]
    cases p with
    | worker w =>
      obtain ⟨x, hub, hx, hacc, -, rfl⟩ := step_worker hs
      have hcnt := countP_set_add (p := (·.stage.sleeping)) hx { x with stage := x.stage.after a }
      dsimp only at hcnt ⊢
      rw [StealStage.sleeping_after hacc hj hl] at hcnt
      omega
    | producer q =>
      obtain ⟨x, x', hub, -, -, rfl, -⟩ := step_producer hs
      rfl
    | stopper =>
      obtain ⟨hub, -, -, rfl⟩ := step_stopper hs
      rfl

/-- The waiters are distinct workers, each waiting. -/
structure Waiting (s : StealWorld) : Prop where
  nodup : s.hub.waiters.Nodup
  asleep : ∀ u ∈ s.hub.waiters, ∃ x, s.workers[u]? = some x ∧ x.stage = .sleep

theorem Waiting.step (hw : s.Waiting) (hs : s.step p = some (s', acc, a)) : s'.Waiting := by
  have hh := step_access hs
  constructor
  · by_cases hwt : ∃ u, acc = .wait u
    · -- the new waiter was about to wait, so it was no waiter yet
      obtain ⟨u, rfl⟩ := hwt
      obtain ⟨x, -, hx, hg, -⟩ := wait_step hs rfl
      rw [StealHub.access_wait_waiters hh, List.nodup_append]
      refine ⟨hw.nodup, List.nodup_singleton u, ?_⟩
      intro v hv u' hu' hvu
      simp only [List.mem_singleton] at hu'
      subst hu' hvu
      obtain ⟨y, hy, hys⟩ := hw.asleep v hv
      rw [hx, Option.some.injEq] at hy
      subst hy
      rw [hg] at hys
      cases hys
    · exact hw.nodup.sublist
        (StealHub.access_waiters_sublist hh (fun u h => hwt ⟨u, h⟩))
  · intro u hu
    rcases StealHub.access_waiters hh hu with hm | hacc
    · -- a waiter stays asleep until its own wait ends, which makes it a waiter no more
      obtain ⟨x, hx, hxs⟩ := hw.asleep u hm
      by_cases hp : p = .worker u
      · subst hp
        obtain ⟨y, hub, hy, hacc, hh', rfl⟩ := step_worker hs
        rw [hx, Option.some.injEq] at hy
        subst hy
        rw [hxs] at hacc
        simp only [StealStage.access, Option.some.injEq] at hacc
        subst hacc
        exact absurd hu (StealHub.access_sleep_not_mem hh' hw.nodup)
      · exact ⟨x, by rw [worker_step_ne hs hp]; exact hx, hxs⟩
    · obtain ⟨x, -, -, -, hx'⟩ := wait_step hs hacc
      exact ⟨_, hx', rfl⟩

/-- While shared work is queued and the group runs, some worker is not dormant, or some
producer has still to notify. -/
def Roused (s : StealWorld) : Prop :=
  0 < s.workers.length → s.hub.queues.stopped = false → s.hub.queues.shared = true →
    (∃ w < s.workers.length, ¬ s.Dormant w) ∨
      ∃ (q : Nat) (x : StealProducer), s.producers[q]? = some x ∧ x.feed.rousing = true

/-- A step that queues shared work where there was none is a producer's, whose call has a
notification to make next. -/
theorem rousing_of_push (howed : ∀ (q : Nat) (x : StealProducer), s.producers[q]? = some x →
      x.feed.Owed)
    (hs : s.step p = some (s', acc, a)) (he : s.hub.queues.shared = false)
    (hne : s'.hub.queues.shared = true) :
    ∃ (q : Nat) (x : StealProducer), s'.producers[q]? = some x ∧ x.feed.rousing = true := by
  have hpush := StealHub.access_shared (step_access hs) he hne
  obtain ⟨q, x, x', rfl, hx, hx', hacc, hafter⟩ := push_step hs hpush
  refine ⟨q, x', hx', ?_⟩
  rw [hafter]
  rw [hacc] at hpush
  exact StealFeed.rousing_after_push (howed q x hx) hpush

/-- A notifying producer's step leaves it notifying, or some worker not dormant: a skipped
notification saw nobody counted a sleeper, or a thief about; a sent one woke the first
waiter, and a producer sending holds the lock, which no resting worker does then. -/
theorem roused_of_rousing (hi : s.Inv) (htc : s.ThiefCount) (hsc : s.SleeperCount)
    (hw : s.Waiting) (hn : 0 < s.workers.length) {q : Nat} {x : StealProducer}
    (hx : s.producers[q]? = some x) (hxr : x.feed.rousing = true)
    (hs : s.step p = some (s', acc, a)) :
    (∃ w < s.workers.length, ¬ s'.Dormant w) ∨
      ∃ (q : Nat) (x : StealProducer), s'.producers[q]? = some x ∧ x.feed.rousing = true := by
  by_cases hp : p = .producer q
  · subst hp
    obtain ⟨y, y', hub, hy, hh, rfl, hcase⟩ := step_producer hs
    rw [hx, Option.some.injEq] at hy
    subst hy
    rcases hcase with ⟨hidle, -⟩ | ⟨hacc, hafter⟩
    · rw [hidle, StealFeed.rousing_idle] at hxr
      cases hxr
    obtain ⟨z, hz⟩ : ∃ z, s.workers[0]? = some z := ⟨_, List.getElem?_eq_getElem hn⟩
    rcases StealFeed.rousing_after hxr s.workers.length a with
      hr | ⟨all, next, hf, ha⟩ | ⟨all, next, hf⟩
    · exact .inr ⟨q, y', List.getElem?_set_self (List.getElem?_eq_some_iff.1 hx).1,
        by rw [hafter]; exact hr⟩
    · -- the look skipped the notification
      left
      rw [hf] at hacc
      simp only [StealFeed.access, Signal.access] at hacc
      subst hacc
      simp only [StealHub.access, Option.some.injEq, Prod.mk.injEq] at hh
      obtain ⟨rfl, rfl⟩ := hh
      simp only [Bool.or_eq_true, beq_iff_eq, bne_iff_ne, ne_eq] at ha
      rcases ha with h0 | ht
      · -- nobody counted a sleeper, so nobody rests
        have hc : s.hub.sleepers = s.workers.countP (·.stage.sleeping) := hsc
        rw [h0] at hc
        have hzs : z.stage.sleeping = false := by
          simpa using List.countP_eq_zero.1 hc.symm z (List.mem_of_getElem? hz)
        refine ⟨0, hn, not_dormant_of_resting hz ?_⟩
        cases hr : z.stage.resting
        · rfl
        · rw [StealStage.sleeping_of_resting hr] at hzs
          cases hzs
      · -- a thief is about, and it is not resting
        obtain ⟨t, ht, htt⟩ := List.countP_pos_iff.1 (htc.count ▸ Nat.pos_of_ne_zero ht)
        obtain ⟨u, hu⟩ := List.mem_iff_getElem?.1 ht
        exact ⟨u, (List.getElem?_eq_some_iff.1 hu).1,
          not_dormant_of_resting hu (StealStage.resting_of_thieving (by simpa using htt))⟩
    · -- the send woke every waiter or the first; the sender held the lock, no worker did
      left
      have hheld : s.hub.holder = some (.producer q) :=
        (hi.lock _).2 (holds_producer_iff.2 ⟨x, hx, by rw [hf]; rfl⟩)
      have hfree : ∀ (v : Nat) (z : StealWorker), s.workers[v]? = some z → z.stage.holds = false :=
        fun v z hz => by
          have := hi.lock.eq_false (r := .worker v) (by rw [hheld]; simp)
          simpa [holds, hz] using this
      rw [hf] at hacc
      simp only [StealFeed.access, Signal.access] at hacc
      subst hacc
      have hwt := StealHub.access_notify_waiters hh
      cases hws : s.hub.waiters with
      | nil =>
        refine ⟨0, hn, not_dormant_of_notified hz (hfree 0 z hz) ?_⟩
        show 0 ∉ hub.waiters
        rw [hwt, hws]
        split <;> simp
      | cons u rest =>
        obtain ⟨zu, hzu, -⟩ := hw.asleep u (by simp [hws])
        refine ⟨u, (List.getElem?_eq_some_iff.1 hzu).1,
          not_dormant_of_notified hzu (hfree u zu hzu) ?_⟩
        show u ∉ hub.waiters
        have hnd := hw.nodup
        rw [hws] at hnd
        rw [hwt, hws]
        split
        · simp
        · simpa using (List.nodup_cons.1 hnd).1
  · exact .inr ⟨q, x, by rw [producer_step_ne hs hp]; exact hx, hxr⟩

theorem Roused.step (hr : s.Roused) (hi : s.Inv) (htc : s.ThiefCount) (hsc : s.SleeperCount)
    (hw : s.Waiting)
    (howed : ∀ (q : Nat) (x : StealProducer), s.producers[q]? = some x → x.feed.Owed)
    (hs : s.step p = some (s', acc, a)) : s'.Roused := by
  intro hn' hstop' hq'
  have hlen := workers_length_step hs
  have hn : 0 < s.workers.length := hlen ▸ hn'
  rw [hlen]
  by_cases hq : s.hub.queues.shared = true
  · rcases hr hn (stopped_of_step hi hs hstop') hq with ⟨u, hu, hd⟩ | ⟨q, x, hx, hxr⟩
    · -- a worker awake before stays so while shared work is queued
      refine .inl ⟨u, hu, fun hd' => ?_⟩
      rcases Dormant.of_step hs hd' with hd'' | he
      · exact hd hd''
      · rw [hq'] at he
        cases he
    · exact roused_of_rousing hi htc hsc hw hn hx hxr hs
  · exact .inr (rousing_of_push howed hs (by simpa using hq) hq')

/-- **No stall.** The invariant that keeps a worker awake for shared work. -/
structure Awake (s : StealWorld) : Prop where
  sleepers : s.SleeperCount
  waiting : s.Waiting
  owed : ∀ (q : Nat) (x : StealProducer), s.producers[q]? = some x → x.feed.Owed
  roused : s.Roused

theorem Awake.start (queues : Stealing) (threads : List Nat) (victims : List Bool)
    (foreign : List Entity) (producers : List (Nat × List StealOp)) :
    Awake (StealWorld.start queues threads victims foreign producers) := by
  -- every worker starts at the top of its loop, and every producer between calls
  have htop : ∀ (w : Nat) (x : StealWorker),
      (StealWorld.start queues threads victims foreign producers).workers[w]? = some x →
      x.stage = .top := by
    intro w x hx
    simp only [StealWorld.start, List.getElem?_map] at hx
    obtain ⟨_, -, rfl⟩ := Option.map_eq_some_iff.1 hx
    rfl
  refine ⟨?_, ⟨List.nodup_nil, fun u hu => by simp [StealWorld.start] at hu⟩, ?_, ?_⟩
  · refine (List.countP_eq_zero.2 ?_).symm
    simp [StealWorld.start, StealStage.sleeping]
  · intro q x hx
    simp only [StealWorld.start, List.getElem?_map] at hx
    obtain ⟨_, -, rfl⟩ := Option.map_eq_some_iff.1 hx
    trivial
  · intro hn _ _
    obtain ⟨x, hx⟩ : ∃ x, (StealWorld.start queues threads victims foreign producers).workers[0]? =
        some x := ⟨_, List.getElem?_eq_getElem hn⟩
    exact .inl ⟨0, hn, not_dormant_of_resting hx (by rw [htop 0 x hx]; rfl)⟩

theorem Awake.step (ha : s.Awake) (hi : s.Inv) (htc : s.ThiefCount)
    (hs : s.step p = some (s', acc, a)) : s'.Awake where
  sleepers := ha.sleepers.step hs
  waiting := ha.waiting.step hs
  owed := by
    intro q y hy
    by_cases hp : p = .producer q
    · subst hp
      obtain ⟨x, x', hub, hx, -, rfl, hcase⟩ := step_producer hs
      rw [List.getElem?_set_self (List.getElem?_eq_some_iff.1 hx).1, Option.some.injEq] at hy
      subst hy
      rcases hcase with ⟨-, -, op, hop⟩ | ⟨-, hafter⟩
      · rw [hop]
        exact StealFeed.begin_owed op
      · rw [hafter]
        exact (ha.owed q x hx).after _ a
    · rw [producer_step_ne hs hp] at hy
      exact ha.owed q y hy
  roused := ha.roused.step hi htc ha.sleepers ha.waiting ha.owed hs

theorem Reachable.awake (h : Reachable s) : s.Awake := by
  induction h with
  | start queues threads victims foreign producers _ =>
    exact Awake.start queues threads victims foreign producers
  | next p h ih =>
    unfold StealWorld.next
    split
    · exact ih.step h.inv h.thiefCount ‹_›
    · exact ih

end StealWorld

/-! ## 5. Some worker can always move -/

namespace StealWorld

variable {s : StealWorld}

/-- **No stall.** In every state a schedule reaches, while the group has a worker and runs,
shared work is queued and every producer is between calls, some worker can take a step. -/
theorem some_worker_steps (h : Reachable s) (hn : 0 < s.workers.length)
    (hstop : s.hub.queues.stopped = false)
    (hcalm : ∀ (q : Nat) (x : StealProducer), s.producers[q]? = some x → x.feed = .idle)
    (hq : s.hub.queues.shared = true) : ∃ w, (s.step (.worker w)).isSome := by
  have hi := h.inv
  -- with no producer notifying, the invariant gives a worker that is not dormant
  obtain ⟨u, hu, hd⟩ : ∃ u < s.workers.length, ¬ s.Dormant u := by
    rcases h.awake.roused hn hstop hq with hw | ⟨q, x, hx, hxr⟩
    · exact hw
    · rw [hcalm q x hx, StealFeed.rousing_idle] at hxr
      cases hxr
  obtain ⟨x, hx⟩ : ∃ x, s.workers[u]? = some x := ⟨_, List.getElem?_eq_getElem hu⟩
  -- before the stop no worker has left its loop
  have hin : x.stage ≠ .exited := by
    intro he
    have := hi.leaving u x hx (by rw [he]; rfl)
    rw [hstop] at this
    cases this
  obtain ⟨acc, hacc⟩ := Option.isSome_iff_exists.1
    (StealStage.access_isSome hin : (x.stage.access x.thread u x.victims).isSome)
  cases hh : s.hub.access acc with
  | some r => exact ⟨u, step_worker_isSome hx hacc (by simp [hh])⟩
  | none =>
    rcases StealHub.access_eq_none hh with ⟨p, rfl, hheld⟩ | ⟨v, rfl, hmem⟩
    · -- it waits for the lock, whose holder is a worker: no producer is inside a call and
      -- the stop has not begun
      obtain ⟨r, hr⟩ := Option.ne_none_iff_exists'.1 hheld
      have hrh := (hi.lock r).1 hr
      cases r with
      | worker v => exact ⟨v, hi.holder_moves hr⟩
      | producer q =>
        obtain ⟨y, hy, hyh⟩ := holds_producer_iff.1 hrh
        rw [hcalm q y hy] at hyh
        cases hyh
      | stopper =>
        have hst := hi.stopped
        rw [hstop] at hst
        cases hk : s.stopper <;> simp [holds, hk, StealStop.holds, StealStop.stored] at hrh hst
    · -- an untimed wait not yet notified would make it dormant
      obtain ⟨hg, rfl⟩ := StealStage.access_eq_sleep hacc
      have hv : x.victims = false := by simpa [StealStage.access, hg] using hacc
      exact absurd ⟨x, hx, by rw [hg]; rfl, hv, fun _ => hmem⟩ hd

theorem some_worker_steps_after_ready :
    0 < ((start (Stealing.create 2 4) [0, 1] [] [] [(5, [.ready { id := 0 } false])]).run
        [.producer 0, .producer 0, .producer 0]).workers.length ∧
      ((start (Stealing.create 2 4) [0, 1] [] [] [(5, [.ready { id := 0 } false])]).run
        [.producer 0, .producer 0, .producer 0]).hub.queues.stopped = false ∧
      (∀ (q : Nat) (x : StealProducer),
        ((start (Stealing.create 2 4) [0, 1] [] [] [(5, [.ready { id := 0 } false])]).run
          [.producer 0, .producer 0, .producer 0]).producers[q]? = some x → x.feed = .idle) ∧
      ((start (Stealing.create 2 4) [0, 1] [] [] [(5, [.ready { id := 0 } false])]).run
        [.producer 0, .producer 0, .producer 0]).hub.queues.shared = true ∧
      ∃ w, (((start (Stealing.create 2 4) [0, 1] [] [] [(5, [.ready { id := 0 } false])]).run
        [.producer 0, .producer 0, .producer 0]).step (.worker w)).isSome := by
  have hcalm : ∀ (q : Nat) (x : StealProducer),
      ((start (Stealing.create 2 4) [0, 1] [] [] [(5, [.ready { id := 0 } false])]).run
        [.producer 0, .producer 0, .producer 0]).producers[q]? = some x → x.feed = .idle := by
    intro q x hx
    rcases q with _ | q
    · obtain rfl : { thread := 5, program := [], feed := .idle } = x := Option.some.inj hx
      rfl
    · cases hx
  exact ⟨by decide, rfl, hcalm, rfl,
    some_worker_steps ((Reachable.start _ _ _ _ _ rfl).run _) (by decide) rfl hcalm rfl⟩

end StealWorld

end Fibers
