import Mathlib
import Fibers.Proofs.ParkingShared
import Fibers.Proofs.ExactlyOnce
/-!
# Stopping a work-stealing group

The parties of a work-stealing group take turns in any order (`Fibers.Sched.Parking`). An idle
worker takes the sleep lock, counts itself a sleeper, looks for work, reads the stop flag and
only then waits on the condition variable, which releases the lock; stopping sets the flag,
then takes the lock and notifies every waiter. Three facts follow, for every schedule.

* Once the stop has completed, no worker waits on the condition variable, and a worker that
  cannot take its step waits for the sleep lock, whose holder can always take its own
  (`StealWorld.Inv.not_asleep`, `StealWorld.Inv.worker_waits_for_lock`,
  `StealWorld.Inv.holder_moves`).
* A worker leaves its loop only through a look for work that found none, then a read of the
  stop flag that found it set, its leaving the sleepers and the release of the lock: these
  are its last four accesses in every run (`StealWorld.exit_log`).
* Once the stop has completed and the queues have drained, every schedule of `20 * n` rounds
  in which each of the `n` workers takes a turn lets every worker out of its loop
  (`StealWorld.Winding.leaves`). Per worker no count of turns suffices here: a worker may
  find the lock taken at each of its turns.

Besides, the thief count is the number of workers between becoming a thief and leaving the
thieves, and never passes its bound (`StealWorld.thieves_counted`).

The invariant `StealWorld.Inv` says who holds the sleep lock (`LockHeld`: exactly the party
whose stage holds it) and what the stop has done; a worker about to wait read the flag clear
under the lock, so the stop, which takes the lock before it notifies, finds every such worker
waiting.
-/

namespace Fibers

/-! ## 1. What the queues keep -/

namespace Stealing

variable {s s' s₂ : Stealing} {t i : Nat}

/-- A take or a push changes the queues only: the group's size and its stop flag stay. -/
structure Frame (s s' : Stealing) : Prop where
  size : s'.size = s.size
  stopped : s'.stopped = s.stopped

theorem Frame.refl (s : Stealing) : Frame s s := ⟨rfl, rfl⟩

theorem Frame.trans (h₁ : Frame s s') (h₂ : Frame s' s₂) : Frame s s₂ :=
  ⟨h₂.size.trans h₁.size, h₂.stopped.trans h₁.stopped⟩

theorem tick_frame (t : Nat) : Frame s (s.tick t).1 := by
  unfold tick
  split <;> exact ⟨rfl, rfl⟩

theorem popPinned_frame (i : Nat) : Frame s (s.popPinned i).1 := by
  unfold popPinned
  split <;> exact ⟨rfl, rfl⟩

theorem popDeque_frame (i : Nat) : Frame s (s.popDeque i).1 := by
  unfold popDeque
  split <;> exact ⟨rfl, rfl⟩

theorem popLocal_frame (t : Nat) : Frame s (s.popLocal t).1 := by
  unfold popLocal
  split
  · exact popDeque_frame _
  · exact Frame.refl s

theorem stealGlobal_frame (t : Nat) : Frame s (s.stealGlobal t).1 := by
  unfold stealGlobal
  split <;> exact ⟨rfl, rfl⟩

theorem acquireReactor_frame : Frame s s.acquireReactor.1 := ⟨rfl, rfl⟩

theorem stealFromPeers_frame (i : Nat) : Frame s (s.stealFromPeers i).1 := by
  unfold stealFromPeers
  dsimp only
  split
  · exact popDeque_frame _
  · exact Frame.refl s

theorem pushReady_frame (t : Nat) (e : Entity) (y : Bool) : Frame s (s.pushReady t e y) := by
  unfold pushReady
  split_ifs
  all_goals first
    | exact ⟨rfl, rfl⟩
    | (split <;> (try split_ifs) <;> exact ⟨rfl, rfl⟩)

theorem acquire_frame (t i : Nat) : Frame s (s.acquire t i).1 := by
  rcases h : s.acquire t i with ⟨s', o⟩
  unfold acquire at h
  have h₁ := tick_frame (s := s) t
  rcases ht : s.tick t with ⟨s₁, due⟩
  rw [ht] at h₁
  simp only [ht] at h
  -- the reactor queue when due, then the pinned queue, the own deque and the global queue
  have h₂ : Frame s₁ (if due = true then s₁.acquireReactor else (s₁, none)).1 := by
    split
    · exact acquireReactor_frame
    · exact Frame.refl s₁
  rcases hr : (if due = true then s₁.acquireReactor else (s₁, none)) with ⟨s₂, o₂⟩
  rw [hr] at h₂
  simp only [hr] at h
  have h₁₂ := h₁.trans h₂
  cases o₂ with
  | some e =>
    dsimp only at h
    obtain ⟨rfl, -⟩ := Prod.mk.inj h
    exact h₁₂
  | none =>
    dsimp only at h
    have h₃ := popPinned_frame (s := s₂) i
    rcases hp : s₂.popPinned i with ⟨s₃, o₃⟩
    rw [hp] at h₃
    simp only [hp] at h
    cases o₃ with
    | some e =>
      dsimp only at h
      obtain ⟨rfl, -⟩ := Prod.mk.inj h
      exact h₁₂.trans h₃
    | none =>
      dsimp only at h
      have h₄ := popLocal_frame (s := s₃) t
      rcases hl : s₃.popLocal t with ⟨s₄, o₄⟩
      rw [hl] at h₄
      simp only [hl] at h
      cases o₄ with
      | some e =>
        dsimp only at h
        obtain ⟨rfl, -⟩ := Prod.mk.inj h
        exact (h₁₂.trans h₃).trans h₄
      | none =>
        dsimp only at h
        have h₅ := stealGlobal_frame (s := s₄) t
        rw [h] at h₅
        exact ((h₁₂.trans h₃).trans h₄).trans h₅


/-- A take from queues that hold nothing finds nothing, and leaves them empty. -/
theorem Gave.of_empty {o : Option Entity} (hg : Gave s s' o) (he : s.entities = []) :
    o = none ∧ s'.entities = [] := by
  have hp := hg.1
  rw [he] at hp
  simpa using (List.nil_perm.1 hp)

theorem pinned_of_empty (he : s.entities = []) (i : Nat) : s.pinned.getD i [] = [] := by
  simp only [entities, List.append_eq_nil_iff, List.flatten_eq_nil_iff] at he
  rw [List.getD_eq_getElem?_getD]
  cases h : s.pinned[i]? with
  | none => rfl
  | some l => exact he.2 l (List.mem_of_getElem? h)

theorem deques_of_empty (he : s.entities = []) : s.deques.any (!·.isEmpty) = false := by
  simp only [entities, List.append_eq_nil_iff, List.flatten_eq_nil_iff] at he
  simp only [List.any_eq_false, Bool.not_eq_true', List.isEmpty_eq_false_iff, ne_eq, not_not]
  exact he.1.2

/-- Queues that hold nothing have no work for any worker. -/
theorem hasWork_of_empty (he : s.entities = []) (i : Nat) : s.hasWork i = false := by
  have hd := deques_of_empty he
  have hpi := pinned_of_empty he i
  simp only [entities, List.append_eq_nil_iff, List.flatten_eq_nil_iff] at he
  rw [List.getD_eq_getElem?_getD] at hpi
  simp [hasWork, Injector.isEmpty, he.1.1.1, he.1.1.2, hpi, hd]

end Stealing

/-! ## 2. What an access changes -/

/-- Whether an access takes the sleep lock. -/
def StealAccess.locks : StealAccess → Bool
  | .lock _ => true
  | _ => false

/-- Whether an access releases the sleep lock: an unlock, the start of a wait, or a
notification. -/
def StealAccess.unlocks : StealAccess → Bool
  | .unlock | .wait _ | .notify _ => true
  | _ => false

namespace StealHub

variable {h h' : StealHub} {acc : StealAccess} {a : Answer}

/-- Only the stop sets the stop flag, and no access changes the group's size. -/
theorem access_frame (hs : h.access acc = some (h', a)) (hacc : acc ≠ .storeStopped) :
    Stealing.Frame h.queues h'.queues := by
  cases acc <;> simp [access] at hs
  case storeStopped => exact absurd rfl hacc
  case acquire t w => obtain ⟨rfl, -⟩ := hs; exact Stealing.acquire_frame t w
  case acquireReactor => obtain ⟨rfl, -⟩ := hs; exact Stealing.acquireReactor_frame
  case stealPeers w => obtain ⟨rfl, -⟩ := hs; exact Stealing.stealFromPeers_frame w
  case stealGlobal t => obtain ⟨rfl, -⟩ := hs; exact Stealing.stealGlobal_frame t
  case ready t e y => obtain ⟨rfl, -⟩ := hs; exact Stealing.pushReady_frame t e y
  all_goals first
    | (obtain ⟨rfl, -⟩ := hs; exact ⟨rfl, rfl⟩)
    | (obtain ⟨-, rfl, -⟩ := hs; exact ⟨rfl, rfl⟩)
    | (split_ifs at hs <;> simp at hs <;> obtain ⟨rfl, -⟩ := hs <;> exact ⟨rfl, rfl⟩)

theorem access_size (hs : h.access acc = some (h', a)) : h'.queues.size = h.queues.size := by
  by_cases hacc : acc = .storeStopped
  · subst hacc
    simp only [access, Option.some.injEq, Prod.mk.injEq] at hs
    rw [← hs.1]
  · exact (access_frame hs hacc).size

theorem access_storeStopped (hs : h.access .storeStopped = some (h', a)) :
    h'.queues.stopped = true := by
  simp only [access, Option.some.injEq, Prod.mk.injEq] at hs
  rw [← hs.1]

/-- The lock is taken only while free. -/
theorem access_lock {p : Party} (hs : h.access (.lock p) = some (h', a)) :
    h.holder = none ∧ h'.holder = some p := by
  simp only [access] at hs
  split_ifs at hs with hn
  simp only [Option.some.injEq, Prod.mk.injEq] at hs
  rw [← hs.1]
  exact ⟨hn, rfl⟩

theorem access_unlocks (hs : h.access acc = some (h', a)) (hu : acc.unlocks = true) :
    h'.holder = none := by
  cases acc <;> simp [StealAccess.unlocks] at hu <;> simp [access] at hs <;>
    obtain ⟨rfl, -⟩ := hs <;> rfl

/-- Any other access leaves the lock as it was. -/
theorem access_holder (hs : h.access acc = some (h', a)) (hl : acc.locks = false)
    (hu : acc.unlocks = false) : h'.holder = h.holder := by
  cases acc <;> simp [StealAccess.locks] at hl <;> simp [StealAccess.unlocks] at hu <;>
    simp [access] at hs
  all_goals first
    | (obtain ⟨rfl, -⟩ := hs; rfl)
    | (split_ifs at hs <;> simp at hs <;> obtain ⟨rfl, -⟩ := hs <;> rfl)

/-- Only a wait adds a waiter, its own worker. -/
theorem access_waiters (hs : h.access acc = some (h', a)) {w : Nat} (hw : w ∈ h'.waiters) :
    w ∈ h.waiters ∨ acc = .wait w := by
  cases acc <;> simp [access] at hs
  case wait v =>
    rw [← hs.1] at hw
    simp only [List.mem_append, List.mem_singleton] at hw
    rcases hw with hw | rfl
    · exact .inl hw
    · exact .inr rfl
  case sleep v timed =>
    split_ifs at hs <;> simp at hs <;> rw [← hs.1] at hw
    · exact .inl (List.mem_of_mem_erase hw)
    · exact .inl hw
  case notify all =>
    rw [← hs.1] at hw
    split_ifs at hw
    · simp at hw
    · exact .inl (List.mem_of_mem_tail hw)
  all_goals first
    | (obtain ⟨rfl, -⟩ := hs; exact .inl hw)
    | (obtain ⟨-, rfl, -⟩ := hs; exact .inl hw)
    | (split_ifs at hs <;> simp at hs <;> obtain ⟨rfl, -⟩ := hs <;> exact .inl hw)

theorem access_loadStopped (hs : h.access .loadStopped = some (h', a)) :
    a = { flag := h.queues.stopped } := by
  simp only [access, Option.some.injEq, Prod.mk.injEq] at hs
  exact hs.2.symm

theorem access_notify_all (hs : h.access (.notify true) = some (h', a)) : h'.waiters = [] := by
  simp only [access, Option.some.injEq, Prod.mk.injEq] at hs
  rw [← hs.1]
  rfl

/-- Only a lock taken while held, and an untimed wait not yet notified, are refused. -/
theorem access_eq_none (hn : h.access acc = none) :
    (∃ p, acc = .lock p ∧ h.holder ≠ none) ∨
      ∃ w, acc = .sleep w false ∧ w ∈ h.waiters := by
  cases acc with
  | lock p =>
    simp only [access] at hn
    split_ifs at hn with hh
    exact .inl ⟨p, rfl, hh⟩
  | sleep w timed =>
    simp only [access] at hn
    split_ifs at hn with hw ht
    exact .inr ⟨w, by simp [ht], hw⟩
  | becomeThief => simp only [access] at hn; split_ifs at hn
  | stealForeign v => simp only [access] at hn; split_ifs at hn
  | _ => simp [access] at hn

/-- An access other than a lock or a wait's end is never refused. -/
theorem access_isSome (hl : ∀ p, acc ≠ .lock p) (hs : ∀ u b, acc ≠ .sleep u b) :
    (h.access acc).isSome := by
  cases hn : h.access acc with
  | some r => rfl
  | none =>
    rcases access_eq_none hn with ⟨p, rfl, -⟩ | ⟨u, rfl, -⟩
    · exact absurd rfl (hl p)
    · exact absurd rfl (hs u false)

end StealHub

/-! ## 3. Who holds the sleep lock -/

/-- A party's step keeps the discipline of the sleep lock: it takes the lock in its own name
and only when not holding it, releases it only while holding it, and holds it after the step
exactly when it took it, or held it and did not release it. -/
structure LockStep (q : Party) (acc : StealAccess) (before after : Bool) : Prop where
  self : ∀ r, acc = .lock r → r = q
  locks : acc.locks = true → before = false
  unlocks : acc.unlocks = true → before = true
  after : after = (acc.locks || (before && !acc.unlocks))

theorem LockStep.free {q : Party} {acc : StealAccess} (hl : acc.locks = false)
    (hu : acc.unlocks = false) : LockStep q acc false false :=
  ⟨fun r h => by simp [h, StealAccess.locks] at hl, by simp [hl], by simp [hu], by simp [hl]⟩

/-- The lock is held by exactly the party whose stage says so. -/
def LockHeld (holder : Option Party) (H : Party → Bool) : Prop :=
  ∀ r, holder = some r ↔ H r = true

/-- No party but the holder holds the lock. -/
theorem LockHeld.eq_false {holder : Option Party} {H : Party → Bool} (hl : LockHeld holder H)
    {r : Party} (hr : holder ≠ some r) : H r = false := by
  cases hH : H r
  · rfl
  · exact absurd ((hl r).2 hH) hr

/-- A step that keeps the lock's discipline keeps the lock held by the party that holds it. -/
theorem LockHeld.step {h h' : StealHub} {acc : StealAccess} {a : Answer} {H H' : Party → Bool}
    {q : Party} (hl : LockHeld h.holder H) (hs : h.access acc = some (h', a))
    (hq : LockStep q acc (H q) (H' q)) (hr : ∀ r, r ≠ q → H' r = H r) :
    LockHeld h'.holder H' := by
  intro r
  by_cases hlk : acc.locks = true
  · -- the party took the free lock, so no one held it
    obtain ⟨p, rfl⟩ : ∃ p, acc = .lock p := by
      cases acc <;> simp [StealAccess.locks] at hlk ⊢
    obtain rfl := hq.self p rfl
    obtain ⟨hfree, hnew⟩ := StealHub.access_lock hs
    have hq' : H' p = true := by rw [hq.after]; simp [StealAccess.locks]
    rw [hnew]
    by_cases hrq : r = p
    · subst hrq
      simp [hq']
    · simp [hr r hrq, hl.eq_false (r := r) (by simp [hfree]), Ne.symm hrq]
  · by_cases hul : acc.unlocks = true
    · -- the party released the lock it held
      have hheld : h.holder = some q := (hl q).2 (hq.unlocks hul)
      have hq' : H' q = false := by rw [hq.after]; simp [hlk, hul]
      rw [StealHub.access_unlocks hs hul]
      by_cases hrq : r = q
      · subst hrq
        simp [hq']
      · simp [hr r hrq, hl.eq_false (r := r) (by simpa [hheld] using Ne.symm hrq)]
    · -- the lock stays where it was
      rw [StealHub.access_holder hs (by simpa using hlk) (by simpa using hul)]
      by_cases hrq : r = q
      · subst hrq
        have hq' : H' r = H r := by rw [hq.after]; simp [hlk, hul]
        rw [hq']
        exact hl r
      · rw [hr r hrq]
        exact hl r

/-- A notification holds the lock when about to send. -/
def Signal.holds : Signal → Bool
  | .send => true
  | _ => false

namespace StealStage

/-- The stages between taking the sleep lock and releasing it. -/
def holds : StealStage → Bool
  | .join | .look | .backOff | .release | .stopCheck | .quit | .leave | .wait | .unjoin
  | .unlock => true
  | .chain _ k => k.holds
  | _ => false

theorem lockStep {g : StealStage} {t w : Nat} {v : Bool} {acc : StealAccess}
    (hacc : g.access t w v = some acc) (a : Answer) :
    LockStep (.worker w) acc g.holds (g.after a).holds := by
  cases g <;> simp [access] at hacc <;> subst hacc <;> (try cases ‹Signal›) <;>
    refine ⟨?_, ?_, ?_, ?_⟩
  all_goals first
    | (simp [Signal.access, holds, Signal.holds, StealAccess.locks, StealAccess.unlocks]; done)
    | skip
  -- what the stage after holds, branch by branch of the step
  all_goals simp only [after, Signal.after]
  all_goals (repeat' split) <;> (try split_ifs at * with hf) <;>
    (try simp only [Option.some.injEq] at *) <;> subst_vars <;>
    simp_all [holds, Signal.holds, Signal.access, StealAccess.locks, StealAccess.unlocks]

variable {g : StealStage} {t w : Nat} {v : Bool} {acc : StealAccess} {a : Answer}

/-- Whether a worker is on its way out of the loop. -/
def leaving : StealStage → Bool
  | .quit | .leave | .exited => true
  | _ => false

theorem access_ne_storeStopped (h : g.access t w v = some acc) : acc ≠ .storeStopped := by
  cases g <;> simp [access] at h <;> (try cases ‹Signal›) <;> subst h <;> simp [Signal.access]

/-- A worker begins to wait on the condition variable from its waiting stage, in its own
name. -/
theorem access_eq_wait {u : Nat} (h : g.access t w v = some (.wait u)) : g = .wait ∧ u = w := by
  cases g <;> simp [access] at h
  case wait => exact ⟨rfl, h.symm⟩
  all_goals cases ‹Signal› <;> simp [Signal.access] at h

theorem access_eq_sleep {u : Nat} {b : Bool} (h : g.access t w v = some (.sleep u b)) :
    g = .sleep ∧ u = w := by
  cases g <;> simp [access] at h
  case sleep => exact ⟨rfl, h.1.symm⟩
  all_goals cases ‹Signal› <;> simp [Signal.access] at h

/-- A worker reads the stop flag before leaving only after finding no work. -/
theorem after_eq_stopCheck (h : g.after a = .stopCheck) : g = .look ∧ a.flag = false := by
  cases g <;> simp only [after] at h <;> (try split at h) <;> (try split at h) <;> simp_all

theorem after_eq_quit (h : g.after a = .quit) : g = .stopCheck ∧ a.flag = true := by
  cases g <;> simp only [after] at h <;> (try split at h) <;> (try split at h) <;> simp_all

theorem after_eq_leave (h : g.after a = .leave) : g = .quit := by
  cases g <;> simp only [after] at h <;> (try split at h) <;> (try split at h) <;> simp_all

theorem after_eq_exited (h : g.after a = .exited) : g = .leave ∨ g = .exited := by
  cases g <;> simp only [after] at h <;> (try split at h) <;> (try split at h) <;> simp_all

/-- A worker begins to wait only after reading the stop flag clear. -/
theorem after_eq_wait (h : g.after a = .wait) : g = .stopCheck ∧ a.flag = false := by
  cases g <;> simp only [after] at h <;> (try split at h) <;> (try split at h) <;> simp_all

theorem after_eq_sleep (h : g.after a = .sleep) : g = .wait := by
  cases g <;> simp only [after] at h <;> (try split at h) <;> (try split at h) <;> simp_all

/-- A worker sets out to leave only from reading the stop flag set. -/
theorem after_leaving (h : (g.after a).leaving = true) :
    g.leaving = true ∨ (g = .stopCheck ∧ a.flag = true) := by
  cases g <;> simp only [after] at h ⊢ <;> (try split at h) <;> (try split at h) <;>
    simp_all [leaving]

/-- A stage that holds the lock makes an access that is never refused. -/
theorem access_of_holds (hh : g.holds = true) (hacc : g.access t w v = some acc) :
    (∀ p, acc ≠ .lock p) ∧ ∀ u b, acc ≠ .sleep u b := by
  cases g <;> simp [holds] at hh <;> simp [access] at hacc <;> subst hacc <;> simp
  cases ‹Signal› <;> simp [Signal.holds] at hh
  simp [Signal.access]

theorem access_isSome (h : g ≠ .exited) : (g.access t w v).isSome := by
  cases g <;> simp [access] at h ⊢

end StealStage

namespace StealFeed

/-- A producer holds the lock while about to send a notification. -/
def holds : StealFeed → Bool
  | .notify _ k _ => k.holds
  | _ => false

/-- What comes after each notification holds no lock. -/
def Calm : StealFeed → Prop
  | .notify _ _ next => next.holds = false ∧ next.Calm
  | _ => True

theorem notifyEach_holds (n : Nat) : (notifyEach n).holds = false := by
  cases n <;> rfl

theorem notifyEach_calm (n : Nat) : (notifyEach n).Calm := by
  induction n with
  | zero => trivial
  | succ n ih => exact ⟨notifyEach_holds n, ih⟩

theorem readyNotify_calm (all : Bool) {next : StealFeed} (hn : next.holds = false)
    (hc : next.Calm) : (readyNotify all next).Calm := by
  unfold readyNotify
  split <;> exact ⟨hn, hc⟩

theorem begin_holds (op : StealOp) : (begin op).holds = false := by
  cases op <;> rfl

theorem begin_calm (op : StealOp) : (begin op).Calm := by
  cases op <;> trivial

theorem Calm.after {f : StealFeed} (hc : f.Calm) (size : Nat) (a : Answer) :
    (f.after size a).Calm := by
  cases f with
  | idle => trivial
  | ready e y => exact readyNotify_calm _ rfl trivial
  | batch es count =>
    cases es with
    | nil =>
      simp only [StealFeed.after]
      split
      · exact ⟨rfl, trivial⟩
      · exact notifyEach_calm count
    | cons e rest =>
      simp only [StealFeed.after]
      split
      · exact readyNotify_calm _ rfl trivial
      · trivial
  | notify all k next =>
    simp only [StealFeed.after]
    split
    · exact hc
    · exact hc.2

/-- A producer never sets the stop flag nor waits. -/
theorem access_ne (f : StealFeed) (p t : Nat) :
    f.access p t ≠ .storeStopped ∧ ∀ w, f.access p t ≠ .wait w := by
  cases f with
  | batch es count =>
    cases es with
    | nil => simp [access]
    | cons e rest => simp only [access]; split <;> simp
  | notify all k next => cases k <;> simp [access, Signal.access]
  | _ => simp [access]

theorem readyNotify_holds (all : Bool) (next : StealFeed) :
    (readyNotify all next).holds = false := by
  unfold readyNotify
  split <;> rfl

/-- Outside a notification a producer neither holds the lock nor takes it. -/
theorem after_holds_of_plain {f : StealFeed} (hk : ∀ all k next, f ≠ .notify all k next)
    (size : Nat) (a : Answer) :
    (f.after size a).holds = false := by
  cases f with
  | idle => rfl
  | ready e y => exact readyNotify_holds _ _
  | batch es count =>
    cases es with
    | nil =>
      simp only [after]
      split
      · rfl
      · exact notifyEach_holds count
    | cons e rest =>
      simp only [after]
      split
      · exact readyNotify_holds _ _
      · rfl
  | notify all k next => exact absurd rfl (hk all k next)

theorem lockStep {f : StealFeed} (hc : f.Calm) (p t size : Nat) (a : Answer) :
    LockStep (.producer p) (f.access p t) f.holds (f.after size a).holds := by
  cases f with
  | notify all k next =>
    obtain ⟨hn, -⟩ := hc
    cases k <;> refine ⟨?_, ?_, ?_, ?_⟩ <;>
      simp [access, after, Signal.access, Signal.after, StealAccess.locks, StealAccess.unlocks]
    -- a look ends the notification when it is skipped, a send always
    all_goals first
      | exact hn
      | rfl
      | (by_cases hf : a.flag <;> simp [hf, hn] <;> rfl)
  | idle => exact LockStep.free rfl rfl
  | ready e y =>
    rw [after_holds_of_plain (by simp) size a]
    exact LockStep.free rfl rfl
  | batch es count =>
    rw [after_holds_of_plain (by simp) size a]
    cases es with
    | nil => exact LockStep.free rfl rfl
    | cons e rest =>
      simp only [access]
      split <;> exact LockStep.free rfl rfl

end StealFeed

namespace StealStop

/-- The stop holds the lock while about to notify every sleeper. -/
def holds : StealStop → Bool
  | .send => true
  | _ => false

/-- Whether the stop has set the flag. -/
def stored : StealStop → Bool
  | .store => false
  | _ => true

/-- Whether the stop has taken the sleep lock. -/
def late : StealStop → Bool
  | .send | .done => true
  | _ => false

theorem ne_done_of_late {k : StealStop} (h : k.late = false) : k ≠ .done := by
  rintro rfl
  cases h

theorem lockStep {k : StealStop} {acc : StealAccess} (hacc : k.access = some acc) :
    LockStep .stopper acc k.holds k.after.holds := by
  cases k <;> simp only [access, Option.some.injEq, reduceCtorEq] at hacc <;> subst hacc <;>
    exact ⟨by simp, by simp [holds, StealAccess.locks], by simp [holds, StealAccess.unlocks],
      by rfl⟩

end StealStop

namespace StealWorld

variable {s s' : StealWorld} {acc : StealAccess} {a : Answer}

/-- Whether a party's stage holds the sleep lock. -/
def holds (s : StealWorld) : Party → Bool
  | .worker w => (s.workers[w]?.map (·.stage.holds)).getD false
  | .producer p => (s.producers[p]?.map (·.feed.holds)).getD false
  | .stopper => s.stopper.holds

/-! ## 4. One step of each party -/

theorem step_worker {w : Nat} (hs : s.step (.worker w) = some (s', acc, a)) :
    ∃ x hub, s.workers[w]? = some x ∧ x.stage.access x.thread w x.victims = some acc ∧
      s.hub.access acc = some (hub, a) ∧
      s' = { s with hub, workers := s.workers.set w { x with stage := x.stage.after a } } := by
  simp only [step] at hs
  split at hs
  · cases hs
  · rename_i x hx
    obtain ⟨acc', hacc, hs⟩ := Option.bind_eq_some_iff.1 hs
    obtain ⟨⟨hub, a'⟩, hh, he⟩ := Option.map_eq_some_iff.1 hs
    simp only [Prod.mk.injEq] at he
    obtain ⟨rfl, rfl, rfl⟩ := he
    exact ⟨x, hub, hx, hacc, hh, rfl⟩

/-- A producer's step begins its next call, or makes its current call's next access. -/
theorem step_producer {p : Nat} (hs : s.step (.producer p) = some (s', acc, a)) :
    ∃ x x' hub, s.producers[p]? = some x ∧ s.hub.access acc = some (hub, a) ∧
      s' = { s with hub, producers := s.producers.set p x' } ∧
      ((x.feed = .idle ∧ acc = .skip ∧ ∃ op, x'.feed = StealFeed.begin op) ∨
        (acc = x.feed.access p x.thread ∧ x'.feed = x.feed.after s.workers.length a)) := by
  simp only [step] at hs
  split at hs
  · cases hs
  · rename_i x hx
    split at hs
    · cases hs
    · rename_i op rest hf hprog
      simp only [Option.some.injEq, Prod.mk.injEq] at hs
      obtain ⟨rfl, rfl, rfl⟩ := hs
      exact ⟨x, _, s.hub, hx, rfl, rfl, .inl ⟨hf, rfl, op, rfl⟩⟩
    · obtain ⟨⟨hub, a'⟩, hh, he⟩ := Option.map_eq_some_iff.1 hs
      simp only [Prod.mk.injEq] at he
      obtain ⟨rfl, rfl, rfl⟩ := he
      exact ⟨x, _, hub, hx, hh, rfl, .inr ⟨rfl, rfl⟩⟩

theorem step_stopper (hs : s.step .stopper = some (s', acc, a)) :
    ∃ hub, s.stopper.access = some acc ∧ s.hub.access acc = some (hub, a) ∧
      s' = { s with hub, stopper := s.stopper.after } := by
  simp only [step] at hs
  obtain ⟨acc', hacc, hs⟩ := Option.bind_eq_some_iff.1 hs
  obtain ⟨⟨hub, a'⟩, hh, he⟩ := Option.map_eq_some_iff.1 hs
  simp only [Prod.mk.injEq] at he
  obtain ⟨rfl, rfl, rfl⟩ := he
  exact ⟨hub, hacc, hh, rfl⟩


theorem holds_set_worker {w : Nat} {x : StealWorker} (hx : s.workers[w]? = some x)
    (hub : StealHub) (x' : StealWorker) (r : Party) :
    ({ s with hub, workers := s.workers.set w x' } : StealWorld).holds r =
      if r = .worker w then x'.stage.holds else s.holds r := by
  have hlt := (List.getElem?_eq_some_iff.1 hx).1
  cases r with
  | worker v =>
    by_cases hv : v = w
    · subst hv
      simp [holds, hlt]
    · simp [holds, hv, List.getElem?_set_ne (Ne.symm hv)]
  | _ => simp [holds]

theorem holds_set_producer {p : Nat} {x : StealProducer} (hx : s.producers[p]? = some x)
    (hub : StealHub) (x' : StealProducer) (r : Party) :
    ({ s with hub, producers := s.producers.set p x' } : StealWorld).holds r =
      if r = .producer p then x'.feed.holds else s.holds r := by
  have hlt := (List.getElem?_eq_some_iff.1 hx).1
  cases r with
  | producer q =>
    by_cases hq : q = p
    · subst hq
      simp [holds, hlt]
    · simp [holds, hq, List.getElem?_set_ne (Ne.symm hq)]
  | _ => simp [holds]

theorem holds_worker_iff {w : Nat} :
    s.holds (.worker w) = true ↔ ∃ x, s.workers[w]? = some x ∧ x.stage.holds = true := by
  cases hx : s.workers[w]? <;> simp [holds, hx]

theorem holds_producer_iff {p : Nat} :
    s.holds (.producer p) = true ↔ ∃ x, s.producers[p]? = some x ∧ x.feed.holds = true := by
  cases hx : s.producers[p]? <;> simp [holds, hx]

theorem holds_stopper (hub : StealHub) (k : StealStop) (r : Party) :
    ({ s with hub, stopper := k } : StealWorld).holds r =
      if r = .stopper then k.holds else s.holds r := by
  cases r <;> simp [holds]

/-! ## 5. What the stop has done -/

/-- What the stop has done so far, who holds the sleep lock, and what a worker waiting or on
its way out knows. -/
structure Inv (s : StealWorld) : Prop where
  /-- The stop flag is set exactly once the stop stored it. -/
  stopped : s.hub.queues.stopped = s.stopper.stored
  /-- The sleep lock is held by the party whose stage holds it. -/
  lock : LockHeld s.hub.holder s.holds
  calm : ∀ (p : Nat) (x : StealProducer), s.producers[p]? = some x → x.feed.Calm
  /-- A worker about to wait read the flag clear under the lock, which the stop has not
  taken since. -/
  waiting : ∀ (w : Nat) (x : StealWorker), s.workers[w]? = some x → x.stage = .wait →
    s.stopper.late = false
  /-- A worker waiting on the condition variable began before the stop notified. -/
  asleep : ∀ (w : Nat) (x : StealWorker), s.workers[w]? = some x → x.stage = .sleep →
    w ∈ s.hub.waiters → s.stopper ≠ .done
  /-- A worker on its way out read the flag set. -/
  leaving : ∀ (w : Nat) (x : StealWorker), s.workers[w]? = some x → x.stage.leaving = true →
    s.hub.queues.stopped = true

theorem Inv.start (queues : Stealing) (threads : List Nat) (victims : List Bool)
    (foreign : List Entity) (producers : List (Nat × List StealOp)) (h : queues.stopped = false) :
    Inv (StealWorld.start queues threads victims foreign producers) := by
  have hw : ∀ (w : Nat) (x : StealWorker),
      (StealWorld.start queues threads victims foreign producers).workers[w]? = some x →
      x.stage = .top := by
    intro w x hx
    simp only [StealWorld.start, List.getElem?_map] at hx
    obtain ⟨_, -, rfl⟩ := Option.map_eq_some_iff.1 hx
    rfl
  refine ⟨by simpa [StealWorld.start, StealStop.stored] using h, ?_, ?_, ?_, ?_, ?_⟩
  · intro r
    cases r with
    | worker w =>
      simp only [StealWorld.start, holds, List.getElem?_map]
      cases (List.range queues.size)[w]? <;> simp [StealStage.holds]
    | producer p =>
      simp only [StealWorld.start, holds, List.getElem?_map]
      cases producers[p]? <;> simp [StealFeed.holds]
    | stopper => simp [StealWorld.start, holds, StealStop.holds]
  · intro p x hx
    simp only [StealWorld.start, List.getElem?_map] at hx
    obtain ⟨_, -, rfl⟩ := Option.map_eq_some_iff.1 hx
    trivial
  · intro w x hx hst
    simp [hw w x hx] at hst
  · intro w x hx hst
    simp [hw w x hx] at hst
  · intro w x hx hl
    simp [hw w x hx, StealStage.leaving] at hl


theorem Inv.holder_of_holds (hi : Inv s) {v : Nat} {y : StealWorker} (hy : s.workers[v]? = some y)
    (hh : y.stage.holds = true) : s.hub.holder = some (.worker v) :=
  (hi.lock (.worker v)).2 (holds_worker_iff.2 ⟨y, hy, hh⟩)

theorem Inv.step_worker (hi : Inv s) {w : Nat} (hs : s.step (.worker w) = some (s', acc, a)) :
    Inv s' := by
  obtain ⟨x, hub, hx, hacc, hh, rfl⟩ := StealWorld.step_worker hs
  have hframe := StealHub.access_frame hh (StealStage.access_ne_storeStopped hacc)
  have hself := List.getElem?_set_self (a := { x with stage := x.stage.after a })
    (List.getElem?_eq_some_iff.1 hx).1
  -- the worker was at its waiting stage when it waits or sleeps after the step
  have hwait : x.stage = .wait → s.stopper ≠ .done := fun hg =>
    StealStop.ne_done_of_late (hi.waiting w x hx hg)
  refine ⟨by rw [hframe.stopped]; exact hi.stopped, ?_, hi.calm, ?_, ?_, ?_⟩
  · refine LockHeld.step hi.lock hh ?_ (fun r hr => by rw [holds_set_worker hx, if_neg hr])
    rw [holds_set_worker hx, if_pos rfl]
    simpa [holds, hx] using StealStage.lockStep hacc a
  · intro v y hy hst
    by_cases hvw : v = w
    · subst hvw
      rw [hself, Option.some.injEq] at hy
      subst hy
      -- it read the flag clear at this step, so the stop had not stored it
      obtain ⟨hg, hf⟩ := StealStage.after_eq_wait hst
      simp only [hg, StealStage.access, Option.some.injEq] at hacc
      subst hacc
      rw [StealHub.access_loadStopped hh, hi.stopped] at hf
      dsimp only
      cases hk : s.stopper <;> simp_all [StealStop.stored, StealStop.late]
    · rw [List.getElem?_set_ne (Ne.symm hvw)] at hy
      exact hi.waiting v y hy hst
  · intro v y hy hst hmem
    rcases StealHub.access_waiters hh hmem with hmem | rfl
    · by_cases hvw : v = w
      · subst hvw
        rw [hself, Option.some.injEq] at hy
        subst hy
        exact hwait (StealStage.after_eq_sleep hst)
      · rw [List.getElem?_set_ne (Ne.symm hvw)] at hy
        exact hi.asleep v y hy hst hmem
    · -- it began its wait at this step
      exact hwait (StealStage.access_eq_wait hacc).1
  · intro v y hy hl
    rw [hframe.stopped]
    by_cases hvw : v = w
    · subst hvw
      rw [hself, Option.some.injEq] at hy
      subst hy
      rcases StealStage.after_leaving hl with hl' | ⟨hg, hf⟩
      · exact hi.leaving v x hx hl'
      · -- it read the flag set at this very step
        simp only [hg, StealStage.access, Option.some.injEq] at hacc
        subst hacc
        rw [StealHub.access_loadStopped hh] at hf
        exact hf
    · rw [List.getElem?_set_ne (Ne.symm hvw)] at hy
      exact hi.leaving v y hy hl

theorem Inv.step_producer (hi : Inv s) {p : Nat} (hs : s.step (.producer p) = some (s', acc, a)) :
    Inv s' := by
  obtain ⟨x, x', hub, hx, hh, rfl, hcase⟩ := StealWorld.step_producer hs
  have hne : acc ≠ .storeStopped ∧ ∀ w, acc ≠ .wait w := by
    rcases hcase with ⟨-, rfl, -⟩ | ⟨rfl, -⟩
    · simp
    · exact StealFeed.access_ne _ _ _
  have hframe := StealHub.access_frame hh hne.1
  have hxs : s.holds (.producer p) = x.feed.holds := by simp [holds, hx]
  refine ⟨by rw [hframe.stopped]; exact hi.stopped, ?_, ?_, hi.waiting, ?_, ?_⟩
  · refine LockHeld.step hi.lock hh ?_ (fun r hr => by rw [holds_set_producer hx, if_neg hr])
    rw [holds_set_producer hx, if_pos rfl, hxs]
    rcases hcase with ⟨hidle, rfl, op, hop⟩ | ⟨rfl, hafter⟩
    · rw [hidle, hop, StealFeed.begin_holds]
      exact LockStep.free rfl rfl
    · rw [hafter]
      exact StealFeed.lockStep (hi.calm p x hx) p x.thread _ a
  · intro q y hy
    by_cases hqp : q = p
    · subst hqp
      rw [List.getElem?_set_self (List.getElem?_eq_some_iff.1 hx).1, Option.some.injEq] at hy
      subst hy
      rcases hcase with ⟨-, -, op, hop⟩ | ⟨-, hafter⟩
      · rw [hop]
        exact StealFeed.begin_calm op
      · rw [hafter]
        exact (hi.calm q x hx).after _ a
    · rw [List.getElem?_set_ne (Ne.symm hqp)] at hy
      exact hi.calm q y hy
  · intro v y hy hst hmem
    rcases StealHub.access_waiters hh hmem with hmem | hw
    · exact hi.asleep v y hy hst hmem
    · exact absurd hw (hne.2 v)
  · intro v y hy hl
    rw [hframe.stopped]
    exact hi.leaving v y hy hl

theorem Inv.step_stopper (hi : Inv s) (hs : s.step .stopper = some (s', acc, a)) : Inv s' := by
  obtain ⟨hub, hacc, hh, rfl⟩ := StealWorld.step_stopper hs
  have hlock :
      LockHeld hub.holder ({ s with hub, stopper := s.stopper.after } : StealWorld).holds := by
    refine LockHeld.step hi.lock hh ?_ (fun r hr => by rw [holds_stopper, if_neg hr])
    rw [holds_stopper, if_pos rfl]
    exact StealStop.lockStep hacc
  cases hk : s.stopper with
  | store =>
    rw [hk] at hacc hlock
    simp only [StealStop.access, Option.some.injEq] at hacc
    subst hacc
    have hset := StealHub.access_storeStopped hh
    refine ⟨by simp [hset, StealStop.after, StealStop.stored], hlock, hi.calm, ?_, ?_, ?_⟩
    · intro v y hy hst
      simp [StealStop.after, StealStop.late]
    · intro v y hy hst hmem
      simp [StealStop.after]
    · intro v y hy hl
      exact hset
  | grab =>
    rw [hk] at hacc hlock
    simp only [StealStop.access, Option.some.injEq] at hacc
    subst hacc
    have hframe := StealHub.access_frame hh (by simp)
    have hfree := (StealHub.access_lock hh).1
    refine ⟨by rw [hframe.stopped, hi.stopped, hk]; rfl, hlock, hi.calm, ?_, ?_, ?_⟩
    · -- the lock was free: no worker was about to wait
      intro v y hy hst
      have := hi.holder_of_holds hy (by simp [hst, StealStage.holds])
      simp [hfree] at this
    · intro v y hy hst hmem
      simp [StealStop.after]
    · intro v y hy hl
      rw [hframe.stopped]
      exact hi.leaving v y hy hl
  | send =>
    rw [hk] at hacc hlock
    simp only [StealStop.access, Option.some.injEq] at hacc
    subst hacc
    have hframe := StealHub.access_frame hh (by simp)
    have hheld : s.hub.holder = some .stopper :=
      (hi.lock .stopper).2 (by simp [holds, hk, StealStop.holds])
    refine ⟨by rw [hframe.stopped, hi.stopped, hk]; rfl, hlock, hi.calm, ?_, ?_, ?_⟩
    · -- the stop held the lock: no worker was about to wait
      intro v y hy hst
      have := hi.holder_of_holds hy (by simp [hst, StealStage.holds])
      simp [hheld] at this
    · -- every waiter was notified
      intro v y hy hst hmem
      simp [StealHub.access_notify_all hh] at hmem
    · intro v y hy hl
      rw [hframe.stopped]
      exact hi.leaving v y hy hl
  | done =>
    rw [hk] at hacc
    simp [StealStop.access] at hacc

theorem Inv.step (hi : Inv s) {p : Party} (hs : s.step p = some (s', acc, a)) : Inv s' := by
  cases p with
  | worker w => exact hi.step_worker hs
  | producer q => exact hi.step_producer hs
  | stopper => exact hi.step_stopper hs

theorem Inv.next (hi : Inv s) (p : Party) : Inv (s.next p) := by
  unfold StealWorld.next
  split
  · exact hi.step ‹_›
  · exact hi

theorem Reachable.inv (h : Reachable s) : Inv s := by
  induction h with
  | start queues threads victims foreign producers hq =>
    exact Inv.start queues threads victims foreign producers hq
  | next p _ ih => exact ih.next p

theorem Reachable.run (h : Reachable s) (schedule : List Party) : Reachable (s.run schedule) := by
  induction schedule generalizing s with
  | nil => exact h
  | cons p rest ih => exact ih (h.next p)


/-! ## 6. After the stop, no worker waits on the condition variable -/

theorem step_worker_isSome {w : Nat} {x : StealWorker} (hx : s.workers[w]? = some x)
    (hacc : x.stage.access x.thread w x.victims = some acc) (hh : (s.hub.access acc).isSome) :
    (s.step (.worker w)).isSome := by
  obtain ⟨r, hr⟩ := Option.isSome_iff_exists.1 hh
  simp [step, hx, hacc, hr]

/-- The party holding the sleep lock can always take its step: a holder never blocks. -/
theorem Inv.holder_moves (hi : Inv s) {r : Party} (hr : s.hub.holder = some r) :
    (s.step r).isSome := by
  have hholds := (hi.lock r).1 hr
  cases r with
  | worker w =>
    obtain ⟨x, hx, hxh⟩ := holds_worker_iff.1 hholds
    have hin : x.stage ≠ .exited := by
      rintro hex
      simp [hex, StealStage.holds] at hxh
    obtain ⟨acc, hacc⟩ := Option.isSome_iff_exists.1
      (StealStage.access_isSome hin : (x.stage.access x.thread w x.victims).isSome)
    obtain ⟨hl, hs⟩ := StealStage.access_of_holds hxh hacc
    exact step_worker_isSome hx hacc (StealHub.access_isSome hl hs)
  | producer p =>
    obtain ⟨x, hx, hxh⟩ := holds_producer_iff.1 hholds
    -- a producer holds the lock only about to send a notification, which is never refused
    obtain ⟨all, next, hf⟩ : ∃ all next, x.feed = .notify all .send next := by
      cases hfx : x.feed with
      | notify all k next =>
        cases k <;> simp [hfx, StealFeed.holds, Signal.holds] at hxh
        exact ⟨all, next, rfl⟩
      | _ => simp [hfx, StealFeed.holds] at hxh
    simp [StealWorld.step, hx, hf, StealFeed.access, Signal.access, StealHub.access]
  | stopper =>
    have hk : s.stopper = .send := by
      cases hk : s.stopper <;> simp [holds, hk, StealStop.holds] at hholds ⊢
    simp [StealWorld.step, hk, StealStop.access, StealHub.access]

/-- Once the stop has completed, no worker waits on the sleep condition variable. -/
theorem Inv.not_asleep (hi : Inv s) (hdone : s.stopper = .done) {w : Nat} {x : StealWorker}
    (hx : s.workers[w]? = some x) (hst : x.stage = .sleep) : w ∉ s.hub.waiters :=
  fun hmem => hi.asleep w x hx hst hmem hdone

/-- Once the stop has completed, a worker still in its loop that cannot take its step is
waiting for the sleep lock, and the party holding the lock can take its own. -/
theorem Inv.worker_waits_for_lock (hi : Inv s) (hdone : s.stopper = .done) {w : Nat}
    {x : StealWorker} (hx : s.workers[w]? = some x) (hin : x.stage ≠ .exited)
    (hn : s.step (.worker w) = none) :
    x.stage.access x.thread w x.victims = some (.lock (.worker w)) ∧
      ∃ r, s.hub.holder = some r ∧ (s.step r).isSome := by
  obtain ⟨acc, hacc⟩ := Option.isSome_iff_exists.1
    (StealStage.access_isSome hin : (x.stage.access x.thread w x.victims).isSome)
  cases hh : s.hub.access acc with
  | some r =>
    have := step_worker_isSome hx hacc (by simp [hh])
    simp [hn] at this
  | none =>
    rcases StealHub.access_eq_none hh with ⟨p, rfl, hheld⟩ | ⟨u, rfl, hmem⟩
    · obtain ⟨r, hr⟩ := Option.ne_none_iff_exists'.1 hheld
      obtain rfl := (StealStage.lockStep hacc {}).self p rfl
      exact ⟨hacc, r, hr, hi.holder_moves hr⟩
    · -- an untimed wait not yet notified, which the stop's notification ruled out
      obtain ⟨hg, rfl⟩ := StealStage.access_eq_sleep hacc
      exact absurd hmem (hi.not_asleep hdone hx hg)

end StealWorld

/-! ## 7. A worker's last accesses -/

/-- How much of its leaving trail a worker at this stage has made. -/
def StealStage.trailMade : StealStage → Nat
  | .stopCheck => 1
  | .quit => 2
  | .leave => 3
  | .exited => 4
  | _ => 0

namespace StealWorld

variable {s s' : StealWorld} {acc : StealAccess} {a : Answer}
  {log : List (Party × StealAccess × Answer)}

/-- A worker's last accesses when it leaves its loop: a look for work that found none, a read
of the stop flag that found it set, its leaving the sleepers, and the release of the sleep
lock. -/
def leavingTrail (w : Nat) : List (StealAccess × Answer) :=
  [(.hasWork w, {}), (.loadStopped, { flag := true }), (.leaveSleepers, {}), (.unlock, {})]

/-- Each step of a worker either starts its leaving trail over or makes its next entry. -/
theorem trail_step {g : StealStage} {t w : Nat} {v : Bool} {h h' : StealHub}
    (hacc : g.access t w v = some acc) (hh : h.access acc = some (h', a)) :
    (g.after a).trailMade = 0 ∨
      ((g.after a).trailMade = g.trailMade + 1 ∧
        (leavingTrail w)[g.trailMade]? = some (acc, a)) := by
  cases hg : g.after a
  case stopCheck =>
    obtain ⟨rfl, hf⟩ := StealStage.after_eq_stopCheck hg
    simp only [StealStage.access, Option.some.injEq] at hacc
    subst hacc
    simp only [StealHub.access, Option.some.injEq, Prod.mk.injEq] at hh
    obtain ⟨-, rfl⟩ := hh
    simp only at hf
    simp [StealStage.trailMade, leavingTrail, hf]
  case quit =>
    obtain ⟨rfl, hf⟩ := StealStage.after_eq_quit hg
    simp only [StealStage.access, Option.some.injEq] at hacc
    subst hacc
    simp only [StealHub.access, Option.some.injEq, Prod.mk.injEq] at hh
    obtain ⟨-, rfl⟩ := hh
    simp only at hf
    simp [StealStage.trailMade, leavingTrail, hf]
  case leave =>
    obtain rfl := StealStage.after_eq_leave hg
    simp only [StealStage.access, Option.some.injEq] at hacc
    subst hacc
    simp only [StealHub.access, Option.some.injEq, Prod.mk.injEq] at hh
    obtain ⟨-, rfl⟩ := hh
    simp [StealStage.trailMade, leavingTrail]
  case exited =>
    rcases StealStage.after_eq_exited hg with rfl | rfl
    · simp only [StealStage.access, Option.some.injEq] at hacc
      subst hacc
      simp only [StealHub.access, Option.some.injEq, Prod.mk.injEq] at hh
      obtain ⟨-, rfl⟩ := hh
      simp [StealStage.trailMade, leavingTrail]
    · simp [StealStage.access] at hacc
  all_goals exact .inl rfl


/-- Every worker has made, last, the part of its leaving trail its stage says. -/
def Trail (s : StealWorld) (log : List (Party × StealAccess × Answer)) : Prop :=
  ∀ (w : Nat) (x : StealWorker), s.workers[w]? = some x →
    (leavingTrail w).take x.stage.trailMade <:+ accessesOf log w

theorem Trail.step (ht : Trail s log) {p : Party} (hs : s.step p = some (s', acc, a)) :
    Trail s' (log ++ [(p, acc, a)]) := by
  cases p with
  | worker w =>
    obtain ⟨x, hub, hx, hacc, hh, rfl⟩ := StealWorld.step_worker hs
    intro v y hy
    by_cases hvw : v = w
    · subst hvw
      rw [List.getElem?_set_self (List.getElem?_eq_some_iff.1 hx).1, Option.some.injEq] at hy
      subst hy
      rcases trail_step hacc hh with h0 | ⟨hn, he⟩
      · simp [h0]
      · rw [hn]
        exact trail_extend (ht v x hx) he
    · rw [List.getElem?_set_ne (Ne.symm hvw)] at hy
      rw [accessesOf_append_ne _ (by simpa using Ne.symm hvw)]
      exact ht v y hy
  | producer q =>
    obtain ⟨x, x', hub, -, -, rfl, -⟩ := StealWorld.step_producer hs
    intro v y hy
    rw [accessesOf_append_ne _ (by simp)]
    exact ht v y hy
  | stopper =>
    obtain ⟨hub, -, -, rfl⟩ := StealWorld.step_stopper hs
    intro v y hy
    rw [accessesOf_append_ne _ (by simp)]
    exact ht v y hy

theorem Trail.exec (ht : Trail s log) (schedule : List Party) :
    Trail (s.exec schedule).1 (log ++ (s.exec schedule).2) := by
  induction schedule generalizing s log with
  | nil => simpa [StealWorld.exec] using ht
  | cons p rest ih =>
    simp only [StealWorld.exec]
    split
    · rename_i s' acc a hs
      simpa using ih (ht.step hs)
    · exact ih ht

/-- A worker leaves its loop only through a look for work that found none, then a read of the
stop flag that found it set, then its leaving the sleepers and the release of the sleep lock:
in every run, these are its last four accesses. -/
theorem exit_log (queues : Stealing) (threads : List Nat) (victims : List Bool)
    (foreign : List Entity) (producers : List (Nat × List StealOp)) (schedule : List Party)
    (w : Nat) (x : StealWorker)
    (hx : ((start queues threads victims foreign producers).exec schedule).1.workers[w]? = some x)
    (hexit : x.stage = .exited) :
    leavingTrail w <:+
      accessesOf ((start queues threads victims foreign producers).exec schedule).2 w := by
  have h0 : Trail (start queues threads victims foreign producers) [] := by
    intro v y hy
    simp only [StealWorld.start, List.getElem?_map] at hy
    obtain ⟨_, -, rfl⟩ := Option.map_eq_some_iff.1 hy
    simp [StealStage.trailMade]
  simpa [hexit, StealStage.trailMade, leavingTrail] using h0.exec schedule w x hx

end StealWorld

/-! ## 8. Quiet answers, and how far a worker is from leaving -/

/-- Whether an access puts an entity in a queue. -/
def StealAccess.pushes : StealAccess → Bool
  | .ready _ _ _ | .pushGlobal _ => true
  | _ => false

/-- What an access answers once the group is stopped with its queues drained: no entity from
a take, no work in any deque or for any worker, the stop flag set. -/
def StealAccess.Quiet : StealAccess → Answer → Prop
  | .acquire _ _, a | .acquireReactor, a | .stealPeers _, a | .stealGlobal _, a
  | .stealForeign _, a => a.entity = none
  | .anyDeque, a | .hasWork _, a => a.flag = false
  | .loadStopped, a => a.flag = true
  | _, _ => True

namespace StealHub

variable {h h' : StealHub} {acc : StealAccess} {a : Answer}

/-- What stays true of a hub whose queues hold nothing once stopped. -/
structure Idle (h : StealHub) : Prop where
  empty : h.queues.entities = []
  wf : h.queues.WF
  foreign : h.foreign = []
  stopped : h.queues.stopped = true

/-- A take from idle queues finds nothing and leaves them idle. -/
theorem Idle.take {o : Option Entity} {q : Stealing} (hi : Idle h) (hg : Stealing.Gave h.queues q o)
    (hf : Stealing.Frame h.queues q) : o = none ∧ Idle { h with queues := q } := by
  obtain ⟨ho, he⟩ := hg.of_empty hi.empty
  exact ⟨ho, he, hg.2, hi.foreign, hf.stopped.trans hi.stopped⟩

/-- Once idle, an access that pushes nothing answers quietly and leaves the hub idle. -/
theorem access_quiet (hi : Idle h) (hp : acc.pushes = false) (hs : h.access acc = some (h', a)) :
    acc.Quiet a ∧ Idle h' := by
  cases acc <;> simp [StealAccess.pushes] at hp <;> simp [access] at hs
  case acquire t w =>
    obtain ⟨rfl, rfl⟩ := hs
    obtain ⟨ho, hi'⟩ := hi.take (Stealing.acquire_gave hi.wf rfl) (Stealing.acquire_frame t w)
    exact ⟨ho, hi'⟩
  case acquireReactor =>
    obtain ⟨rfl, rfl⟩ := hs
    obtain ⟨ho, hi'⟩ := hi.take (Stealing.acquireReactor_gave hi.wf rfl)
      Stealing.acquireReactor_frame
    exact ⟨ho, hi'⟩
  case stealPeers w =>
    obtain ⟨rfl, rfl⟩ := hs
    obtain ⟨ho, hi'⟩ := hi.take (Stealing.stealFromPeers_gave hi.wf rfl)
      (Stealing.stealFromPeers_frame w)
    exact ⟨ho, hi'⟩
  case stealGlobal t =>
    obtain ⟨rfl, rfl⟩ := hs
    obtain ⟨ho, hi'⟩ := hi.take (Stealing.stealGlobal_gave hi.wf rfl)
      (Stealing.stealGlobal_frame t)
    exact ⟨ho, hi'⟩
  case anyDeque =>
    obtain ⟨rfl, rfl⟩ := hs
    exact ⟨Stealing.deques_of_empty hi.empty, hi⟩
  case hasWork w =>
    obtain ⟨rfl, rfl⟩ := hs
    exact ⟨Stealing.hasWork_of_empty hi.empty w, hi⟩
  case loadStopped =>
    obtain ⟨rfl, rfl⟩ := hs
    exact ⟨hi.stopped, hi⟩
  case storeStopped =>
    obtain ⟨rfl, rfl⟩ := hs
    exact ⟨trivial, hi.empty, ⟨hi.wf.deques, hi.wf.pinned, hi.wf.pos, hi.wf.slots⟩,
      hi.foreign, rfl⟩
  case stealForeign v =>
    split_ifs at hs <;> simp at hs <;> obtain ⟨rfl, rfl⟩ := hs
    · exact ⟨by simp [StealAccess.Quiet, hi.foreign], hi.empty, hi.wf, by simp [hi.foreign],
        hi.stopped⟩
    · exact ⟨rfl, hi⟩
  -- the other accesses touch neither the queues nor the foreign groups
  all_goals first
    | (obtain ⟨rfl, rfl⟩ := hs; exact ⟨trivial, hi.1, hi.2, hi.3, hi.4⟩)
    | (obtain ⟨-, rfl, rfl⟩ := hs; exact ⟨trivial, hi.1, hi.2, hi.3, hi.4⟩)
    | (split_ifs at hs <;> simp at hs <;> obtain ⟨rfl, rfl⟩ := hs <;>
        exact ⟨trivial, hi.1, hi.2, hi.3, hi.4⟩)

end StealHub

/-- The stage of a notification, counted down to its end. -/
def Signal.rank : Signal → Nat
  | .send => 0
  | .grab => 1
  | .look => 2

theorem Signal.rank_after {k k' : Signal} {a : Answer} (h : k.after a = some k') :
    k'.rank < k.rank := by
  cases k <;> simp only [Signal.after] at h
  · split_ifs at h
    cases h
    simp [Signal.rank]
  · cases h
    simp [Signal.rank]
  · cases h

namespace StealStage

variable {g : StealStage} {t w : Nat} {v : Bool} {acc : StealAccess} {a : Answer}

/-- The turns a worker at this stage needs to leave its loop, once the group is stopped and
its queues drained. -/
def rank : StealStage → Nat
  | .exited => 0
  | .leave => 1
  | .quit => 2
  | .stopCheck => 3
  | .look => 4
  | .join => 5
  | .lock => 6
  | .acquireReactor => 7
  | .acquire => 8
  | .foreign => 9
  | .recheck => 10
  | .unthief none => 11
  | .stealGlobal => 12
  | .stealPeers => 13
  | .thief => 14
  | .top | .reacquireReactor | .unlock => 15
  | .run _ | .reacquire | .unjoin => 16
  | .release | .relock => 17
  | .backOff | .sleep => 18
  | .wait => 19
  | .chain _ k => 17 + k.rank
  | .unthief (some _) => 20

theorem rank_le (g : StealStage) : g.rank ≤ 20 := by
  cases g <;> (try cases ‹Signal›) <;> (try cases ‹Option Entity›) <;>
    simp [rank, Signal.rank]

theorem rank_eq_zero (h : g.rank = 0) : g = .exited := by
  cases g <;> (try cases ‹Signal›) <;> (try cases ‹Option Entity›) <;>
    simp [rank, Signal.rank] at h ⊢

/-- Workers never push. -/
theorem access_pushes (h : g.access t w v = some acc) : acc.pushes = false := by
  cases g <;> simp [access] at h <;> (try cases ‹Signal›) <;> subst h <;> rfl

/-- Every step with a quiet answer brings a worker nearer to leaving. -/
theorem rank_after (hacc : g.access t w v = some acc) (hq : acc.Quiet a) :
    (g.after a).rank < g.rank := by
  cases g <;> simp [access] at hacc <;> subst hacc
  case chain e k =>
    simp only [after]
    cases hk : k.after a with
    | some k' =>
      have := Signal.rank_after hk
      simp only [rank]
      omega
    | none => simp only [rank]; omega
  case unthief got =>
    cases got <;> simp only [after] <;> split <;> simp [rank, Signal.rank]
  case thief =>
    simp only [after]
    split <;> simp [rank]
  all_goals simp_all [StealAccess.Quiet, after, rank]

end StealStage

/-! ## 9. A drained group leaves -/

namespace StealWorld

variable {s s' : StealWorld} {acc : StealAccess} {a : Answer}

/-- The group's queues have drained: well formed and empty, the foreign groups empty, and no
producer with anything left to do. -/
structure Drained (s : StealWorld) : Prop where
  empty : s.hub.queues.entities = []
  wf : s.hub.queues.WF
  foreign : s.hub.foreign = []
  producers : ∀ (p : Nat) (x : StealProducer), s.producers[p]? = some x →
    x.program = [] ∧ x.feed = .idle

/-- Stopped, with the stop complete and the queues drained. -/
structure Winding (s : StealWorld) : Prop where
  inv : Inv s
  done : s.stopper = .done
  drained : Drained s

/-- The turns the workers of a group still need, once it is winding down. -/
def load (s : StealWorld) : Nat := (s.workers.map (·.stage.rank)).sum

theorem Winding.idle (hw : Winding s) : StealHub.Idle s.hub :=
  ⟨hw.drained.empty, hw.drained.wf, hw.drained.foreign, by rw [hw.inv.stopped, hw.done]; rfl⟩

/-- Winding down, only workers move, each step answered quietly, and the group winds on with a
smaller load. -/
theorem Winding.step (hw : Winding s) {p : Party} (hs : s.step p = some (s', acc, a)) :
    Winding s' ∧ load s' < load s := by
  cases p with
  | worker w =>
    obtain ⟨x, hub, hx, hacc, hh, rfl⟩ := StealWorld.step_worker hs
    obtain ⟨hq, hidle⟩ := StealHub.access_quiet hw.idle (StealStage.access_pushes hacc) hh
    refine ⟨⟨hw.inv.step hs, hw.done, hidle.empty, hidle.wf, hidle.foreign,
      hw.drained.producers⟩, ?_⟩
    -- only the worker's own rank changes, and it falls
    have hlt := StealStage.rank_after hacc hq
    have hsum := Lifecycle.sum_map_modify (·.stage.rank)
      (fun _ => { x with stage := x.stage.after a }) s.workers w (List.getElem?_eq_some_iff.1 hx).1
    have hget : s.workers.getD w default = x := by simp [List.getD_eq_getElem?_getD, hx]
    rw [hget] at hsum
    simp only [load, List.set_eq_modify]
    dsimp only at hsum hlt ⊢
    omega
  | producer q =>
    obtain ⟨x, -, -, hx, -, -, hcase⟩ := StealWorld.step_producer hs
    obtain ⟨hprog, hfeed⟩ := hw.drained.producers q x hx
    simp [StealWorld.step, hx, hprog, hfeed] at hs
  | stopper =>
    obtain ⟨hub, hacc, -, -⟩ := StealWorld.step_stopper hs
    simp [hw.done, StealStop.access] at hacc

theorem Winding.next (hw : Winding s) (p : Party) :
    Winding (s.next p) ∧ load (s.next p) ≤ load s := by
  unfold StealWorld.next
  split
  · rename_i s' acc a hs
    exact ⟨(hw.step hs).1, (hw.step hs).2.le⟩
  · exact ⟨hw, le_rfl⟩

/-- Along a schedule the load falls, unless no party could move at all. -/
theorem Winding.run (hw : Winding s) (r : List Party) :
    Winding (s.run r) ∧ load (s.run r) ≤ load s ∧
      (load (s.run r) < load s ∨ ∀ p ∈ r, s.step p = none) := by
  induction r generalizing s with
  | nil => exact ⟨hw, le_rfl, .inr (by simp)⟩
  | cons p rest ih =>
    simp only [StealWorld.run, List.foldl_cons] at ih ⊢
    cases hs : s.step p with
    | none =>
      have hn : s.next p = s := by simp [StealWorld.next, hs]
      rw [hn]
      obtain ⟨hw', hle, hlt | hall⟩ := ih hw
      · exact ⟨hw', hle, .inl hlt⟩
      · exact ⟨hw', hle, .inr (by simpa [hs] using hall)⟩
    | some r =>
      obtain ⟨s', acc, a⟩ := r
      have hn : s.next p = s' := by simp [StealWorld.next, hs]
      obtain ⟨hw₁, hlt₁⟩ := hw.step hs
      rw [hn]
      obtain ⟨hw', hle, -⟩ := ih hw₁
      exact ⟨hw', by omega, .inl (by omega)⟩


theorem load_eq_zero_iff :
    load s = 0 ↔
      ∀ (w : Nat) (x : StealWorker), s.workers[w]? = some x → x.stage = .exited := by
  simp only [load, List.sum_eq_zero_iff, List.mem_map]
  constructor
  · intro h w x hx
    exact StealStage.rank_eq_zero (h _ ⟨x, List.mem_of_getElem? hx, rfl⟩)
  · rintro h _ ⟨x, hx, rfl⟩
    obtain ⟨w, hw⟩ := List.mem_iff_getElem?.1 hx
    rw [h w x hw]
    rfl

theorem load_le (s : StealWorld) : load s ≤ 20 * s.workers.length := by
  have := List.sum_le_card_nsmul (s.workers.map (·.stage.rank)) 20 (by
    simp only [List.mem_map]
    rintro _ ⟨x, -, rfl⟩
    exact StealStage.rank_le x.stage)
  simpa [load, mul_comm] using this

theorem length_next (s : StealWorld) (p : Party) :
    (s.next p).workers.length = s.workers.length := by
  unfold StealWorld.next
  split
  · rename_i s' acc a hs
    cases p with
    | worker w =>
      obtain ⟨x, hub, -, -, -, rfl⟩ := StealWorld.step_worker hs
      simp
    | producer q =>
      obtain ⟨x, x', hub, -, -, rfl, -⟩ := StealWorld.step_producer hs
      rfl
    | stopper =>
      obtain ⟨hub, -, -, rfl⟩ := StealWorld.step_stopper hs
      rfl
  · rfl

theorem length_run (s : StealWorld) (r : List Party) :
    (s.run r).workers.length = s.workers.length := by
  induction r generalizing s with
  | nil => rfl
  | cons p rest ih =>
    simp only [StealWorld.run, List.foldl_cons] at ih ⊢
    rw [ih, length_next]

theorem run_append (s : StealWorld) (r r' : List Party) : s.run (r ++ r') = (s.run r).run r' := by
  simp [StealWorld.run, List.foldl_append]

/-- Winding down, a group with a worker still in its loop has a worker that can move: the
worker itself, or the worker holding the lock it waits for. -/
theorem Winding.worker_moves (hw : Winding s) {w : Nat} {x : StealWorker}
    (hx : s.workers[w]? = some x) (hin : x.stage ≠ .exited) :
    ∃ v < s.workers.length, (s.step (.worker v)).isSome := by
  cases hs : s.step (.worker w) with
  | some r => exact ⟨w, (List.getElem?_eq_some_iff.1 hx).1, by simp [hs]⟩
  | none =>
    obtain ⟨-, r, hr, hmove⟩ := hw.inv.worker_waits_for_lock hw.done hx hin hs
    have hholds := (hw.inv.lock r).1 hr
    -- winding down, neither a producer nor the stop holds the lock
    cases r with
    | worker v =>
      obtain ⟨y, hv, -⟩ := holds_worker_iff.1 hholds
      exact ⟨v, (List.getElem?_eq_some_iff.1 hv).1, hmove⟩
    | producer p =>
      obtain ⟨y, hp, hyh⟩ := holds_producer_iff.1 hholds
      obtain ⟨-, hf⟩ := hw.drained.producers p y hp
      simp [hf, StealFeed.holds] at hyh
    | stopper => simp [holds, hw.done, StealStop.holds] at hholds

/-- Winding down, a round of turns in which every worker takes one lowers the load, unless
every worker has left already. -/
theorem Winding.round (hw : Winding s) (r : List Party)
    (hr : ∀ w < s.workers.length, .worker w ∈ r) (hpos : load s ≠ 0) :
    load (s.run r) < load s := by
  obtain ⟨-, -, hlt | hall⟩ := hw.run r
  · exact hlt
  · exfalso
    obtain ⟨w, x, hx, hin⟩ : ∃ (w : Nat) (x : StealWorker), s.workers[w]? = some x ∧
        x.stage ≠ .exited := by
      by_contra hno
      simp only [not_exists, not_and, not_not] at hno
      exact hpos (load_eq_zero_iff.2 hno)
    obtain ⟨v, hv, hmove⟩ := hw.worker_moves hx hin
    simp [hall _ (hr v hv)] at hmove

theorem Winding.leaves_of_load (hw : Winding s) (rounds : List (List Party))
    (hr : ∀ r ∈ rounds, ∀ w < s.workers.length, .worker w ∈ r)
    (hlen : load s ≤ rounds.length)
    {w : Nat} {x : StealWorker} (hx : (s.run rounds.flatten).workers[w]? = some x) :
    x.stage = .exited := by
  induction rounds generalizing s with
  | nil => exact load_eq_zero_iff.1 (by simpa using hlen) w x (by simpa [StealWorld.run] using hx)
  | cons r rest ih =>
    rw [List.flatten_cons, run_append] at hx
    obtain ⟨hw', hle, -⟩ := hw.run r
    by_cases h0 : load s = 0
    · -- every worker has left already, and the load cannot rise
      have hle' := (hw'.run rest.flatten).2.1
      exact load_eq_zero_iff.1 (by omega) w x hx
    · have hlt := hw.round r (hr r (by simp)) h0
      refine ih hw' (fun r' hr' => ?_) (by simp at hlen; omega) hx
      rw [length_run]
      exact hr r' (by simp [hr'])

/-- Once the stop has completed and the queues have drained, every schedule made of
`20 * n` rounds, in each of which every one of the `n` workers takes a turn, leaves every
worker out of its loop. -/
theorem Winding.leaves (hw : Winding s) (rounds : List (List Party))
    (hr : ∀ r ∈ rounds, ∀ w < s.workers.length, .worker w ∈ r)
    (hlen : 20 * s.workers.length ≤ rounds.length) {w : Nat} {x : StealWorker}
    (hx : (s.run rounds.flatten).workers[w]? = some x) : x.stage = .exited :=
  hw.leaves_of_load rounds hr ((load_le s).trans hlen) hx

end StealWorld

/-! ## 10. The thieves -/

namespace StealStage

variable {g : StealStage} {t w : Nat} {v : Bool} {acc : StealAccess} {a : Answer}

/-- Counted among the thieves: from becoming a thief to leaving the thieves. -/
def thieving : StealStage → Bool
  | .stealPeers | .stealGlobal | .unthief _ => true
  | _ => false

theorem access_eq_becomeThief (h : g.access t w v = some .becomeThief) : g = .thief := by
  cases g <;> simp [access] at h ⊢
  -- a notification's accesses are not the thieves'
  cases ‹Signal› <;> simp [Signal.access] at h

theorem access_eq_leaveThieves (h : g.access t w v = some .leaveThieves) :
    ∃ got, g = .unthief got := by
  cases g <;> simp [access] at h ⊢
  cases ‹Signal› <;> simp [Signal.access] at h

theorem thief_after (a : Answer) : (thief.after a).thieving = a.flag := by
  simp only [after]
  split <;> simp_all [thieving]

theorem unthief_after (got : Option Entity) (a : Answer) :
    ((unthief got).after a).thieving = false := by
  cases got <;> simp only [after] <;> split <;> rfl

/-- Any other step keeps a worker counted among the thieves or not. -/
theorem thieving_after (hacc : g.access t w v = some acc) (hb : acc ≠ .becomeThief)
    (hl : acc ≠ .leaveThieves) : (g.after a).thieving = g.thieving := by
  cases g <;> simp [access] at hacc <;> subst hacc <;> simp at hb hl
  all_goals simp only [after]
  all_goals (repeat' split) <;> rfl

end StealStage

namespace StealHub

variable {h h' : StealHub} {acc : StealAccess} {a : Answer}

theorem access_thieves (hs : h.access acc = some (h', a)) (hb : acc ≠ .becomeThief)
    (hl : acc ≠ .leaveThieves) : h'.thieves = h.thieves := by
  cases acc <;> simp at hb hl <;> simp [access] at hs
  all_goals first
    | (obtain ⟨rfl, -⟩ := hs; rfl)
    | (obtain ⟨-, rfl, -⟩ := hs; rfl)
    | (split_ifs at hs <;> simp at hs <;> obtain ⟨rfl, -⟩ := hs <;> rfl)

end StealHub

theorem Signal.access_ne_thieves (k : Signal) (all : Bool) (p : Party) :
    k.access all p ≠ .becomeThief ∧ k.access all p ≠ .leaveThieves := by
  cases k <;> simp [Signal.access]

theorem StealFeed.access_ne_thieves (f : StealFeed) (p t : Nat) :
    f.access p t ≠ .becomeThief ∧ f.access p t ≠ .leaveThieves := by
  cases f with
  | batch es count =>
    cases es with
    | nil => simp [access]
    | cons e rest => simp only [access]; split <;> simp
  | notify all k next => exact k.access_ne_thieves all _
  | _ => simp [access]

namespace StealWorld

variable {s s' : StealWorld} {acc : StealAccess} {a : Answer}

/-- The thief count counts the workers between becoming a thief and leaving the thieves, and
never passes its bound. -/
structure ThiefCount (s : StealWorld) : Prop where
  count : s.hub.thieves = s.workers.countP (·.stage.thieving)
  bound : s.hub.thieves ≤ s.hub.queues.maxThieves

theorem ThiefCount.step_worker (hc : ThiefCount s) {w : Nat}
    (hs : s.step (.worker w) = some (s', acc, a)) : ThiefCount s' := by
  obtain ⟨x, hub, hx, hacc, hh, rfl⟩ := StealWorld.step_worker hs
  -- the count changes only by the worker's own stage
  have hcnt := countP_set_add (p := (·.stage.thieving)) hx { x with stage := x.stage.after a }
  have hmax : hub.queues.maxThieves = s.hub.queues.maxThieves := by
    simp only [Stealing.maxThieves, StealHub.access_size hh]
  have hC := hc.count
  have hB := hc.bound
  dsimp only at hcnt
  by_cases hb : acc = .becomeThief
  · -- a thief only while there were fewer than the bound
    subst hb
    have hg := StealStage.access_eq_becomeThief hacc
    have h1 : x.stage.thieving = false := by rw [hg]; rfl
    have h2 : (x.stage.after a).thieving = a.flag := by rw [hg, StealStage.thief_after]
    rw [h1, h2] at hcnt
    simp only [StealHub.access] at hh
    split_ifs at hh with hlt <;> simp only [Option.some.injEq, Prod.mk.injEq] at hh <;>
      obtain ⟨rfl, rfl⟩ := hh <;> simp at hcnt
    · exact ⟨by dsimp only; omega, by dsimp only at hmax ⊢; omega⟩
    · exact ⟨by dsimp only; omega, hB⟩
  · by_cases hl : acc = .leaveThieves
    · -- a thief leaving: one fewer
      subst hl
      obtain ⟨got, hg⟩ := StealStage.access_eq_leaveThieves hacc
      have h1 : x.stage.thieving = true := by rw [hg]; rfl
      have h2 : (x.stage.after a).thieving = false := by rw [hg, StealStage.unthief_after]
      rw [h1, h2] at hcnt
      simp only [StealHub.access, Option.some.injEq, Prod.mk.injEq] at hh
      obtain ⟨rfl, rfl⟩ := hh
      simp at hcnt
      exact ⟨by dsimp only; omega, by dsimp only at hmax ⊢; omega⟩
    · rw [StealStage.thieving_after hacc hb hl] at hcnt
      rw [← hmax, ← StealHub.access_thieves hh hb hl] at hB
      exact ⟨by rw [StealHub.access_thieves hh hb hl]; dsimp only; omega, hB⟩

theorem ThiefCount.step (hc : ThiefCount s) {p : Party} (hs : s.step p = some (s', acc, a)) :
    ThiefCount s' := by
  cases p with
  | worker w => exact hc.step_worker hs
  | producer q =>
    obtain ⟨x, x', hub, -, hh, rfl, hcase⟩ := StealWorld.step_producer hs
    have hne : acc ≠ .becomeThief ∧ acc ≠ .leaveThieves := by
      rcases hcase with ⟨-, rfl, -⟩ | ⟨rfl, -⟩
      · simp
      · exact StealFeed.access_ne_thieves _ _ _
    have hmax : hub.queues.maxThieves = s.hub.queues.maxThieves := by
      simp only [Stealing.maxThieves, StealHub.access_size hh]
    have ht := StealHub.access_thieves hh hne.1 hne.2
    exact ⟨by rw [ht]; exact hc.count, by rw [ht, hmax]; exact hc.bound⟩
  | stopper =>
    obtain ⟨hub, hacc, hh, rfl⟩ := StealWorld.step_stopper hs
    have hne : acc ≠ .becomeThief ∧ acc ≠ .leaveThieves := by
      cases hk : s.stopper <;> simp [hk, StealStop.access] at hacc <;> subst hacc <;> simp
    have hmax : hub.queues.maxThieves = s.hub.queues.maxThieves := by
      simp only [Stealing.maxThieves, StealHub.access_size hh]
    have ht := StealHub.access_thieves hh hne.1 hne.2
    exact ⟨by rw [ht]; exact hc.count, by rw [ht, hmax]; exact hc.bound⟩

theorem ThiefCount.next (hc : ThiefCount s) (p : Party) : ThiefCount (s.next p) := by
  unfold StealWorld.next
  split
  · exact hc.step ‹_›
  · exact hc

theorem Reachable.thiefCount (h : Reachable s) : ThiefCount s := by
  induction h with
  | start queues threads victims foreign producers _ =>
    -- every worker starts at the top of its loop
    refine ⟨(List.countP_eq_zero.2 ?_).symm, Nat.zero_le _⟩
    simp [StealWorld.start, StealStage.thieving]
  | next p _ ih => exact ih.next p

/-- In every state a schedule reaches, the thief count is the number of workers between
becoming a thief and leaving the thieves, so it never goes below zero, and at most
`max (size / 2) 1` workers steal at once. -/
theorem thieves_counted (h : Reachable s) :
    s.hub.thieves = s.workers.countP (·.stage.thieving) ∧
      s.hub.thieves ≤ s.hub.queues.maxThieves :=
  ⟨h.thiefCount.count, h.thiefCount.bound⟩

theorem thieves_counted_two_workers :
    ((start (Stealing.create 2 4) [0, 1] [] [] []).run
        [.worker 0, .worker 1, .worker 0, .worker 1]).hub.thieves =
      ((start (Stealing.create 2 4) [0, 1] [] [] []).run
        [.worker 0, .worker 1, .worker 0, .worker 1]).workers.countP (·.stage.thieving) ∧
    ((start (Stealing.create 2 4) [0, 1] [] [] []).run
        [.worker 0, .worker 1, .worker 0, .worker 1]).hub.thieves ≤
      ((start (Stealing.create 2 4) [0, 1] [] [] []).run
        [.worker 0, .worker 1, .worker 0, .worker 1]).hub.queues.maxThieves :=
  thieves_counted ((Reachable.start _ _ _ _ _ rfl).run _)

/-! ## 11. What the stop guarantees of every run -/

theorem exec_fst (s : StealWorld) (schedule : List Party) :
    (s.exec schedule).1 = s.run schedule := by
  induction schedule generalizing s with
  | nil => rfl
  | cons p rest ih =>
    simp only [StealWorld.exec, StealWorld.run, List.foldl_cons, StealWorld.next]
    split
    · rename_i s' acc a hs
      simpa [hs, StealWorld.run] using ih s'
    · rename_i hs
      simpa [hs, StealWorld.run] using ih s

/-- What the stop guarantees of a run of a work-stealing group, read off its last state `s`
and its log. -/
structure Stops (s : StealWorld) (log : List (Party × StealAccess × Answer)) : Prop where
  /-- Once the stop has completed, no worker waits on the condition variable. -/
  asleep : s.stopper = .done → ∀ (w : Nat) (x : StealWorker), s.workers[w]? = some x →
    x.stage = .sleep → w ∉ s.hub.waiters
  /-- Once the stop has completed, a worker still in its loop that cannot take its step waits
  for the sleep lock, and the party holding the lock can take its own. -/
  moves : s.stopper = .done → ∀ (w : Nat) (x : StealWorker), s.workers[w]? = some x →
    x.stage ≠ .exited → s.step (.worker w) = none →
      ∃ r, s.hub.holder = some r ∧ (s.step r).isSome
  /-- A worker out of its loop left after the stop set the flag, through a look for work that
  found none, a read of the flag set, its leaving the sleepers and the release of the lock. -/
  exits : ∀ (w : Nat) (x : StealWorker), s.workers[w]? = some x → x.stage = .exited →
    s.stopper ≠ .store ∧ leavingTrail w <:+ accessesOf log w
  /-- Once the stop has completed and the queues have drained, `20 * n` rounds, in each of
  which every one of the `n` workers takes a turn, take every worker out of its loop. -/
  joins : s.stopper = .done → Drained s → ∀ rounds : List (List Party),
    (∀ r ∈ rounds, ∀ w < s.workers.length, .worker w ∈ r) →
    20 * s.workers.length ≤ rounds.length → ∀ (w : Nat) (x : StealWorker),
      (s.run rounds.flatten).workers[w]? = some x → x.stage = .exited

/-- Every run of a group started alive gives what the stop guarantees. -/
theorem stops (queues : Stealing) (threads : List Nat) (victims : List Bool)
    (foreign : List Entity) (producers : List (Nat × List StealOp)) (hq : queues.stopped = false)
    (schedule : List Party) :
    Stops ((start queues threads victims foreign producers).exec schedule).1
      ((start queues threads victims foreign producers).exec schedule).2 := by
  have hi : Inv ((start queues threads victims foreign producers).exec schedule).1 := by
    rw [exec_fst]
    exact ((Reachable.start queues threads victims foreign producers hq).run schedule).inv
  refine ⟨fun hdone w x hx hst => hi.not_asleep hdone hx hst,
    fun hdone w x hx hin hn => (hi.worker_waits_for_lock hdone hx hin hn).2,
    fun w x hx hexit => ⟨?_, ?_⟩,
    fun hdone hd rounds hr hlen w x hx =>
      (⟨hi, hdone, hd⟩ : Winding _).leaves rounds hr hlen hx⟩
  · -- it read the flag set, which only the stop stores
    have hst := hi.leaving w x hx (by simp [hexit, StealStage.leaving])
    intro hk
    rw [hi.stopped, hk] at hst
    cases hst
  · exact exit_log queues threads victims foreign producers schedule w x hx hexit

end StealWorld

/-- The stop reaches every worker, under either algorithm: in every run of a group started
alive, once the stop has completed no worker blocks on its slot or on the condition variable,
a worker leaves its loop only after the stop set the flag and its last look found nothing to
take, and a group whose queues have drained lets all its workers out. -/
theorem stop_reaches_every_worker :
    (∀ (q : SharedQueue) (victims : List Bool) (foreign : List Entity)
        (programs : List (List ShareOp)), q.stopped = false → ∀ schedule : List Party,
        ShareWorld.Stops ((ShareWorld.start q victims foreign programs).exec schedule).1
          ((ShareWorld.start q victims foreign programs).exec schedule).2) ∧
    ∀ (queues : Stealing) (threads : List Nat) (victims : List Bool) (foreign : List Entity)
      (producers : List (Nat × List StealOp)), queues.stopped = false →
      ∀ schedule : List Party,
      StealWorld.Stops ((StealWorld.start queues threads victims foreign producers).exec schedule).1
        ((StealWorld.start queues threads victims foreign producers).exec schedule).2 :=
  ⟨ShareWorld.stops, StealWorld.stops⟩

theorem stop_reaches_every_worker_of_two :
    ShareWorld.Stops
        ((ShareWorld.start { size := 2, capacity := 4 } [] [] [[.start default]]).exec
          [.producer 0, .worker 0, .stopper, .stopper, .stopper, .worker 1]).1
        ((ShareWorld.start { size := 2, capacity := 4 } [] [] [[.start default]]).exec
          [.producer 0, .worker 0, .stopper, .stopper, .stopper, .worker 1]).2 ∧
      StealWorld.Stops
        ((StealWorld.start (Stealing.create 2 4) [0, 1] [] [] [(2, [.ready default false])]).exec
          [.producer 0, .worker 0, .stopper, .stopper, .stopper, .worker 1]).1
        ((StealWorld.start (Stealing.create 2 4) [0, 1] [] [] [(2, [.ready default false])]).exec
          [.producer 0, .worker 0, .stopper, .stopper, .stopper, .worker 1]).2 :=
  ⟨stop_reaches_every_worker.1 _ _ _ _ rfl _, stop_reaches_every_worker.2 _ _ _ _ _ rfl _⟩

end Fibers
