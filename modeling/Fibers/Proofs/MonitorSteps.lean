import Mathlib
import Fibers.Proofs.MonitorInvariant
/-!
# Every step keeps the invariant of waits and notifications

Each step lemma computes what the step does to the acting party's view and cites the move of
`Fibers.Proofs.MonitorInvariant` that keeps it fine; every other party shows the same view,
except under a notification, which claims blocks, drops claimed ones from the queue and
delivers wakes. From them `Monitor.Inv.step`, and by induction on the schedule, the invariant
of every state a schedule reaches from the start (`Monitor.inv_run_start`).
-/

namespace Fibers

namespace Monitor

/-! ## 1. Ending a wait -/

section Relock

variable {m : Monitor} {p q : Nat} {r : Bool}

@[simp] theorem waitable_relock : (m.relock p r).waitable = m.waitable := by
  unfold relock
  split_ifs <;> rfl

@[simp] theorem claimed_relock : (m.relock p r).claimed = m.claimed := by
  unfold relock
  split_ifs <;> rfl

@[simp] theorem length_relock : (m.relock p r).sides.length = m.sides.length := by
  unfold relock
  split_ifs <;> simp

@[simp] theorem parties_relock : (m.relock p r).lock.parties.length = m.lock.parties.length := by
  unfold relock
  split_ifs <;> simp

/-- Ending a wait shows the other parties as before. -/
theorem view_relock_ne (hq : q ≠ p) (hpend : (m.side p).stage.pending = []) :
    (m.relock p r).view q = m.view q := by
  unfold relock
  split_ifs
  · rw [view_updateSide_ne hq (by simp only [side_give]; rw [hpend]; rfl), view_give_ne hq]
  · rw [view_updateSide_ne hq (by rw [hpend]; rfl)]

/-- Ending a wait: the party moves to relock, and a condition variable's waiter is handed the
lock. -/
theorem view_relock_self (hp : p < m.sides.length) (hpl : p < m.lock.parties.length)
    (hpend : (m.side p).stage.pending = []) :
    (m.relock p r).view p =
      { m.view p with
        side := { m.side p with stage := .relock r },
        contender := (if (m.side p).guarded then { (m.view p).contender with program := [.lock] }
          else (m.view p).contender) } := by
  unfold relock
  split_ifs with hg
  · rw [view_updateSide_self (by simpa using hp) (by simp only [side_give]; rw [hpend]; rfl),
      view_give_self hpl]
    rfl
  · rw [view_updateSide_self hp (by rw [hpend]; rfl)]

@[simp] theorem side_relock_self (hp : p < m.sides.length) :
    (m.relock p r).side p = { m.side p with stage := .relock r } := by
  unfold relock
  split_ifs
  · rw [side_updateSide_self (by simpa using hp)]
    rfl
  · rw [side_updateSide_self hp]

end Relock

/-! ## 2. Who steps -/

section Steps

variable {m m' : Monitor} {p : Nat}

@[simp] theorem stage_default : (default : Side).stage = .idle := rfl
@[simp] theorem program_default : (default : Side).program = [] := rfl
@[simp] theorem timer_default : (default : Side).timer = .off := rfl

/-- Only the parties there are take side steps. -/
theorem lt_of_sideStep (h : m.sideStep p = some m') : p < m.sides.length := by
  by_contra hp
  have hd := side_eq_default (m := m) (q := p) (Nat.le_of_not_lt hp)
  simp [sideStep, hd] at h

/-- Only the parties there are leave the idle stage. -/
theorem lt_of_stage_ne_idle {q : Nat} (h : (m.side q).stage ≠ .idle) : q < m.sides.length := by
  by_contra hq
  rw [side_eq_default (Nat.le_of_not_lt hq)] at h
  exact h rfl

/-- Only the parties there are wait. -/
theorem lt_of_waiting {q : Nat} (h : (m.side q).stage.waiting = true) : q < m.sides.length :=
  lt_of_stage_ne_idle fun hk => by simp [hk, WaitStage.waiting] at h

/-- A party not busy with the user mutex has no operation on it running. -/
theorem free_of_busy (h : m.busy p = false) : (m.view p).contender.Free := by
  simp only [busy, Bool.or_eq_false_iff, Bool.not_eq_false', List.isEmpty_iff] at h
  refine ⟨h.2, ?_⟩
  show (m.lock.party p).stage = .idle
  have h1 := h.1
  revert h1
  cases (m.lock.party p).stage <;> intro h1 <;> first | rfl | cases h1

/-- Two changes of one side in a row are one change. -/
theorem updateSide_updateSide {f g : Side → Side} :
    (m.updateSide p g).updateSide p f = m.updateSide p (f ∘ g) := by
  simp [updateSide, List.modify_modify_eq]

theorem Inv.setInner (hi : m.Inv) (o : Option Nat) : (m.setInner o).Inv :=
  ⟨hi.length, hi.queue_nodup, hi.claimed_nodup, hi.persistent, fun q => by
    rw [view_setInner]
    exact hi.ok q⟩

/-- **A step that changes only the acting party's side** keeps the invariant once the party's
new view is fine: it keeps the party's list of parties to wake, so every other party shows
the same view. -/
theorem Inv.updateSelf (hi : m.Inv) (hp : p < m.sides.length) {f : Side → Side}
    (hpend : (f (m.side p)).stage.pending = (m.side p).stage.pending)
    (hrel : (f (m.side p)).stage = .release false → m.waitable.persistent = true)
    (hok : ({ m.view p with side := f (m.side p) } : View).Ok) : (m.updateSide p f).Inv :=
  hi.of_local (p := p) (by simp) (by simp) (by simp [hi.length])
    (by rw [side_updateSide_self hp]; exact hrel) (by rw [view_updateSide_self hp hpend]; exact hok)
    (fun _ hq => view_updateSide_ne hq hpend)

/-- **A step that ends the acting party's wait** after a change of its side keeps the invariant
once the party's new view is fine. -/
theorem Inv.relockSelf {r : Bool} (hi : m.Inv) (hp : p < m.sides.length) {f : Side → Side}
    (hpend : (m.side p).stage.pending = []) (hpend' : (f (m.side p)).stage.pending = [])
    (hok : ({ m.view p with
      side := { f (m.side p) with stage := .relock r },
      contender := if (f (m.side p)).guarded then { (m.view p).contender with program := [.lock] }
        else (m.view p).contender } : View).Ok) :
    ((m.updateSide p f).relock p r).Inv := by
  have hpl : p < m.lock.parties.length := hi.length ▸ hp
  have hkeep : (f (m.side p)).stage.pending = (m.side p).stage.pending := by rw [hpend, hpend']
  refine hi.of_local (p := p) (by simp) (by simp) (by simp [hi.length])
    (by rw [side_relock_self (by simpa using hp)]; simp) ?_ (fun q hq => ?_)
  · rw [view_relock_self (by simpa using hp) (by simpa using hpl)
      (by rw [side_updateSide_self hp]; exact hpend'), side_updateSide_self hp,
      view_updateSide_self hp hkeep]
    exact hok
  · rw [view_relock_ne hq (by rw [side_updateSide_self hp]; exact hpend'),
      view_updateSide_ne hq hkeep]

end Steps

/-! ## 3. Starting an operation, and queueing -/

section Start

variable {m m' : Monitor} {p : Nat}

/-- Starting the next operation of a program. -/
theorem Inv.sideIdle (hi : m.Inv) (hs : (m.side p).stage = .idle) (hfree : (m.view p).contender.Free)
    (hp : p < m.sides.length) (h : m.sideStep p = some m') : m'.Inv := by
  have hok := hi.ok p
  have hpl : p < m.lock.parties.length := hi.length ▸ hp
  have hk : (m.side p).stage.waiting = false := by simp [hs, WaitStage.waiting]
  simp only [sideStep, hs] at h
  split at h
  · simp at h
  · -- an operation on the user mutex is handed over
    simp only [Option.some.injEq] at h
    subst h
    refine hi.of_local (p := p) (by simp) (by simp) (by simp [hi.length]) ?_ ?_ ?_
    · rw [side_updateSide_self (by simpa using hp)]
      simp [hs]
    · rw [view_updateSide_self (by simpa using hp) (by simp [hs, WaitStage.pending]), view_give_self hpl]
      exact hok.resettle hk _ _ (Or.inl (by simp [hs])) rfl rfl rfl
    · intro q hq
      rw [view_updateSide_ne hq (by simp [hs, WaitStage.pending]), view_give_ne hq]
  · -- a wait is about to queue
    simp only [Option.some.injEq] at h
    subst h
    exact hi.updateSelf hp (by simp [hs, WaitStage.pending]) (by simp)
      (hok.resettle hk _ _ (Or.inr ⟨Or.inl rfl, hfree⟩) rfl rfl rfl)
  · -- a condition variable's wait while the value is below a bound
    split at h
    all_goals
      simp only [Option.some.injEq] at h
      subst h
    · exact hi.updateSelf hp (by simp [hs, WaitStage.pending]) (by simp)
        (hok.resettle hk _ _ (Or.inr ⟨Or.inl rfl, hfree⟩) rfl rfl rfl)
    · exact hi.updateSelf hp rfl (by simp [hs])
        (hok.resettle hk _ _ (Or.inl (by simp [hs])) rfl rfl rfl)
  · -- a notification is about to claim
    simp only [Option.some.injEq] at h
    subst h
    exact hi.updateSelf hp (by simp [hs, WaitStage.pending]) (by simp)
      (hok.resettle hk _ _ (Or.inr ⟨Or.inr (Or.inl ⟨_, rfl⟩), hfree⟩) rfl rfl rfl)

/-- **Queueing.** Under the internal lock the block is queued, unless the waitable is awakened
for good, and a condition variable's waiter hands its guard's unlock over. -/
theorem Inv.enter (hi : m.Inv) (hs : (m.side p).stage = .enter) (hfree : (m.view p).contender.Free)
    (hp : p < m.sides.length) (h : m.sideStep p = some m') : m'.Inv := by
  have hok := hi.ok p
  have hpl : p < m.lock.parties.length := hi.length ▸ hp
  have hpq : p ∉ m.waitable.queue := by
    simpa using (hok.settled (by simp [hs, WaitStage.waiting])).unqueued
  have hpend : (m.side p).stage.pending = [] := by simp [hs, WaitStage.pending]
  simp only [sideStep, hs] at h
  split at h
  swap
  · simp at h
  by_cases hg : (m.side p).guarded = true
  all_goals
    cases hpers : m.waitable.persistent <;>
      simp only [hg, hpers, Waitable.add, if_true, if_false, Bool.false_eq_true,
        Option.some.injEq] at h <;>
      subst h
  -- the block is queued: for the others only the queue and the claims change, and not at them
  case neg.false | pos.false =>
    refine hi.of_view (p := p) (by simp [hi.length])
      (by rw [← List.concat_eq_append]; exact hi.queue_nodup.concat hpq) (hi.claimed_nodup.erase p)
      (by simp [hpers]) (by rw [side_updateSide_self (by simpa using hp)]; simp [Side.fresh]) ?_ ?_
    · rw [view_updateSide_self (by simpa using hp) (by simp [hs, Side.fresh, WaitStage.pending]),
        view_setClaimed, view_setWaitable]
      first
      | rw [view_give_self (by simpa using hpl), view_setInner]
      | rw [view_setInner]
      exact hok.enqueue hs hfree (by simp [hg]) (by simp) (by simp [hi.claimed_nodup.mem_erase_iff])
    · intro q hq
      refine view_congr (by simp [side_updateSide_ne hq]) (by simp [hq]) (by simp [hq])
        (by simp [List.mem_erase_of_ne hq]) ?_
      rw [owed_updateSide_of_pending (by simp [hs, Side.fresh, WaitStage.pending])]
      simp
  -- awakened for good: the block is not queued
  all_goals
    refine hi.of_local (p := p) (by simp) (by simp) (by simp [hi.length])
      (fun _ => hpers) ?_ ?_
    · rw [view_updateSide_self (by simpa using hp) (by simp [hs, WaitStage.pending])]
      first
      | rw [view_give_self (by simpa using hpl), view_setInner]
      | rw [view_setInner]
      exact hok.refused hs hfree (by simp [hg])
    · intro q hq
      rw [view_updateSide_ne hq (by simp [hs, WaitStage.pending])]
      first
      | rw [view_give_ne hq, view_setInner]
      | rw [view_setInner]

end Start

/-! ## 4. Waiting, and the end of a wait -/

section Wait

variable {m m' : Monitor} {p : Nat}

/-- **Releasing the internal lock.** A queued waiter blocks; an unlinked wait is over. -/
theorem Inv.release {b : Bool} (hi : m.Inv) (hs : (m.side p).stage = .release b)
    (hfree : (m.view p).contender.Free) (hp : p < m.sides.length) (h : m.sideStep p = some m') :
    m'.Inv := by
  have hok := hi.ok p
  have hpl : p < m.lock.parties.length := hi.length ▸ hp
  have hpend : (m.side p).stage.pending = [] := by simp [hs, WaitStage.pending]
  simp only [sideStep, hs] at h
  cases b <;> simp only [Bool.false_eq_true, if_true, if_false, Option.some.injEq] at h <;> subst h
  · refine hi.of_local (p := p) (by simp) (by simp) (by simp [hi.length])
      (by rw [side_relock_self (by simpa using hp)]; simp) ?_
      (fun q hq => by rw [view_relock_ne (m := m.setInner none) hq hpend, view_setInner])
    rw [view_relock_self (m := m.setInner none) (by simpa using hp) (by simpa using hpl) hpend,
      view_setInner]
    exact hok.relock_unlinked hs hfree
  · exact (hi.setInner none).updateSelf hp (by simp [hs, WaitStage.pending]) (by simp)
      (hok.sleep hs hfree)

/-- **Blocked.** A waiter consumes a delivered wake (a timed fiber then marks itself gone; any
other waiter's wait is over), or a thread's deadline passes. -/
theorem Inv.sleep (hi : m.Inv) (hs : (m.side p).stage = .sleep) (hfree : (m.view p).contender.Free)
    (hp : p < m.sides.length) (h : m.sideStep p = some m') : m'.Inv := by
  have hok := hi.ok p
  have hw := hok.waiting (by simp [hs, WaitStage.waiting])
  have hpl : p < m.lock.parties.length := hi.length ▸ hp
  have hpend : (m.side p).stage.pending = [] := by simp [hs, WaitStage.pending]
  simp only [sideStep, hs] at h
  split at h
  · rename_i x' hc
    obtain ⟨rfl, -, -⟩ := hw.consume hc
    split at h
    · -- a timed fiber: about to mark itself gone
      rename_i hft
      simp only [Option.some.injEq] at h
      subst h
      exact hi.updateSelf hp (by simp [hs, WaitStage.pending]) (by simp) (hok.resumeGone hs hc hft)
    · -- the wait is over: woken
      rename_i hft
      simp only [Option.some.injEq] at h
      subst h
      exact hi.relockSelf hp hpend (by simp [hs, WaitStage.pending])
        (hok.wokenRelock (Or.inl hs) hfree hc (by simpa using hft))
  · split at h
    · -- a thread's deadline passed
      rename_i hft
      simp only [Option.some.injEq] at h
      subst h
      have hft' : m.fiber p = false ∧ (m.side p).timed = true := by simpa using hft
      exact hi.updateSelf hp (by simp [hs, WaitStage.pending]) (by simp) (hok.retract hs hft'.1)
    · simp at h

/-- **A thread retracts its block** under the internal lock: its own claim wins, and it unlinks
the block and returns false; or a waker claimed first, and it waits for the wake. -/
theorem Inv.retract (hi : m.Inv) (hs : (m.side p).stage = .retract) (hfree : (m.view p).contender.Free)
    (hp : p < m.sides.length) (h : m.sideStep p = some m') : m'.Inv := by
  have hok := hi.ok p
  have hpl : p < m.lock.parties.length := hi.length ▸ hp
  have hpend : (m.side p).stage.pending = [] := by simp [hs, WaitStage.pending]
  simp only [sideStep, hs] at h
  split at h
  swap
  · simp at h
  by_cases hcl : p ∈ m.claimed <;>
    simp only [Waitable.claim, hcl, if_true, if_false, Option.some.injEq] at h <;> subst h
  · -- a waker claimed first
    exact hi.updateSelf hp (by simp [hs, WaitStage.pending]) (by simp) (hok.drain hs)
  · -- the thread's own claim: for the others only the queue and the claims change, not at them
    have hp' : p < (((m.setClaimed (p :: m.claimed)).setWaitable (m.waitable.remove p).1).updateSide p
        (fun x => x.claim true)).sides.length := by simpa using hp
    refine hi.of_view (p := p) (by simp [hi.length]) (by simpa using Waitable.nodup_remove hi.queue_nodup)
      (by simpa using List.nodup_cons.mpr ⟨hcl, hi.claimed_nodup⟩) (by simp)
      (by rw [side_relock_self hp']; simp) ?_ ?_
    · rw [view_relock_self hp' (by simpa using hpl)
        (by rw [side_updateSide_self (by simpa using hp)]; simp [Side.claim, hs, WaitStage.pending]),
        side_updateSide_self (by simpa using hp),
        view_updateSide_self (by simpa using hp) (by simp [Side.claim, hs]), view_setWaitable,
        view_setClaimed]
      rw [show decide (p ∈ p :: m.claimed) = true by simp]
      refine hok.withdrawSelf hs hfree (by simpa using hcl) ?_
      simpa using Waitable.not_mem_remove hi.queue_nodup
    · intro q hq
      rw [view_relock_ne hq
        (by rw [side_updateSide_self (by simpa using hp)]; simp [Side.claim, hs, WaitStage.pending])]
      refine view_congr (by simp [side_updateSide_ne hq]) (by simp) ?_ (by simp [hq]) ?_
      · simpa using Waitable.mem_remove_of_ne (w := m.waitable) hq
      · rw [owed_updateSide_of_pending (by simp [Side.claim])]
        simp

/-- **A thread drains the wake** of the waker that claimed it, and its wait is over. -/
theorem Inv.drain (hi : m.Inv) (hs : (m.side p).stage = .drain) (hfree : (m.view p).contender.Free)
    (hp : p < m.sides.length) (h : m.sideStep p = some m') : m'.Inv := by
  have hok := hi.ok p
  have hw := hok.waiting (by simp [hs, WaitStage.waiting])
  simp only [sideStep, hs] at h
  split at h
  · rename_i x' hc
    obtain ⟨rfl, -, -⟩ := hw.consume hc
    simp only [Option.some.injEq] at h
    subst h
    have hf : m.fiber p = false := by simpa using hw.thread (Or.inr hs)
    exact hi.relockSelf hp (by simp [hs, WaitStage.pending]) (by simp [hs, WaitStage.pending])
      (hok.wokenRelock (Or.inr hs) hfree hc (by simp [hf]))
  · simp at h

/-- **A resumed fiber marks itself gone**, unless its callback holds the waiter-gone lock. -/
theorem Inv.gone (hi : m.Inv) (hs : (m.side p).stage = .gone) (hp : p < m.sides.length)
    (h : m.sideStep p = some m') : m'.Inv := by
  simp only [sideStep, hs] at h
  split at h
  · simp at h
  · simp only [Option.some.injEq] at h
    subst h
    exact hi.updateSelf hp (by simp [hs, WaitStage.pending]) (by simp) ((hi.ok p).markGone hs)

/-- **A fiber removes its callback**: it unlinks the block its callback claimed, or its wait
is over. -/
theorem Inv.disarm (hi : m.Inv) (hs : (m.side p).stage = .disarm) (hfree : (m.view p).contender.Free)
    (hp : p < m.sides.length) (h : m.sideStep p = some m') : m'.Inv := by
  have hok := hi.ok p
  simp only [sideStep, hs] at h
  split at h
  · -- the callback claimed the block
    rename_i hto
    simp only [Option.some.injEq] at h
    subst h
    rw [updateSide_updateSide]
    exact hi.updateSelf hp (by simp [hs, WaitStage.pending]) (by simp) (hok.withdraw hs hto)
  · -- a waker claimed it
    rename_i hto
    simp only [Option.some.injEq] at h
    subst h
    exact hi.relockSelf hp (by simp [hs, WaitStage.pending]) (by simp [hs, WaitStage.pending])
      (hok.disarmRelock hs hfree (by simpa using hto))

/-- **A fiber unlinks the block its callback claimed** under the internal lock; its wait is
over. -/
theorem Inv.withdraw (hi : m.Inv) (hs : (m.side p).stage = .withdraw) (hfree : (m.view p).contender.Free)
    (hp : p < m.sides.length) (h : m.sideStep p = some m') : m'.Inv := by
  have hok := hi.ok p
  have hpl : p < m.lock.parties.length := hi.length ▸ hp
  have hpend : (m.side p).stage.pending = [] := by simp [hs, WaitStage.pending]
  simp only [sideStep, hs] at h
  split at h
  swap
  · simp at h
  simp only [Option.some.injEq] at h
  subst h
  refine hi.of_view (p := p) (by simp [hi.length]) (by simpa using Waitable.nodup_remove hi.queue_nodup)
    (by simpa using hi.claimed_nodup) (by simp) (by rw [side_relock_self (by simpa using hp)]; simp)
    ?_ ?_
  · rw [view_relock_self (m := m.setWaitable (m.waitable.remove p).1) (by simpa using hp) (by simpa using hpl) hpend,
      view_setWaitable]
    exact hok.unlinkRelock hs hfree (by simpa using Waitable.not_mem_remove hi.queue_nodup)
  · intro q hq
    rw [view_relock_ne (m := m.setWaitable (m.waitable.remove p).1) hq hpend]
    exact view_congr rfl rfl (by simpa using Waitable.mem_remove_of_ne (w := m.waitable) hq) Iff.rfl rfl

/-- **The wait returns**, the user mutex retaken by a condition variable's waiter. -/
theorem Inv.relock {r : Bool} (hi : m.Inv) (hs : (m.side p).stage = .relock r)
    (hp : p < m.sides.length) (h : m.sideStep p = some m') :
    m'.Inv := by
  simp only [sideStep, hs, Option.some.injEq] at h
  subst h
  exact hi.updateSelf hp (by simp [hs, WaitStage.pending]) (by simp)
    ((hi.ok p).resettle (by simp [hs, WaitStage.waiting]) _ _ (Or.inl rfl) rfl rfl rfl)

end Wait

/-! ## 5. Notifications -/

section Notify

variable {m m' : Monitor} {p q : Nat} {kind : Notify}

/-- The state after party `p`'s notification of this kind, made under the internal lock: the
waitable and the claims as the notification leaves them, the blocks it chose claimed, and the
party on to waking their parties. -/
def notified (m : Monitor) (p : Nat) (kind : Notify) : Monitor :=
  let r := kind.apply m.waitable m.claimed
  (((m.setWaitable r.1).setClaimed r.2.1).claimAll r.2.2).updateSide p
    (fun x => { x with stage := .wake r.2.2 })

/-- A notification waits for the internal lock, then makes its whole turn in one step. -/
theorem sideStep_notify (hs : (m.side p).stage = .notify kind) :
    m.sideStep p = if m.inner.isNone then some (m.notified p kind) else none := by
  simp only [sideStep, hs, notified]

@[simp] theorem lock_notified : (m.notified p kind).lock = m.lock := rfl

@[simp] theorem waitable_notified :
    (m.notified p kind).waitable = (kind.apply m.waitable m.claimed).1 := rfl

@[simp] theorem length_notified : (m.notified p kind).sides.length = m.sides.length := by
  simp [notified]

section Chosen

variable (hl : m.waitable.queue.Nodup)
include hl

/-- The claims grow by the blocks chosen. -/
theorem claimed_notified :
    (m.notified p kind).claimed = (kind.chosen m.waitable.queue m.claimed).reverse ++ m.claimed :=
  Notify.apply_claimed kind hl

/-- A chosen party is claimed by the waker; every other party keeps its side. -/
theorem side_notified_ne (hq : q ≠ p) :
    (m.notified p kind).side q =
      if q ∈ kind.chosen m.waitable.queue m.claimed ∧ q < m.sides.length then (m.side q).claim false
      else m.side q := by
  rw [notified, side_updateSide_ne hq, side_claimAll, Notify.apply_woken kind hl]
  rfl

/-- The notifier moves on to the parties it chose. -/
theorem side_notified_self (hp : p < m.sides.length)
    (hpc : p ∉ kind.chosen m.waitable.queue m.claimed) :
    (m.notified p kind).side p =
      { m.side p with stage := .wake (kind.chosen m.waitable.queue m.claimed) } := by
  rw [notified, side_updateSide_self (by simpa using hp), side_claimAll, Notify.apply_woken kind hl]
  simp [hpc]

/-- Each chosen party is owed one more wake. -/
theorem owed_notified (hp : p < m.sides.length) (hpend : (m.side p).stage.pending = [])
    (hpc : p ∉ kind.chosen m.waitable.queue m.claimed) (q : Nat) :
    (m.notified p kind).owed q = m.owed q + (kind.chosen m.waitable.queue m.claimed).count q := by
  have h := owed_updateSide (f := fun x => { x with stage := .wake (kind.apply m.waitable m.claimed).2.2 })
    (m := ((m.setWaitable (kind.apply m.waitable m.claimed).1).setClaimed
      (kind.apply m.waitable m.claimed).2.1).claimAll (kind.apply m.waitable m.claimed).2.2)
    (by simpa using hp) q
  rw [Notify.apply_woken kind hl, side_claimAll] at h
  simp only [hpc, false_and, if_false, side_setClaimed, side_setWaitable, hpend, owed_claimAll,
    owed_setClaimed, owed_setWaitable, List.count_nil] at h
  simp only [WaitStage.pending] at h
  rw [notified, Notify.apply_woken kind hl]
  omega

end Chosen

/-- **A notification claims the blocks it chooses** under the internal lock, takes them off
the queue, and lists their parties to wake: each such party is claimed once more and owed one
more wake, and every other party only sees its block leave the queue if it was claimed. -/
theorem Inv.notify (hi : m.Inv) (hs : (m.side p).stage = .notify kind)
    (hfree : (m.view p).contender.Free) (hp : p < m.sides.length) : (m.notified p kind).Inv := by
  have hok := hi.ok p
  have hl := hi.queue_nodup
  have hpq : p ∉ m.waitable.queue := by
    simpa using (hok.settled (by simp [hs, WaitStage.waiting])).unqueued
  -- what the notification takes off the queue and claims
  have hsuf := Notify.apply_queue_suffix kind (w := m.waitable) (c := m.claimed)
  have hchosen : ∀ {q}, q ∈ kind.chosen m.waitable.queue m.claimed →
      q ∈ m.waitable.queue ∧ q ∉ m.claimed := Notify.mem_chosen kind
  have hnd := Notify.chosen_nodup kind (c := m.claimed) hl
  have hpc : p ∉ kind.chosen m.waitable.queue m.claimed := fun h => hpq (hchosen h).1
  have hpend : (m.side p).stage.pending = [] := by simp [hs, WaitStage.pending]
  have hlt : ∀ {q}, q ∈ kind.chosen m.waitable.queue m.claimed → q < m.sides.length := fun hq =>
    lt_of_waiting ((hi.ok _).waiting_of_queued (by simpa using (hchosen hq).1))
  refine ⟨by simp [hi.length], by simpa using hsuf.sublist.nodup hl, ?_, ?_, ?_⟩
  · rw [claimed_notified hl]
    refine List.nodup_append.mpr ⟨List.nodup_reverse.mpr hnd, hi.claimed_nodup, ?_⟩
    intro a ha b hb hab
    subst hab
    exact (hchosen (List.mem_reverse.mp ha)).2 hb
  · -- the claims move no stage, and only a notification for good sets the flag
    intro q hq
    by_cases hqp : q = p
    · subst hqp
      simp [side_notified_self hl hp hpc] at hq
    · rw [side_notified_ne hl hqp] at hq
      have hq' : (m.side q).stage = .release false := by
        split at hq
        · exact hq
        · exact hq
      simp [Notify.apply_persistent, hi.persistent q hq']
  · intro q
    by_cases hqp : q = p
    · -- the notifier moves on to its list of parties to wake
      subst hqp
      have hpw : q ∉ (kind.apply m.waitable m.claimed).1.queue := fun h => hpq (hsuf.subset h)
      have e : (m.notified q kind).view q =
          { m.view q with side := { m.side q with stage := .wake (kind.chosen m.waitable.queue m.claimed) } } :=
        View.ext (by simp [side_notified_self hl hp hpc]) rfl (by simp [hpw, hpq])
          (by simp [claimed_notified hl, hpc])
          (by simp [owed_notified hl hp hpend hpc, List.count_eq_zero_of_not_mem hpc])
      rw [e]
      exact hok.resettle (by simp [hs, WaitStage.waiting]) _ _
        (Or.inr ⟨Or.inr (Or.inr ⟨_, rfl⟩), hfree⟩) rfl rfl rfl
    by_cases hq : q ∈ kind.chosen m.waitable.queue m.claimed
    · -- a chosen party: claimed by the waker, and owed its wake
      have e : (m.notified p kind).view q =
          { m.view q with
            queued := false, claimed := true, side := (m.side q).claim false, owed := m.owed q + 1 } :=
        View.ext (by simp [side_notified_ne hl hqp, hq, hlt hq]) rfl
          (by simp [Notify.apply_not_queued kind hl hq]) (by simp [claimed_notified hl, hq])
          (by simp [owed_notified hl hp hpend hpc, List.count_eq_one_of_mem hnd hq])
      rw [e]
      exact (hi.ok q).claimByWaker (by simpa using (hchosen hq).1) (by simpa using (hchosen hq).2)
    · -- any other party: its block may leave the queue only if it was claimed already
      have e : (m.notified p kind).view q =
          { m.view q with queued := decide (q ∈ (kind.apply m.waitable m.claimed).1.queue) } :=
        View.ext (by simp [side_notified_ne hl hqp, hq]) rfl rfl
          (by simp [claimed_notified hl, hq])
          (by simp [owed_notified hl hp hpend hpc, List.count_eq_zero_of_not_mem hq])
      rw [e]
      refine (hi.ok q).unqueue (fun hb => by simpa using hsuf.subset (by simpa using hb))
        (fun hq' hb => ?_)
      rcases Notify.apply_dropped kind (by simpa using hq') (by simpa using hb) with h' | h'
      · simpa using h'
      · exact absurd h' hq

/-- The first of the parties still to wake. -/
theorem Inv.wake {q : Nat} {ws : List Nat} (hi : m.Inv) (hs : (m.side p).stage = .wake (q :: ws))
    (hfree : (m.view p).contender.Free) (hp : p < m.sides.length) (h : m.sideStep p = some m') :
    m'.Inv := by
  have hok := hi.ok p
  simp only [sideStep, hs, Option.some.injEq] at h
  subst h
  -- the wake is owed to a waiting party, never to the waker itself
  have hcount : ∀ r, (q :: ws).count r ≤ m.owed r := by
    intro r
    have := owed_updateSide (f := fun x => { x with stage := .idle }) hp r
    simp only [hs, WaitStage.pending, List.count_nil] at this
    omega
  have hqowed : 0 < m.owed q := by
    have := hcount q
    simp at this
    omega
  have hqw := (hi.ok q).waiting_of_owed hqowed
  have hql : q < m.sides.length := lt_of_waiting hqw
  have hqp : q ≠ p := by
    rintro rfl
    simp [hs, WaitStage.waiting] at hqw
  have hp' : p < (m.deliver q).sides.length := by simpa [deliver] using hp
  have hdp : (m.deliver q).side p = m.side p := side_updateSide_ne (Ne.symm hqp)
  have howed : ∀ r, ((m.deliver q).updateSide p (fun x => { x with stage := .wake ws })).owed r +
      (if r = q then 1 else 0) = m.owed r := by
    intro r
    have := owed_updateSide (f := fun x => { x with stage := .wake ws }) hp' r
    rw [owed_deliver, hdp, hs] at this
    simp only [WaitStage.pending, List.count_cons, beq_iff_eq] at this
    split at this <;> simp_all <;> omega
  have hside : ∀ r, r ≠ p → r ≠ q →
      ((m.deliver q).updateSide p (fun x => { x with stage := .wake ws })).side r = m.side r :=
    fun r hrp hrq => by rw [side_updateSide_ne hrp, deliver, side_updateSide_ne hrq]
  refine ⟨by simp [deliver, hi.length], hi.queue_nodup, hi.claimed_nodup, ?_, ?_⟩
  · intro r hr
    by_cases hrp : r = p
    · subst hrp
      rw [side_updateSide_self hp'] at hr
      simp at hr
    · rw [side_updateSide_ne hrp] at hr
      by_cases hrq : r = q
      · subst hrq
        rw [deliver, side_updateSide_self hql] at hr
        exact hi.persistent r hr
      · rw [deliver, side_updateSide_ne hrq] at hr
        exact hi.persistent r hr
  · intro r
    by_cases hrp : r = p
    · subst hrp
      have e : ((m.deliver q).updateSide r (fun x => { x with stage := .wake ws })).view r =
          { m.view r with side := { m.side r with stage := .wake ws } } :=
        View.ext (by simp [side_updateSide_self hp', hdp]) rfl rfl rfl
          (by have := howed r; simp [hqp.symm] at this; simpa using this)
      rw [e]
      exact hok.resettle (by simp [hs, WaitStage.waiting]) _ _
        (Or.inr ⟨Or.inr (Or.inr ⟨ws, rfl⟩), hfree⟩) rfl rfl rfl
    by_cases hrq : r = q
    · -- the wake arrives
      subst hrq
      have e : ((m.deliver r).updateSide p (fun x => { x with stage := .wake ws })).view r =
          { m.view r with owed := m.owed r - 1, side := (m.side r).deliver (m.fiber r) } :=
        View.ext (by simp [side_updateSide_ne hrp, deliver, side_updateSide_self hql]) rfl rfl rfl
          (by have := howed r; simp at this; simp; omega)
      rw [e]
      exact (hi.ok r).deliver hqowed
    · have e : ((m.deliver q).updateSide p (fun x => { x with stage := .wake ws })).view r = m.view r :=
        View.ext (by simp [hside r hrp hrq]) rfl rfl rfl
          (by have := howed r; simp [hrq] at this; simpa using this)
      rw [e]
      exact hi.ok r

/-- The last of the parties to wake: the notification is over. -/
theorem Inv.wakeDone (hi : m.Inv) (hs : (m.side p).stage = .wake []) (hp : p < m.sides.length)
    (h : m.sideStep p = some m') : m'.Inv := by
  simp only [sideStep, hs, Option.some.injEq] at h
  subst h
  exact hi.updateSelf hp (by simp [hs, WaitStage.pending]) (by simp)
    ((hi.ok p).resettle (by simp [hs, WaitStage.waiting]) _ _ (Or.inl rfl) rfl rfl rfl)

end Notify

/-! ## 6. Timeout callbacks -/

section Timer

variable {m m' : Monitor} {p : Nat}

/-- Only the parties there are have a callback. -/
theorem lt_of_timerStep (h : m.timerStep p = some m') : p < m.sides.length := by
  by_contra hp
  have hd := side_eq_default (m := m) (q := p) (Nat.le_of_not_lt hp)
  simp [timerStep, hd] at h

/-- **Every step of a timeout callback keeps the invariant**: it fires, then finds the fiber
gone, loses the claim to a waker, or claims the block and resumes the fiber. -/
theorem Inv.timerStep (hi : m.Inv) (h : m.timerStep p = some m') : m'.Inv := by
  have hp := lt_of_timerStep h
  have hok := hi.ok p
  unfold Monitor.timerStep at h
  cases ht : (m.side p).timer <;> simp only [ht] at h
  case off => simp at h
  case armed =>
    simp only [Option.some.injEq] at h
    subst h
    exact hi.updateSelf hp rfl (hi.persistent p) (hok.fire ht)
  case check =>
    split at h
    · simp only [Option.some.injEq] at h
      subst h
      exact hi.updateSelf hp rfl (hi.persistent p) (hok.quiet ht)
    · -- the fiber is not gone: the callback claims the block, unless a waker did
      rename_i hg
      by_cases hcl : p ∈ m.claimed <;>
        simp only [Waitable.claim, hcl, if_true, if_false, Option.some.injEq] at h <;> subst h
      · exact hi.updateSelf hp rfl (hi.persistent p) (hok.quiet ht)
      · refine hi.of_view (p := p) (by simp [hi.length])
          hi.queue_nodup (by simpa using List.nodup_cons.mpr ⟨hcl, hi.claimed_nodup⟩) id
          (fun h' => hi.persistent p (by rwa [side_updateSide_self (by simpa using hp)] at h')) ?_ ?_
        · rw [view_updateSide_self (by simpa using hp) rfl, view_setClaimed,
            show decide (p ∈ p :: m.claimed) = true by simp]
          exact hok.claimByTimeout ht (by simpa using hg) (by simpa using hcl)
        · intro q hq
          rw [view_updateSide_ne hq rfl]
          exact view_congr rfl rfl Iff.rfl (by simp [hq]) rfl
  case wakeUp =>
    -- the callback resumes the fiber it claimed for
    simp only [Option.some.injEq] at h
    subst h
    rw [deliver, updateSide_updateSide]
    exact hi.updateSelf hp rfl (hi.persistent p) (hok.resumeByTimeout ht)

end Timer

/-! ## 7. Steps on the user mutex -/

section Lock

variable {m : Monitor} {p : Nat}

/-- A party busy with the user mutex has an operation on it running. -/
theorem not_free_of_busy (h : m.busy p = true) : ¬ (m.view p).contender.Free := by
  rintro ⟨hprog, hst⟩
  have hprog' : (m.lock.party p).program = [] := hprog
  have hst' : (m.lock.party p).stage = .idle := hst
  simp only [busy, hprog', hst', List.isEmpty_nil, Bool.not_true, Bool.or_false] at h
  exact absurd h (by decide)

/-- The phase of a wait holds its operation on the user mutex to dropping or retaking the
guard, which each of the mutex's steps keeps. -/
theorem phase_lockStep (hph : (m.view p).Phase) (hbusy : m.busy p = true) {t : Contention}
    (h : m.lock.step p = some t) :
    ({ m.view p with contender := { t.party p with wakeup := {} } } : View).Phase := by
  have hnf := not_free_of_busy hbusy
  cases hk : (m.side p).stage <;> simp only [View.Phase, side_view, hk] at hph ⊢
  case release b =>
    by_cases hg : (m.side p).guarded = true
    · simp only [hg, if_true] at hph ⊢
      exact Contender.Dropping.step hph h
    · simp only [hg] at hph
      exact absurd hph hnf
  case relock b =>
    by_cases hg : (m.side p).guarded = true
    · simp only [hg, if_true] at hph ⊢
      exact Contender.Retaking.step hph h
    · simp only [hg] at hph
      exact absurd hph hnf
  all_goals exact absurd hph.1 hnf

/-- **A step on the user mutex keeps the invariant**: the others see at most a wake arrive
on it, and the stepping party stays within the phase of its wait. -/
theorem Inv.lockStep (hi : m.Inv) (hbusy : m.busy p = true) {t : Contention}
    (h : m.lock.step p = some t) : (m.setLock t).Inv := by
  have hok := hi.ok p
  refine hi.of_local (p := p) rfl rfl (by simp [Contention.length_step h, hi.length])
    (fun h' => hi.persistent p h') ?_ ?_
  · exact hok.recontend (Contention.fiber_step_self h) (phase_lockStep hok.phase hbusy h)
  · intro q hq
    refine view_congr rfl ?_ Iff.rfl Iff.rfl rfl
    rcases Contention.party_step_ne h hq with e | e
    · rw [lock_setLock, e]
    · rw [lock_setLock, e]
      rfl

end Lock

/-! ## 8. Every run -/

section Run

variable {m m' : Monitor}

/-- **Every side step keeps the invariant**, by the stage it starts from. -/
theorem Inv.sideStep {p : Nat} (hi : m.Inv) (hbusy : m.busy p = false)
    (h : m.sideStep p = some m') : m'.Inv := by
  have hp := lt_of_sideStep h
  have hfree := free_of_busy hbusy
  cases hs : (m.side p).stage with
  | idle => exact hi.sideIdle hs hfree hp h
  | enter => exact hi.enter hs hfree hp h
  | release b => exact hi.release hs hfree hp h
  | sleep => exact hi.sleep hs hfree hp h
  | retract => exact hi.retract hs hfree hp h
  | drain => exact hi.drain hs hfree hp h
  | gone => exact hi.gone hs hp h
  | disarm => exact hi.disarm hs hfree hp h
  | withdraw => exact hi.withdraw hs hfree hp h
  | relock r => exact hi.relock hs hp h
  | notify kind =>
    rw [sideStep_notify hs] at h
    split at h
    · simp only [Option.some.injEq] at h
      exact h ▸ hi.notify hs hfree hp
    · simp at h
  | wake ws =>
    cases ws with
    | nil => exact hi.wakeDone hs hp h
    | cons q ws => exact hi.wake hs hfree hp h

/-- **Every step keeps the invariant.** -/
theorem Inv.step (hi : m.Inv) {a : Turn} (h : m.step a = some m') : m'.Inv := by
  cases a with
  | party p =>
    simp only [Monitor.step] at h
    split at h
    · rename_i hbusy
      obtain ⟨t, ht, rfl⟩ := Option.map_eq_some_iff.mp h
      exact hi.lockStep hbusy ht
    · rename_i hbusy
      exact hi.sideStep (by simpa using hbusy) h
  | timer p => exact hi.timerStep h

theorem Inv.next (hi : m.Inv) (a : Turn) : (m.next a).Inv := by
  unfold Monitor.next
  cases h : m.step a with
  | none => exact hi
  | some m' => exact hi.step h

/-- The invariant holds all along a schedule, by induction on it. -/
theorem Inv.run (hi : m.Inv) (schedule : List Turn) : (m.run schedule).Inv := by
  induction schedule generalizing m with
  | nil => exact hi
  | cons a rest ih => exact ih (hi.next a)

/-- Before any step every party is idle. -/
theorem stage_start (programs : List (Bool × List MonitorOp)) (r : Nat) :
    ((start programs).side r).stage = .idle := by
  simp only [start, side, List.getD_eq_getElem?_getD, List.getElem?_map]
  cases programs[r]? <;> rfl

theorem inv_start (programs : List (Bool × List MonitorOp)) : (start programs).Inv := by
  refine ⟨by simp [start, Contention.start], by simp [start], by simp [start], ?_, fun p => ?_⟩
  · intro p hp
    simp [stage_start] at hp
  · have hs := stage_start programs p
    have hside : ((start programs).side p).wakeup = {} ∧ ((start programs).side p).timer = .off := by
      simp only [start, side, List.getD_eq_getElem?_getD, List.getElem?_map]
      cases programs[p]? <;> exact ⟨rfl, rfl⟩
    refine View.Ok.of_settled (by simp [hs, WaitStage.waiting]) (by simp [View.Phase, hs]) ?_
      (by simp [hs]) (by simp [hs])
    exact ⟨by simp [start], by simp [owed, stage_start, WaitStage.pending], by simpa using hside.1,
      Or.inl (by simpa using hside.2)⟩

/-- **The invariant of waits and notifications holds in every state a schedule reaches.** -/
theorem inv_run_start (programs : List (Bool × List MonitorOp)) (schedule : List Turn) :
    ((start programs).run schedule).Inv :=
  (inv_start programs).run schedule

end Run

end Monitor

end Fibers
