import Mathlib
import Fibers.Proofs.MonitorSteps
/-!
# Timed waits resolve exactly once

A timed wait has two racers for its block: a waker, which claims it under the internal lock,
and its timeout, which claims it as the thread's own retraction under the same lock or as the
fiber's callback under the waiter-gone lock. The loser backs off (the thread drains the
waker's wake; the fiber, once resumed, reads whether its callback claimed). So a wait's block
is claimed at most once while the wait is under way (`Monitor.Inv.claims_of_waiting`), and a
linked wait returns once its block has been claimed exactly once, with false exactly when its
timeout made the claim; the block is then unlinked, its one wake was delivered and consumed,
and no other wake is on its way (`Monitor.Inv.returns_resolved`). A fiber that has gone is
never touched by its callback again (`Monitor.Inv.timer_of_gone`).

Main statement: `Monitor.timed_waits_resolve_once`, for every state a schedule reaches from the
start.
-/

namespace Fibers

namespace Monitor

variable {m t : Monitor} {p : Nat}

/-- **A wait's block is claimed at most once** while the wait is under way: exactly when it is
among the claims. -/
theorem Inv.claims_of_waiting (hi : m.Inv) (hw : (m.side p).stage.waiting = true) :
    (m.side p).claims = if p ∈ m.claimed then 1 else 0 := by
  have hwt := (hi.ok p).waiting hw
  by_cases hc : p ∈ m.claimed
  · simpa [hc] using (hwt.claimed (by simpa using hc)).1
  · simpa [hc] using (hwt.unclaimed (by simpa using hc)).1

/-- **A linked wait returns resolved**: its block claimed exactly once, false exactly when its
timeout made the claim, the block unlinked, its wake delivered exactly once and consumed (none
to a thread that claimed its own block), and no other wake on its way. -/
theorem Inv.returns_resolved {r : Bool} (hi : m.Inv) (hs : (m.side p).stage = .relock r)
    (hl : (m.side p).linked = true) :
    (m.side p).claims = 1 ∧ (r = false ↔ (m.side p).byTimeout = true) ∧
      p ∉ m.waitable.queue ∧
      (m.side p).wakes = (if (m.side p).byTimeout && !m.fiber p then 0 else 1) ∧
      (m.side p).wakeup = {} ∧ m.owed p = 0 ∧ (m.side p).timer ≠ .wakeUp := by
  have hok := hi.ok p
  obtain ⟨h1, hr, hwakes⟩ := (hok.result r hs).1 hl
  have hr' : r = !(m.side p).byTimeout := hr
  have hset := hok.settled (by simp [hs, WaitStage.waiting])
  have htimer : (m.side p).timer = .off ∨ (m.side p).timer = .check := by
    rcases hset.timer with h | ⟨h, -⟩
    · exact Or.inl h
    · exact Or.inr h
  refine ⟨h1, ?_, by simpa using hset.unqueued, hwakes, hset.wakeup, hset.owed, ?_⟩
  · rw [hr']
    cases (m.side p).byTimeout <;> simp
  · rcases htimer with h | h <;> simp [h]

/-- A wait refused by a waitable awakened for good returns true at once. -/
theorem Inv.refused_returns_true {r : Bool} (hi : m.Inv) (hs : (m.side p).stage = .relock r)
    (hl : (m.side p).linked = false) : r = true :=
  ((hi.ok p).result r hs).2 hl

/-- **Once its fiber is gone, the callback moves nothing but its own stage**: it never claims
the block nor resumes the fiber. -/
theorem Inv.timer_of_gone (hi : m.Inv) (hg : (m.side p).gone = true)
    (h : m.step (.timer p) = some t) : ∃ k, t = m.updateSide p (fun x => { x with timer := k }) := by
  have hok := hi.ok p
  simp only [Monitor.step] at h
  unfold Monitor.timerStep at h
  cases ht : (m.side p).timer <;> simp only [ht] at h
  case off => simp at h
  case armed => exact ⟨.check, by simpa using h.symm⟩
  case check =>
    simp only [hg, if_true, Option.some.injEq] at h
    exact ⟨.off, h.symm⟩
  case wakeUp =>
    -- a callback about to resume its fiber finds it still blocked, and so not gone
    exfalso
    have hw := hok.waiting (hok.waiting_of_timer (Or.inr (Or.inl ht)))
    obtain ⟨-, hk⟩ := hw.wakeUp ht
    have hgone := hw.gone.mp hg
    simp only [side_view] at hk hgone
    rcases hk with hk | hk <;> rw [hk] at hgone <;> simp at hgone

/-- What a state shows of its waits: those under way, those that return, and the callbacks of
fibers that have gone. -/
structure ResolvesOnce (m : Monitor) : Prop where
  /-- While a wait is under way its block is claimed at most once: exactly when it is among
  the claims. -/
  claims : ∀ p, (m.side p).stage.waiting = true →
    (m.side p).claims = if p ∈ m.claimed then 1 else 0
  /-- A linked wait returns once its block has been claimed exactly once, with false exactly
  when its timeout made the claim; its block is unlinked, its wake was delivered exactly once
  and consumed (none to a thread that claimed its own block), and no other wake is on its
  way. -/
  returns : ∀ p r, (m.side p).stage = .relock r → (m.side p).linked = true →
    (m.side p).claims = 1 ∧ (r = false ↔ (m.side p).byTimeout = true) ∧
      p ∉ m.waitable.queue ∧
      (m.side p).wakes = (if (m.side p).byTimeout && !m.fiber p then 0 else 1) ∧
      (m.side p).wakeup = {} ∧ m.owed p = 0 ∧ (m.side p).timer ≠ .wakeUp
  /-- A wait refused by a waitable awakened for good returns true. -/
  refused : ∀ p r, (m.side p).stage = .relock r → (m.side p).linked = false → r = true
  /-- Once its fiber is gone, the callback moves nothing but its own stage. -/
  gone : ∀ p t, (m.side p).gone = true → m.step (.timer p) = some t →
    ∃ k, t = m.updateSide p (fun x => { x with timer := k })

theorem Inv.resolvesOnce (hi : m.Inv) : m.ResolvesOnce where
  claims _ := hi.claims_of_waiting
  returns _ _ := hi.returns_resolved
  refused _ _ := hi.refused_returns_true
  gone _ _ := hi.timer_of_gone

/-- **Timed waits resolve exactly once**, in every state a schedule reaches from the start. -/
theorem timed_waits_resolve_once (programs : List (Bool × List MonitorOp)) (schedule : List Turn) :
    ((start programs).run schedule).ResolvesOnce :=
  (inv_run_start programs schedule).resolvesOnce

end Monitor

end Fibers
