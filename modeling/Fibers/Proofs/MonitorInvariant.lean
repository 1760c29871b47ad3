import Mathlib
import Fibers.Proofs.MonitorView
/-!
# The invariant of waits and notifications

Every state a schedule reaches from the start satisfies `Monitor.Inv`: no block is queued
twice or claimed twice, and each party's view satisfies `View.Ok`, which says, stage by
stage of the party's wait:

* what the party's operation on the user mutex is doing (`View.Phase`): a condition
  variable's waiter drops its guard only from the stage that holds the internal lock with
  its block queued, holds no guard while it waits, and retakes it before the wait returns;
* while a linked wait lasts (`View.Waiting`), its block is queued or claimed; until claimed
  nothing has happened to it; once claimed it was claimed once, and exactly one wake is on
  its way or delivered: owed by a notifier, held by the fiber's callback, or in its wake-up;
* outside a linked wait (`View.Settled`), nothing of the party is queued, owed or pending;
* a wait that is over (`View.Result`) was claimed once, returns false exactly when the claim
  was its timeout's, and was woken once unless a thread withdrew by itself.

This module states the invariant and the lemmas every step goes through: the frame lemma
`Monitor.Inv.of_view`, and how a view may change under another party's step (a notifier
drops a claimed block from the queue, claims a block, or delivers a wake).
-/

namespace Fibers

namespace Contender

/-- Not in the middle of an operation on the user mutex. -/
def Free (x : Contender) : Prop := x.program = [] ∧ x.stage = .idle

end Contender

/-! ## 1. The invariant of one party -/

namespace View

variable (v : View)

/-- What a wait asks of the party's operation on the user mutex, stage by stage. -/
def Phase : Prop :=
  match v.side.stage with
  | .idle => True
  | .release _ => if v.side.guarded then v.contender.Dropping else v.contender.Free
  | .relock _ => if v.side.guarded then v.contender.Retaking else v.contender.Free
  | k => v.contender.Free ∧ (k.waiting = true → v.side.guarded = true → v.contender.owns = false)

/-- A linked wait, from the queueing of its block to its end. -/
structure Waiting : Prop where
  linked : v.side.linked = true
  /-- The block is queued, or claimed. -/
  held : v.queued = true ∨ v.claimed = true
  /-- Until the block is claimed nothing has happened to the wait. -/
  unclaimed : v.claimed = false → v.side.claims = 0 ∧ v.side.wakes = 0 ∧ v.owed = 0 ∧
    v.side.byTimeout = false ∧ v.side.timer ≠ .wakeUp
  /-- Once claimed, the block was claimed once, and one wake is owed, held by the callback,
  or delivered. -/
  claimed : v.claimed = true → v.side.claims = 1 ∧
    v.owed + (if v.side.timer = .wakeUp then 1 else 0) + v.side.wakes = 1
  /-- Only a block its callback claimed stays queued once claimed. -/
  queued_claimed : v.queued = true → v.claimed = true → v.side.byTimeout = true
  /-- A delivered wake is pending until the waiter consumes it. -/
  wakeup : v.side.wakeup =
    Wakeup.holding v.contender.fiber (decide (v.side.stage.awake = true ∧ v.side.wakes = 1))
  /-- A resumed fiber consumed its one wake. -/
  resumed : v.side.stage.resumed = true → v.side.wakes = 1 ∧ v.contender.fiber = true
  /-- Only threads retract their block and drain a wake. -/
  thread : v.side.stage = .retract ∨ v.side.stage = .drain → v.contender.fiber = false
  /-- While the wait lasts, only a fiber's callback has claimed by timeout. -/
  byTimeout : v.side.byTimeout = true → v.contender.fiber = true ∧ v.side.timed = true
  timedOut : v.side.timedOut = v.side.byTimeout
  /-- Only a timed fiber has a callback. -/
  timer : v.side.timer ≠ .off → v.contender.fiber = true ∧ v.side.timed = true
  /-- A callback about to resume the fiber claimed its block before the fiber woke. -/
  wakeUp : v.side.timer = .wakeUp →
    v.side.byTimeout = true ∧ (v.side.stage = .release true ∨ v.side.stage = .sleep)
  /-- An armed callback is disarmed before the block is unlinked. -/
  armed : v.side.timer = .armed → v.side.stage ≠ .withdraw
  /-- The fiber marks itself gone once resumed. -/
  gone : v.side.gone = true ↔ v.side.stage = .disarm ∨ v.side.stage = .withdraw
  /-- A fiber unlinks its block only when its callback claimed it. -/
  withdraw : v.side.stage = .withdraw → v.side.byTimeout = true

/-- Outside the linked stages of a wait nothing of the party is queued, owed or pending, and
at most a callback that found its fiber gone is left. -/
structure Settled : Prop where
  unqueued : v.queued = false
  owed : v.owed = 0
  wakeup : v.side.wakeup = {}
  timer : v.side.timer = .off ∨ (v.side.timer = .check ∧ v.side.gone = true)

/-- What a wait over with result `r` comes to: a linked wait was claimed once, returns false
exactly when the claim was its timeout's, and was woken once unless a thread withdrew by
itself; an unlinked one returns true. -/
def Result (r : Bool) : Prop :=
  (v.side.linked = true → v.side.claims = 1 ∧ r = !v.side.byTimeout ∧
    v.side.wakes = (if v.side.byTimeout && !v.contender.fiber then 0 else 1)) ∧
  (v.side.linked = false → r = true)

/-- The invariant of one party. -/
structure Ok : Prop where
  phase : v.Phase
  waiting : v.side.stage.waiting = true → v.Waiting
  settled : v.side.stage.waiting = false → v.Settled
  /-- A wait that found the waitable awakened for good is not linked. -/
  unlinked : v.side.stage = .release false → v.side.linked = false
  result : ∀ r, v.side.stage = .relock r → v.Result r

variable {v}

/-- A party is fine in a linked stage when its wait is. -/
theorem Ok.of_waiting (hs : v.side.stage.waiting = true) (hp : v.Phase) (hw : v.Waiting) : v.Ok where
  phase := hp
  waiting := fun _ => hw
  settled := fun h => by simp [hs] at h
  unlinked := fun h => by simp [h, WaitStage.waiting] at hs
  result := fun r hr => by simp [hr, WaitStage.waiting] at hs

/-- A party is fine outside the linked stages when it is settled. -/
theorem Ok.of_settled (hs : v.side.stage.waiting = false) (hp : v.Phase) (hset : v.Settled)
    (hu : v.side.stage = .release false → v.side.linked = false)
    (hr : ∀ r, v.side.stage = .relock r → v.Result r) : v.Ok where
  phase := hp
  waiting := fun h => by simp [hs] at h
  settled := fun _ => hset
  unlinked := hu
  result := hr

/-- A queued block belongs to a linked wait. -/
theorem Ok.waiting_of_queued (h : v.Ok) (hq : v.queued = true) : v.side.stage.waiting = true := by
  by_contra hw
  have := (h.settled (by simpa using hw)).unqueued
  simp [hq] at this

/-- A party owed a wake is in a linked wait. -/
theorem Ok.waiting_of_owed (h : v.Ok) (ho : 0 < v.owed) : v.side.stage.waiting = true := by
  by_contra hw
  have := (h.settled (by simpa using hw)).owed
  omega

/-- A party owed a wake is claimed, and has had none yet. -/
theorem Ok.of_owed (h : v.Ok) (ho : 0 < v.owed) :
    v.claimed = true ∧ v.owed = 1 ∧ v.side.wakes = 0 ∧ v.side.timer ≠ .wakeUp := by
  have hw := h.waiting (h.waiting_of_owed ho)
  cases hc : v.claimed
  · have := (hw.unclaimed hc).2.2.1
    omega
  · obtain ⟨-, hsum⟩ := hw.claimed hc
    by_cases ht : v.side.timer = .wakeUp
    · simp [ht] at hsum
      omega
    · simp [ht] at hsum
      exact ⟨rfl, by omega, by omega, ht⟩

end View

/-! ## 2. The invariant of a state -/

namespace Monitor

/-- The invariant of every state a schedule reaches. -/
structure Inv (m : Monitor) : Prop where
  length : m.sides.length = m.lock.parties.length
  queue_nodup : m.waitable.queue.Nodup
  claimed_nodup : m.claimed.Nodup
  /-- A wait finds its block unqueued only on a waitable awakened for good. -/
  persistent : ∀ p, (m.side p).stage = .release false → m.waitable.persistent = true
  ok : ∀ p, (m.view p).Ok

section Frame

variable {m m' : Monitor} {p : Nat}

/-- **The frame lemma**: the invariant survives a step after which the acting party is fine
and every other party shows the same view. -/
theorem Inv.of_view (hi : m.Inv) (hlen : m'.sides.length = m'.lock.parties.length)
    (hq : m'.waitable.queue.Nodup) (hc : m'.claimed.Nodup)
    (hpers : m.waitable.persistent = true → m'.waitable.persistent = true)
    (hrel : (m'.side p).stage = .release false → m'.waitable.persistent = true)
    (hp : (m'.view p).Ok) (hother : ∀ q, q ≠ p → m'.view q = m.view q) : m'.Inv where
  length := hlen
  queue_nodup := hq
  claimed_nodup := hc
  persistent q hs := by
    by_cases hqp : q = p
    · exact hrel (hqp ▸ hs)
    · have hside : m'.side q = m.side q := by
        simpa using congrArg View.side (hother q hqp)
      exact hpers (hi.persistent q (hside ▸ hs))
  ok q := by
    by_cases hqp : q = p
    · exact hqp ▸ hp
    · rw [hother q hqp]
      exact hi.ok q

/-- A step that leaves the waitable and the claims alone, and shows only the acting party
otherwise. -/
theorem Inv.of_local (hi : m.Inv) (hw : m'.waitable = m.waitable) (hc : m'.claimed = m.claimed)
    (hlen : m'.sides.length = m'.lock.parties.length)
    (hrel : (m'.side p).stage = .release false → m.waitable.persistent = true)
    (hp : (m'.view p).Ok) (hother : ∀ q, q ≠ p → m'.view q = m.view q) : m'.Inv :=
  hi.of_view hlen (hw ▸ hi.queue_nodup) (hc ▸ hi.claimed_nodup) (fun h => hw ▸ h)
    (fun h => hw ▸ hrel h) hp hother

end Frame

end Monitor

/-! ## 3. What another party's step may do to a view -/

namespace View

variable {v : View}

/-- **Dropping claimed blocks.** A notifier may take blocks off the queue that are claimed
already. -/
theorem Ok.unqueue (h : v.Ok) {b : Bool} (hb : b = true → v.queued = true)
    (hc : v.queued = true → b = false → v.claimed = true) : { v with queued := b }.Ok where
  phase := h.phase
  unlinked := h.unlinked
  waiting hs :=
    have hw := h.waiting hs
    { hw with
      held := by
        cases b
        · rcases hw.held with hq | hc'
          · exact Or.inr (hc hq rfl)
          · exact Or.inr hc'
        · exact Or.inl rfl
      queued_claimed := fun hq => hw.queued_claimed (hb hq) }
  settled hs :=
    have hset := h.settled hs
    { hset with
      unqueued := by
        cases b
        · rfl
        · simpa [hset.unqueued] using hb rfl }
  result := h.result

/-- **A notifier's claim.** A queued, unclaimed block is claimed by a waker, leaves the queue,
and is owed one wake. -/
theorem Ok.claimByWaker (h : v.Ok) (hq : v.queued = true) (hc : v.claimed = false) :
    { v with queued := false, claimed := true, side := v.side.claim false, owed := v.owed + 1 }.Ok := by
  have hs := h.waiting_of_queued hq
  have hw := h.waiting hs
  obtain ⟨hclaims, hwakes, howed, hby, htimer⟩ := hw.unclaimed hc
  refine View.Ok.of_waiting hs h.phase ?_
  exact
    { hw with
      held := Or.inr rfl
      unclaimed := fun h' => by simp at h'
      claimed := fun _ => by simp [Side.claim, hclaims, hwakes, howed, htimer]
      queued_claimed := fun h' => by simp at h'
      byTimeout := fun h' => by simp [Side.claim] at h'
      timedOut := by simpa [Side.claim, hby] using hw.timedOut
      wakeUp := fun h' => absurd h' htimer
      withdraw := fun hk => by
        have hk' : v.side.stage = .withdraw := hk
        have := (hw.resumed (by simp [hk', WaitStage.resumed])).1
        omega }

/-- **A wake delivered.** The one wake owed to a party arrives. -/
theorem Ok.deliver (h : v.Ok) (ho : 0 < v.owed) :
    { v with owed := v.owed - 1, side := v.side.deliver v.contender.fiber }.Ok := by
  have hs := h.waiting_of_owed ho
  have hw := h.waiting hs
  obtain ⟨hc, howed, hwakes, htimer⟩ := h.of_owed ho
  -- the wake had not arrived, so the party has not moved past a stage that awaits it
  have hawake : v.side.stage.awake = true := by
    have hres : v.side.stage.resumed = false := by
      by_contra hr
      have := (hw.resumed (by simpa using hr)).1
      omega
    exact WaitStage.awake_of_waiting hs hres
  refine View.Ok.of_waiting hs h.phase ?_
  exact
    { hw with
      held := Or.inr hc
      unclaimed := fun h' => by simp [hc] at h'
      claimed := fun _ => by
        have := (hw.claimed hc).1
        simp [Side.deliver, this, howed, hwakes, htimer]
      wakeup := by
        have hold := hw.wakeup
        simp only [hwakes, hawake] at hold
        simp [Side.deliver, hold, hwakes, hawake]
      resumed := fun h' => by
        have := (hw.resumed h').1
        omega }

/-! ## 4. A party's own steps

One lemma per move of a party through its wait: what the move does to the party's view, and
why the invariant still holds of it. The steps of `Fibers.Proofs.MonitorSteps` only compute
the new view and cite these. -/

section Facts

/-- In the linked stages past the release the phase asks the same: nothing running on the
user mutex, and no guard held by a condition variable's waiter. -/
theorem phase_iff_of_blocked (hk : v.side.stage.waiting = true) (hr : v.side.stage ≠ .release true) :
    v.Phase ↔ v.contender.Free ∧ (v.side.guarded = true → v.contender.owns = false) := by
  unfold Phase
  cases hs : v.side.stage
  case release b => cases b <;> simp_all [WaitStage.waiting]
  all_goals simp_all [WaitStage.waiting]

/-- A consumed wake is the one the wait was delivered. -/
theorem Waiting.consume {x' : Side} (hw : v.Waiting) (hc : v.side.consume v.contender.fiber = some x') :
    x' = { v.side with wakeup := {} } ∧ v.side.stage.awake = true ∧ v.side.wakes = 1 := by
  unfold Side.consume at hc
  obtain ⟨w, hw', rfl⟩ := Option.map_eq_some_iff.mp hc
  rw [hw.wakeup] at hw'
  by_cases hb : v.side.stage.awake = true ∧ v.side.wakes = 1
  · rw [decide_eq_true hb, Wakeup.consume_holding_true] at hw'
    cases hw'
    exact ⟨rfl, hb⟩
  · rw [decide_eq_false hb, Wakeup.consume_holding_false] at hw'
    cases hw'

/-- A wait that was delivered its wake was claimed, and owes nothing more. -/
theorem Waiting.of_woken (hw : v.Waiting) (h1 : v.side.wakes = 1) :
    v.claimed = true ∧ v.owed = 0 ∧ v.side.timer ≠ .wakeUp := by
  cases hc : v.claimed
  · have := (hw.unclaimed hc).2.1
    omega
  · obtain ⟨-, hsum⟩ := hw.claimed hc
    by_cases ht : v.side.timer = .wakeUp
    · simp [ht] at hsum
      omega
    · simp [ht] at hsum
      exact ⟨rfl, by omega, ht⟩

/-- A claimed wait whose claim was not its timeout's is no longer queued. -/
theorem Waiting.unqueued (hw : v.Waiting) (hc : v.claimed = true) (hb : v.side.byTimeout = false) :
    v.queued = false := by
  cases hq : v.queued
  · rfl
  · simp [hw.queued_claimed hq hc] at hb

end Facts

section Settled

/-- **Between waits.** A party outside the linked stages may move among the stages that hold
nothing of a wait, once its operation on the user mutex has finished. -/
theorem Ok.resettle (h : v.Ok) (hk : v.side.stage.waiting = false) (x' : Side) (c : Contender)
    (hk' : x'.stage = .idle ∨
      ((x'.stage = .enter ∨ (∃ kind, x'.stage = .notify kind) ∨ ∃ ws, x'.stage = .wake ws) ∧ c.Free))
    (hw : x'.wakeup = v.side.wakeup) (ht : x'.timer = v.side.timer) (hg : x'.gone = v.side.gone) :
    { v with side := x', contender := c }.Ok := by
  have hset := h.settled hk
  have hk'w : x'.stage.waiting = false := by
    rcases hk' with h1 | ⟨h1 | ⟨_, h1⟩ | ⟨_, h1⟩, -⟩ <;> simp [h1, WaitStage.waiting]
  have hk'r : ∀ r, x'.stage ≠ .relock r ∧ x'.stage ≠ .release r := by
    intro r
    rcases hk' with h1 | ⟨h1 | ⟨_, h1⟩ | ⟨_, h1⟩, -⟩ <;> simp [h1]
  refine Ok.of_settled hk'w ?_ ⟨hset.unqueued, hset.owed, hw.trans hset.wakeup, ?_⟩
    (fun h1 => absurd h1 (hk'r false).2) (fun r h1 => absurd h1 (hk'r r).1)
  · rcases hk' with h1 | ⟨h1 | ⟨_, h1⟩ | ⟨_, h1⟩, hc⟩
    · simp [Phase, h1]
    all_goals simp [Phase, h1, hc, WaitStage.waiting]
  · rw [ht, hg]
    exact hset.timer

/-- **Queueing.** A wait queues a fresh block, unclaimed, and a condition variable's waiter
hands its guard's unlock over. -/
theorem Ok.enqueue (h : v.Ok) (hs : v.side.stage = .enter) (hfree : v.contender.Free)
    {c' : Contender}
    (hc' : c' = if v.side.guarded then { v.contender with program := [.unlock] } else v.contender)
    {q c : Bool} (hq : q = true) (hc : c = false) :
    { v with
      side := v.side.fresh (v.contender.fiber && v.side.timed), contender := c', queued := q,
      claimed := c }.Ok := by
  have hset := h.settled (by simp [hs, WaitStage.waiting])
  subst hq hc hc'
  refine Ok.of_waiting (by simp [Side.fresh, WaitStage.waiting]) ?_ ?_
  · simp only [Phase, Side.fresh]
    split_ifs
    · exact Or.inl ⟨rfl, hfree.2⟩
    · exact hfree
  · refine
      { linked := rfl
        held := Or.inl rfl
        unclaimed := fun _ => ⟨rfl, rfl, hset.owed, rfl, ?_⟩
        claimed := fun h' => by simp at h'
        queued_claimed := fun _ h' => by simp at h'
        wakeup := by simp [Side.fresh]
        resumed := by simp [Side.fresh, WaitStage.resumed]
        thread := by simp [Side.fresh]
        byTimeout := by simp [Side.fresh]
        timedOut := rfl
        timer := ?_
        wakeUp := ?_
        armed := by simp [Side.fresh]
        gone := by simp [Side.fresh]
        withdraw := by simp [Side.fresh] }
    all_goals
      simp only [Side.fresh]
      split_ifs with ha <;> simp_all

/-- **An unlinked wait.** On a waitable awakened for good the block is not queued; a condition
variable's waiter still hands its guard's unlock over. -/
theorem Ok.refused (h : v.Ok) (hs : v.side.stage = .enter) (hfree : v.contender.Free)
    {c' : Contender}
    (hc' : c' = if v.side.guarded then { v.contender with program := [.unlock] } else v.contender) :
    { v with side := { v.side with stage := .release false, linked := false }, contender := c' }.Ok := by
  have hset := h.settled (by simp [hs, WaitStage.waiting])
  subst hc'
  refine Ok.of_settled (by simp [WaitStage.waiting]) ?_ { hset with } (fun _ => rfl)
    (fun r hr => by simp at hr)
  simp only [Phase]
  split_ifs
  · exact Or.inl ⟨rfl, hfree.2⟩
  · exact hfree

/-- **A wait ends.** The party moves to relock with the result of its wait, and a condition
variable's waiter hands the lock over. -/
theorem Ok.relock (hfree : v.contender.Free) (r : Bool)
    (hset : { v with side := { v.side with stage := .relock r } }.Settled)
    (hres : { v with side := { v.side with stage := .relock r } }.Result r) :
    { v with
      side := { v.side with stage := .relock r },
      contender := (if v.side.guarded then { v.contender with program := [.lock] } else v.contender) }.Ok := by
  refine Ok.of_settled (by simp [WaitStage.waiting]) ?_ { hset with } (fun h => by simp at h) ?_
  · simp only [Phase]
    split_ifs
    · exact Or.inl ⟨rfl, hfree.2⟩
    · exact hfree
  · intro r' hr'
    simp only [WaitStage.relock.injEq] at hr'
    subst hr'
    split_ifs
    · exact hres
    · exact hres

/-- An unlinked wait returns true at once. -/
theorem Ok.relock_unlinked (h : v.Ok) (hs : v.side.stage = .release false) (hfree : v.contender.Free) :
    { v with
      side := { v.side with stage := .relock true },
      contender := (if v.side.guarded then { v.contender with program := [.lock] } else v.contender) }.Ok := by
  have hset := h.settled (by simp [hs, WaitStage.waiting])
  refine Ok.relock hfree true { hset with } ⟨fun hl => ?_, fun _ => rfl⟩
  simp [h.unlinked hs] at hl

end Settled

section Linked

/-- The phase carries over between linked stages past the release. -/
theorem phase_restage (hph : v.Phase) (hk : v.side.stage.waiting = true)
    (hr : v.side.stage ≠ .release true) {x' : Side} (hk' : x'.stage.waiting = true)
    (hr' : x'.stage ≠ .release true) (hg : x'.guarded = v.side.guarded) : { v with side := x' }.Phase :=
  (phase_iff_of_blocked (v := { v with side := x' }) hk' hr').mpr
    (by rw [hg]; exact (phase_iff_of_blocked hk hr).mp hph)

/-- **Blocking.** A waiter releases the internal lock once its guard's unlock has run to its
end, and blocks. -/
theorem Ok.sleep (h : v.Ok) (hs : v.side.stage = .release true) (hfree : v.contender.Free) :
    { v with side := { v.side with stage := .sleep } }.Ok := by
  have hw := h.waiting (by simp [hs, WaitStage.waiting])
  refine Ok.of_waiting (by simp [WaitStage.waiting]) ?_ ?_
  · -- the unlock of the guard has run to its end: the guard is gone
    have hph := h.phase
    simp only [Phase, hs] at hph
    refine (phase_iff_of_blocked (v := { v with side := { v.side with stage := .sleep } })
      (by simp [WaitStage.waiting]) (by simp)).mpr ⟨hfree, fun hg => ?_⟩
    rw [if_pos hg] at hph
    rcases hph with ⟨hprog, -⟩ | ⟨-, hown, -⟩
    · simp [hfree.1] at hprog
    · exact hown
  · exact
      { hw with
        wakeup := by simpa [hs, WaitStage.awake] using hw.wakeup
        resumed := by simp [WaitStage.resumed]
        thread := by simp
        wakeUp := fun ht => ⟨(hw.wakeUp ht).1, Or.inr rfl⟩
        armed := by simp
        gone := by simpa [hs] using hw.gone
        withdraw := by simp }

/-- **A timed fiber resumed.** It consumes its wake and is about to mark itself gone. -/
theorem Ok.resumeGone (h : v.Ok) (hs : v.side.stage = .sleep) {x' : Side}
    (hc : v.side.consume v.contender.fiber = some x') (hft : (v.contender.fiber && v.side.timed) = true) :
    { v with side := { x' with stage := .gone } }.Ok := by
  have hw := h.waiting (by simp [hs, WaitStage.waiting])
  obtain ⟨rfl, -, h1⟩ := hw.consume hc
  obtain ⟨hcl, -, htimer⟩ := hw.of_woken h1
  have hf : v.contender.fiber = true := (Bool.and_eq_true _ _).mp hft |>.1
  refine Ok.of_waiting (by simp [WaitStage.waiting]) (phase_restage h.phase (by simp [hs, WaitStage.waiting])
    (by simp [hs]) (by simp [WaitStage.waiting]) (by simp) rfl) ?_
  exact
    { hw with
      held := Or.inr hcl
      wakeup := by simp [WaitStage.awake]
      resumed := fun _ => ⟨h1, hf⟩
      thread := by simp
      wakeUp := fun ht => absurd ht htimer
      armed := by simp
      gone := by simpa [hs] using hw.gone
      withdraw := by simp }

/-- **Woken.** A thread, or a fiber without deadline, consumes its wake, and its wait returns
true: the claim was a waker's. -/
theorem Ok.wokenRelock (h : v.Ok) (hs : v.side.stage = .sleep ∨ v.side.stage = .drain)
    (hfree : v.contender.Free) {x' : Side} (hc : v.side.consume v.contender.fiber = some x')
    (hft : (v.contender.fiber && v.side.timed) = false) :
    { v with
      side := { x' with stage := .relock true },
      contender := (if v.side.guarded then { v.contender with program := [.lock] } else v.contender) }.Ok := by
  have hw := h.waiting (by rcases hs with hs | hs <;> simp [hs, WaitStage.waiting])
  obtain ⟨rfl, -, h1⟩ := hw.consume hc
  obtain ⟨hcl, howed, -⟩ := hw.of_woken h1
  -- a thread, or a fiber without deadline: no callback, and no claim by timeout
  have hby : v.side.byTimeout = false := by
    cases hb : v.side.byTimeout
    · rfl
    · obtain ⟨hf, ht⟩ := hw.byTimeout hb
      simp [hf, ht] at hft
  have hoff : v.side.timer = .off := by
    by_contra ht
    obtain ⟨hf, ht'⟩ := hw.timer ht
    simp [hf, ht'] at hft
  exact Ok.relock (v := { v with side := { v.side with wakeup := {} } }) hfree true
    ⟨hw.unqueued hcl hby, howed, rfl, Or.inl hoff⟩
    ⟨fun _ => ⟨(hw.claimed hcl).1, by simp [hby], by simp [h1, hby]⟩, fun _ => rfl⟩

/-- **A thread's deadline passes** before any wake arrived: it is about to retract its block. -/
theorem Ok.retract (h : v.Ok) (hs : v.side.stage = .sleep) (hf : v.contender.fiber = false) :
    { v with side := { v.side with stage := .retract } }.Ok := by
  have hw := h.waiting (by simp [hs, WaitStage.waiting])
  have hoff : v.side.timer = .off := by
    by_contra ht
    simp [(hw.timer ht).1] at hf
  refine Ok.of_waiting (by simp [WaitStage.waiting]) (phase_restage h.phase (by simp [hs, WaitStage.waiting])
    (by simp [hs]) (by simp [WaitStage.waiting]) (by simp) rfl) ?_
  exact
    { hw with
      wakeup := by simpa [hs, WaitStage.awake] using hw.wakeup
      resumed := by simp [WaitStage.resumed]
      thread := fun _ => hf
      wakeUp := by simp [hoff]
      armed := by simp [hoff]
      gone := by simpa [hs] using hw.gone
      withdraw := by simp }

/-- **A thread withdraws.** Its own claim succeeds: it unlinks the block, and its wait returns
false without a wake. -/
theorem Ok.withdrawSelf (h : v.Ok) (hs : v.side.stage = .retract) (hfree : v.contender.Free)
    (hc : v.claimed = false) {b : Bool} (hb : b = false) :
    { v with
      side := { v.side.claim true with stage := .relock false },
      contender := (if v.side.guarded then { v.contender with program := [.lock] } else v.contender),
      queued := b, claimed := true }.Ok := by
  have hw := h.waiting (by simp [hs, WaitStage.waiting])
  obtain ⟨hclaims, hwakes, howed, -, -⟩ := hw.unclaimed hc
  have hf := hw.thread (Or.inl hs)
  have hoff : v.side.timer = .off := by
    by_contra ht
    simp [(hw.timer ht).1] at hf
  have hwu : v.side.wakeup = {} := by simp [hw.wakeup, hwakes]
  exact Ok.relock (v := { v with side := v.side.claim true, queued := b, claimed := true }) hfree false
    ⟨hb, howed, hwu, Or.inl hoff⟩
    ⟨fun _ => ⟨by simp [Side.claim, hclaims], by simp [Side.claim],
      by simp [Side.claim, hwakes, hf]⟩, fun hl => by simp [Side.claim, hw.linked] at hl⟩

/-- **A thread lost the claim** to a waker: it waits for the wake on its way. -/
theorem Ok.drain (h : v.Ok) (hs : v.side.stage = .retract) :
    { v with side := { v.side with stage := .drain } }.Ok := by
  have hw := h.waiting (by simp [hs, WaitStage.waiting])
  have hf := hw.thread (Or.inl hs)
  have hoff : v.side.timer = .off := by
    by_contra ht
    simp [(hw.timer ht).1] at hf
  refine Ok.of_waiting (by simp [WaitStage.waiting]) (phase_restage h.phase (by simp [hs, WaitStage.waiting])
    (by simp [hs]) (by simp [WaitStage.waiting]) (by simp) rfl) ?_
  exact
    { hw with
      wakeup := by simpa [hs, WaitStage.awake] using hw.wakeup
      resumed := by simp [WaitStage.resumed]
      thread := fun _ => hf
      wakeUp := by simp [hoff]
      armed := by simp [hoff]
      gone := by simpa [hs] using hw.gone
      withdraw := by simp }

/-- **A resumed fiber marks itself gone**, once its callback does not hold the waiter-gone
lock. -/
theorem Ok.markGone (h : v.Ok) (hs : v.side.stage = .gone) :
    { v with side := { v.side with gone := true, stage := .disarm } }.Ok := by
  have hw := h.waiting (by simp [hs, WaitStage.waiting])
  obtain ⟨h1, hf⟩ := hw.resumed (by simp [hs, WaitStage.resumed])
  obtain ⟨-, -, htimer⟩ := hw.of_woken h1
  refine Ok.of_waiting (by simp [WaitStage.waiting]) (phase_restage h.phase (by simp [hs, WaitStage.waiting])
    (by simp [hs]) (by simp [WaitStage.waiting]) (by simp) rfl) ?_
  exact
    { hw with
      wakeup := by simpa [hs, WaitStage.awake] using hw.wakeup
      resumed := fun _ => ⟨h1, hf⟩
      thread := by simp
      wakeUp := fun ht => absurd ht htimer
      armed := by simp
      gone := by simp
      withdraw := by simp }

/-- The callback after the fiber removed it: an armed one will never fire. -/
def disarmed (t : TimerStage) : TimerStage := if t == .armed then .off else t

theorem disarmed_cases (t : TimerStage) :
    disarmed t = .off ∨ (disarmed t = t ∧ t ≠ .armed) := by
  cases t <;> decide

/-- **A fiber whose callback claimed its block** is about to unlink it. -/
theorem Ok.withdraw (h : v.Ok) (hs : v.side.stage = .disarm) (hto : v.side.timedOut = true) :
    { v with side := { { v.side with timer := disarmed v.side.timer } with stage := .withdraw } }.Ok := by
  have hw := h.waiting (by simp [hs, WaitStage.waiting])
  obtain ⟨h1, hf⟩ := hw.resumed (by simp [hs, WaitStage.resumed])
  obtain ⟨-, -, htimer⟩ := hw.of_woken h1
  have hd := disarmed_cases v.side.timer
  refine Ok.of_waiting (by simp [WaitStage.waiting]) (phase_restage h.phase (by simp [hs, WaitStage.waiting])
    (by simp [hs]) (by simp [WaitStage.waiting]) (by simp) rfl) ?_
  exact
    { hw with
      unclaimed := fun hc => by
        obtain ⟨a, b, c, d, -⟩ := hw.unclaimed hc
        exact ⟨a, b, c, d, by rcases hd with hd | ⟨hd, -⟩ <;> simp [hd, htimer]⟩
      claimed := fun hc => by
        obtain ⟨a, hsum⟩ := hw.claimed hc
        refine ⟨a, ?_⟩
        rcases hd with hd | ⟨hd, -⟩ <;> simp_all
      wakeup := by simpa [hs, WaitStage.awake] using hw.wakeup
      resumed := fun _ => ⟨h1, hf⟩
      thread := by simp
      timer := fun ht => hw.timer (by rcases hd with hd | ⟨hd, -⟩ <;> simp_all)
      wakeUp := fun ht => by rcases hd with hd | ⟨hd, -⟩ <;> simp_all
      armed := fun ht => by rcases hd with hd | ⟨hd, hna⟩ <;> simp_all
      gone := by simpa [hs] using hw.gone
      withdraw := fun _ => hw.timedOut ▸ hto }

/-- **A fiber woken by a waker** removes its callback and returns true. -/
theorem Ok.disarmRelock (h : v.Ok) (hs : v.side.stage = .disarm) (hfree : v.contender.Free)
    (hto : v.side.timedOut = false) :
    { v with
      side := { { v.side with timer := disarmed v.side.timer } with stage := .relock true },
      contender := (if v.side.guarded then { v.contender with program := [.lock] } else v.contender) }.Ok := by
  have hw := h.waiting (by simp [hs, WaitStage.waiting])
  obtain ⟨h1, hf⟩ := hw.resumed (by simp [hs, WaitStage.resumed])
  obtain ⟨hcl, howed, htimer⟩ := hw.of_woken h1
  have hby : v.side.byTimeout = false := hw.timedOut ▸ hto
  have hgone : v.side.gone = true := hw.gone.mpr (Or.inl hs)
  have hwu : v.side.wakeup = {} := by simpa [hs, WaitStage.awake] using hw.wakeup
  have ht : disarmed v.side.timer = .off ∨ (disarmed v.side.timer = .check ∧ v.side.gone = true) := by
    rcases disarmed_cases v.side.timer with hd | ⟨hd, hna⟩
    · exact Or.inl hd
    · cases htt : v.side.timer <;> simp_all
  exact Ok.relock (v := { v with side := { v.side with timer := disarmed v.side.timer } }) hfree true
    ⟨hw.unqueued hcl hby, howed, hwu, ht⟩
    ⟨fun _ => ⟨(hw.claimed hcl).1, by simp [hby], by simp [h1, hby]⟩, fun _ => rfl⟩

/-- **A fiber unlinks the block its callback claimed**, and its wait returns false. -/
theorem Ok.unlinkRelock (h : v.Ok) (hs : v.side.stage = .withdraw) (hfree : v.contender.Free)
    {b : Bool} (hb : b = false) :
    { v with
      side := { v.side with stage := .relock false },
      contender := (if v.side.guarded then { v.contender with program := [.lock] } else v.contender),
      queued := b }.Ok := by
  have hw := h.waiting (by simp [hs, WaitStage.waiting])
  obtain ⟨h1, hf⟩ := hw.resumed (by simp [hs, WaitStage.resumed])
  obtain ⟨hcl, howed, htimer⟩ := hw.of_woken h1
  have hby := hw.withdraw hs
  have hgone : v.side.gone = true := hw.gone.mpr (Or.inr hs)
  have hwu : v.side.wakeup = {} := by simpa [hs, WaitStage.awake] using hw.wakeup
  have ht : v.side.timer = .off ∨ (v.side.timer = .check ∧ v.side.gone = true) := by
    have hna := hw.armed
    cases htt : v.side.timer <;> simp_all
  exact Ok.relock (v := { v with queued := b }) hfree false ⟨hb, howed, hwu, ht⟩
    ⟨fun _ => ⟨(hw.claimed hcl).1, by simp [hby], by simp [h1, hby, hf]⟩,
      fun hl => by simp [hw.linked] at hl⟩

end Linked

section Callback

/-- An armed or firing callback, or one about to resume its fiber, belongs to a linked wait. -/
theorem Ok.waiting_of_timer (h : v.Ok) (ht : v.side.timer = .armed ∨ v.side.timer = .wakeUp ∨
    (v.side.timer = .check ∧ v.side.gone = false)) : v.side.stage.waiting = true := by
  by_contra hk
  have := (h.settled (by simpa using hk)).timer
  rcases ht with ht | ht | ⟨ht, hg⟩ <;> simp [ht] at this
  simp [this] at hg

/-- **The callback fires**, and takes the waiter-gone lock. -/
theorem Ok.fire (h : v.Ok) (ht : v.side.timer = .armed) :
    { v with side := { v.side with timer := .check } }.Ok := by
  have hs := h.waiting_of_timer (Or.inl ht)
  have hw := h.waiting hs
  refine Ok.of_waiting hs h.phase
    { hw with
      unclaimed := fun hc => by
        obtain ⟨a, b, c, d, -⟩ := hw.unclaimed hc
        exact ⟨a, b, c, d, by simp⟩
      claimed := fun hc => by
        obtain ⟨a, hsum⟩ := hw.claimed hc
        exact ⟨a, by simpa [ht] using hsum⟩
      timer := fun _ => hw.timer (by simp [ht])
      wakeUp := by simp
      armed := by simp }

/-- **The callback returns without a claim**: its fiber is gone, or a waker claimed first. -/
theorem Ok.quiet (h : v.Ok) (ht : v.side.timer = .check) :
    { v with side := { v.side with timer := .off } }.Ok := by
  by_cases hs : v.side.stage.waiting = true
  · have hw := h.waiting hs
    refine Ok.of_waiting hs h.phase
      { hw with
        unclaimed := fun hc => by
          obtain ⟨a, b, c, d, -⟩ := hw.unclaimed hc
          exact ⟨a, b, c, d, by simp⟩
        claimed := fun hc => by
          obtain ⟨a, hsum⟩ := hw.claimed hc
          exact ⟨a, by simpa [ht] using hsum⟩
        timer := by simp
        wakeUp := by simp
        armed := by simp }
  · have hset := h.settled (by simpa using hs)
    exact Ok.of_settled (by simpa using hs) h.phase { hset with timer := Or.inl rfl } h.unlinked
      h.result

/-- **The callback claims the block** of a fiber not gone, before any waker did. -/
theorem Ok.claimByTimeout (h : v.Ok) (ht : v.side.timer = .check) (hg : v.side.gone = false)
    (hc : v.claimed = false) :
    { v with side := { v.side.claim true with timer := .wakeUp, timedOut := true }, claimed := true }.Ok := by
  have hs := h.waiting_of_timer (Or.inr (Or.inr ⟨ht, hg⟩))
  have hw := h.waiting hs
  obtain ⟨hclaims, hwakes, howed, -, -⟩ := hw.unclaimed hc
  obtain ⟨hf, htimed⟩ := hw.timer (by simp [ht])
  -- nothing resumed the fiber yet, and a fiber neither retracts nor drains
  have hk : v.side.stage = .release true ∨ v.side.stage = .sleep := by
    refine WaitStage.eq_of_waiting hs ?_ ⟨fun h' => ?_, fun h' => ?_⟩
    · by_contra hr
      have := (hw.resumed (by simpa using hr)).1
      omega
    · simp [hw.thread (Or.inl h')] at hf
    · simp [hw.thread (Or.inr h')] at hf
  refine Ok.of_waiting hs h.phase
    { hw with
      held := Or.inr rfl
      unclaimed := fun h' => by simp at h'
      claimed := fun _ => by simp [Side.claim, hclaims, hwakes, howed]
      queued_claimed := fun _ _ => rfl
      byTimeout := fun _ => ⟨hf, htimed⟩
      timedOut := rfl
      timer := fun _ => ⟨hf, htimed⟩
      wakeUp := fun _ => ⟨rfl, hk⟩
      armed := by simp
      withdraw := fun _ => rfl }

/-- **The callback resumes the fiber** whose block it claimed. -/
theorem Ok.resumeByTimeout (h : v.Ok) (ht : v.side.timer = .wakeUp) :
    { v with side := { v.side.deliver v.contender.fiber with timer := .off } }.Ok := by
  have hs := h.waiting_of_timer (Or.inr (Or.inl ht))
  have hw := h.waiting hs
  obtain ⟨-, hk⟩ := hw.wakeUp ht
  have hc : v.claimed = true := by
    cases hc : v.claimed
    · exact absurd ht (hw.unclaimed hc).2.2.2.2
    · rfl
  obtain ⟨hclaims, hsum⟩ := hw.claimed hc
  simp only [ht, if_true] at hsum
  have hwakes : v.side.wakes = 0 := by omega
  have hawake : v.side.stage.awake = true := by
    rcases hk with hk | hk <;> simp [hk, WaitStage.awake]
  have hold := hw.wakeup
  simp only [hwakes, hawake] at hold
  refine Ok.of_waiting hs h.phase
    { hw with
      unclaimed := fun h' => by simp [hc] at h'
      claimed := fun _ => ⟨hclaims, by simp [Side.deliver]; omega⟩
      wakeup := by simp [Side.deliver, hold, hawake, hwakes]
      resumed := fun h' => by
        rcases hk with hk | hk <;> simp [Side.deliver, hk, WaitStage.resumed] at h'
      timer := by simp
      wakeUp := by simp
      armed := by simp }

end Callback

/-- **The user mutex's steps.** A party's own operation on the user mutex may change what its
view reads of it, as long as the phase of its wait allows the new state. -/
theorem Ok.recontend (h : v.Ok) {c : Contender} (hf : c.fiber = v.contender.fiber)
    (hph : { v with contender := c }.Phase) : { v with contender := c }.Ok := by
  obtain ⟨x, ⟨f, prog, st, own, wk, held⟩, q, cl, o⟩ := v
  obtain ⟨f', prog', st', own', wk', held'⟩ := c
  simp only at hf
  subst hf
  exact ⟨hph, fun hs => { h.waiting hs with }, fun hs => { h.settled hs with }, h.unlinked,
    fun r hr => h.result r hr⟩

end View

end Fibers
