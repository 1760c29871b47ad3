import Mathlib
import Fibers.Proofs.MonitorSteps
/-!
# Condition variables lose no wake-up

A condition variable's waiter queues its block and hands its guard's unlock to the user mutex
in one step under the internal lock, so the guard goes only once the block is queued
(`Monitor.Inv.linked_of_unlock`), and the block stays queued, or claimed, until the wait ends
(`Monitor.Inv.held_of_waiting`): a notifier that takes the mutex after the guard is gone finds
the waiter. A notification claims exactly the blocks its kind asks for (`Notify.Claims`, said
without the code: the earliest unclaimed block queued, or every unclaimed one, each once), and
each of their parties is then owed exactly one wake. A notification that finds nothing to
claim changes nothing a later wait reads. A condition variable's wait returns owning the user
mutex again.

Main statement: `Monitor.no_lost_wakeup`, for every state a schedule reaches from the start.
-/

namespace Fibers

namespace Notify

/-- The blocks a notification of a kind must claim from a queue, given the blocks claimed
already: for one waiter, the earliest unclaimed block queued, or none when every queued block
is claimed; for all, every unclaimed block queued, each once. -/
def Claims : Notify → List Nat → List Nat → List Nat → Prop
  | .one, queue, claimed, ws =>
    (ws = [] ∧ ∀ q ∈ queue, q ∈ claimed) ∨
      ∃ pre q post, queue = pre ++ q :: post ∧ (∀ r ∈ pre, r ∈ claimed) ∧ q ∉ claimed ∧ ws = [q]
  | _, queue, claimed, ws => ws.Nodup ∧ ∀ q, q ∈ ws ↔ q ∈ queue ∧ q ∉ claimed

variable (kind : Notify) {queue claimed : List Nat}

/-- **A notification chooses the blocks its kind asks for.** -/
theorem claims_chosen (hl : queue.Nodup) : kind.Claims queue claimed (kind.chosen queue claimed) := by
  cases kind
  case one =>
    cases h : queue.find? (fun x => !decide (x ∈ claimed)) with
    | none =>
      refine Or.inl ⟨by simp [chosen, h], fun q hq => ?_⟩
      simpa using List.find?_eq_none.mp h q hq
    | some q =>
      obtain ⟨hq, pre, post, hsplit, hpre⟩ := List.find?_eq_some_iff_append.mp h
      exact Or.inr ⟨pre, q, post, hsplit, fun r hr => by simpa using hpre r hr, by simpa using hq,
        by simp [chosen, h]⟩
  all_goals exact ⟨chosen_nodup _ hl, fun q => by simp [chosen]⟩

/-- With no unclaimed block queued, a notification chooses none. -/
theorem chosen_eq_nil (hall : ∀ q ∈ queue, q ∈ claimed) : kind.chosen queue claimed = [] := by
  cases kind
  case one => simpa [chosen] using fun q hq => hall q hq
  all_goals simpa [chosen] using fun q hq => hall q hq

end Notify

/-- A retaking of the guard runs a lock, never an unlock. -/
theorem Contender.Retaking.not_unlock {x : Contender} (hx : x.Retaking) (rest : List MutexOp) :
    x.program ≠ .unlock :: rest := by
  rcases hx with ⟨hprog, -⟩ | ⟨hprog, -⟩ | ⟨hprog, -⟩ <;> simp [hprog]

namespace Monitor

variable {m t : Monitor} {p q n : Nat} {kind : Notify}

/-! ## 1. From queueing to the end of the wait -/

/-- **A waiter's block stays queued, or claimed**, from its queueing to the end of its wait. -/
theorem Inv.held_of_waiting (hi : m.Inv) (hw : (m.side q).stage.waiting = true) :
    q ∈ m.waitable.queue ∨ q ∈ m.claimed := by
  simpa using ((hi.ok q).waiting hw).held

/-- **The guard goes only once the waiter is linked**: a step on the user mutex that ends a
party's ownership is an unlock outside of a wait, or the dropping of a waiter's guard once its
block is queued or claimed, or once a waitable awakened for good refused it. -/
theorem Inv.linked_of_unlock (hi : m.Inv) (hbusy : m.busy p = true)
    (h : m.step (.party p) = some t) (ho : (m.lock.party p).owns = true)
    (ho' : (t.lock.party p).owns = false) :
    (m.side p).stage = .idle ∨
      ((m.side p).stage = .release true ∧ (p ∈ m.waitable.queue ∨ p ∈ m.claimed)) ∨
      ((m.side p).stage = .release false ∧ m.waitable.persistent = true) := by
  simp only [Monitor.step, hbusy, if_true] at h
  obtain ⟨s, hs, rfl⟩ := Option.map_eq_some_iff.mp h
  obtain ⟨-, rest, hprog⟩ := Contention.unlock_of_owns_step hs ho ho'
  have hph := (hi.ok p).phase
  have hnf := not_free_of_busy hbusy
  cases hk : (m.side p).stage <;> simp only [View.Phase, side_view, hk] at hph
  case idle => exact Or.inl rfl
  case release b =>
    cases b
    · exact Or.inr (Or.inr ⟨rfl, hi.persistent p hk⟩)
    · exact Or.inr (Or.inl ⟨rfl, hi.held_of_waiting (by simp [hk, WaitStage.waiting])⟩)
  case relock r =>
    -- a waiter retaking its guard only locks; a wait without a guard has no operation running
    by_cases hg : (m.side p).guarded = true
    · simp only [hg, if_true] at hph
      exact absurd hprog (Contender.Retaking.not_unlock hph rest)
    · simp only [hg] at hph
      exact absurd hph hnf
  all_goals exact absurd hph.1 hnf

/-! ## 2. Notifications -/

/-- A party whose operation on the user mutex is over takes the side steps. -/
theorem step_party_of_free (hfree : (m.view p).contender.Free) :
    m.step (.party p) = m.sideStep p := by
  have hbusy : m.busy p = false := Bool.eq_false_iff.mpr (fun h => not_free_of_busy h hfree)
  simp [Monitor.step, hbusy]

/-- A notifier has no operation on the user mutex running. -/
theorem Inv.free_of_notify (hi : m.Inv) (hs : (m.side n).stage = .notify kind) :
    (m.view n).contender.Free := by
  have hph := (hi.ok n).phase
  simp only [View.Phase, side_view, hs] at hph
  exact hph.1

/-- **A notification is one step under the internal lock**, to the state `notified`. -/
theorem Inv.step_notify (hi : m.Inv) (hs : (m.side n).stage = .notify kind) :
    m.step (.party n) = if m.inner.isNone then some (m.notified n kind) else none := by
  rw [step_party_of_free (hi.free_of_notify hs), sideStep_notify hs]

/-- The notifier's own block is not queued, so it never chooses itself. -/
theorem Inv.not_chosen_self (hi : m.Inv) (hs : (m.side n).stage = .notify kind) :
    n ∉ kind.chosen m.waitable.queue m.claimed := fun h => by
  have hset := (hi.ok n).settled (by simp [hs, WaitStage.waiting])
  have hnq : n ∉ m.waitable.queue := by simpa using hset.unqueued
  exact hnq (Notify.mem_chosen kind h).1

/-- **Each chosen party is owed exactly one wake**: it was owed none, being unclaimed. -/
theorem Inv.owed_chosen (hi : m.Inv) (hs : (m.side n).stage = .notify kind)
    (hq : q ∈ kind.chosen m.waitable.queue m.claimed) :
    m.owed q = 0 ∧ (m.notified n kind).owed q = 1 := by
  obtain ⟨hqq, hqc⟩ := Notify.mem_chosen kind hq
  have hw := (hi.ok q).waiting ((hi.ok q).waiting_of_queued (by simpa using hqq))
  have h0 : m.owed q = 0 := by simpa using (hw.unclaimed (by simpa using hqc)).2.2.1
  have hn : n < m.sides.length := lt_of_stage_ne_idle (by simp [hs])
  refine ⟨h0, ?_⟩
  rw [owed_notified hi.queue_nodup hn (by simp [hs, WaitStage.pending]) (hi.not_chosen_self hs), h0,
    List.count_eq_one_of_mem (Notify.chosen_nodup kind hi.queue_nodup) hq]

/-- **A notification claims exactly the blocks its kind asks for**, once the internal lock is
free: it moves on to waking their parties, each of which it owes exactly one wake; a
notification for all reaches every party then waiting. -/
theorem Inv.notify_spec (hi : m.Inv) (hs : (m.side n).stage = .notify kind) (hin : m.inner = none) :
    ∃ t, m.step (.party n) = some t ∧ ∃ ws, (t.side n).stage = .wake ws ∧
      kind.Claims m.waitable.queue m.claimed ws ∧
      (∀ q, q ∈ t.claimed ↔ q ∈ ws ∨ q ∈ m.claimed) ∧
      (∀ q ∈ ws, m.owed q = 0 ∧ t.owed q = 1) ∧
      (kind ≠ .one → ∀ q, (m.side q).stage.waiting = true → q ∈ t.claimed) := by
  have hl := hi.queue_nodup
  have hn : n < m.sides.length := lt_of_stage_ne_idle (by simp [hs])
  have hclaimed : ∀ q, q ∈ (m.notified n kind).claimed ↔
      q ∈ kind.chosen m.waitable.queue m.claimed ∨ q ∈ m.claimed := by
    intro q
    simp [claimed_notified hl]
  refine ⟨m.notified n kind, by simp [hi.step_notify hs, hin], _,
    by simp [side_notified_self hl hn (hi.not_chosen_self hs)], Notify.claims_chosen kind hl,
    hclaimed, fun q hq => hi.owed_chosen hs hq, ?_⟩
  intro hk q hw
  rw [hclaimed]
  by_cases hc : q ∈ m.claimed
  · exact Or.inr hc
  · -- a waiter not yet claimed is queued, and a notification for all chooses it
    have hq := (hi.held_of_waiting hw).resolve_right hc
    refine Or.inl ?_
    cases kind
    case one => exact absurd rfl hk
    case all => exact ((Notify.claims_chosen .all hl).2 q).mpr ⟨hq, hc⟩
    case forever => exact ((Notify.claims_chosen .forever hl).2 q).mpr ⟨hq, hc⟩

/-- **A notification that finds nothing to claim changes nothing a later wait reads**: no
claim, no other side, not the user mutex, and, short of a notification for good, not the
flag. -/
theorem Inv.notify_quiet (hi : m.Inv) (hs : (m.side n).stage = .notify kind)
    (hk : kind ≠ .forever) (hall : ∀ q ∈ m.waitable.queue, q ∈ m.claimed)
    (h : m.step (.party n) = some t) :
    (t.side n).stage = .wake [] ∧ t.claimed = m.claimed ∧
      t.waitable.persistent = m.waitable.persistent ∧ t.lock = m.lock ∧
      ∀ q, q ≠ n → t.side q = m.side q := by
  have hl := hi.queue_nodup
  have hn : n < m.sides.length := lt_of_stage_ne_idle (by simp [hs])
  have hnil := Notify.chosen_eq_nil kind hall
  rw [hi.step_notify hs] at h
  split at h
  · simp only [Option.some.injEq] at h
    subst h
    refine ⟨by simp [side_notified_self hl hn (hi.not_chosen_self hs), hnil],
      by simp [claimed_notified hl, hnil], by simp [Notify.apply_persistent, hk], rfl,
      fun q hq => by simp [side_notified_ne hl hq, hnil]⟩
  · simp at h

/-! ## 3. The end of a wait -/

/-- **A condition variable's wait returns owning the user mutex again**, with its result. -/
theorem Inv.relock_owns {r : Bool} (hi : m.Inv) (hs : (m.side p).stage = .relock r)
    (hg : (m.side p).guarded = true) (h : m.step (.party p) = some t)
    (hidle : (t.side p).stage = .idle) :
    (t.side p).result = some r ∧ (t.lock.party p).owns = true := by
  simp only [Monitor.step] at h
  split at h
  · -- a step on the user mutex leaves the side where it was
    obtain ⟨s, -, rfl⟩ := Option.map_eq_some_iff.mp h
    simp [hs] at hidle
  · rename_i hbusy
    have hfree := free_of_busy (by simpa using hbusy)
    have hp : p < m.sides.length := lt_of_stage_ne_idle (by simp [hs])
    simp only [Monitor.sideStep, hs, Option.some.injEq] at h
    subst h
    have hph := (hi.ok p).phase
    simp only [View.Phase, side_view, hs, hg, if_true] at hph
    refine ⟨by simp [side_updateSide_self hp], ?_⟩
    -- the guard is being retaken and nothing runs on the mutex: it has been taken
    rcases hph with ⟨hprog, -⟩ | ⟨-, hlock⟩ | ⟨-, hown, -⟩
    · simp [hfree.1] at hprog
    · simp [hfree.2, LockStage.locking] at hlock
    · exact hown

/-! ## 4. Every reachable state -/

/-- What a state shows of the protocol between a condition variable's waiters and its
notifiers. -/
structure NoLostWakeup (m : Monitor) : Prop where
  /-- A waiter's block stays queued, or claimed, from its queueing to the end of its wait. -/
  held : ∀ q, (m.side q).stage.waiting = true → q ∈ m.waitable.queue ∨ q ∈ m.claimed
  /-- A step on the user mutex ends a party's ownership only outside of a wait, or as the
  dropping of a waiter's guard once its block is queued or claimed, or once a waitable
  awakened for good refused it. -/
  guard : ∀ p t, m.busy p = true → m.step (.party p) = some t → (m.lock.party p).owns = true →
    (t.lock.party p).owns = false →
    (m.side p).stage = .idle ∨
      ((m.side p).stage = .release true ∧ (p ∈ m.waitable.queue ∨ p ∈ m.claimed)) ∨
      ((m.side p).stage = .release false ∧ m.waitable.persistent = true)
  /-- A notification takes its step once the internal lock is free. It claims the blocks its
  kind asks for, each of whose parties it then owes exactly one wake, and one for all reaches
  every party then waiting. -/
  notify : ∀ n kind, (m.side n).stage = .notify kind → m.inner = none →
    ∃ t, m.step (.party n) = some t ∧ ∃ ws, (t.side n).stage = .wake ws ∧
      kind.Claims m.waitable.queue m.claimed ws ∧
      (∀ q, q ∈ t.claimed ↔ q ∈ ws ∨ q ∈ m.claimed) ∧
      (∀ q ∈ ws, m.owed q = 0 ∧ t.owed q = 1) ∧
      (kind ≠ .one → ∀ q, (m.side q).stage.waiting = true → q ∈ t.claimed)
  /-- A notification that finds no unclaimed block queued changes nothing a later wait
  reads. -/
  quiet : ∀ n kind t, (m.side n).stage = .notify kind → kind ≠ .forever →
    (∀ q ∈ m.waitable.queue, q ∈ m.claimed) → m.step (.party n) = some t →
    (t.side n).stage = .wake [] ∧ t.claimed = m.claimed ∧
      t.waitable.persistent = m.waitable.persistent ∧ t.lock = m.lock ∧
      ∀ q, q ≠ n → t.side q = m.side q
  /-- A condition variable's wait returns owning the user mutex again. -/
  relock : ∀ p r t, (m.side p).stage = .relock r → (m.side p).guarded = true →
    m.step (.party p) = some t → (t.side p).stage = .idle →
    (t.side p).result = some r ∧ (t.lock.party p).owns = true

theorem Inv.noLostWakeup (hi : m.Inv) : m.NoLostWakeup where
  held _ := hi.held_of_waiting
  guard _ _ := hi.linked_of_unlock
  notify _ _ := hi.notify_spec
  quiet _ _ _ := hi.notify_quiet
  relock _ _ _ := hi.relock_owns

/-- **Condition variables lose no wake-up**, in every state a schedule reaches from the
start. -/
theorem no_lost_wakeup (programs : List (Bool × List MonitorOp)) (schedule : List Turn) :
    ((start programs).run schedule).NoLostWakeup :=
  (inv_run_start programs schedule).noLostWakeup

end Monitor

end Fibers
