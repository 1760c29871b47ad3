import Mathlib
import Fibers.Proofs.TimerPlaces
/-!
# Removing a timer is final

Removing a timer stores its cancelled flag, and the timer thread reads that flag at three
points: when it collects the timer from a producer queue, when it pops it from the heap, and
after a firing, before it puts a periodic timer back. A store that lands between the pop's
check and the firing cannot stop that firing; nothing else gets past the flag.

* Once a timer is cancelled, its callback starts at most once more, and only if the timer
  thread had already passed its check for that firing (`TimerWorld.firings_run_le`): the
  firings counted so far, plus one while the timer thread is armed for the timer, never grow.
  A periodic timer that removes itself from its own callback is not armed, so it fires no more.
* A timer cancelled while it is still being enabled, waits in a queue or in the heap never
  fires again (`TimerWorld.Sound.armed_eq_false`): the timer thread holds at most one copy.
* A cancelled timer never goes into the heap, at collection or after a firing
  (`TimerWorld.heapCount_run_le`).
* A timer that was never enabled never fires (`TimerWorld.Sound.enabled`).
* Detaching a timer changes nothing but the detaching thread's program
  (`TimerWorld.next_detach`).

`TimerWorld.removal_is_final` gathers the five.
-/

namespace Fibers

/-! ## 1. The timer thread's step -/

namespace TimerLoop

variable {l l' : TimerLoop} {h h' : TimerHub} {cb : Nat → Nat → List TimerOp} {t : Nat}

theorem armed_eq_false (hh : l.held = none) : l.armed t = false := by
  unfold armed
  unfold held at hh
  split <;> simp_all

@[simp] theorem armed_afterCallback (table : TimerTable) (now : Nat) (p : Pending) :
    ({ l with stage := afterCallback table now p } : TimerLoop).armed t = false := by
  unfold afterCallback
  split <;> rfl

/-- One step of the timer thread never raises the firings of a cancelled timer, counting the
one it is armed for: it arms only for a timer whose check found it not cancelled, and it
counts a firing only when armed. -/
theorem firings_step (hs : l.step h cb = some (h', l')) (hc : h.table.isCancelled t = true) :
    h'.fires.count t + (l'.armed t).toNat ≤ h.fires.count t + (l.armed t).toNat := by
  cases hq : l.stage.quiet
  case true =>
    obtain ⟨-, -, hf, -, -, hh', -, -⟩ := step_quiet hq hs
    rw [hf, armed_eq_false hh']
    simp
  cases step_touches hs hq with
  | takeNil i hst _ => simp [armed, hst]
  | takeCancelled i u rest hst _ _ => simp
  | takeLive i u rest hst _ _ => simp [armed, hst]
  | retain hst => simp [armed, hst]
  | popNone now hst _ => simp [armed, hst]
  | popCancelled now p rest hst _ _ _ => simp [armed, hst]
  | popLive now p rest hst _ _ hpc =>
    -- the pop arms only for a timer its check found not cancelled, which `t` is not
    have hpt : p.timer ≠ t := fun e => by rw [e, hc] at hpc; exact Bool.noConfusion hpc
    simp [armed, hst, hpt]
  | fire now p hst => by_cases hpt : p.timer = t <;> simp [armed, hst, hpt, List.count_append]
  | callbackBegin now p op ops hst => simp [armed, hst]
  | callbackEnd now p hst =>
    rw [armed_afterCallback]
    simp [armed, hst]
  | callbackCall now p ops call call' h'' hst _ hcs =>
    rw [(CallStage.step_frame hcs).1]
    simp [armed, hst]
  | recheckCancelled now p i hst _ => simp [armed, hst]
  | recheckLive now p i hst _ _ | recheckOverflow now p i hst _ _ => simp [armed, hst]

/-- One step of the timer thread never puts a cancelled timer into the heap. -/
theorem heapCount_step (hs : l.step h cb = some (h', l')) (hc : h.table.isCancelled t = true) :
    (l'.heap.map Pending.timer).count t ≤ (l.heap.map Pending.timer).count t := by
  cases hq : l.stage.quiet
  case true =>
    obtain ⟨-, -, -, hh, -⟩ := step_quiet hq hs
    rw [hh]
  cases step_touches hs hq with
  | takeLive i u rest hst _ hcu =>
    -- collection moves `u` in only because its flag was clear, so `u` is not `t`
    have hut : u ≠ t := fun e => by rw [e, hc] at hcu; exact Bool.noConfusion hcu
    simp [Pending.count_insert, hut]
  | popCancelled now p rest hst hh _ _ => simp [hh, List.count_cons]
  | popLive now p rest hst hh _ _ => simp [hh, List.count_cons]
  | recheckLive now p i hst hpc _ | recheckOverflow now p i hst hpc _ =>
    -- the firing goes back only if its flag is still clear after the callback
    have hpt : p.timer ≠ t := fun e => by rw [e, hc] at hpc; exact Bool.noConfusion hpc
    simp [Pending.count_insert, hpt]
  | takeNil | takeCancelled | retain | popNone | fire | callbackBegin | callbackEnd | callbackCall
  | recheckCancelled => exact le_rfl

end TimerLoop

/-! ## 2. Every turn -/

namespace TimerWorld

variable {s : TimerWorld} {t : Nat}

/-- The firings of `t` counted so far, and one more while the timer thread is armed for it. -/
def firings (s : TimerWorld) (t : Nat) : Nat := s.hub.fires.count t + (s.loop.armed t).toNat

theorem firings_next_le (hc : s.hub.table.isCancelled t = true) (party : TimerParty) :
    (s.next party).firings t ≤ s.firings t := by
  rcases loop_next s party with ⟨hl, hf⟩ | hs
  · simp [firings, hl, hf]
  · exact TimerLoop.firings_step hs hc

/-- After timer `t` is cancelled, the firings counted, plus one while the timer thread is armed
for it, never grow over any schedule. -/
theorem firings_run_le (hc : s.hub.table.isCancelled t = true) (u : List TimerParty) :
    (s.run u).firings t ≤ s.firings t := by
  induction u generalizing s with
  | nil => exact le_rfl
  | cons party u ih =>
    exact (ih (isCancelled_next party hc)).trans (firings_next_le hc party)

theorem heapCount_next_le (hc : s.hub.table.isCancelled t = true) (party : TimerParty) :
    ((s.next party).loop.heap.map Pending.timer).count t ≤ (s.loop.heap.map Pending.timer).count t := by
  rcases loop_next s party with ⟨hl, -⟩ | hs
  · rw [hl]
  · exact TimerLoop.heapCount_step hs hc

theorem heapCount_run_le (hc : s.hub.table.isCancelled t = true) (u : List TimerParty) :
    ((s.run u).loop.heap.map Pending.timer).count t ≤ (s.loop.heap.map Pending.timer).count t := by
  induction u generalizing s with
  | nil => exact le_rfl
  | cons party u ih =>
    exact (ih (isCancelled_next party hc)).trans (heapCount_next_le hc party)

/-- A timer being enabled, in a queue or in the heap is in a spot besides the timer thread's
hold. -/
theorem heldCount_lt (hw : s.Enabling t ∨ s.hub.Queued t ∨ s.loop.InHeap t) :
    s.loop.heldTimers.count t < s.spots.count t := by
  have hpos : 0 < (s.producers.flatMap (·.call.hand)).count t + s.loop.hand.count t +
      (s.hub.queues.flatMap (·.timers)).count t + (s.loop.heap.map Pending.timer).count t := by
    rcases hw with ⟨c, hc⟩ | hq | ⟨p, hp, rfl⟩
    · cases c with
      | producer q =>
        have : 0 < (s.producers.flatMap (·.call.hand)).count t :=
          List.count_pos_iff.2 (mem_producerHands.2 ⟨q, hc⟩)
        omega
      | timer =>
        have : 0 < s.loop.hand.count t := by
          simp only [callOf] at hc
          rcases hc with hc | hc <;> simp [TimerLoop.hand, hc, CallStage.hand]
        omega
    · have : 0 < (s.hub.queues.flatMap (·.timers)).count t := List.count_pos_iff.2 hq
      omega
    · have : 0 < (s.loop.heap.map Pending.timer).count p.timer := List.count_pos_iff.2 (List.mem_map_of_mem hp)
      omega
  simp only [count_spots, TimerLoop.count_spots]
  omega

/-- The timer thread is never armed for a timer that is still being enabled, waits in a queue
or waits in the heap: it holds at most one copy of a timer. -/
theorem Sound.armed_eq_false (hs : s.Sound) (ht : t < s.hub.table.entries.length)
    (hw : s.Enabling t ∨ s.hub.Queued t ∨ s.loop.InHeap t) : s.loop.armed t = false := by
  cases ha : s.loop.armed t
  · rfl
  -- armed, the timer thread holds `t`, a second copy
  have hheld : s.loop.heldTimers.count t = 1 := by
    unfold TimerLoop.armed at ha
    split at ha
    · next p hst =>
      simp only [beq_iff_eq] at ha
      simp [TimerLoop.heldTimers, TimerLoop.held, hst, ha]
    · exact Bool.noConfusion ha
  have := heldCount_lt hw
  have := hs.single t ht
  omega

/-- Detaching drops the handle and nothing else: the step changes the detaching thread's
program and no other part of the world. -/
theorem next_detach {p : Nat} {x : TimerProducer} {t : Nat} {rest : List TimerOp}
    (ha : s.hub.abort = none) (hx : s.producers[p]? = some x) (hxe : x.exited = false)
    (hc : x.call = .idle) (hp : x.program = .detach t :: rest) :
    s.next (.producer p) = { s with producers := s.producers.set p { x with program := rest } } := by
  simp [next, step, ha, hx, TimerProducer.step, hxe, hc, hp, CallStage.begin]

/-- Removal is final. Once timer `t` is cancelled, over every schedule: its callback starts at
most once more, and only if the timer thread is armed for that firing; if it is cancelled while
being enabled, queued or in the heap, its callback never starts again; and it never goes back
into the heap. A created timer that fired was enabled. Detaching changes nothing but the
detaching thread's program. -/
theorem removal_is_final (hr : s.Reachable) (t : Nat) :
    (s.hub.table.isCancelled t = true → ∀ u,
      (s.run u).hub.fires.count t ≤ s.hub.fires.count t + (s.loop.armed t).toNat) ∧
    (s.hub.table.isCancelled t = true → s.Enabling t ∨ s.hub.Queued t ∨ s.loop.InHeap t → ∀ u,
      (s.run u).hub.fires.count t = s.hub.fires.count t) ∧
    (s.hub.table.isCancelled t = true → ∀ u,
      ((s.run u).loop.heap.map Pending.timer).count t ≤ (s.loop.heap.map Pending.timer).count t) ∧
    (t < s.hub.table.entries.length → t ∈ s.hub.fires → (s.hub.table.get t).enabled = true) ∧
    (∀ p x rest, s.hub.abort = none → s.producers[p]? = some x → x.exited = false → x.call = .idle →
      x.program = .detach t :: rest →
      s.next (.producer p) = { s with producers := s.producers.set p { x with program := rest } }) := by
  have hs := hr.sound
  have hfirings : s.hub.table.isCancelled t = true → ∀ u,
      (s.run u).hub.fires.count t ≤ s.hub.fires.count t + (s.loop.armed t).toNat := fun hc u =>
    le_trans (Nat.le_add_right _ _) (firings_run_le hc u)
  refine ⟨hfirings, fun hc hw u => ?_, fun hc u => heapCount_run_le hc u,
    fun ht hf => hs.enabled t ht (.inr hf), fun p x rest ha hx hxe hc hp => next_detach ha hx hxe hc hp⟩
  have hle := hfirings hc u
  rw [hs.armed_eq_false (TimerTable.lt_of_isCancelled hc) hw] at hle
  exact le_antisymm (by simpa using hle) ((fires_run u).count_le t)

/-- A one-shot timer enabled by a producer, collected into the heap, then removed before it is
due: from there on it never fires. -/
theorem removal_is_final_after_collect :
    ∃ s : TimerWorld, s.Reachable ∧ s.hub.table.isCancelled 0 = true ∧ s.loop.heap.map Pending.timer = [0] ∧
      (s.hub.table.isCancelled 0 = true → ∀ u,
        (s.run u).hub.fires.count 0 ≤ s.hub.fires.count 0 + (s.loop.armed 0).toNat) ∧
      (s.hub.table.isCancelled 0 = true → s.Enabling 0 ∨ s.hub.Queued 0 ∨ s.loop.InHeap 0 → ∀ u,
        (s.run u).hub.fires.count 0 = s.hub.fires.count 0) ∧
      (s.hub.table.isCancelled 0 = true → ∀ u,
        ((s.run u).loop.heap.map Pending.timer).count 0 ≤ (s.loop.heap.map Pending.timer).count 0) ∧
      (0 < s.hub.table.entries.length → 0 ∈ s.hub.fires → (s.hub.table.get 0).enabled = true) ∧
      (∀ p x rest, s.hub.abort = none → s.producers[p]? = some x → x.exited = false → x.call = .idle →
        x.program = .detach 0 :: rest →
        s.next (.producer p) = { s with producers := s.producers.set p { x with program := rest } }) :=
  ⟨_, .run (.start 0 [(0, 5, none)] [[.enable 0, .remove 0]] (fun _ _ => [])) _, by decide, by decide,
    removal_is_final (.run (.start 0 [(0, 5, none)] [[.enable 0, .remove 0]] (fun _ _ => []))
      [.producer 0, .producer 0, .producer 0, .producer 0, .producer 0, .producer 0,
        .timer, .timer, .timer, .timer, .timer, .timer, .timer, .timer, .timer, .producer 0, .producer 0]) 0⟩

end TimerWorld

end Fibers
