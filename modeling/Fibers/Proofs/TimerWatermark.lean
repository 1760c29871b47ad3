import Mathlib
import Fibers.Proofs.TimerPlaces
/-!
# The timer thread never oversleeps

The timer thread keeps a watermark, `next`. At the top of each round it resets the watermark
to the largest value, collects the producer queues into its heap, fires what is due and
publishes the first expiry of the heap into the watermark; then, holding the sleep lock, it
reads the watermark and waits on its condition variable until that deadline, or without one
while the watermark is the largest value. A producer pushes a timer into its queue, lowers the
watermark to the timer's expiry and, if that lowered it, notifies the timer thread under the
sleep lock.

Whatever the interleaving, the watermark covers every timer that waits
(`TimerWorld.Watermark`):

* a timer in a queue that the current round has drained is at or above the watermark, or
  the thread that pushed it has yet to lower the watermark;
* once published, the watermark is at most every expiry in the heap, which is ordered;
* while the timer thread decides on a wait, is about to wait or waits, with a deadline past
  the watermark, a notification is on its way: a producer is about to notify, or the wait was
  notified.

Every reachable world has this shape (`TimerWorld.Reachable.watermark`). With the places of
timers, `TimerWorld.loses_no_timer_and_never_oversleeps` gathers what the timer thread
promises: every enabled timer is somewhere, no step drops a live queued timer, and a wait
never outlasts a waiting timer's expiry without a notification on its way.
-/

namespace Fibers

/-! ## 1. What the timer thread's stage says about the watermark -/

namespace LoopStage

/-- The timer thread holds the sleep lock: from taking it until it waits, leaves or lets it go. -/
def holdsSleep : LoopStage → Bool
  | .loadStopped | .leave | .loadNext | .compare _ | .sleep _ | .unlock => true
  | _ => false

/-- The timer thread waits on its condition variable. -/
def isWaiting : LoopStage → Bool
  | .waiting _ => true
  | _ => false

/-- The queues this round's collection has drained: those before the one it works on, and all
of them outside a collection. -/
def drained (st : LoopStage) (queues : List ProducerQueue) : List ProducerQueue :=
  match st with
  | .collect => []
  | .drain i | .take i => queues.take i
  | _ => queues

/-- The watermark covers the heap: from its publication until the next reset. -/
def published : LoopStage → Bool
  | .lockSleep | .loadStopped | .leave | .loadNext | .compare _ | .sleep _ | .waiting _ | .unlock
  | .reset | .done => true
  | _ => false

/-- The deadline of the wait the timer thread decides on, is about to make or makes; the
largest value for a wait without one. -/
def deadline : LoopStage → Option Nat
  | .compare v => some v
  | .sleep d | .waiting d => some (d.getD noDeadline)
  | _ => none

theorem drained_cases (st : LoopStage) :
    (∃ k, ∀ queues, st.drained queues = queues.take k) ∨ ∀ queues, st.drained queues = queues := by
  cases st
  case collect => exact .inl ⟨0, fun _ => rfl⟩
  case drain i => exact .inl ⟨i, fun _ => rfl⟩
  case take i => exact .inl ⟨i, fun _ => rfl⟩
  all_goals exact .inr fun _ => rfl

/-- Outside the sleep lock, a stage with a deadline is the wait itself. -/
theorem isWaiting_of_deadline {st : LoopStage} {D : Nat} (hD : st.deadline = some D)
    (hs : st.holdsSleep = false) : st.isWaiting = true := by
  cases st <;> simp_all [deadline, holdsSleep, isWaiting]

end LoopStage

/-! ## 2. The drained queues under the producers' steps -/

section Queues

variable {l : List ProducerQueue} {i u t : Nat}

theorem mem_flatMap_push
    (ht : t ∈ (l.modify i (fun q => { q with timers := q.timers ++ [u] })).flatMap (·.timers)) :
    t ∈ l.flatMap (·.timers) ∨ t = u := by
  induction l generalizing i with
  | nil => simp at ht
  | cons q l ih =>
    cases i with
    | zero =>
      simp only [List.modify_zero_cons, List.flatMap_cons, List.mem_append, List.mem_singleton] at ht ⊢
      tauto
    | succ i =>
      simp only [List.modify_succ_cons, List.flatMap_cons, List.mem_append] at ht ⊢
      rcases ht with ht | ht
      · exact .inl (.inl ht)
      · exact (ih ht).imp_left .inr

theorem mem_flatMap_push_of_mem (ht : t ∈ l.flatMap (·.timers)) :
    t ∈ (l.modify i (fun q => { q with timers := q.timers ++ [u] })).flatMap (·.timers) := by
  induction l generalizing i with
  | nil => simp at ht
  | cons q l ih =>
    cases i with
    | zero =>
      simp only [List.modify_zero_cons, List.flatMap_cons, List.mem_append] at ht ⊢
      tauto
    | succ i =>
      simp only [List.modify_succ_cons, List.flatMap_cons, List.mem_append] at ht ⊢
      exact ht.imp_right ih

namespace LoopStage

variable {st : LoopStage}

/-- A push adds its timer to the drained queues, or nothing. -/
theorem mem_drained_push
    (ht : t ∈ (st.drained (l.modify i (fun q => { q with timers := q.timers ++ [u] }))).flatMap (·.timers)) :
    t ∈ (st.drained l).flatMap (·.timers) ∨ t = u := by
  rcases st.drained_cases with ⟨k, hk⟩ | hk
  · rw [hk, List.take_modify] at ht
    rw [hk]
    exact mem_flatMap_push ht
  · rw [hk] at ht ⊢
    exact mem_flatMap_push ht

/-- A new queue is empty. -/
theorem flatMap_drained_register (c : Caller) :
    (st.drained (l ++ [{ owner := c }])).flatMap (·.timers) = (st.drained l).flatMap (·.timers) := by
  rcases st.drained_cases with ⟨k, hk⟩ | hk
  · rw [hk, hk, List.take_append, List.flatMap_append]
    cases k - l.length <;> simp
  · rw [hk, hk]
    simp

/-- An exiting producer's queues keep their timers. -/
theorem flatMap_drained_exit (p : Nat) :
    (st.drained (l.map fun q => if q.owner = .producer p then { q with held := false } else q)).flatMap (·.timers) =
      (st.drained l).flatMap (·.timers) := by
  have hq : (fun q : ProducerQueue => (if q.owner = .producer p then { q with held := false } else q).timers) =
      (·.timers) := by
    funext q
    split <;> rfl
  rcases st.drained_cases with ⟨k, hk⟩ | hk
  · rw [hk, hk, ← List.map_take, List.flatMap_map, hq]
  · rw [hk, hk, List.flatMap_map, hq]

end LoopStage

end Queues

/-! ## 3. What a caller's step does to the watermark -/

namespace CallStage.Turn

variable {h h' : TimerHub} {c : Caller} {call call' : CallStage} {t : Nat}

theorem next_le (ht : Turn h c call h' call') : h'.next ≤ h.next := by
  cases ht <;> simp

theorem next_le_of_lower (ht : Turn h c (.lower t) h' call') : h'.next ≤ (h.table.get t).expiresAt := by
  cases ht
  simp

/-- Lowering the watermark notifies exactly when it lowered it. -/
theorem after_lower (ht : Turn h c (.lower t) h' call') :
    h'.next = min h.next (h.table.get t).expiresAt ∧
      call' = if (h.table.get t).expiresAt < h.next then .notify t else .idle := by
  cases ht
  exact ⟨rfl, rfl⟩

/-- A notification needs the sleep lock free, and marks a waiting timer thread notified. -/
theorem after_notify (ht : Turn h c (.notify t) h' call') :
    h.sleepHeld = false ∧ h'.notified = (h.notified || h.waiting) ∧ call' = .idle := by
  cases ht with
  | notify _ hs => exact ⟨hs, rfl, rfl⟩

theorem next_eq (ht : Turn h c call h' call') (hne : ∀ t, call ≠ .lower t) : h'.next = h.next := by
  cases ht <;> simp_all

theorem notified_eq (ht : Turn h c call h' call') (hne : ∀ t, call ≠ .notify t) : h'.notified = h.notified := by
  cases ht <;> simp_all

theorem notified_mono (ht : Turn h c call h' call') (hn : h.notified = true) : h'.notified = true := by
  cases ht <;> simp [hn]

theorem expiresAt_eq (ht : Turn h c call h' call') (t : Nat) :
    (h'.table.get t).expiresAt = (h.table.get t).expiresAt := by
  cases ht <;> simp

theorem sleepHeld_eq (ht : Turn h c call h' call') : h'.sleepHeld = h.sleepHeld := by
  cases ht <;> rfl

theorem waiting_eq (ht : Turn h c call h' call') : h'.waiting = h.waiting := by
  cases ht <;> rfl

/-- A caller adds to the queues only the timer it pushes. -/
theorem mem_drained (ht : Turn h c call h' call') (st : LoopStage)
    (hmem : t ∈ (st.drained h'.queues).flatMap (·.timers)) :
    t ∈ (st.drained h.queues).flatMap (·.timers) ∨ (call = .push t ∧ call' = .lower t) := by
  cases ht with
  | registerNew u _ _ => exact .inl ((st.flatMap_drained_register c).symm ▸ hmem)
  | push u i _ _ =>
    rcases LoopStage.mem_drained_push hmem with hmem | rfl
    · exact .inl hmem
    · exact .inr ⟨rfl, rfl⟩
  | _ => exact .inl hmem

/-- A caller never takes a timer out of the queues. -/
theorem mem_queued (ht : Turn h c call h' call') (hmem : t ∈ h.queues.flatMap (·.timers)) :
    t ∈ h'.queues.flatMap (·.timers) := by
  cases ht with
  | registerNew u _ _ => simpa using hmem
  | push u i _ _ => exact mem_flatMap_push_of_mem hmem
  | _ => exact hmem

end CallStage.Turn

/-! ## 4. The watermark invariant -/

namespace TimerWorld

variable {s s' : TimerWorld} {c₀ : Caller} {call call' : CallStage} {t q : Nat}

/-- After one caller's stage changed, a thread lowering `t` was lowering it before, or is the
one that moved. -/
theorem lowering_of_callOf (hc : ∀ c, s'.callOf c = if c = c₀ then some call' else s.callOf c)
    (hl : s.Lowering t) : s'.Lowering t ∨ s.callOf c₀ = some (.lower t) := by
  obtain ⟨c, hct⟩ := hl
  by_cases hcc : c = c₀
  · subst hcc
    exact .inr hct
  · exact .inl ⟨c, by rw [hc c, if_neg hcc]; exact hct⟩

theorem notifying_of_callOf (hc : ∀ c, s'.callOf c = if c = c₀ then some call' else s.callOf c)
    (hn : s.Notifying q) : s'.Notifying q ∨ ∃ u, s.callOf c₀ = some (.notify u) := by
  obtain ⟨u, hu⟩ := hn
  by_cases hcc : Caller.producer q = c₀
  · subst hcc
    exact .inr ⟨u, hu⟩
  · exact .inl ⟨u, by rw [hc, if_neg hcc]; exact hu⟩

/-- The watermark covers every timer that waits: see the module documentation. -/
structure Watermark (s : TimerWorld) : Prop where
  sleepHeld : s.hub.sleepHeld = s.loop.stage.holdsSleep
  waiting : s.hub.waiting = s.loop.stage.isWaiting
  ordered : Pending.Ordered s.loop.heap
  /-- A timer in a drained queue is at or above the watermark, or its producer has yet to lower
  the watermark. -/
  queued : ∀ t ∈ (s.loop.stage.drained s.hub.queues).flatMap (·.timers),
    s.hub.next ≤ (s.hub.table.get t).expiresAt ∨ s.Lowering t
  /-- Once published, the watermark is at most every expiry in the heap. -/
  heap : s.loop.stage.published = true → ∀ p ∈ s.loop.heap, s.hub.next ≤ p.expiresAt
  /-- A deadline past the watermark has a notification on its way. -/
  deadline : ∀ D, s.loop.stage.deadline = some D → s.hub.next < D →
    (s.hub.waiting = true ∧ s.hub.notified = true) ∨ ∃ p, s.Notifying p

/-- A step that moves neither the timer thread, the watermark nor the locks keeps the
invariant, as long as no timer leaves the drained queues and every lowering and notifying
thread stays so. -/
theorem Watermark.of_frame (hw : s.Watermark) (hloop : s'.loop = s.loop) (hnext : s'.hub.next = s.hub.next)
    (hsl : s'.hub.sleepHeld = s.hub.sleepHeld) (hwt : s'.hub.waiting = s.hub.waiting)
    (hno : s.hub.notified = true → s'.hub.notified = true)
    (hexp : ∀ t, (s'.hub.table.get t).expiresAt = (s.hub.table.get t).expiresAt)
    (hq : ∀ st : LoopStage, (st.drained s'.hub.queues).flatMap (·.timers) = (st.drained s.hub.queues).flatMap (·.timers))
    (hlow : ∀ t, s.Lowering t → s'.Lowering t) (hnot : ∀ q, s.Notifying q → s'.Notifying q) : s'.Watermark where
  sleepHeld := by rw [hsl, hloop, hw.sleepHeld]
  waiting := by rw [hwt, hloop, hw.waiting]
  ordered := hloop ▸ hw.ordered
  queued t hmem := by
    rw [hloop, hq] at hmem
    rw [hnext, hexp]
    exact (hw.queued t hmem).imp_right (hlow t)
  heap hp p hmem := by
    rw [hloop] at hp hmem
    rw [hnext]
    exact hw.heap hp p hmem
  deadline D hD hlt := by
    rw [hloop] at hD
    rw [hnext] at hlt
    rcases hw.deadline D hD hlt with ⟨hwa, hn⟩ | ⟨q, hq⟩
    · exact .inl ⟨hwt ▸ hwa, hno hn⟩
    · exact .inr ⟨q, hnot q hq⟩

/-- A step of caller `c₀`'s operation keeps the invariant. The caller is a producer whenever the
timer thread is on a wait; the timer thread's own stage keeps what the invariant reads of it. -/
theorem Watermark.of_turn (hw : s.Watermark) (hcall : s.callOf c₀ = some call)
    (ht : CallStage.Turn s.hub c₀ call s'.hub call')
    (hc : ∀ c, s'.callOf c = if c = c₀ then some call' else s.callOf c)
    (hprod : ∀ D, s.loop.stage.deadline = some D → ∃ p, c₀ = .producer p)
    (hheap : s'.loop.heap = s.loop.heap) (hsl : s'.loop.stage.holdsSleep = s.loop.stage.holdsSleep)
    (hwt : s'.loop.stage.isWaiting = s.loop.stage.isWaiting) (hdr : s'.loop.stage.drained = s.loop.stage.drained)
    (hpub : s'.loop.stage.published = s.loop.stage.published)
    (hdl : s'.loop.stage.deadline = s.loop.stage.deadline) : s'.Watermark where
  sleepHeld := by rw [ht.sleepHeld_eq, hsl, hw.sleepHeld]
  waiting := by rw [ht.waiting_eq, hwt, hw.waiting]
  ordered := hheap ▸ hw.ordered
  queued t hmem := by
    rw [hdr] at hmem
    rw [ht.expiresAt_eq]
    rcases ht.mem_drained _ hmem with hmem | ⟨-, rfl⟩
    · rcases hw.queued t hmem with hle | hl
      · exact .inl (ht.next_le.trans hle)
      · rcases lowering_of_callOf hc hl with hl | hl
        · exact .inr hl
        · -- the caller lowering `t` lowers the watermark to its expiry now
          rw [hcall, Option.some.injEq] at hl
          subst hl
          exact .inl ht.next_le_of_lower
    · exact .inr ⟨c₀, by rw [hc, if_pos rfl]⟩
  heap hp p hmem := by
    rw [hpub] at hp
    rw [hheap] at hmem
    exact ht.next_le.trans (hw.heap hp p hmem)
  deadline D hD hlt := by
    rw [hdl] at hD
    -- a notification already on its way stays on its way, unless this step delivers it
    have hkeep : ((s.hub.waiting = true ∧ s.hub.notified = true) ∨ ∃ p, s.Notifying p) →
        (∀ u, call ≠ .notify u) →
        (s'.hub.waiting = true ∧ s'.hub.notified = true) ∨ ∃ p, s'.Notifying p := by
      rintro (⟨hwa, hn⟩ | ⟨q, hq⟩) hnn
      · exact .inl ⟨ht.waiting_eq ▸ hwa, ht.notified_eq hnn ▸ hn⟩
      · rcases notifying_of_callOf hc hq with hq | ⟨u, hu⟩
        · exact .inr ⟨q, hq⟩
        · rw [hcall, Option.some.injEq] at hu
          exact absurd hu (hnn u)
    cases call with
    | lower u =>
      obtain ⟨hnext, hcall'⟩ := ht.after_lower
      by_cases hprev : s.hub.next < D
      · exact hkeep (hw.deadline D hD hprev) (fun _ => CallStage.noConfusion)
      · -- this step lowered the watermark under the deadline, so its caller goes on to notify
        have hlow : (s.hub.table.get u).expiresAt < s.hub.next := by
          rw [hnext] at hlt
          omega
        rw [if_pos hlow] at hcall'
        obtain ⟨p, rfl⟩ := hprod D hD
        exact .inr ⟨p, u, by rw [hc, if_pos rfl, hcall']⟩
    | notify u =>
      -- the notification is delivered: outside the sleep lock, a deadline is the wait itself
      obtain ⟨hfree, hn, -⟩ := ht.after_notify
      have hwait : s.hub.waiting = true := by
        rw [hw.waiting]
        exact LoopStage.isWaiting_of_deadline hD (by rw [← hw.sleepHeld]; exact hfree)
      exact .inl ⟨ht.waiting_eq ▸ hwait, by rw [hn, hwait, Bool.or_true]⟩
    | _ =>
      rw [ht.next_eq (fun _ => CallStage.noConfusion)] at hlt
      exact hkeep (hw.deadline D hD hlt) (fun _ => CallStage.noConfusion)

end TimerWorld

namespace TimerWorld

variable {s s' : TimerWorld} {p : Nat}

theorem Watermark.next_producer (hw : s.Watermark) (hs : s.step (.producer p) = some s') : s'.Watermark := by
  obtain ⟨-, x, x', hx, hxs, he⟩ := step_producer hs
  have hc : ∀ c, s'.callOf c = if c = .producer p then some x'.call else s.callOf c := by
    intro c
    rw [he]
    exact callOf_setProducer hx c
  have hcall : s.callOf (.producer p) = some x.call := by simp [callOf, hx]
  -- beginning an operation or exiting moves no timer and no flag the invariant reads
  have hidle : x.call = .idle → (∀ u, x'.call ≠ .lower u) → (∀ u, x'.call ≠ .notify u) →
      (∀ t, s.Lowering t → s'.Lowering t) ∧ ∀ q, s.Notifying q → s'.Notifying q := by
    intro hi _ _
    refine ⟨fun t hl => ?_, fun q hq => ?_⟩
    · rcases lowering_of_callOf hc hl with hl | hl
      · exact hl
      · rw [hcall, hi] at hl
        exact absurd hl (by simp)
    · rcases notifying_of_callOf hc hq with hq | ⟨u, hu⟩
      · exact hq
      · rw [hcall, hi] at hu
        exact absurd hu (by simp)
  rcases (TimerProducer.step_cases hxs).2 with ⟨op, rest, hi, -, hh, hx'⟩ | ⟨hi, -, hh, hx'⟩ | ⟨-, hcs, -⟩
  · have hbegin : ∀ u, CallStage.begin op ≠ .lower u ∧ CallStage.begin op ≠ .notify u := by
      intro u
      cases op <;> simp [CallStage.begin]
    obtain ⟨hlow, hnot⟩ := hidle hi (fun u => by rw [hx']; exact (hbegin u).1)
      (fun u => by rw [hx']; exact (hbegin u).2)
    exact hw.of_frame (by rw [he]) (by rw [hh]) (by rw [hh]) (by rw [hh]) (fun hn => by rw [hh]; exact hn)
      (fun t => by rw [hh]) (fun st => by rw [hh]) hlow hnot
  · obtain ⟨hlow, hnot⟩ := hidle hi (fun u => by rw [hx', hi]; simp) (fun u => by rw [hx', hi]; simp)
    exact hw.of_frame (by rw [he]) (by rw [hh]) (by rw [hh]) (by rw [hh]) (fun hn => by rw [hh]; exact hn)
      (fun t => by rw [hh]) (fun st => by rw [hh]; exact LoopStage.flatMap_drained_exit p) hlow hnot
  · exact hw.of_turn hcall (CallStage.step_turn hcs) hc (fun _ _ => ⟨p, rfl⟩) (by rw [he]) (by rw [he])
      (by rw [he]) (by rw [he]) (by rw [he]) (by rw [he])

theorem Watermark.next_stopper (hw : s.Watermark) (hs : s.step .stopper = some s') : s'.Watermark := by
  obtain ⟨-, ⟨-, he⟩ | ⟨-, -, he⟩⟩ := step_stopper hs <;> subst he
  · exact hw.of_frame rfl rfl rfl rfl id (fun _ => rfl) (fun _ => rfl) (fun _ => id) (fun _ => id)
  · exact hw.of_frame rfl rfl rfl rfl (fun hn => by simp [hn]) (fun _ => rfl) (fun _ => rfl) (fun _ => id)
      (fun _ => id)

theorem Watermark.next_clock (hw : s.Watermark) (hs : s.step .clock = some s') : s'.Watermark := by
  obtain ⟨-, he⟩ := step_clock hs
  subst he
  exact hw.of_frame rfl rfl rfl rfl id (fun _ => rfl) (fun _ => rfl) (fun _ => id) (fun _ => id)

end TimerWorld

/-! ## 5. What the timer thread's steps do to the watermark -/

namespace TimerLoop

variable {l l' : TimerLoop} {h h' : TimerHub} {cb : Nat → Nat → List TimerOp} {t : Nat}

namespace Paces

/-- The quiet steps take no timer out of the drained queues, and only the reset raises the
watermark, when no queue is drained yet. -/
theorem mem_drained (hp : Paces l h h' l') (ht : t ∈ (l'.stage.drained h'.queues).flatMap (·.timers)) :
    t ∈ (l.stage.drained h.queues).flatMap (·.timers) ∧ h'.next ≤ h.next := by
  cases hp with
  | reset hst => simp [LoopStage.drained] at ht
  | collect hst => simp [LoopStage.drained] at ht
  | drainLock i hst _ => exact ⟨by simpa [LoopStage.drained, hst] using ht, le_rfl⟩
  | drainEnd i hst hi =>
    refine ⟨?_, le_rfl⟩
    simpa [LoopStage.drained, hst, List.take_of_length_le hi] using ht
  | publishTop p rest hst _ =>
    exact ⟨by simpa [LoopStage.drained, hst] using ht, Nat.min_le_left _ _⟩
  | loadStopped hst =>
    refine ⟨?_, le_rfl⟩
    split at ht <;> simpa [LoopStage.drained, hst] using ht
  | loadNext hst =>
    refine ⟨?_, le_rfl⟩
    split at ht <;> simpa [LoopStage.drained, hst] using ht
  | compare v hst =>
    refine ⟨?_, le_rfl⟩
    split at ht <;> simpa [LoopStage.drained, hst] using ht
  | clock hst | publishNone hst _ | lockSleep hst | leave hst | sleep d hst | unlock hst | waiting d hst =>
    exact ⟨by simpa [LoopStage.drained, hst] using ht, le_rfl⟩

/-- The sleep lock and the waiting flag follow the stage. -/
theorem locks (hp : Paces l h h' l') (hsl : h.sleepHeld = l.stage.holdsSleep) (hwt : h.waiting = l.stage.isWaiting) :
    h'.sleepHeld = l'.stage.holdsSleep ∧ h'.waiting = l'.stage.isWaiting := by
  cases hp with
  | loadStopped hst =>
    rw [hst] at hsl hwt
    split <;> exact ⟨hsl, hwt⟩
  | loadNext hst =>
    rw [hst] at hsl hwt
    split <;> exact ⟨hsl, hwt⟩
  | compare v hst =>
    rw [hst] at hsl hwt
    split <;> exact ⟨hsl, hwt⟩
  | reset hst | collect hst | drainLock _ hst _ | drainEnd _ hst _ | clock hst | publishTop _ _ hst _
  | publishNone hst _ =>
    rw [hst] at hsl hwt
    exact ⟨hsl, hwt⟩
  | lockSleep hst | leave hst | sleep _ hst | unlock hst | waiting _ hst =>
    rw [hst] at hsl hwt
    simp_all [LoopStage.holdsSleep, LoopStage.isWaiting]

/-- Reading the watermark under the sleep lock sets the deadline to it; a wait with a deadline
past the watermark had a notification on its way before the wait, and still has. -/
theorem deadline {N : Prop} (hp : Paces l h h' l') (hwt : h.waiting = l.stage.isWaiting)
    (hd : ∀ D, l.stage.deadline = some D → h.next < D → (h.waiting = true ∧ h.notified = true) ∨ N) :
    ∀ D, l'.stage.deadline = some D → h'.next < D → (h'.waiting = true ∧ h'.notified = true) ∨ N := by
  intro D hD hlt
  cases hp with
  | loadNext hst =>
    split at hD
    · next hn =>
      simp only [LoopStage.deadline, Option.getD_none, Option.some.injEq] at hD
      rw [← hD, hn] at hlt
      exact absurd hlt (Nat.lt_irrefl _)
    · simp only [LoopStage.deadline, Option.some.injEq] at hD
      rw [← hD] at hlt
      exact absurd hlt (Nat.lt_irrefl _)
  | compare v hst =>
    split at hD
    · simp only [LoopStage.deadline, Option.getD_some] at hD
      exact hd D (by rw [hst, LoopStage.deadline, hD]) hlt
    · simp [LoopStage.deadline] at hD
  | sleep d hst =>
    -- before the wait, the timer thread was not waiting: the notification is a thread's
    rcases hd D (by rw [hst]; exact hD) hlt with ⟨hw, -⟩ | hn
    · rw [hwt, hst] at hw
      simp [LoopStage.isWaiting] at hw
    · exact .inr hn
  | loadStopped hst => split at hD <;> simp [LoopStage.deadline] at hD
  | reset hst | collect hst | drainLock _ hst _ | drainEnd _ hst _ | clock hst | publishTop _ _ hst _
  | publishNone hst _ | lockSleep hst | leave hst | unlock hst | waiting _ hst =>
    simp [LoopStage.deadline] at hD

/-- Publishing the first expiry of the ordered heap covers the whole heap. -/
theorem heap (hp : Paces l h h' l') (hord : Pending.Ordered l.heap)
    (hheap : l.stage.published = true → ∀ p ∈ l.heap, h.next ≤ p.expiresAt) :
    l'.stage.published = true → ∀ p ∈ l'.heap, h'.next ≤ p.expiresAt := by
  intro hpub p hp'
  cases hp with
  | reset hst => simp [LoopStage.published] at hpub
  | collect hst => simp [LoopStage.published] at hpub
  | drainLock i hst _ => simp [LoopStage.published] at hpub
  | drainEnd i hst _ => simp [LoopStage.published] at hpub
  | clock hst => simp [LoopStage.published] at hpub
  | publishTop q rest hst hh =>
    -- the heap is ordered, so its first expiry is the least
    simp only [hh, List.mem_cons] at hp'
    rcases hp' with rfl | hp'
    · exact Nat.min_le_right _ _
    · have hord' := hord
      rw [hh, Pending.Ordered, List.pairwise_cons] at hord'
      exact (Nat.min_le_right _ _).trans (hord'.1 p hp')
  | publishNone hst hh => simp [hh] at hp'
  | loadStopped hst | loadNext hst | compare _ hst | lockSleep hst | leave hst | sleep _ hst | unlock hst
  | waiting _ hst =>
    exact hheap (by simp [LoopStage.published, hst]) p hp'

end Paces

namespace Touches

theorem heap_published (ht : Touches cb l h h' l') : l.stage.published = false ∧ l'.stage.published = false := by
  cases ht with
  | callbackEnd now p hst =>
    refine ⟨by simp [LoopStage.published, hst], ?_⟩
    unfold afterCallback
    split <;> rfl
  | takeCancelled i u rest hst _ _ => exact ⟨by simp [LoopStage.published, hst], by simp [LoopStage.published, hst]⟩
  | takeLive i u rest hst _ _ => exact ⟨by simp [LoopStage.published, hst], by simp [LoopStage.published, hst]⟩
  | takeNil _ hst _ | retain hst | popNone _ hst _ | popCancelled _ _ _ hst _ _ _ | popLive _ _ _ hst _ _ _
  | fire _ _ hst | callbackBegin _ _ _ _ hst | callbackCall _ _ _ _ _ _ hst _ _ | recheckCancelled _ _ _ hst _
  | recheckLive _ _ _ hst _ _ | recheckOverflow _ _ _ hst _ _ =>
    exact ⟨by simp [LoopStage.published, hst], rfl⟩

theorem views (ht : Touches cb l h h' l') :
    l.stage.holdsSleep = false ∧ l'.stage.holdsSleep = false ∧ l.stage.isWaiting = false ∧
      l'.stage.isWaiting = false ∧ l'.stage.deadline = none := by
  have hafter (table : TimerTable) (now : Nat) (p : Pending) :
      (afterCallback table now p).holdsSleep = false ∧ (afterCallback table now p).isWaiting = false ∧
        (afterCallback table now p).deadline = none := by
    unfold afterCallback
    split <;> exact ⟨rfl, rfl, rfl⟩
  cases ht with
  | callbackEnd now p hst =>
    obtain ⟨h1, h2, h3⟩ := hafter h.table now p
    exact ⟨by simp [LoopStage.holdsSleep, hst], h1, by simp [LoopStage.isWaiting, hst], h2, h3⟩
  | takeCancelled i u rest hst _ _ =>
    simp [LoopStage.holdsSleep, LoopStage.isWaiting, LoopStage.deadline, hst]
  | takeLive i u rest hst _ _ =>
    simp [LoopStage.holdsSleep, LoopStage.isWaiting, LoopStage.deadline, hst]
  | takeNil _ hst _ | retain hst | popNone _ hst _ | popCancelled _ _ _ hst _ _ _ | popLive _ _ _ hst _ _ _
  | fire _ _ hst | callbackBegin _ _ _ _ hst | callbackCall _ _ _ _ _ _ hst _ _ | recheckCancelled _ _ _ hst _
  | recheckLive _ _ _ hst _ _ | recheckOverflow _ _ _ hst _ _ =>
    simp [LoopStage.holdsSleep, LoopStage.isWaiting, LoopStage.deadline, hst]

/-- What the invariant reads of the shared state: the timer thread's own work keeps the locks
and the expiries, never raises the watermark and never clears a notification. -/
theorem frame (ht : Touches cb l h h' l') :
    h'.sleepHeld = h.sleepHeld ∧ h'.waiting = h.waiting ∧ h'.next ≤ h.next ∧
      (h.notified = true → h'.notified = true) ∧
      ∀ t, (h'.table.get t).expiresAt = (h.table.get t).expiresAt := by
  cases ht with
  | callbackCall now p ops call call' h'' hst _ hcs =>
    have ht := CallStage.step_turn hcs
    exact ⟨ht.sleepHeld_eq, ht.waiting_eq, ht.next_le, ht.notified_mono, ht.expiresAt_eq⟩
  | _ => exact ⟨rfl, rfl, le_rfl, id, fun _ => rfl⟩

/-- The timer thread's work keeps the heap ordered. -/
theorem ordered (ht : Touches cb l h h' l') (hord : Pending.Ordered l.heap) : Pending.Ordered l'.heap := by
  cases ht with
  | takeLive i u rest hst _ _ => exact hord.insert _
  | popCancelled now p rest hst hh _ _ =>
    rw [hh, Pending.Ordered, List.pairwise_cons] at hord
    exact hord.2
  | popLive now p rest hst hh _ _ =>
    rw [hh, Pending.Ordered, List.pairwise_cons] at hord
    exact hord.2
  | recheckLive now p i hst _ _ | recheckOverflow now p i hst _ _ => exact hord.insert _
  | _ => exact hord

/-- The timer thread takes no timer out of the drained queues; it adds one only from a callback
that pushed it, before lowering the watermark. -/
theorem mem_drained (ht : Touches cb l h h' l') (hmem : t ∈ (l'.stage.drained h'.queues).flatMap (·.timers)) :
    t ∈ (l.stage.drained h.queues).flatMap (·.timers) ∨ l'.callStage = some (.lower t) := by
  cases ht with
  | takeNil i hst hqi =>
    -- the queue just found empty joins the drained ones
    left
    simp only [LoopStage.drained, hst, List.take_add_one, List.flatMap_append] at hmem ⊢
    rcases List.mem_append.1 hmem with hmem | hmem
    · exact hmem
    · cases hq : h.queues[i]? with
      | none => simp [hq] at hmem
      | some q =>
        have : q.timers = [] := by
          rw [List.getD_eq_getElem?_getD, hq, Option.getD_some] at hqi
          exact hqi
        simp [hq, this] at hmem
  | takeCancelled i u rest hst _ _ =>
    left
    simpa [LoopStage.drained, hst, List.take_modify, List.modify_eq_self] using hmem
  | takeLive i u rest hst _ _ =>
    left
    simpa [LoopStage.drained, hst, List.take_modify, List.modify_eq_self] using hmem
  | retain hst =>
    left
    have hq : (h.queues.filter (fun q => q.held || !q.timers.isEmpty)).flatMap (·.timers) =
        h.queues.flatMap (·.timers) :=
      flatMap_filter_of_nil fun q hq => by
        simp only [Bool.or_eq_false_iff, Bool.not_eq_false', List.isEmpty_iff] at hq
        exact hq.2
    simpa [LoopStage.drained, hst, hq] using hmem
  | callbackCall now p ops call call' h'' hst _ hcs =>
    have hmem' : t ∈ (l.stage.drained h'.queues).flatMap (·.timers) := by
      simpa [LoopStage.drained, hst] using hmem
    rcases (CallStage.step_turn hcs).mem_drained l.stage hmem' with hmem | ⟨-, rfl⟩
    · exact .inl hmem
    · exact .inr rfl
  | callbackEnd now p hst =>
    left
    have : (afterCallback h.table now p).drained = LoopStage.drained (.callback now p [] .idle) := by
      unfold afterCallback
      split <;> rfl
    simpa [this, hst] using hmem
  | popNone _ hst _ | popCancelled _ _ _ hst _ _ _ | popLive _ _ _ hst _ _ _ | fire _ _ hst
  | callbackBegin _ _ _ _ hst | recheckCancelled _ _ _ hst _ | recheckLive _ _ _ hst _ _
  | recheckOverflow _ _ _ hst _ _ =>
    left
    simpa [LoopStage.drained, hst] using hmem

/-- The timer thread takes a timer out of the queues only into the heap, or when it finds it
cancelled. -/
theorem queued (ht : Touches cb l h h' l') (hq : t ∈ h.queues.flatMap (·.timers))
    (hc : h'.table.isCancelled t = false) : t ∈ h'.queues.flatMap (·.timers) ∨ ∃ p ∈ l'.heap, p.timer = t := by
  cases ht with
  | takeCancelled i u rest hst hqi hcu =>
    rcases (TimerHub.queued_take (t := t) hqi).2 hq with hq | rfl
    · exact .inl hq
    · rw [hc] at hcu
      exact absurd hcu Bool.false_ne_true
  | takeLive i u rest hst hqi _ =>
    rcases (TimerHub.queued_take (t := t) hqi).2 hq with hq | rfl
    · exact .inl hq
    · exact .inr ⟨_, Pending.mem_insert.2 (.inl rfl), rfl⟩
  | retain hst => exact .inl (TimerHub.queued_retain.2 hq)
  | callbackCall now p ops call call' h'' hst _ hcs => exact .inl ((CallStage.step_turn hcs).mem_queued hq)
  | _ => exact .inl hq

/-- A callback lowering the watermark for `t` lowers it to `t`'s expiry. -/
theorem next_le_of_lower (ht : Touches cb l h h' l') (hl : l.callStage = some (.lower t)) :
    h'.next ≤ (h.table.get t).expiresAt := by
  cases ht with
  | callbackCall now p ops call call' h'' hst _ hcs =>
    simp only [callStage, hst, Option.some.injEq] at hl
    subst hl
    exact (CallStage.step_turn hcs).next_le_of_lower
  | callbackBegin _ _ _ _ hst | callbackEnd _ _ hst => simp [callStage, hst] at hl
  | takeNil _ hst _ | takeCancelled _ _ _ hst _ _ | takeLive _ _ _ hst _ _ | retain hst | popNone _ hst _
  | popCancelled _ _ _ hst _ _ _ | popLive _ _ _ hst _ _ _ | fire _ _ hst | recheckCancelled _ _ _ hst _
  | recheckLive _ _ _ hst _ _ | recheckOverflow _ _ _ hst _ _ =>
    simp [callStage, hst] at hl

end Touches

end TimerLoop

/-! ## 6. Every reachable world -/

namespace TimerWorld

variable {s : TimerWorld} {h' : TimerHub} {l' : TimerLoop} {t : Nat}

/-- A thread lowering `t` before a step of the timer thread still is, unless it is the timer
thread's own callback. -/
theorem lowering_setLoop (hl : s.Lowering t) :
    ({ s with hub := h', loop := l' } : TimerWorld).Lowering t ∨ s.loop.callStage = some (.lower t) := by
  obtain ⟨c, hc⟩ := hl
  cases c with
  | producer q => exact .inl ⟨.producer q, hc⟩
  | timer => exact .inr hc

theorem Watermark.of_loop_step (hw : s.Watermark) (hs : s.loop.step s.hub s.callbacks = some (h', l')) :
    ({ s with hub := h', loop := l' } : TimerWorld).Watermark := by
  cases hq : s.loop.stage.quiet
  case false =>
    have ht := TimerLoop.step_touches hs hq
    obtain ⟨hsl₀, hsl₁, hwt₀, hwt₁, hdl⟩ := ht.views
    obtain ⟨hsl, hwt, hnext, -, hexp⟩ := ht.frame
    refine ⟨?_, ?_, ht.ordered hw.ordered, fun t hmem => ?_, fun hp => ?_, fun D hD => ?_⟩
    · show h'.sleepHeld = l'.stage.holdsSleep
      rw [hsl, hw.sleepHeld, hsl₀, hsl₁]
    · show h'.waiting = l'.stage.isWaiting
      rw [hwt, hw.waiting, hwt₀, hwt₁]
    · rcases ht.mem_drained hmem with hmem | hlow
      · show h'.next ≤ (h'.table.get t).expiresAt ∨ _
        rw [hexp]
        rcases hw.queued t hmem with hle | hl
        · exact .inl (hnext.trans hle)
        · rcases lowering_setLoop hl with hl | hl
          · exact .inr hl
          · exact .inl (ht.next_le_of_lower hl)
      · exact .inr ⟨.timer, hlow⟩
    · simp [ht.heap_published.2] at hp
    · simp [hdl] at hD
  case true =>
    have hp := TimerLoop.step_paces hs hq
    obtain ⟨-, -, -, -, -, -, hcs, -⟩ := TimerLoop.step_quiet hq hs
    obtain ⟨hsl, hwt⟩ := hp.locks hw.sleepHeld hw.waiting
    refine ⟨hsl, hwt, hp.heap_eq ▸ hw.ordered, fun t hmem => ?_, hp.heap hw.ordered hw.heap,
      hp.deadline hw.waiting hw.deadline⟩
    obtain ⟨hmem, hle⟩ := hp.mem_drained hmem
    show h'.next ≤ (h'.table.get t).expiresAt ∨ _
    rw [hp.table_eq]
    rcases hw.queued t hmem with hle' | hl
    · exact .inl (hle.trans hle')
    · rcases lowering_setLoop hl with hl | hl
      · exact .inr hl
      · simp [hcs] at hl

theorem Watermark.next_timer {s' : TimerWorld} (hw : s.Watermark) (hs : s.step .timer = some s') :
    s'.Watermark := by
  obtain ⟨-, hl, he⟩ := step_timer hs
  rw [he]
  exact hw.of_loop_step hl

theorem Watermark.next (hw : s.Watermark) (party : TimerParty) : (s.next party).Watermark := by
  rcases next_cases s party with h | h
  · rwa [h]
  cases party with
  | producer p => exact hw.next_producer h
  | timer => exact hw.next_timer h
  | stopper => exact hw.next_stopper h
  | clock => exact hw.next_clock h

theorem watermark_start (id : Nat) (timers : List (Nat × Nat × Option Nat)) (programs : List (List TimerOp))
    (callbacks : Nat → Nat → List TimerOp) : (start id timers programs callbacks).Watermark where
  sleepHeld := rfl
  waiting := rfl
  ordered := List.Pairwise.nil
  queued t hmem := by simp [start, LoopStage.drained] at hmem
  heap _ p hp := by simp [start] at hp
  deadline D hD := by simp [start, LoopStage.deadline] at hD

/-- Every reachable world keeps the watermark invariant. -/
theorem Reachable.watermark (hr : s.Reachable) : s.Watermark := by
  induction hr with
  | start id timers programs callbacks => exact watermark_start id timers programs callbacks
  | next party _ ih => exact ih.next party

end TimerWorld

/-! ## 7. The timer thread loses no timer and never oversleeps -/

namespace TimerWorld

variable {s : TimerWorld} {t : Nat}

/-- No turn takes a live timer out of the producer queues but into the heap: a producer only
adds to the queues, and collection moves a timer into the heap unless it is cancelled, while
dropping only queues that are empty. -/
theorem queued_next (party : TimerParty) (hq : s.hub.Queued t)
    (hc : (s.next party).hub.table.isCancelled t = false) :
    (s.next party).hub.Queued t ∨ (s.next party).loop.InHeap t := by
  rcases next_cases s party with h | h
  · rw [h]
    exact .inl hq
  generalize s.next party = s' at h hc ⊢
  cases party with
  | producer p =>
    obtain ⟨-, x, x', -, hxs, he⟩ := step_producer h
    rw [he]
    rcases (TimerProducer.step_cases hxs).2 with ⟨-, -, -, -, hh, -⟩ | ⟨-, -, hh, -⟩ | ⟨-, hcs, -⟩
    · exact .inl (by rw [hh]; exact hq)
    · exact .inl (by rw [hh]; exact TimerHub.queued_exit.2 hq)
    · exact .inl ((CallStage.step_turn hcs).mem_queued hq)
  | timer =>
    obtain ⟨-, hl, he⟩ := step_timer h
    rw [he] at hc ⊢
    cases hquiet : s.loop.stage.quiet
    · exact (TimerLoop.step_touches hl hquiet).queued hq hc
    · obtain ⟨-, hqs, -⟩ := TimerLoop.step_quiet hquiet hl
      exact .inl (by show t ∈ s'.hub.queues.flatMap (·.timers); rw [hqs]; exact hq)
  | stopper =>
    obtain ⟨-, ⟨-, he⟩ | ⟨-, -, he⟩⟩ := step_stopper h <;> rw [he] <;> exact .inl hq
  | clock =>
    obtain ⟨-, he⟩ := step_clock h
    rw [he]
    exact .inl hq

/-- While the timer thread waits, every timer that waits in a queue or the heap is at or above
the watermark, or its producer has yet to lower the watermark. -/
theorem Watermark.next_le_of_waits (hw : s.Watermark) {d : Option Nat} (hst : s.loop.stage = .waiting d)
    {e : Nat} (hwt : s.Waits t e) : s.hub.next ≤ e ∨ s.Lowering t := by
  rcases hwt with ⟨hq, rfl⟩ | ⟨p, hp, -, rfl⟩
  · exact hw.queued t (by simpa [hst, LoopStage.drained, TimerHub.Queued] using hq)
  · exact .inl (hw.heap (by simp [hst, LoopStage.published]) p hp)

/-- The timer thread loses no timer and never oversleeps. In every reachable world:

* every enabled timer is being enabled, waits in a producer queue or in the heap, is held by
  the timer thread between its check and its return to the heap, is cancelled, or is a one-shot
  timer whose callback started;
* no turn takes a live timer out of the queues but into the heap;
* while the timer thread waits with deadline `d` (none: without one), every timer that waits
  in a queue or in the heap, due at `e`, is at or above the watermark unless its producer has
  yet to lower the watermark; and if it is due before the deadline, the wait was notified or a
  producer is about to notify it, unless the timer's producer has yet to lower the watermark. -/
theorem loses_no_timer_and_never_oversleeps (hr : s.Reachable) :
    (∀ t, (s.hub.table.get t).enabled = true →
      s.Enabling t ∨ s.hub.Queued t ∨ s.loop.InHeap t ∨ (∃ p, s.loop.held = some p ∧ p.timer = t) ∨
        s.hub.table.isCancelled t = true ∨ ((s.hub.table.get t).interval = none ∧ t ∈ s.hub.fires)) ∧
    (∀ party t, s.hub.Queued t → (s.next party).hub.table.isCancelled t = false →
      (s.next party).hub.Queued t ∨ (s.next party).loop.InHeap t) ∧
    (∀ d, s.loop.stage = .waiting d → ∀ t e, s.Waits t e →
      (s.hub.next ≤ e ∨ s.Lowering t) ∧
        (e < d.getD noDeadline → s.hub.notified = true ∨ (∃ p, s.Notifying p) ∨ s.Lowering t)) := by
  have hw := hr.watermark
  refine ⟨fun t he => ?_, fun party t hq hc => queued_next party hq hc, fun d hst t e hwt => ?_⟩
  · rcases hr.sound.placed t he with hm | hc | hf
    · rcases mem_spots.1 hm with h | h | h | h
      · exact .inl h
      · exact .inr (.inl h)
      · exact .inr (.inr (.inl h))
      · exact .inr (.inr (.inr (.inl h)))
    · exact .inr (.inr (.inr (.inr (.inl hc))))
    · exact .inr (.inr (.inr (.inr (.inr hf))))
  have hcover := hw.next_le_of_waits hst hwt
  refine ⟨hcover, fun hlt => ?_⟩
  rcases hcover with hle | hl
  · -- the watermark is below the deadline: a notification is on its way
    rcases hw.deadline _ (by simp [hst, LoopStage.deadline]) (Nat.lt_of_le_of_lt hle hlt) with ⟨-, hn⟩ | hn
    · exact .inl hn
    · exact .inr (.inl hn)
  · exact .inr (.inr hl)

/-- A producer enables a timer due at 5 while the timer thread is idle; the timer thread
collects it, publishes its expiry and waits until 5. -/
theorem loses_no_timer_and_never_oversleeps_after_publish :
    ∃ s : TimerWorld, s.Reachable ∧ s.hub.waiting = true ∧ s.hub.next = 5 ∧
      (∀ t, (s.hub.table.get t).enabled = true →
        s.Enabling t ∨ s.hub.Queued t ∨ s.loop.InHeap t ∨ (∃ p, s.loop.held = some p ∧ p.timer = t) ∨
          s.hub.table.isCancelled t = true ∨ ((s.hub.table.get t).interval = none ∧ t ∈ s.hub.fires)) ∧
      (∀ party t, s.hub.Queued t → (s.next party).hub.table.isCancelled t = false →
        (s.next party).hub.Queued t ∨ (s.next party).loop.InHeap t) ∧
      (∀ d, s.loop.stage = .waiting d → ∀ t e, s.Waits t e →
        (s.hub.next ≤ e ∨ s.Lowering t) ∧
          (e < d.getD noDeadline → s.hub.notified = true ∨ (∃ p, s.Notifying p) ∨ s.Lowering t)) :=
  ⟨_, .run (.start 0 [(0, 5, none)] [[.enable 0]] (fun _ _ => [])) _, by decide, by decide,
    loses_no_timer_and_never_oversleeps (.run (.start 0 [(0, 5, none)] [[.enable 0]] (fun _ _ => []))
      [.producer 0, .producer 0, .producer 0, .producer 0, .producer 0, .producer 0,
        .timer, .timer, .timer, .timer, .timer, .timer, .timer, .timer, .timer, .timer, .timer, .timer,
        .timer, .timer, .timer])⟩

end TimerWorld

end Fibers
