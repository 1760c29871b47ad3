import Mathlib
import Fibers.Proofs.TimerSteps
/-!
# Collected timers fire in order

The timer thread keeps the timers it collected in a heap in firing order: the earlier expiry
first and, between equal expiries, the smaller sequence number. It numbers the timers as it
collects them, draining each producer queue first in, first out, and a periodic timer goes
back into the heap with its number kept, at its next expiry. So between equal expiries the
timer collected first fires first.

Whatever the interleaving, the heap stays strictly in that order. Its numbers are distinct,
and none is later than the last number given, so a timer collected later ties behind every
timer already there. The timer the thread holds, from its cancelled check to its re-arm,
comes before every timer left in the heap (`TimerLoop.InOrder`). So each firing the thread
counts is of a timer that comes before every collected timer still waiting
(`TimerWorld.collected_timers_fire_in_order`).

The order covers the collected timers only. A timer enabled after the thread's collection
waits in its producer queue until the next round. A collected timer due later than it, but
due by the thread's clock reading, fires first.

## Contents
1. The firing order.
2. What the timer thread's steps keep.
3. Every reachable world.
-/

namespace Fibers

/-! ## 1. The firing order -/

namespace Pending

variable {a b c x : Pending} {l : List Pending}

theorem before_eq_true_iff :
    a.before b = true ↔ a.expiresAt < b.expiresAt ∨ (a.expiresAt = b.expiresAt ∧ a.seq < b.seq) := by
  simp [before]

theorem before_trans (hab : a.before b = true) (hbc : b.before c = true) : a.before c = true := by
  rw [before_eq_true_iff] at *
  omega

/-- Two pending timers with different numbers are ordered one way or the other. -/
theorem before_of_not_before (hne : a.seq ≠ b.seq) (h : a.before b = false) : b.before a = true := by
  rw [← Bool.not_eq_true, before_eq_true_iff] at h
  rw [before_eq_true_iff]
  omega

/-- A heap strictly in firing order. -/
def FiringOrder (heap : List Pending) : Prop := heap.Pairwise (fun a b => a.before b = true)

/-- Putting a timer into a heap in firing order keeps the order, when no timer of the heap has
its number: the timers it passes come strictly before it. -/
theorem FiringOrder.insert (x : Pending) : ∀ {l : List Pending}, FiringOrder l →
    (∀ q ∈ l, q.seq ≠ x.seq) → FiringOrder (Pending.insert x l)
  | [], _, _ => List.pairwise_singleton _ x
  | q :: rest, h, hx => by
    have hq : ∀ y ∈ rest, q.before y = true := (List.pairwise_cons.1 h).1
    simp only [Pending.insert]
    split
    · next hb =>
      refine List.pairwise_cons.2 ⟨?_, h⟩
      intro y hy
      rcases List.mem_cons.1 hy with rfl | hy
      · exact hb
      · exact before_trans hb (hq y hy)
    · next hb =>
      have hqx : q.before x = true := before_of_not_before (hx q List.mem_cons_self).symm (by simpa using hb)
      have hrest : FiringOrder (Pending.insert x rest) :=
        FiringOrder.insert x (List.pairwise_cons.1 h).2 fun y hy => hx y (List.mem_cons_of_mem q hy)
      refine List.pairwise_cons.2 ⟨?_, hrest⟩
      intro y hy
      rcases mem_insert.1 hy with rfl | hy
      · exact hqx
      · exact hq y hy

theorem nodup_insert_seq :
    ((Pending.insert x l).map seq).Nodup ↔ x.seq ∉ l.map seq ∧ (l.map seq).Nodup := by
  rw [((insert_perm x l).map seq).nodup_iff, List.map_cons, List.nodup_cons]

end Pending

/-! ## 2. What the timer thread's steps keep -/

namespace TimerLoop

variable {l l' : TimerLoop} {h h' : TimerHub} {cb : Nat → Nat → List TimerOp}

/-- The order the timer thread keeps: its heap strictly in firing order with distinct numbers,
none later than the last one given, and the timer it holds, with a number of its own, before
every timer of the heap. -/
structure InOrder (l : TimerLoop) : Prop where
  ordered : Pending.FiringOrder l.heap
  seqs : (l.heap.map Pending.seq).Nodup
  fresh : ∀ q ∈ l.heap, q.seq ≤ l.seq
  held : ∀ p, l.held = some p → p.seq ≤ l.seq ∧ ∀ q ∈ l.heap, p.before q = true ∧ q.seq ≠ p.seq

theorem Paces.seq_eq (hp : Paces l h h' l') : l'.seq = l.seq := by
  cases hp <;> rfl

namespace InOrder

/-- A step that only moves the stage keeps the order, when it lets the held timer go or keeps
holding it. -/
theorem restage (hi : l.InOrder) (st : LoopStage)
    (hst : ({ l with stage := st } : TimerLoop).held = none ∨
      ({ l with stage := st } : TimerLoop).held = l.held) :
    ({ l with stage := st } : TimerLoop).InOrder where
  ordered := hi.ordered
  seqs := hi.seqs
  fresh := hi.fresh
  held p hp := by
    rcases hst with hst | hst
    · simp [hst] at hp
    · exact hi.held p (hst ▸ hp)

/-- Collecting a live timer numbers it past every number given, so it goes in behind every
timer of equal expiry. -/
theorem collect (hi : l.InOrder) (hnone : l.held = none) (e u : Nat) :
    ({ l with heap := Pending.insert ⟨e, l.seq + 1, u⟩ l.heap, seq := l.seq + 1 } : TimerLoop).InOrder := by
  -- the new number is past every number of the heap
  have hnew : ∀ q ∈ l.heap, q.seq ≠ l.seq + 1 := fun q hq => by
    have := hi.fresh q hq
    omega
  refine ⟨hi.ordered.insert _ hnew, ?_, ?_, ?_⟩
  · refine Pending.nodup_insert_seq.2 ⟨?_, hi.seqs⟩
    simpa using hnew
  · intro q hq
    rcases Pending.mem_insert.1 hq with rfl | hq
    · exact le_rfl
    · exact Nat.le_succ_of_le (hi.fresh q hq)
  · intro p hp
    change l.held = some p at hp
    simp [hnone] at hp

/-- Taking the first timer out of the heap keeps the order; the timer taken, if held, comes
before the rest. -/
theorem pop {p : Pending} {rest : List Pending} (hi : l.InOrder) (hh : l.heap = p :: rest)
    (st : LoopStage) (hst : ∀ p', ({ l with heap := rest, stage := st } : TimerLoop).held = some p' → p' = p) :
    ({ l with heap := rest, stage := st } : TimerLoop).InOrder := by
  have hord := hi.ordered
  have hseqs := hi.seqs
  rw [hh, Pending.FiringOrder, List.pairwise_cons] at hord
  rw [hh, List.map_cons, List.nodup_cons] at hseqs
  refine ⟨hord.2, hseqs.2, fun q hq => hi.fresh q (hh ▸ List.mem_cons_of_mem p hq), ?_⟩
  intro p' hp'
  obtain rfl := hst p' hp'
  refine ⟨hi.fresh p' (hh ▸ List.mem_cons_self), fun q hq => ⟨hord.1 q hq, ?_⟩⟩
  rintro heq
  exact hseqs.1 (heq ▸ List.mem_map_of_mem hq)

/-- A live periodic timer goes back with its number kept: no timer of the heap has it. -/
theorem rearm {p : Pending} (hi : l.InOrder) (hp : l.held = some p) (e : Nat) (st : LoopStage)
    (hst : ({ l with stage := st } : TimerLoop).held = none) :
    ({ l with heap := Pending.insert { p with expiresAt := e } l.heap, stage := st } : TimerLoop).InOrder := by
  obtain ⟨hle, hfirst⟩ := hi.held p hp
  refine ⟨hi.ordered.insert _ fun q hq => (hfirst q hq).2, ?_, ?_, ?_⟩
  · refine Pending.nodup_insert_seq.2 ⟨?_, hi.seqs⟩
    simpa using fun q hq => (hfirst q hq).2
  · intro q hq
    rcases Pending.mem_insert.1 hq with rfl | hq
    · exact hle
    · exact hi.fresh q hq
  · intro p' hp'
    change ({ l with stage := st } : TimerLoop).held = some p' at hp'
    simp [hst] at hp'

end InOrder

/-- Every step of the timer thread keeps the order. -/
theorem InOrder.step (hi : l.InOrder) (hs : l.step h cb = some (h', l')) : l'.InOrder := by
  cases hq : l.stage.quiet
  case true =>
    have hp := step_paces hs hq
    exact ⟨hp.heap_eq ▸ hi.ordered, hp.heap_eq ▸ hi.seqs, by rw [hp.heap_eq, hp.seq_eq]; exact hi.fresh,
      fun p hp' => by simp [hp.held_callStage.1] at hp'⟩
  -- the steps that touch the heap or hold a timer, one by one
  cases step_touches hs hq with
  | takeNil i hst _ => exact hi.restage _ (.inl rfl)
  | takeCancelled => exact hi
  | takeLive i u rest hst _ _ => exact hi.collect (by simp [TimerLoop.held, hst]) _ u
  | retain hst => exact hi.restage _ (.inl rfl)
  | popNone now hst _ => exact hi.restage _ (.inl rfl)
  | popCancelled now p rest hst hh _ _ => exact hi.pop hh _ fun p' hp' => by simp [TimerLoop.held] at hp'
  | popLive now p rest hst hh _ _ => exact hi.pop hh _ fun p' hp' => by simpa [TimerLoop.held] using hp'.symm
  | fire now p hst => exact hi.restage _ (.inr (by simp [TimerLoop.held, hst]))
  | callbackBegin now p op ops hst => exact hi.restage _ (.inr (by simp [TimerLoop.held, hst]))
  | callbackCall now p ops call call' h'' hst _ _ => exact hi.restage _ (.inr (by simp [TimerLoop.held, hst]))
  | callbackEnd now p hst =>
    -- a periodic timer stays held for its re-arm; a one-shot one is let go
    refine hi.restage _ ?_
    cases hiv : (h.table.get p.timer).interval with
    | none => exact .inl (by simp [hiv])
    | some _ => exact .inr (by rw [held_afterCallback, hiv]; simp [TimerLoop.held, hst])
  | recheckCancelled now p i hst _ => exact hi.restage _ (.inl rfl)
  | recheckLive now p i hst _ _ | recheckOverflow now p i hst _ _ =>
    exact hi.rearm (by simp [TimerLoop.held, hst]) _ _ rfl

/-- A step of the timer thread counts a firing only of the timer it holds. -/
theorem fires_step (hs : l.step h cb = some (h', l')) :
    h'.fires = h.fires ∨ ∃ p, l.held = some p ∧ h'.fires = h.fires ++ [p.timer] := by
  cases hq : l.stage.quiet
  case true => exact .inl (step_quiet hq hs).2.2.1
  cases step_touches hs hq with
  | fire now p hst => exact .inr ⟨p, by simp [TimerLoop.held, hst], rfl⟩
  | callbackCall now p ops call call' h'' hst _ hcs => exact .inl (CallStage.step_frame hcs).1
  | _ => exact .inl rfl

end TimerLoop

/-! ## 3. Every reachable world -/

namespace TimerWorld

variable {s : TimerWorld}

theorem inOrder_next (hi : s.loop.InOrder) (party : TimerParty) : (s.next party).loop.InOrder := by
  rcases loop_next s party with ⟨hl, -⟩ | hs
  · rwa [hl]
  · exact hi.step hs

theorem Reachable.inOrder (hr : s.Reachable) : s.loop.InOrder := by
  induction hr with
  | start id timers programs callbacks =>
    exact ⟨List.Pairwise.nil, List.nodup_nil, fun q hq => by simp [TimerWorld.start] at hq,
      fun p hp => by simp [TimerWorld.start, TimerLoop.held] at hp⟩
  | next party _ ih => exact inOrder_next ih party

/-- A turn counts a firing only of the timer the timer thread holds. -/
theorem fires_next_held (s : TimerWorld) (party : TimerParty) :
    (s.next party).hub.fires = s.hub.fires ∨
      ∃ p, s.loop.held = some p ∧ (s.next party).hub.fires = s.hub.fires ++ [p.timer] := by
  rcases loop_next s party with ⟨-, hf⟩ | hs
  · exact .inl hf
  · exact TimerLoop.fires_step hs

/-- **Collected timers fire in order.** In every reachable world the timer thread's heap is
strictly in firing order, earlier expiry first and then the smaller number; its numbers are
distinct, and none is past the last number given, so a timer collected later ties behind
every timer already there. Every firing a turn counts is of the timer the thread holds, and
that timer comes before every collected timer still waiting in the heap. -/
theorem collected_timers_fire_in_order (hr : s.Reachable) :
    Pending.FiringOrder s.loop.heap ∧ (s.loop.heap.map Pending.seq).Nodup ∧
      (∀ q ∈ s.loop.heap, q.seq ≤ s.loop.seq) ∧
      ∀ party, (s.next party).hub.fires = s.hub.fires ∨
        ∃ p, s.loop.held = some p ∧ (s.next party).hub.fires = s.hub.fires ++ [p.timer] ∧
          ∀ q ∈ s.loop.heap, p.before q = true := by
  have hi := hr.inOrder
  refine ⟨hi.ordered, hi.seqs, hi.fresh, fun party => ?_⟩
  rcases fires_next_held s party with hf | ⟨p, hp, hf⟩
  · exact .inl hf
  · exact .inr ⟨p, hp, hf, fun q hq => ((hi.held p hp).2 q hq).1⟩

/-- A producer enables two timers, due at 0 and at 5; the timer thread collects both in one
round, reads the clock at 0 and fires the first while the second waits in the heap behind it. -/
theorem collected_timers_fire_in_order_at_zero :
    ∃ s : TimerWorld, s.Reachable ∧ s.loop.heap.length = 1 ∧ (s.next .timer).hub.fires = [0] ∧
      Pending.FiringOrder s.loop.heap ∧ (s.loop.heap.map Pending.seq).Nodup ∧
      (∀ q ∈ s.loop.heap, q.seq ≤ s.loop.seq) ∧
      ∀ party, (s.next party).hub.fires = s.hub.fires ∨
        ∃ p, s.loop.held = some p ∧ (s.next party).hub.fires = s.hub.fires ++ [p.timer] ∧
          ∀ q ∈ s.loop.heap, p.before q = true := by
  have hr := Reachable.run (.start 0 [(0, 0, none), (0, 5, none)] [[.enable 0, .enable 1]] (fun _ _ => []))
    (List.replicate 11 (.producer 0) ++ List.replicate 10 .timer)
  exact ⟨_, hr, by decide, by decide, collected_timers_fire_in_order hr⟩

end TimerWorld

end Fibers
