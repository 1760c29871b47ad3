import Mathlib
import Fibers.Proofs.MutexExclusion
/-!
# One owner, an exact count, and a first-in first-out hand-off

What the invariant of `Fibers.Proofs.MutexExclusion` says about the mutex itself, in every
state a schedule reaches:

* a party *owns* the mutex when it holds a guard or an unlock claimed its wait block; at
  most one party owns it (`Inv.owner_unique`);
* the count is the number of owners plus the number of parties counted in behind them that
  own nothing yet (`Inv.count_eq_census`);
* between an unlock's count-out and its claim nobody owns the mutex, yet the count stays
  positive (`Inv.handoff_unowned`);
* the claim finds an unclaimed waiter at the head of the queue and passes the mutex to it
  (`Inv.pop_passes`), and the queue only grows at its tail and shrinks at its head
  (`Inv.queue_step`), so the mutex goes to the waiters in the order they queued;
* while anybody is queued the count is positive, so neither a try nor the fast path of a
  lock takes the mutex (`Inv.count_pos_of_queued`, `begin_tryLock_of_pos`,
  `begin_lock_of_pos`).
-/

namespace Fibers

namespace Contention

/-! ## 1. Owners, and counting parties -/

/-- Party `p` owns the mutex: it holds a guard, or an unlock claimed its wait block. -/
def owner (s : Contention) (p : Nat) : Prop :=
  (s.party p).owns = true ∨ ((s.party p).stage = .sleep ∧ p ∈ s.claimed)

instance (s : Contention) : DecidablePred s.owner := fun _ =>
  inferInstanceAs (Decidable (_ ∨ _))

instance (s : Contention) : DecidablePred s.waits := fun _ =>
  inferInstanceAs (Decidable (_ ∨ _))

/-- The number of parties with a property. -/
def census (s : Contention) (P : Nat → Prop) [DecidablePred P] : Nat :=
  (List.range s.parties.length).countP (fun p => decide (P p))

section Census

variable {s : Contention}

theorem map_party_range : (List.range s.parties.length).map s.party = s.parties := by
  apply List.ext_getElem (by simp)
  intro i _ h2
  simp [party, List.getD_eq_getElem?_getD, List.getElem?_eq_getElem h2]

/-- Counting the parties is counting their numbers. -/
theorem countP_parties (g : Contender → Bool) :
    s.parties.countP g = (List.range s.parties.length).countP (fun p => g (s.party p)) := by
  have h := congrArg (List.countP g) (map_party_range (s := s))
  rw [List.countP_map] at h
  exact h.symm.trans (by rfl)

/-- Two pairs of counts agree when they agree one element at a time. -/
theorem countP_add_of_pointwise {l : List Nat} {a b c d : Nat → Bool}
    (h : ∀ x ∈ l, (if a x then 1 else 0) + (if b x then 1 else 0) =
      (if c x then 1 else 0) + (if d x then 1 else 0)) :
    l.countP a + l.countP b = l.countP c + l.countP d := by
  induction l with
  | nil => simp
  | cons x l ih =>
    simp only [List.countP_cons]
    have hx := h x (by simp)
    have hl := ih (fun y hy => h y (by simp [hy]))
    omega

end Census

/-! ## 2. One owner, and what the count counts -/

theorem leads_of_owner {s : Contention} {p : Nat} (h : s.owner p) : s.leads p := by
  rcases h with h | h
  · exact Or.inl h
  · exact Or.inr (Or.inl h)

/-- A party's weight splits into owning and waiting, as long as a claimed sleeper holds no
guard yet. -/
theorem weight_split (o : Bool) (k : LockStage) (c : Prop) [Decidable c]
    (h : k = .sleep → c → o = false) :
    (if o then 1 else 0) + (if k.counted then 1 else 0) =
      (if decide (o = true ∨ (k = .sleep ∧ c)) then 1 else 0) +
        (if decide (k = .queue ∨ k = .park ∨ (k = .sleep ∧ ¬ c)) then 1 else 0) := by
  cases k <;> by_cases hc : c <;> cases o <;> simp_all [LockStage.counted]

section Owners

variable {s : Contention} (hi : s.Inv)
include hi

/-- **At most one party owns the mutex.** -/
theorem Inv.owner_unique {p q : Nat} (hp : s.owner p) (hq : s.owner q) : p = q :=
  hi.lead_unique p q (leads_of_owner hp) (leads_of_owner hq)

/-- A party adds to the count once for owning and once for waiting: a claimed sleeper owns
and no longer waits, and its guard is not yet set. -/
theorem Inv.weight_eq (p : Nat) :
    (if (s.party p).owns then 1 else 0) + (if (s.party p).stage.counted then 1 else 0) =
      (if decide (s.owner p) then 1 else 0) + (if decide (s.waits p) then 1 else 0) := by
  exact weight_split _ _ _ (hi.claimed_owns p)

/-- **The count is the owners plus the parties counted in behind them.** -/
theorem Inv.count_eq_census : s.mutex.count = s.census s.owner + s.census s.waits := by
  rw [hi.count_eq, tally, countP_parties, countP_parties]
  exact countP_add_of_pointwise (fun p _ => hi.weight_eq p)

/-- **Nobody owns the mutex during a hand-off, yet the count stays positive.** -/
theorem Inv.handoff_unowned {p : Nat}
    (hs : (s.party p).stage = .handoff ∨ (s.party p).stage = .pop) :
    (∀ q, ¬ s.owner q) ∧ 1 ≤ s.mutex.count := by
  refine ⟨fun q hq => ?_, hi.handoff_counted p hs⟩
  have hlead : s.leads p := by
    rcases hs with hs | hs
    · exact Or.inr (Or.inr (Or.inl hs))
    · exact Or.inr (Or.inr (Or.inr hs))
  have hqp := hi.lead_unique q p (leads_of_owner hq) hlead
  subst hqp
  have hno := hi.unlocking_owns q (by rcases hs with hs | hs <;> simp [hs, LockStage.unlocking])
  rcases hq with ho | ⟨hsl, -⟩
  · simp [hno] at ho
  · rcases hs with hs | hs <;> simp [hs] at hsl

end Owners

/-! ## 3. The queue -/

section Queue

variable {s t : Contention} {p : Nat}

/-- Starting an operation leaves the queue alone. -/
@[simp] theorem waiters_begin (op : MutexOp) (rest : List MutexOp) :
    (s.begin p op rest).mutex.waiters = s.mutex.waiters := by
  cases op <;> simp only [Contention.begin] <;> (try split_ifs) <;> simp

/-- While the mutex is counted, a try leaves it alone. -/
theorem begin_tryLock_of_pos (h : 0 < s.mutex.count) (rest : List MutexOp) :
    s.begin p .tryLock rest = s.update p (fun x => { x with program := rest }) := by
  simp [Contention.begin, Nat.pos_iff_ne_zero.mp h]

/-- While the mutex is counted, a lock leaves the fast path for the slow one. -/
theorem begin_lock_of_pos (h : 0 < s.mutex.count) (rest : List MutexOp) :
    s.begin p .lock rest = (s.update p (fun x => { x with program := rest })).setStage p .slow := by
  simp [Contention.begin, Nat.pos_iff_ne_zero.mp h]

variable (hi : s.Inv)
include hi

/-- **While anybody is queued the count is positive**: a queued party is counted in. -/
theorem Inv.count_pos_of_queued (hq : s.mutex.waiters.queue ≠ []) : 0 < s.mutex.count := by
  obtain ⟨q, hmem⟩ := List.exists_mem_of_ne_nil _ hq
  have hw : s.waits q := by
    obtain ⟨hst, hcl⟩ := (hi.mem_queue q).mp hmem
    rcases hst with hst | hst
    · exact Or.inr (Or.inl hst)
    · exact Or.inr (Or.inr ⟨hst, hcl⟩)
  obtain ⟨l, hl⟩ := hi.waits_led q hw
  exact hi.count_pos_of_leads hl

/-- **The claim passes the mutex to the head of the queue.** The party about to claim finds
an unclaimed waiter in front; its step takes that waiter off the queue, makes it the owner,
and leaves the claimer to wake it. -/
theorem Inv.pop_passes (hs : (s.party p).stage = .pop) :
    ∃ q rest, s.mutex.waiters.queue = q :: rest ∧ s.waits q ∧
      ∃ t, s.step p = some t ∧ t.mutex.waiters.queue = rest ∧ t.owner q ∧ t.carries p q := by
  obtain ⟨q, rest, hq, hqs, hqc⟩ := hi.pop_head hs
  have hqp : q ≠ p := fun h => by simp [h, hs] at hqs
  have hp : p < s.parties.length := lt_of_stage_ne_idle (by simp [hs])
  have hwake := Waitable.wakeOne_of_head hq hqc
  have hstep : s.step p = some (((s.setWaiters { s.mutex.waiters with queue := rest }).setClaimed
      (q :: s.claimed)).setStage p (.unpin (some q))) := by
    simp only [Contention.step, hs, hwake]
  refine ⟨q, rest, hq, Or.inr (Or.inr ⟨hqs, hqc⟩), _, hstep, ?_⟩
  refine ⟨by simp, ?_, ?_⟩
  · refine Or.inr ⟨?_, by simp⟩
    rw [party_setStage (by simpa using hp)]
    simp [hqp, hqs]
  · left
    rw [party_setStage (by simpa using hp)]
    simp

/-- **The queue is first in, first out.** A step leaves the queue alone, appends the
stepping party at its tail, or takes its head off, which then owns the mutex. -/
theorem Inv.queue_step (h : s.step p = some t) :
    t.mutex.waiters.queue = s.mutex.waiters.queue ∨
      t.mutex.waiters.queue = s.mutex.waiters.queue ++ [p] ∨
      ∃ q, s.mutex.waiters.queue = q :: t.mutex.waiters.queue ∧ t.owner q := by
  cases hs : (s.party p).stage
  case queue =>
    simp only [Contention.step, hs, Option.some.injEq] at h
    subst h
    right; left
    simp [Waitable.add_of_not_persistent hi.not_persistent]
  case pop =>
    obtain ⟨q, rest, hq, -, t', ht', hrest, hown, -⟩ := hi.pop_passes hs
    rw [h, Option.some.injEq] at ht'
    subst ht'
    exact Or.inr (Or.inr ⟨q, hrest ▸ hq, hown⟩)
  all_goals
    left
    simp only [Contention.step, hs] at h
    repeat' split at h
    -- every other step either is blocked or leaves the mutex's queue alone
    all_goals
      first
      | (simp only [Option.some.injEq] at h; subst h; simp)
      | (simp at h)

end Queue

end Contention

end Fibers
