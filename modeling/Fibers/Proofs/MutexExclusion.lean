import Mathlib
import Fibers.Sync.Contention
import Fibers.Proofs.WaitQueue
/-!
# The mutex hands itself over and admits one owner at a time

Over every schedule of any parties, fibers or threads, running any programs of locks, tries,
guard drops, reads and writes, the mutex keeps one invariant (`Contention.Inv`):

* the internal lock is held exactly by the party in one of the stages that take it;
* the count is the number of guards held plus the number of parties counted in behind
  others;
* the queue holds, once each and in the order they queued, the parties that queued and are
  not claimed;
* at most one party *leads*: owns a guard, holds a claimed block, or is handing the mutex
  over between its count-out and its claim; and a party that waits always has a leader;
* every claimed sleeper has exactly one wake coming or delivered, and no unclaimed sleeper
  has one.

Each step of each stage keeps it (`Inv.step`), so every state a schedule reaches has it.
-/

namespace Fibers

/-- The stages of an unlock after the count-out. -/
def LockStage.unlocking : LockStage → Bool
  | .handoff | .pop | .unpin _ | .wake _ => true
  | _ => false

/-- What a party adds to the count: one for its guard, one for being counted in behind
others. -/
def Contender.weight (x : Contender) : Nat :=
  (if x.owns then 1 else 0) + (if x.stage.counted then 1 else 0)

namespace Contention

/-! ## 1. Counting parties -/

/-- The count the parties account for. -/
def tally (s : Contention) : Nat := s.parties.countP (·.owns) + s.parties.countP (·.stage.counted)

section Tally

variable {s : Contention} {p r : Nat} {f : Contender → Contender} {k : LockStage}

@[simp] theorem tally_setCount (n : Nat) : (s.setCount n).tally = s.tally := rfl
@[simp] theorem tally_setValue (v : Int) : (s.setValue v).tally = s.tally := rfl
@[simp] theorem tally_setWaiters (w : Waitable) : (s.setWaiters w).tally = s.tally := rfl
@[simp] theorem tally_setInner (o : Option Nat) : (s.setInner o).tally = s.tally := rfl
@[simp] theorem tally_setClaimed (c : List Nat) : (s.setClaimed c).tally = s.tally := rfl

theorem tally_update (hp : p < s.parties.length) :
    (s.update p f).tally + (s.party p).weight = s.tally + (f (s.party p)).weight := by
  have ho := countP_update (f := f) (·.owns) hp
  have hc := countP_update (f := f) (·.stage.counted) hp
  simp only [tally, Contender.weight]
  omega

theorem tally_setStage (hp : p < s.parties.length) :
    (s.setStage p k).tally + (s.party p).weight = s.tally + { s.party p with stage := k }.weight :=
  tally_update hp

/-- Every party's weight is part of the tally. -/
theorem weight_le_tally : (s.party r).weight ≤ s.tally := by
  by_cases hr : r < s.parties.length
  · have h := tally_update (f := fun _ => default) hr
    have h0 : (default : Contender).weight = 0 := rfl
    simp only [h0] at h
    omega
  · simp [party_eq_default (Nat.le_of_not_lt hr), Contender.weight, LockStage.counted]

/-- Two parties' weights are both part of the tally. -/
theorem weight_add_le_tally {q : Nat} (hrq : r ≠ q) :
    (s.party r).weight + (s.party q).weight ≤ s.tally := by
  by_cases hr : r < s.parties.length
  · have h := tally_update (f := fun _ => default) hr
    have h0 : (default : Contender).weight = 0 := rfl
    have hq := weight_le_tally (s := s.update r (fun _ => default)) (r := q)
    rw [party_update_ne hrq.symm] at hq
    simp only [h0] at h
    omega
  · rw [party_eq_default (Nat.le_of_not_lt hr)]
    have h0 : (default : Contender).weight = 0 := rfl
    have := weight_le_tally (s := s) (r := q)
    omega

/-- A positive tally has a party with weight. -/
theorem exists_weight_of_tally_pos (h : 0 < s.tally) : ∃ r, 0 < (s.party r).weight := by
  have hsplit : 0 < s.parties.countP (·.owns) ∨ 0 < s.parties.countP (·.stage.counted) := by
    unfold tally at h
    omega
  rcases hsplit with hpos | hpos <;>
  · obtain ⟨x, hx, hg⟩ := List.countP_pos_iff.mp hpos
    obtain ⟨r, hr, rfl⟩ := List.getElem_of_mem hx
    refine ⟨r, ?_⟩
    have hparty : s.party r = s.parties[r] := by
      simp [party, List.getD_eq_getElem?_getD, List.getElem?_eq_getElem hr]
    simp [Contender.weight, hparty, hg]

end Tally

/-! ## 2. Who leads, who waits -/

/-- Party `p` leads: it owns a guard, holds a claimed block, or hands the mutex over. -/
def leads (s : Contention) (p : Nat) : Prop :=
  (s.party p).owns = true ∨ ((s.party p).stage = .sleep ∧ p ∈ s.claimed) ∨
    (s.party p).stage = .handoff ∨ (s.party p).stage = .pop

/-- Party `q` is counted in behind others and not claimed. -/
def waits (s : Contention) (q : Nat) : Prop :=
  (s.party q).stage = .queue ∨ (s.party q).stage = .park ∨
    ((s.party q).stage = .sleep ∧ q ∉ s.claimed)

/-- Party `p` carries the wake of the waiter `q` it claimed. -/
def carries (s : Contention) (p q : Nat) : Prop :=
  (s.party p).stage = .unpin (some q) ∨ (s.party p).stage = .wake q

/-- The invariant of a contention. -/
structure Inv (s : Contention) : Prop where
  inner_holds : ∀ p, s.inner = some p → (s.party p).stage.holdsInner = true
  holds_inner : ∀ p, (s.party p).stage.holdsInner = true → s.inner = some p
  count_eq : s.mutex.count = s.tally
  mem_queue : ∀ q, q ∈ s.mutex.waiters.queue ↔
    ((s.party q).stage = .park ∨ (s.party q).stage = .sleep) ∧ q ∉ s.claimed
  queue_nodup : s.mutex.waiters.queue.Nodup
  claimed_nodup : s.claimed.Nodup
  not_persistent : s.mutex.waiters.persistent = false
  park_fresh : ∀ q, (s.party q).stage = .park → q ∉ s.claimed ∧ (s.party q).woken = false
  lead_unique : ∀ p q, s.leads p → s.leads q → p = q
  handoff_counted : ∀ p, (s.party p).stage = .handoff ∨ (s.party p).stage = .pop →
    1 ≤ s.mutex.count
  unlocking_owns : ∀ p, (s.party p).stage.unlocking = true → (s.party p).owns = false
  claimed_owns : ∀ q, (s.party q).stage = .sleep → q ∈ s.claimed → (s.party q).owns = false
  waits_led : ∀ q, s.waits q → ∃ p, s.leads p
  carries_target : ∀ p q, s.carries p q →
    (s.party q).stage = .sleep ∧ q ∈ s.claimed ∧ (s.party q).woken = false
  carries_unique : ∀ p p' q, s.carries p q → s.carries p' q → p = p'
  claimed_sleeper : ∀ q, (s.party q).stage = .sleep → q ∈ s.claimed →
    (∃ p, s.carries p q) ∨ (s.party q).woken = true
  unclaimed_sleeper : ∀ q, (s.party q).stage = .sleep → q ∉ s.claimed →
    (s.party q).woken = false

/-! ## 3. What the invariant gives -/

section Consequences

variable {s : Contention} {p q r : Nat}

/-- A party away from its idle stage is one of the parties. -/
theorem lt_of_stage_ne_idle (h : (s.party r).stage ≠ .idle) : r < s.parties.length := by
  by_contra hr
  exact h (by rw [party_eq_default (Nat.le_of_not_lt hr)]; rfl)

theorem weight_pos_iff : 0 < (s.party r).weight ↔
    (s.party r).owns = true ∨ (s.party r).stage.counted = true := by
  unfold Contender.weight
  cases (s.party r).owns <;> cases (s.party r).stage.counted <;> simp

variable (hi : s.Inv)
include hi

/-- Whoever holds a guard or a claimed block adds to the count. -/
theorem Inv.count_pos_of_leads (h : s.leads p) : 0 < s.mutex.count := by
  rcases h with ho | ⟨hs, -⟩ | hs | hs
  · have := (weight_pos_iff (s := s) (r := p)).mpr (Or.inl ho)
    have := weight_le_tally (s := s) (r := p)
    rw [hi.count_eq]
    omega
  · have := (weight_pos_iff (s := s) (r := p)).mpr (Or.inr (by simp [hs, LockStage.counted]))
    have := weight_le_tally (s := s) (r := p)
    rw [hi.count_eq]
    omega
  · exact hi.handoff_counted p (Or.inl hs)
  · exact hi.handoff_counted p (Or.inr hs)

/-- While anything is counted, some party leads: a guard holder, a claimed sleeper, or the
leader every waiter has. -/
theorem Inv.exists_leads (h : 0 < s.mutex.count) : ∃ p, s.leads p := by
  rw [hi.count_eq] at h
  obtain ⟨r, hr⟩ := exists_weight_of_tally_pos h
  rcases (weight_pos_iff.mp hr) with ho | hc
  · exact ⟨r, Or.inl ho⟩
  · by_cases hcl : (s.party r).stage = .sleep ∧ r ∈ s.claimed
    · exact ⟨r, Or.inr (Or.inl hcl)⟩
    · apply hi.waits_led r
      unfold waits
      cases hst : (s.party r).stage <;> simp_all [LockStage.counted]

/-- The party about to claim a waiter finds an unclaimed sleeper at the head of the queue.
It leads, so no guard is held and no sleeper is claimed; it holds the internal lock, so no
party is between counting in and sleeping; what it counted out left the count positive, so
a counted party remains, and that must be an unclaimed sleeper. -/
theorem Inv.pop_head (hs : (s.party p).stage = .pop) :
    ∃ q rest, s.mutex.waiters.queue = q :: rest ∧ (s.party q).stage = .sleep ∧ q ∉ s.claimed := by
  have hlead : s.leads p := Or.inr (Or.inr (Or.inr hs))
  have hinner : s.inner = some p := hi.holds_inner p (by simp [hs, LockStage.holdsInner])
  -- a party between counting in and sleeping holds the internal lock, so it is `p`
  have hnot_inner : ∀ r, (s.party r).stage.holdsInner = true → r = p := fun r h => by
    simpa [hinner] using (hi.holds_inner r h).symm
  have hpos : 0 < s.tally := by
    rw [← hi.count_eq]
    exact hi.handoff_counted p (Or.inr hs)
  obtain ⟨r, hr⟩ := exists_weight_of_tally_pos hpos
  have hmem : r ∈ s.mutex.waiters.queue := by
    rcases (weight_pos_iff.mp hr) with ho | hc
    · have := hi.lead_unique r p (Or.inl ho) hlead
      subst this
      simp [hi.unlocking_owns r (by simp [hs, LockStage.unlocking])] at ho
    · rw [hi.mem_queue]
      cases hst : (s.party r).stage <;> simp only [hst, LockStage.counted] at hc <;>
        simp only [reduceCtorEq, false_or, or_false, true_and] <;> try contradiction
      · have := hnot_inner r (by simp [hst, LockStage.holdsInner])
        subst this
        simp [hs] at hst
      · have := hnot_inner r (by simp [hst, LockStage.holdsInner])
        subst this
        simp [hs] at hst
      · intro hcl
        have := hi.lead_unique r p (Or.inr (Or.inl ⟨hst, hcl⟩)) hlead
        subst this
        simp [hs] at hst
  obtain ⟨q, rest, hq⟩ : ∃ q rest, s.mutex.waiters.queue = q :: rest := by
    cases hw : s.mutex.waiters.queue with
    | nil => simp [hw] at hmem
    | cons q rest => exact ⟨q, rest, rfl⟩
  have hqm := (hi.mem_queue q).mp (by simp [hq])
  refine ⟨q, rest, hq, ?_, hqm.2⟩
  rcases hqm.1 with hpark | hsleep
  · have := hnot_inner q (by simp [hpark, LockStage.holdsInner])
    subst this
    simp [hs] at hpark
  · exact hsleep

end Consequences

/-- The invariant reads of a contention its internal lock, the mutex, the claims, the tally,
and of each party its stage, its guard and its wake: a contention that agrees with one that
has it on all these has it too. -/
theorem Inv.of_agree {s t : Contention} (hi : s.Inv) (hin : t.inner = s.inner)
    (hm : t.mutex = s.mutex) (hc : t.claimed = s.claimed) (htally : t.tally = s.tally)
    (hr : ∀ r, (t.party r).stage = (s.party r).stage ∧ (t.party r).owns = (s.party r).owns ∧
      (t.party r).woken = (s.party r).woken) : t.Inv := by
  have hst := fun r => (hr r).1
  have how := fun r => (hr r).2.1
  have hwk := fun r => (hr r).2.2
  obtain ⟨h1, h2, h3, h4, h5, h6, h7, h8, h9, h10, h11, h12, h13, h14, h15, h16, h17⟩ := hi
  constructor <;> simp only [leads, waits, carries, hin, hm, hc, htally, hst, how, hwk] <;>
    assumption

/-! ## 4. Every step keeps the invariant

One lemma for each stage a party can step from. Each names what the step changes; the
fields the step leaves alone follow from the old invariant, and the ones it touches from
the facts of section 3. -/

section Steps

variable {s : Contention} {p : Nat} (hi : s.Inv) (hp : p < s.parties.length)
include hi hp

/-- A change to a party that leaves its stage, its guard and its wake alone: a new program,
a remembered value. -/
theorem Inv.update_quiet {f : Contender → Contender}
    (hf : ∀ x, (f x).stage = x.stage ∧ (f x).owns = x.owns ∧ (f x).woken = x.woken) :
    (s.update p f).Inv := by
  have ht := tally_update (f := f) hp
  obtain ⟨hfs, hfo, -⟩ := hf (s.party p)
  refine hi.of_agree rfl rfl rfl ?_ fun r => ?_
  · simp only [Contender.weight, hfs, hfo] at ht
    omega
  · rw [party_update_eq hp]
    split
    · rename_i hrp
      subst hrp
      exact hf _
    · exact ⟨rfl, rfl, rfl⟩

/-- Taking the internal lock on the slow path. -/
theorem Inv.slow (hs : (s.party p).stage = .slow) (hin : s.inner = none) :
    ((s.setInner (some p)).setStage p .count).Inv := by
  have hr := fun r => party_setStage (s := s.setInner (some p)) (k := .count) (r := r) hp
  have ht := tally_setStage (s := s.setInner (some p)) (k := .count) hp
  simp only [party_setInner, tally_setInner] at hr ht
  obtain ⟨h1, h2, h3, h4, h5, h6, h7, h8, h9, h10, h11, h12, h13, h14, h15, h16, h17⟩ := hi
  simp only [leads, waits, carries] at h9 h13 h14 h15 h16
  constructor
  case count_eq =>
    simp [Contender.weight, hs, LockStage.counted] at ht
    simp only [mutex_setStage, mutex_setInner, h3]
    omega
  all_goals
    simp only [leads, waits, carries, hr, apply_ite Contender.stage, apply_ite Contender.owns,
      apply_ite Contender.woken] at *
    simp only [Bool.ite_eq_false_distrib, Bool.ite_eq_true_distrib, Option.some.injEq,
      claimed_setInner, claimed_setStage, forall_eq', implies_true, inner_setInner,
      inner_setStage, mutex_setInner, mutex_setStage, ↓reduceIte] at *
    grind -ring -linarith [LockStage.holdsInner, LockStage.unlocking]

/-- Counting in first: the party owns the mutex. Nothing was counted, so nobody led. -/
theorem Inv.count_first (hs : (s.party p).stage = .count) (h0 : s.mutex.count = 0) :
    ((s.setCount 1).update p (fun x => { x with stage := .enter, owns := true })).Inv := by
  have hnl : ∀ r, ¬ s.leads r := fun r hl => by
    have := hi.count_pos_of_leads hl
    omega
  have hr := fun r => party_update_eq (s := s.setCount 1)
    (f := fun x => { x with stage := .enter, owns := true }) (q := r) hp
  have ht := tally_update (s := s.setCount 1)
    (f := fun x => { x with stage := .enter, owns := true }) hp
  simp only [party_setCount, tally_setCount] at hr ht
  obtain ⟨h1, h2, h3, h4, h5, h6, h7, h8, h9, h10, h11, h12, h13, h14, h15, h16, h17⟩ := hi
  simp only [leads, waits, carries] at h9 h13 h14 h15 h16 hnl
  constructor
  case count_eq =>
    have hno : (s.party p).owns = false := by grind
    simp [Contender.weight, hs, hno, LockStage.counted] at ht
    simp only [mutex_update, count_setCount]
    omega
  all_goals
    simp only [leads, waits, carries, hr, apply_ite Contender.stage, apply_ite Contender.owns,
      apply_ite Contender.woken] at *
    simp only [Bool.not_eq_true, Std.le_refl, claimed_setCount, claimed_update, count_setCount,
      implies_true, inner_setCount, inner_update, mutex_update, not_and, not_or, waiters_setCount] at *
      <;> grind -ring -linarith [LockStage.holdsInner, LockStage.unlocking]

/-- Counting in behind others: the party will queue. Something was counted, so someone
leads, and leads on. -/
theorem Inv.count_behind (hs : (s.party p).stage = .count) (h0 : s.mutex.count ≠ 0) :
    ((s.setCount (s.mutex.count + 1)).setStage p .queue).Inv := by
  obtain ⟨l, hl⟩ := hi.exists_leads (Nat.pos_of_ne_zero h0)
  have hr := fun r => party_setStage (s := s.setCount (s.mutex.count + 1)) (k := .queue) (r := r) hp
  have ht := tally_setStage (s := s.setCount (s.mutex.count + 1)) (k := .queue) hp
  simp only [party_setCount, tally_setCount] at hr ht
  obtain ⟨h1, h2, h3, h4, h5, h6, h7, h8, h9, h10, h11, h12, h13, h14, h15, h16, h17⟩ := hi
  simp only [leads, waits, carries] at h9 h13 h14 h15 h16 hl
  constructor
  case count_eq =>
    simp [Contender.weight, hs, LockStage.counted] at ht
    simp only [mutex_setStage, count_setCount]
    omega
  all_goals
    simp only [leads, waits, carries, hr, apply_ite Contender.stage, apply_ite Contender.owns,
      apply_ite Contender.woken] at *
    simp only [Bool.ite_eq_false_distrib, Bool.ite_eq_true_distrib, claimed_setCount,
      claimed_setStage, count_setCount, implies_true, inner_setCount, inner_setStage,
      le_add_iff_nonneg_left, mutex_setStage, ne_eq, waiters_setCount, zero_le] at *
      <;> grind -ring -linarith [LockStage.holdsInner, LockStage.unlocking]

/-- Leaving the slow path owning: the internal lock is released. -/
theorem Inv.enter (hs : (s.party p).stage = .enter) :
    ((s.setInner none).setStage p .idle).Inv := by
  have hr := fun r => party_setStage (s := s.setInner none) (k := .idle) (r := r) hp
  have ht := tally_setStage (s := s.setInner none) (k := .idle) hp
  simp only [party_setInner, tally_setInner] at hr ht
  obtain ⟨h1, h2, h3, h4, h5, h6, h7, h8, h9, h10, h11, h12, h13, h14, h15, h16, h17⟩ := hi
  simp only [leads, waits, carries] at h9 h13 h14 h15 h16
  constructor
  case count_eq =>
    simp [Contender.weight, hs, LockStage.counted] at ht
    simp only [mutex_setStage, mutex_setInner, h3]
    omega
  all_goals
    simp only [leads, waits, carries, hr, apply_ite Contender.stage, apply_ite Contender.owns,
      apply_ite Contender.woken] at *
    simp only [Bool.ite_eq_false_distrib, Bool.ite_eq_true_distrib, Bool.not_eq_true,
      IsEmpty.forall_iff, claimed_setInner, claimed_setStage, imp_false, implies_true,
      inner_setInner, inner_setStage, mutex_setInner, mutex_setStage, reduceCtorEq] at *
      <;> grind -ring -linarith [LockStage.holdsInner, LockStage.unlocking]

/-- Queueing the wait block: a fresh block and wake-up, at the tail of the queue. -/
theorem Inv.queue (hs : (s.party p).stage = .queue) :
    (((s.setWaiters (s.mutex.waiters.add p).1).setClaimed (s.claimed.erase p)).update p
      (fun x => { x with stage := .park, wakeup := {} })).Inv := by
  have hadd := Waitable.add_of_not_persistent hi.not_persistent p
  have hnq : p ∉ s.mutex.waiters.queue := by simp [hi.mem_queue, hs]
  have hne : p ∉ s.claimed.erase p := hi.claimed_nodup.not_mem_erase
  obtain ⟨l, hl⟩ := hi.waits_led p (Or.inl hs)
  have hr := fun r => party_update_eq
    (s := (s.setWaiters (s.mutex.waiters.add p).1).setClaimed (s.claimed.erase p))
    (f := fun x => { x with stage := .park, wakeup := {} }) (q := r) hp
  have ht := tally_update
    (s := (s.setWaiters (s.mutex.waiters.add p).1).setClaimed (s.claimed.erase p))
    (f := fun x => { x with stage := .park, wakeup := {} }) hp
  simp only [party_setClaimed, party_setWaiters, tally_setClaimed, tally_setWaiters] at hr ht
  obtain ⟨h1, h2, h3, h4, h5, h6, h7, h8, h9, h10, h11, h12, h13, h14, h15, h16, h17⟩ := hi
  simp only [leads, waits, carries] at h9 h13 h14 h15 h16 hl
  constructor
  case count_eq =>
    simp [Contender.weight, hs, LockStage.counted] at ht
    simp only [mutex_update, mutex_setClaimed, count_setWaiters, h3]
    omega
  case queue_nodup =>
    simp only [mutex_update, mutex_setClaimed, waiters_setWaiters, hadd]
    refine List.nodup_append.mpr ⟨h5, List.nodup_singleton p, ?_⟩
    intro a ha b hb hab
    simp only [List.mem_singleton] at hb
    exact hnq (hb ▸ hab ▸ ha)
  case claimed_nodup =>
    simpa using h6.erase p
  all_goals
    simp only [leads, waits, carries, hr, apply_ite Contender.stage, apply_ite Contender.owns,
      apply_ite Contender.woken] at *
    simp at *
    grind -ring -linarith [LockStage.holdsInner, LockStage.unlocking]

/-- Releasing the internal lock to sleep. -/
theorem Inv.park (hs : (s.party p).stage = .park) :
    ((s.setInner none).setStage p .sleep).Inv := by
  have hr := fun r => party_setStage (s := s.setInner none) (k := .sleep) (r := r) hp
  have ht := tally_setStage (s := s.setInner none) (k := .sleep) hp
  simp only [party_setInner, tally_setInner] at hr ht
  obtain ⟨h1, h2, h3, h4, h5, h6, h7, h8, h9, h10, h11, h12, h13, h14, h15, h16, h17⟩ := hi
  simp only [leads, waits, carries] at h9 h13 h14 h15 h16
  constructor
  case count_eq =>
    simp [Contender.weight, hs, LockStage.counted] at ht
    simp only [mutex_setStage, mutex_setInner, h3]
    omega
  all_goals
    simp only [leads, waits, carries, hr, apply_ite Contender.stage, apply_ite Contender.owns,
      apply_ite Contender.woken] at *
    simp at * <;> grind -ring -linarith [LockStage.holdsInner, LockStage.unlocking]

/-- Waking up owning: the wake consumed was the one of the claim, and nobody carries another. -/
theorem Inv.sleep {x' : Contender} (hs : (s.party p).stage = .sleep)
    (hc : (s.party p).consume = some x') :
    (s.update p (fun _ => { x' with stage := .idle, owns := true })).Inv := by
  have hw := Contender.woken_of_consume hc
  have hcl : p ∈ s.claimed := by
    by_contra hn
    simp [hi.unclaimed_sleeper p hs hn] at hw
  have hno := hi.claimed_owns p hs hcl
  have hnc : ∀ r, ¬ s.carries r p := fun r hcr => by
    simp [(hi.carries_target r p hcr).2.2] at hw
  have hr := fun r => party_update_eq (f := fun _ => { x' with stage := .idle, owns := true })
    (q := r) hp
  have ht := tally_update (f := fun _ => { x' with stage := .idle, owns := true }) hp
  obtain ⟨h1, h2, h3, h4, h5, h6, h7, h8, h9, h10, h11, h12, h13, h14, h15, h16, h17⟩ := hi
  simp only [leads, waits, carries] at h9 h13 h14 h15 h16 hnc
  constructor
  case count_eq =>
    simp [Contender.weight, hs, hno, LockStage.counted] at ht
    simp only [mutex_update, h3]
    omega
  all_goals
    simp only [leads, waits, carries, hr, apply_ite Contender.stage, apply_ite Contender.owns,
      apply_ite Contender.woken] at *
    simp only [Bool.if_true_left, Bool.or_eq_false_iff, Bool.or_eq_true, claimed_update,
      decide_eq_false_iff_not, decide_eq_true_eq, implies_true, inner_update, mutex_update, not_or] at *
    grind -ring -linarith [LockStage.holdsInner, LockStage.unlocking]

/-- Taking the internal lock to hand the mutex over. -/
theorem Inv.handoff (hs : (s.party p).stage = .handoff) (hin : s.inner = none) :
    ((s.setInner (some p)).setStage p .pop).Inv := by
  have hr := fun r => party_setStage (s := s.setInner (some p)) (k := .pop) (r := r) hp
  have ht := tally_setStage (s := s.setInner (some p)) (k := .pop) hp
  simp only [party_setInner, tally_setInner] at hr ht
  obtain ⟨h1, h2, h3, h4, h5, h6, h7, h8, h9, h10, h11, h12, h13, h14, h15, h16, h17⟩ := hi
  simp only [leads, waits, carries] at h9 h13 h14 h15 h16
  constructor
  case count_eq =>
    simp [Contender.weight, hs, LockStage.counted] at ht
    simp only [mutex_setStage, mutex_setInner, h3]
    omega
  all_goals
    simp only [leads, waits, carries, hr, apply_ite Contender.stage, apply_ite Contender.owns,
      apply_ite Contender.woken] at *
    simp only [Bool.ite_eq_false_distrib, Bool.ite_eq_true_distrib, Option.some.injEq,
      claimed_setInner, claimed_setStage, forall_eq', implies_true, inner_setInner,
      inner_setStage, ite_eq_left_iff, mutex_setInner, mutex_setStage, ↓reduceIte] at *
    grind -ring -linarith [LockStage.holdsInner, LockStage.unlocking]

/-- Claiming the waiter at the head of the queue, which leads from here on. -/
theorem Inv.pop (hs : (s.party p).stage = .pop) :
    (((s.setWaiters (s.mutex.waiters.wakeOne s.claimed).1).setClaimed
      (s.mutex.waiters.wakeOne s.claimed).2.1).setStage p
        (.unpin (s.mutex.waiters.wakeOne s.claimed).2.2)).Inv := by
  obtain ⟨q, rest, hq, hqs, hqc⟩ := hi.pop_head hs
  rw [Waitable.wakeOne_of_head hq hqc]
  have hqw := hi.unclaimed_sleeper q hqs hqc
  have hnd : q ∉ rest ∧ rest.Nodup := List.nodup_cons.mp (hq ▸ hi.queue_nodup)
  have hmem : ∀ r, r ∈ s.mutex.waiters.queue ↔ r = q ∨ r ∈ rest := by simp [hq]
  -- the claimer is the only leader, and it holds no guard
  have honly : ∀ r, s.leads r → r = p := fun r hl =>
    hi.lead_unique r p hl (Or.inr (Or.inr (Or.inr hs)))
  have hno := hi.unlocking_owns p (by simp [hs, LockStage.unlocking])
  have hr := fun r => party_setStage (s := (s.setWaiters { s.mutex.waiters with queue := rest }).setClaimed
    (q :: s.claimed)) (k := .unpin (some q)) (r := r) hp
  have ht := tally_setStage (s := (s.setWaiters { s.mutex.waiters with queue := rest }).setClaimed
    (q :: s.claimed)) (k := .unpin (some q)) hp
  simp only [party_setClaimed, party_setWaiters, tally_setClaimed, tally_setWaiters] at hr ht
  obtain ⟨h1, h2, h3, h4, h5, h6, h7, h8, h9, h10, h11, h12, h13, h14, h15, h16, h17⟩ := hi
  simp only [leads, waits, carries] at h9 h13 h14 h15 h16 honly
  constructor
  case count_eq =>
    simp [Contender.weight, hs, LockStage.counted] at ht
    simp only [mutex_setStage, mutex_setClaimed, count_setWaiters, h3]
    omega
  case queue_nodup =>
    simpa using hnd.2
  case claimed_nodup =>
    simpa using List.nodup_cons.mpr ⟨by simpa using hqc, h6⟩
  all_goals
    simp only [leads, waits, carries, hr, apply_ite Contender.stage, apply_ite Contender.owns,
      apply_ite Contender.woken] at *
    simp only [Bool.ite_eq_false_distrib, Bool.ite_eq_true_distrib, List.mem_cons,
      claimed_setClaimed, claimed_setStage, count_setWaiters, implies_true, inner_setClaimed,
      inner_setStage, inner_setWaiters, mutex_setClaimed, mutex_setStage, waiters_setWaiters] at *
    grind -ring -linarith [LockStage.holdsInner, LockStage.unlocking]

/-- Releasing the internal lock after the claim: on to wake the waiter claimed, or back to
idle when there was none. -/
theorem Inv.unpin {b : Option Nat} {k : LockStage} (hs : (s.party p).stage = .unpin b)
    (hk' : b = none ∧ k = .idle ∨ ∃ q, b = some q ∧ k = .wake q) : ((s.setInner none).setStage p k).Inv := by
  have hr := fun r => party_setStage (s := s.setInner none) (k := k) (r := r) hp
  have ht := tally_setStage (s := s.setInner none) (k := k) hp
  simp only [party_setInner, tally_setInner] at hr ht
  obtain ⟨h1, h2, h3, h4, h5, h6, h7, h8, h9, h10, h11, h12, h13, h14, h15, h16, h17⟩ := hi
  simp only [leads, waits, carries] at h9 h13 h14 h15 h16
  constructor
  case count_eq =>
    simp only [mutex_setStage, mutex_setInner, h3]
    rcases hk' with ⟨-, rfl⟩ | ⟨q, -, rfl⟩ <;>
    · simp [Contender.weight, hs, LockStage.counted] at ht
      omega
  all_goals
    simp only [leads, waits, carries, hr, apply_ite Contender.stage, apply_ite Contender.owns,
      apply_ite Contender.woken] at *
    simp only [Bool.ite_eq_false_distrib, Bool.ite_eq_true_distrib, Bool.not_eq_true,
      IsEmpty.forall_iff, claimed_setInner, claimed_setStage, imp_false, implies_true,
      inner_setInner, inner_setStage, mutex_setInner, mutex_setStage, reduceCtorEq] at *
      <;> grind -ring -linarith [LockStage.holdsInner, LockStage.unlocking]

/-- Delivering the wake of the claimed waiter. -/
theorem Inv.wake {q : Nat} (hs : (s.party p).stage = .wake q) :
    ((s.update q Contender.deliver).setStage p .idle).Inv := by
  obtain ⟨hqs, hqc, hqw⟩ := hi.carries_target p q (Or.inr hs)
  have hqp : q ≠ p := fun h => by simp [h, hs] at hqs
  have hq : q < s.parties.length := lt_of_stage_ne_idle (by simp [hqs])
  have hr : ∀ r, ((s.update q Contender.deliver).setStage p .idle).party r =
      if r = p then { s.party p with stage := .idle }
      else if r = q then (s.party q).deliver else s.party r := fun r => by
    rw [party_setStage (by simpa using hp), party_update_eq hq, party_update_eq hq]
    simp [hqp.symm]
  have ht := tally_setStage (s := s.update q Contender.deliver) (k := .idle) (by simpa using hp)
  have hq' := tally_update (f := Contender.deliver) hq
  rw [party_update_ne hqp.symm] at ht
  obtain ⟨h1, h2, h3, h4, h5, h6, h7, h8, h9, h10, h11, h12, h13, h14, h15, h16, h17⟩ := hi
  simp only [leads, waits, carries] at h9 h13 h14 h15 h16
  constructor
  case count_eq =>
    -- a delivered wake changes no weight
    have hwd : ((s.party q).deliver).weight = (s.party q).weight := rfl
    rw [hwd] at hq'
    simp [Contender.weight, hs, LockStage.counted] at ht
    simp only [mutex_setStage, mutex_update, h3]
    omega
  all_goals
    simp only [leads, waits, carries, hr, apply_ite Contender.stage, apply_ite Contender.owns,
      apply_ite Contender.woken] at *
    simp at *
    grind -ring -linarith [LockStage.holdsInner, LockStage.unlocking]

/-- Taking a free mutex on the fast path. Nothing was counted, so nobody led. -/
theorem Inv.acquire (hs : (s.party p).stage = .idle) (h0 : s.mutex.count = 0) :
    ((s.setCount 1).update p (fun x => { x with owns := true })).Inv := by
  have hnl : ∀ r, ¬ s.leads r := fun r hl => by
    have := hi.count_pos_of_leads hl
    omega
  have hr := fun r => party_update_eq (s := s.setCount 1) (f := fun x => { x with owns := true })
    (q := r) hp
  have ht := tally_update (s := s.setCount 1) (f := fun x => { x with owns := true }) hp
  simp only [party_setCount, tally_setCount] at hr ht
  obtain ⟨h1, h2, h3, h4, h5, h6, h7, h8, h9, h10, h11, h12, h13, h14, h15, h16, h17⟩ := hi
  simp only [leads, waits, carries] at h9 h13 h14 h15 h16 hnl
  constructor
  case count_eq =>
    have hno : (s.party p).owns = false := by grind
    simp [Contender.weight, hno] at ht
    simp only [mutex_update, count_setCount]
    omega
  all_goals
    simp only [leads, waits, carries, hr, apply_ite Contender.stage, apply_ite Contender.owns,
      apply_ite Contender.woken] at *
    simp only [Bool.not_eq_true, Std.le_refl, claimed_setCount, claimed_update, count_setCount,
      implies_true, inner_setCount, inner_update, mutex_update, not_and, not_or, waiters_setCount] at *
      <;> grind -ring -linarith [LockStage.holdsInner, LockStage.unlocking]

/-- Leaving the fast path for the slow one. -/
theorem Inv.slowPath (hs : (s.party p).stage = .idle) : (s.setStage p .slow).Inv := by
  have hr := fun r => party_setStage (k := .slow) (r := r) hp
  have ht := tally_setStage (k := .slow) hp
  obtain ⟨h1, h2, h3, h4, h5, h6, h7, h8, h9, h10, h11, h12, h13, h14, h15, h16, h17⟩ := hi
  simp only [leads, waits, carries] at h9 h13 h14 h15 h16
  constructor
  case count_eq =>
    simp [Contender.weight, hs, LockStage.counted] at ht
    simp only [mutex_setStage, h3]
    omega
  all_goals
    simp only [leads, waits, carries, hr, apply_ite Contender.stage, apply_ite Contender.owns,
      apply_ite Contender.woken] at *
    simp only [Bool.ite_eq_false_distrib, Bool.ite_eq_true_distrib,
      Contender.woken_with_stage_owns, claimed_setStage, implies_true, inner_setStage,
      mutex_setStage] at *
    grind -ring -linarith [LockStage.holdsInner, LockStage.unlocking]

/-- Dropping the last guard with nothing else counted: no waiter is left without a leader,
as there is no waiter. -/
theorem Inv.releaseLast (hs : (s.party p).stage = .idle) (ho : (s.party p).owns = true)
    (h1 : s.mutex.count = 1) :
    ((s.setCount (s.mutex.count - 1)).update p (fun x => { x with owns := false })).Inv := by
  -- the guard is all the count holds, so nobody else has weight
  have hnw : ∀ r, ¬ s.waits r := fun r hw => by
    have hrp : r ≠ p := fun h => by
      subst h
      rcases hw with h | h | ⟨h, -⟩ <;> simp [hs] at h
    have hwr : 0 < (s.party r).weight :=
      weight_pos_iff.mpr (Or.inr (by rcases hw with h | h | ⟨h, -⟩ <;> simp [h, LockStage.counted]))
    have hwp : 0 < (s.party p).weight := weight_pos_iff.mpr (Or.inl ho)
    have := weight_add_le_tally (s := s) hrp
    have := hi.count_eq
    omega
  have hr := fun r => party_update_eq (s := s.setCount (s.mutex.count - 1))
    (f := fun x => { x with owns := false }) (q := r) hp
  have ht := tally_update (s := s.setCount (s.mutex.count - 1))
    (f := fun x => { x with owns := false }) hp
  simp only [party_setCount, tally_setCount] at hr ht
  obtain ⟨h1', h2, h3, h4, h5, h6, h7, h8, h9, h10, h11, h12, h13, h14, h15, h16, h17⟩ := hi
  simp only [leads, waits, carries] at h9 h13 h14 h15 h16 hnw
  constructor
  case count_eq =>
    simp [Contender.weight, hs, ho, LockStage.counted] at ht
    simp only [mutex_update, count_setCount]
    omega
  all_goals
    simp only [leads, waits, carries, hr, apply_ite Contender.stage, apply_ite Contender.owns,
      apply_ite Contender.woken] at *
    simp only [Decidable.not_not, claimed_setCount, claimed_update, count_setCount, implies_true,
      inner_setCount, inner_update, mutex_update, not_and, not_or, waiters_setCount] at *
    grind -ring -linarith [LockStage.holdsInner, LockStage.unlocking]

/-- Dropping a guard while others are counted: the party goes on to hand the mutex over, and
keeps leading. -/
theorem Inv.releaseHandoff (hs : (s.party p).stage = .idle) (ho : (s.party p).owns = true)
    (h1 : s.mutex.count ≠ 1) :
    (((s.setCount (s.mutex.count - 1)).update p (fun x => { x with owns := false })).setStage p
      .handoff).Inv := by
  have hpos := hi.count_pos_of_leads (Or.inl ho)
  have hr : ∀ r, (((s.setCount (s.mutex.count - 1)).update p
      (fun x => { x with owns := false })).setStage p .handoff).party r =
      if r = p then { s.party p with owns := false, stage := .handoff } else s.party r :=
    fun r => by
      rw [party_setStage (by simpa using hp), party_update_eq (by simpa using hp),
        party_update_eq (by simpa using hp)]
      by_cases h : r = p <;> simp [h]
  -- the count loses the guard; the stage change adds nothing
  have ht := tally_update (s := s.setCount (s.mutex.count - 1))
    (f := fun x => { x with owns := false }) hp
  have ht' := tally_setStage (s := (s.setCount (s.mutex.count - 1)).update p
    (fun x => { x with owns := false })) (k := .handoff) (by simpa using hp)
  rw [party_update_self (by simpa using hp)] at ht'
  obtain ⟨h1', h2, h3, h4, h5, h6, h7, h8, h9, h10, h11, h12, h13, h14, h15, h16, h17⟩ := hi
  simp only [leads, waits, carries] at h9 h13 h14 h15 h16
  constructor
  case count_eq =>
    simp [Contender.weight, hs, ho, LockStage.counted] at ht ht'
    simp only [mutex_setStage, mutex_update, count_setCount]
    omega
  all_goals
    simp only [leads, waits, carries, hr, apply_ite Contender.stage, apply_ite Contender.owns,
      apply_ite Contender.woken] at *
    simp at *
    grind -ring -linarith [LockStage.holdsInner, LockStage.unlocking]

end Steps

/-- Storing a value changes nothing the invariant reads. -/
theorem Inv.setValue {s : Contention} (hi : s.Inv) (v : Int) : (s.setValue v).Inv := by
  obtain ⟨h1, h2, h3, h4, h5, h6, h7, h8, h9, h10, h11, h12, h13, h14, h15, h16, h17⟩ := hi
  exact ⟨h1, h2, h3, h4, h5, h6, h7, h8, h9, h10, h11, h12, h13, h14, h15, h16, h17⟩

/-- Starting the next operation of the program. -/
theorem Inv.begin {s : Contention} {p : Nat} (hi : s.Inv) (hp : p < s.parties.length)
    (hs : (s.party p).stage = .idle) (op : MutexOp) (rest : List MutexOp) :
    (s.begin p op rest).Inv := by
  -- the program left is invisible to the invariant
  have h₁ := hi.update_quiet hp (f := fun x => { x with program := rest })
    (fun _ => ⟨rfl, rfl, rfl⟩)
  have hp₁ : p < (s.update p fun x => { x with program := rest }).parties.length := by simpa using hp
  have hs₁ : ((s.update p fun x => { x with program := rest }).party p).stage = .idle := by
    simp [hp, hs]
  have ho₁ : ((s.update p fun x => { x with program := rest }).party p).owns = (s.party p).owns := by
    simp [hp]
  cases op with
  | lock =>
    simp only [Contention.begin]
    split
    · exact h₁.acquire hp₁ hs₁ ‹_›
    · exact h₁.slowPath hp₁ hs₁
  | tryLock =>
    simp only [Contention.begin]
    split
    · exact h₁.acquire hp₁ hs₁ ‹_›
    · exact h₁
  | unlock =>
    simp only [Contention.begin]
    split
    · split
      · exact h₁.releaseLast hp₁ hs₁ (ho₁ ▸ ‹_›) ‹_›
      · exact h₁.releaseHandoff hp₁ hs₁ (ho₁ ▸ ‹_›) ‹_›
    · exact h₁
  | read =>
    simp only [Contention.begin]
    split
    · exact h₁.update_quiet hp₁ (fun _ => ⟨rfl, rfl, rfl⟩)
    · exact h₁
  | yield => exact h₁
  | write =>
    simp only [Contention.begin]
    split
    · exact h₁.setValue _
    · exact h₁

/-- **Every step keeps the invariant.** -/
theorem Inv.step {s t : Contention} {p : Nat} (hi : s.Inv) (h : s.step p = some t) : t.Inv := by
  have hp := lt_of_step h
  cases hs : (s.party p).stage <;> simp only [Contention.step, hs] at h
  case idle =>
    cases hprog : (s.party p).program with
    | nil => simp [hprog] at h
    | cons op rest =>
      simp only [hprog, Option.some.injEq] at h
      exact h ▸ hi.begin hp hs op rest
  case slow =>
    split at h
    · cases h
      exact hi.slow hp hs (Option.isNone_iff_eq_none.mp ‹_›)
    · cases h
  case count =>
    split at h <;> cases h
    · rename_i h0
      rw [h0]
      exact hi.count_first hp hs h0
    · exact hi.count_behind hp hs ‹_›
  case enter =>
    cases h
    exact hi.enter hp hs
  case queue =>
    cases h
    exact hi.queue hp hs
  case park =>
    cases h
    exact hi.park hp hs
  case sleep =>
    split at h
    · cases h
      exact hi.sleep hp hs ‹_›
    · cases h
  case handoff =>
    split at h
    · cases h
      exact hi.handoff hp hs (Option.isNone_iff_eq_none.mp ‹_›)
    · cases h
  case pop =>
    cases h
    exact hi.pop hp hs
  case unpin b =>
    cases h
    cases b with
    | none => exact hi.unpin hp hs (Or.inl ⟨rfl, rfl⟩)
    | some q => exact hi.unpin hp hs (Or.inr ⟨q, rfl, rfl⟩)
  case wake q =>
    cases h
    exact hi.wake hp hs

theorem Inv.next {s : Contention} (hi : s.Inv) (p : Nat) : (s.next p).Inv := by
  unfold Contention.next
  cases h : s.step p with
  | none => exact hi
  | some t => exact hi.step h

/-- **Every run keeps the invariant**, whatever the schedule. -/
theorem Inv.run {s : Contention} (hi : s.Inv) (schedule : List Nat) : (s.run schedule).Inv := by
  induction schedule generalizing s with
  | nil => exact hi
  | cons p rest ih => exact ih (hi.next p)

/-! ## 5. From the start -/

section Start

variable {programs : List (Bool × List MutexOp)} {r : Nat}

@[simp] theorem stage_start : ((start programs).party r).stage = .idle := by
  unfold party start
  simp only [List.getD_eq_getElem?_getD, List.getElem?_map]
  cases programs[r]? <;> rfl

@[simp] theorem owns_start : ((start programs).party r).owns = false := by
  unfold party start
  simp only [List.getD_eq_getElem?_getD, List.getElem?_map]
  cases programs[r]? <;> rfl

@[simp] theorem inner_start : (start programs).inner = none := rfl
@[simp] theorem claimed_start : (start programs).claimed = [] := rfl
@[simp] theorem mutex_start : (start programs).mutex = {} := rfl

theorem tally_start : (start programs).tally = 0 := by
  simp [tally, start, List.countP_map, Function.comp_def, LockStage.counted]

theorem Inv.start : (start programs).Inv := by
  constructor <;> simp [leads, waits, carries, tally_start, LockStage.holdsInner,
    LockStage.unlocking]

end Start

/-- **The invariant holds in every state a schedule reaches.** -/
theorem inv_run_start (programs : List (Bool × List MutexOp)) (schedule : List Nat) :
    ((start programs).run schedule).Inv :=
  Inv.start.run schedule

end Contention

end Fibers
