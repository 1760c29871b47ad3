import Mathlib
import Fibers.Proofs.MutexHandoff
/-!
# Rounds of increments under the mutex

Each party runs `rounds K`: lock, read the guarded value, yield, write the value read plus
one, unlock, `K` times over. Whatever the parties are, fibers or threads, and whatever the
schedule:

* the value plus the writes the parties have yet to make is always `T * K`, for `T` parties
  (`Work.value_eq`), since a write stores one more than what its writer read, and nobody
  else wrote in between (the writer owned the mutex from its read on);
* a state in which no party can step has every program run to its end (`stuck_finished`):
  a sleeper was claimed and its claimer can step, or it was not and some leader can;
* so when the parties are done the value is `T * K` (`value_of_finished`).
-/

namespace Fibers

namespace LockStage

/-- The stages of a lock between a failed fast path and the hand-off's arrival. -/
def locking : LockStage → Bool
  | .slow | .count | .queue | .park | .sleep => true
  | _ => false

end LockStage

namespace Contention

/-! ## 1. Rounds and the writes they hold -/

@[simp] theorem rounds_zero : rounds 0 = [] := rfl

theorem rounds_succ (k : Nat) :
    rounds (k + 1) = .lock :: .read :: .yield :: .write :: .unlock :: rounds k := by
  simp [rounds, List.replicate_succ]

@[simp] theorem count_write_cons (op : MutexOp) (l : List MutexOp) :
    (op :: l).count .write = l.count .write + (if op = .write then 1 else 0) := by
  cases op <;> simp only [List.count_cons] <;> rfl

@[simp] theorem count_write_rounds (k : Nat) : (rounds k).count .write = k := by
  induction k with
  | zero => rfl
  | succ k ih => simp [rounds_succ, ih]

/-- The writes the parties have yet to make. -/
def pending (s : Contention) : Nat :=
  ∑ p ∈ Finset.range s.parties.length, (s.party p).program.count .write

section Pending

variable {s : Contention} {p : Nat} {f : Contender → Contender}

@[simp] theorem pending_setCount (n : Nat) : (s.setCount n).pending = s.pending := rfl
@[simp] theorem pending_setValue (v : Int) : (s.setValue v).pending = s.pending := rfl
@[simp] theorem pending_setWaiters (w : Waitable) : (s.setWaiters w).pending = s.pending := rfl
@[simp] theorem pending_setInner (o : Option Nat) : (s.setInner o).pending = s.pending := rfl
@[simp] theorem pending_setClaimed (c : List Nat) : (s.setClaimed c).pending = s.pending := rfl

/-- Changing one party changes the writes pending by what its own program holds. -/
theorem pending_of_others {t : Contention} (hp : p < s.parties.length)
    (hlen : t.parties.length = s.parties.length) (hother : ∀ r, r ≠ p → t.party r = s.party r) :
    t.pending + (s.party p).program.count .write = s.pending + (t.party p).program.count .write := by
  have hmem := Finset.mem_range.mpr hp
  unfold pending
  rw [hlen, ← Finset.add_sum_erase _ _ hmem, ← Finset.add_sum_erase _ _ hmem]
  have hrest : ∑ r ∈ (Finset.range s.parties.length).erase p, (t.party r).program.count .write =
      ∑ r ∈ (Finset.range s.parties.length).erase p, (s.party r).program.count .write :=
    Finset.sum_congr rfl (fun r hr => by rw [hother r (Finset.ne_of_mem_erase hr)])
  rw [hrest]
  omega

theorem pending_update (hp : p < s.parties.length) :
    (s.update p f).pending + (s.party p).program.count .write =
      s.pending + (f (s.party p)).program.count .write := by
  have h := pending_of_others (t := s.update p f) hp (by simp) (fun r hr => party_update_ne hr)
  rwa [party_update_self hp] at h

/-- A change to a party that keeps its program keeps the writes pending. -/
theorem pending_update_of_program (hf : ∀ x, (f x).program = x.program) :
    (s.update p f).pending = s.pending := by
  by_cases hp : p < s.parties.length
  · have h := pending_update (f := f) hp
    rw [hf] at h
    omega
  · simp [update, List.modify_eq_self (Nat.le_of_not_lt hp)]

@[simp] theorem pending_setStage (k : LockStage) : (s.setStage p k).pending = s.pending :=
  pending_update_of_program (fun _ => rfl)

end Pending

/-! ## 2. Where a party stands in its rounds -/

/-- Where a party running rounds stands, given the guarded value `v`. -/
inductive Shape (v : Int) (x : Contender) : Prop
  /-- Between rounds, or dropping the guard of the last one, with `k` rounds to go. -/
  | between (k : Nat) (hprog : x.program = rounds k) (hown : x.owns = false)
      (hst : x.stage = .idle ∨ x.stage.unlocking = true)
  /-- Locking on the slow path. -/
  | locking (k : Nat) (hprog : x.program = .read :: .yield :: .write :: .unlock :: rounds k)
      (hown : x.owns = false) (hst : x.stage.locking = true)
  /-- Holding the guard, about to read. -/
  | locked (k : Nat) (hprog : x.program = .read :: .yield :: .write :: .unlock :: rounds k)
      (hown : x.owns = true) (hst : x.stage = .idle ∨ x.stage = .enter)
  /-- Has read `v` and is about to yield. -/
  | read (k : Nat) (hprog : x.program = .yield :: .write :: .unlock :: rounds k)
      (hown : x.owns = true) (hst : x.stage = .idle) (hheld : x.held = v)
  /-- Has yielded and is about to write what it read. -/
  | yielded (k : Nat) (hprog : x.program = .write :: .unlock :: rounds k)
      (hown : x.owns = true) (hst : x.stage = .idle) (hheld : x.held = v)
  /-- Has written and is about to unlock. -/
  | wrote (k : Nat) (hprog : x.program = .unlock :: rounds k) (hown : x.owns = true)
      (hst : x.stage = .idle)

/-- The workload's invariant: the value and the writes pending make up the total, and every
party stands somewhere in its rounds. -/
structure Work (total : Nat) (s : Contention) : Prop where
  value_eq : s.mutex.value + s.pending = total
  shape : ∀ p, Shape s.mutex.value (s.party p)

section Shapes

variable {v : Int} {x y : Contender}

/-- A party that holds no guard does not depend on the value. -/
theorem Shape.of_not_owns (h : Shape v x) (ho : x.owns = false) (v' : Int) : Shape v' x := by
  cases h with
  | between k hprog hown hst => exact .between k hprog hown hst
  | locking k hprog hown hst => exact .locking k hprog hown hst
  | locked _ _ hown _ => simp [hown] at ho
  | read _ _ hown _ _ => simp [hown] at ho
  | yielded _ _ hown _ _ => simp [hown] at ho
  | wrote _ _ hown _ => simp [hown] at ho

/-- A guard holder stands at its idle stage or about to leave the slow path. -/
theorem Shape.stage_of_owns (h : Shape v x) (ho : x.owns = true) :
    (x.stage = .idle ∨ x.stage = .enter) ∧ x.program ≠ [] := by
  cases h with
  | between _ _ hown _ => simp [hown] at ho
  | locking _ _ hown _ => simp [hown] at ho
  | locked _ hprog _ hst => exact ⟨hst, by simp [hprog]⟩
  | read _ hprog _ hst _ => exact ⟨Or.inl hst, by simp [hprog]⟩
  | yielded _ hprog _ hst _ => exact ⟨Or.inl hst, by simp [hprog]⟩
  | wrote _ hprog _ hst => exact ⟨Or.inl hst, by simp [hprog]⟩

/-- A move to another stage that keeps the party's place in its rounds: on along the slow
path, on along an unlock, or out of the slow path owning. -/
theorem Shape.restage (h : Shape v x) (hprog : y.program = x.program) (hown : y.owns = x.owns)
    (hheld : y.held = x.held)
    (hk : (x.stage.locking = true ∧ y.stage.locking = true) ∨
      ((x.stage = .idle ∨ x.stage.unlocking = true) ∧ x.owns = false ∧
        (y.stage = .idle ∨ y.stage.unlocking = true)) ∨
      (x.stage = .enter ∧ y.stage = .idle)) :
    Shape v y := by
  cases h with
  | between k hp ho hst =>
    refine .between k (hprog ▸ hp) (hown ▸ ho) ?_
    rcases hk with ⟨hx, -⟩ | ⟨-, -, hy⟩ | ⟨hx, -⟩
    · rcases hst with hst | hst <;> cases hs : x.stage <;> simp_all [LockStage.locking, LockStage.unlocking]
    · exact hy
    · rcases hst with hst | hst <;> simp_all [LockStage.unlocking]
  | locking k hp ho hst =>
    refine .locking k (hprog ▸ hp) (hown ▸ ho) ?_
    rcases hk with ⟨-, hy⟩ | ⟨hx, -, -⟩ | ⟨hx, -⟩
    · exact hy
    · rcases hx with hx | hx <;> cases hs : x.stage <;> simp_all [LockStage.locking, LockStage.unlocking]
    · simp_all [LockStage.locking]
  | locked k hp ho hst =>
    refine .locked k (hprog ▸ hp) (hown ▸ ho) ?_
    rcases hk with ⟨hx, -⟩ | ⟨-, hx, -⟩ | ⟨-, hy⟩
    · rcases hst with hst | hst <;> simp_all [LockStage.locking]
    · simp_all
    · exact Or.inl hy
  | read k hp ho hst hh =>
    refine .read k (hprog ▸ hp) (hown ▸ ho) ?_ (hheld ▸ hh)
    rcases hk with ⟨hx, -⟩ | ⟨-, hx, -⟩ | ⟨hx, -⟩ <;> simp_all [LockStage.locking]
  | yielded k hp ho hst hh =>
    refine .yielded k (hprog ▸ hp) (hown ▸ ho) ?_ (hheld ▸ hh)
    rcases hk with ⟨hx, -⟩ | ⟨-, hx, -⟩ | ⟨hx, -⟩ <;> simp_all [LockStage.locking]
  | wrote k hp ho hst =>
    refine .wrote k (hprog ▸ hp) (hown ▸ ho) ?_
    rcases hk with ⟨hx, -⟩ | ⟨-, hx, -⟩ | ⟨hx, -⟩ <;> simp_all [LockStage.locking]

/-- Only a party's program, guard, stage and remembered value place it in its rounds. -/
theorem Shape.congr (h : Shape v x) (hprog : y.program = x.program) (hown : y.owns = x.owns)
    (hheld : y.held = x.held) (hst : y.stage = x.stage) : Shape v y := by
  cases h with
  | between k hp ho hs => exact .between k (hprog ▸ hp) (hown ▸ ho) (hst ▸ hs)
  | locking k hp ho hs => exact .locking k (hprog ▸ hp) (hown ▸ ho) (hst ▸ hs)
  | locked k hp ho hs => exact .locked k (hprog ▸ hp) (hown ▸ ho) (hst ▸ hs)
  | read k hp ho hs hh => exact .read k (hprog ▸ hp) (hown ▸ ho) (hst ▸ hs) (hheld ▸ hh)
  | yielded k hp ho hs hh => exact .yielded k (hprog ▸ hp) (hown ▸ ho) (hst ▸ hs) (hheld ▸ hh)
  | wrote k hp ho hs => exact .wrote k (hprog ▸ hp) (hown ▸ ho) (hst ▸ hs)

/-- Delivering a wake leaves a party's place in its rounds alone. -/
theorem Shape.deliver (h : Shape v x) : Shape v x.deliver :=
  h.congr (by simp) (by simp) (by simp) (by simp)

end Shapes

/-! ## 3. Every step keeps the workload's invariant -/

section Frame

variable {total : Nat} {s t : Contention} {p : Nat}

/-- A step that changes neither the parties nor the value. -/
theorem Work.of_parties (hw : s.Work total) (hv : t.mutex.value = s.mutex.value)
    (hpar : t.parties = s.parties) : t.Work total := by
  have hparty : t.party = s.party := by
    funext r
    simp [party, hpar]
  have hpend : t.pending = s.pending := by
    simp [pending, hparty, hpar]
  exact ⟨by rw [hv, hpend]; exact hw.value_eq, fun r => by rw [hparty, hv]; exact hw.shape r⟩

/-- A step that changes party `p` alone. When it changes the value too, nobody else holds a
guard, so nobody else depends on the value. -/
theorem Work.of_others (hw : s.Work total) (hp : p < s.parties.length)
    (hlen : t.parties.length = s.parties.length) (hother : ∀ r, r ≠ p → t.party r = s.party r)
    (hv : t.mutex.value + (t.party p).program.count .write =
      s.mutex.value + (s.party p).program.count .write)
    (hval : t.mutex.value = s.mutex.value ∨ ∀ r, r ≠ p → (s.party r).owns = false)
    (hshape : Shape t.mutex.value (t.party p)) : t.Work total := by
  have hpend := pending_of_others hp hlen hother
  refine ⟨?_, fun r => ?_⟩
  · have := hw.value_eq
    omega
  · by_cases hr : r = p
    · exact hr ▸ hshape
    · rw [hother r hr]
      rcases hval with hval | hown
      · exact hval ▸ hw.shape r
      · exact (hw.shape r).of_not_owns (hown r hr) _

/-- A step that changes party `p` alone and keeps its program and the value. -/
theorem Work.update (hw : s.Work total) (hp : p < s.parties.length) {f : Contender → Contender}
    (hprog : (f (s.party p)).program = (s.party p).program)
    (hshape : Shape s.mutex.value (f (s.party p))) : (s.update p f).Work total :=
  hw.of_others hp (by simp) (fun _ hr => party_update_ne hr)
    (by simp [party_update_self hp, hprog]) (Or.inl rfl) (by simpa [party_update_self hp] using hshape)

/-- A step that moves party `p` to another stage in the same part of its rounds. -/
theorem Work.restage (hw : s.Work total) (hp : p < s.parties.length) {k : LockStage}
    (hk : ((s.party p).stage.locking = true ∧ k.locking = true) ∨
      (((s.party p).stage = .idle ∨ (s.party p).stage.unlocking = true) ∧ (s.party p).owns = false ∧
        (k = .idle ∨ k.unlocking = true)) ∨
      ((s.party p).stage = .enter ∧ k = .idle)) :
    (s.setStage p k).Work total :=
  hw.update hp rfl ((hw.shape p).restage rfl rfl rfl hk)

end Frame

section Steps

variable {total : Nat} {s t : Contention} {p : Nat} (hi : s.Inv) (hw : s.Work total)
  (hp : p < s.parties.length)
include hi hw hp

/-- Starting the next operation of a round: the lock's fast or slow path, the read, the
yield, the write of what was read plus one, and the unlock. -/
theorem Work.begin {op : MutexOp} {rest : List MutexOp} (hs : (s.party p).stage = .idle)
    (hprog : (s.party p).program = op :: rest) : (s.begin p op rest).Work total := by
  have hparty : ∀ r, r ≠ p → (s.update p (fun x => { x with program := rest })).party r =
      s.party r := fun r hr => party_update_ne hr
  cases hw.shape p with
  | between k hpr ho _ =>
    cases k with
    | zero => simp [hprog] at hpr
    | succ k =>
      rw [hprog, rounds_succ] at hpr
      obtain ⟨rfl, rfl⟩ := List.cons.inj hpr
      by_cases h0 : s.mutex.count = 0
      · -- the fast path takes the free mutex
        refine hw.of_others hp (by simp [Contention.begin, h0]) (fun r hr => by
          simp [Contention.begin, h0, hr]) (by simp [Contention.begin, h0, hp, hprog])
          (Or.inl (by simp [Contention.begin, h0])) ?_
        exact .locked k (by simp [Contention.begin, h0, hp]) (by simp [Contention.begin, h0, hp])
          (by simp [Contention.begin, h0, hp, hs])
      · -- the slow path starts
        refine hw.of_others hp (by simp [Contention.begin, h0]) (fun r hr => by
          simp [Contention.begin, h0, hr, party_setStage, hp]) (by
            simp [Contention.begin, h0, hp, hprog, party_setStage]) (Or.inl (by
              simp [Contention.begin, h0])) ?_
        exact .locking k (by simp [Contention.begin, h0, hp, party_setStage])
          (by simp [Contention.begin, h0, hp, party_setStage, ho])
          (by simp [Contention.begin, h0, hp, party_setStage, LockStage.locking])
  | locking _ _ _ hst => simp [hs, LockStage.locking] at hst
  | locked k hpr ho _ =>
    rw [hprog] at hpr
    obtain ⟨rfl, rfl⟩ := List.cons.inj hpr
    refine hw.of_others hp (by simp [Contention.begin, ho]) (fun r hr => by
      simp [Contention.begin, ho, hr]) (by simp [Contention.begin, ho, hp, hprog])
      (Or.inl (by simp [Contention.begin, ho])) ?_
    exact .read k (by simp [Contention.begin, ho, hp]) (by simp [Contention.begin, ho, hp])
      (by simp [Contention.begin, ho, hp, hs]) (by simp [Contention.begin, ho, hp])
  | read k hpr ho _ hh =>
    rw [hprog] at hpr
    obtain ⟨rfl, rfl⟩ := List.cons.inj hpr
    refine hw.of_others hp (by simp [Contention.begin]) (fun r hr => by
      simp [Contention.begin, hr]) (by simp [Contention.begin, hp, hprog])
      (Or.inl (by simp [Contention.begin])) ?_
    exact .yielded k (by simp [Contention.begin, hp]) (by simp [Contention.begin, ho, hp])
      (by simp [Contention.begin, hp, hs]) (by simp [Contention.begin, hp, hh])
  | yielded k hpr ho _ hh =>
    rw [hprog] at hpr
    obtain ⟨rfl, rfl⟩ := List.cons.inj hpr
    -- the writer is the only guard holder, so no other party depends on the value
    have hothers : ∀ r, r ≠ p → (s.party r).owns = false := fun r hr => by
      by_contra hown
      exact hr (hi.owner_unique (Or.inl (by simpa using hown)) (Or.inl ho))
    refine hw.of_others hp (by simp [Contention.begin, ho]) (fun r hr => by
      simp [Contention.begin, ho, hr]) ?_ (Or.inr hothers) ?_
    · simp [Contention.begin, ho, hp, hprog, hh]
      omega
    · exact .wrote k (by simp [Contention.begin, ho, hp]) (by simp [Contention.begin, ho, hp])
        (by simp [Contention.begin, ho, hp, hs])
  | wrote k hpr ho _ =>
    rw [hprog] at hpr
    obtain ⟨rfl, rfl⟩ := List.cons.inj hpr
    by_cases h1 : s.mutex.count = 1
    · refine hw.of_others hp (by simp [Contention.begin, ho, h1]) (fun r hr => by
        simp [Contention.begin, ho, h1, hr]) (by simp [Contention.begin, ho, h1, hp, hprog])
        (Or.inl (by simp [Contention.begin, ho, h1])) ?_
      exact .between k (by simp [Contention.begin, ho, h1, hp]) (by simp [Contention.begin, ho, h1, hp])
        (Or.inl (by simp [Contention.begin, ho, h1, hp, hs]))
    · refine hw.of_others hp (by simp [Contention.begin, ho, h1]) (fun r hr => by
        simp [Contention.begin, ho, h1, hr, party_setStage, hp]) (by
          simp [Contention.begin, ho, h1, hp, hprog, party_setStage])
        (Or.inl (by simp [Contention.begin, ho, h1])) ?_
      exact .between k (by simp [Contention.begin, ho, h1, hp, party_setStage])
        (by simp [Contention.begin, ho, h1, hp, party_setStage])
        (Or.inr (by simp [Contention.begin, ho, h1, hp, party_setStage, LockStage.unlocking]))

omit hi in
/-- Leaving the slow path owning, after a hand-off's wake. -/
theorem Work.wakeUp {x' : Contender} (hs : (s.party p).stage = .sleep)
    (hc : (s.party p).consume = some x') :
    (s.update p (fun _ => { x' with stage := .idle, owns := true })).Work total := by
  obtain ⟨hprog, hheld⟩ := Contender.consume_keeps hc
  refine hw.update hp (by simp [hprog]) ?_
  cases hw.shape p with
  | locking k hpr _ _ => exact .locked k (by simp [hprog, hpr]) rfl (Or.inl rfl)
  | between _ _ _ hst => rcases hst with hst | hst <;> simp [hs, LockStage.unlocking] at hst
  | locked _ _ _ hst => rcases hst with hst | hst <;> simp [hs] at hst
  | read _ _ _ hst _ => simp [hs] at hst
  | yielded _ _ _ hst _ => simp [hs] at hst
  | wrote _ _ _ hst => simp [hs] at hst

end Steps

/-- **Every step keeps the workload's invariant.** -/
theorem Work.step {total : Nat} {s t : Contention} {p : Nat} (hi : s.Inv) (hw : s.Work total)
    (h : s.step p = some t) : t.Work total := by
  have hp := lt_of_step h
  have hframe : ∀ o : Option Nat, (s.setInner o).Work total := fun _ => hw.of_parties rfl rfl
  -- an unlock's stages hold no guard
  have hunl : (s.party p).stage.unlocking = true → (s.party p).owns = false :=
    hi.unlocking_owns p
  cases hs : (s.party p).stage <;> simp only [Contention.step, hs] at h
  case idle =>
    cases hprog : (s.party p).program with
    | nil => simp [hprog] at h
    | cons op rest =>
      simp only [hprog, Option.some.injEq] at h
      exact h ▸ hw.begin hi hp hs hprog
  case slow =>
    split at h
    · cases h
      refine (hframe (some p)).restage hp ?_
      simp [hs, LockStage.locking]
    · cases h
  case count =>
    split at h <;> cases h
    · -- first in: the party owns
      refine (hw.of_parties (t := s.setCount (s.mutex.count + 1)) rfl rfl).update hp rfl ?_
      cases hw.shape p with
      | locking k hpr _ _ => exact .locked k hpr rfl (Or.inr rfl)
      | between _ _ _ hst => rcases hst with hst | hst <;> simp [hs, LockStage.unlocking] at hst
      | locked _ _ _ hst => rcases hst with hst | hst <;> simp [hs] at hst
      | read _ _ _ hst _ => simp [hs] at hst
      | yielded _ _ _ hst _ => simp [hs] at hst
      | wrote _ _ _ hst => simp [hs] at hst
    · refine (hw.of_parties (t := s.setCount (s.mutex.count + 1)) rfl rfl).restage hp ?_
      simp [hs, LockStage.locking]
  case enter =>
    cases h
    refine (hframe none).restage hp ?_
    simp [hs]
  case queue =>
    cases h
    refine (hw.of_parties (t := (s.setWaiters (s.mutex.waiters.add p).1).setClaimed
      (s.claimed.erase p)) rfl rfl).update hp rfl ((hw.shape p).restage rfl rfl rfl ?_)
    simp [hs, LockStage.locking]
  case park =>
    cases h
    refine (hframe none).restage hp ?_
    simp [hs, LockStage.locking]
  case sleep =>
    split at h
    · cases h
      exact hw.wakeUp hp hs ‹_›
    · cases h
  case handoff =>
    split at h
    · cases h
      refine (hframe (some p)).restage hp ?_
      simp [hs, LockStage.locking, LockStage.unlocking, hunl]
    · cases h
  case pop =>
    cases h
    refine (hw.of_parties (t := (s.setWaiters (s.mutex.waiters.wakeOne s.claimed).1).setClaimed
      (s.mutex.waiters.wakeOne s.claimed).2.1) rfl rfl).restage hp ?_
    simp [hs, LockStage.locking, LockStage.unlocking, hunl]
  case unpin b =>
    cases h
    refine (hframe none).restage hp ?_
    cases b <;> simp [hs, LockStage.locking, LockStage.unlocking, hunl]
  case wake q =>
    cases h
    obtain ⟨hqs, -, -⟩ := hi.carries_target p q (Or.inr hs)
    have hq : q < s.parties.length := lt_of_stage_ne_idle (by simp [hqs])
    have hqp : p ≠ q := fun h => by simp [h, hqs] at hs
    have hw' : (s.update q Contender.deliver).Work total :=
      hw.update hq (by simp) (hw.shape q).deliver
    refine hw'.restage (by simpa using hp) ?_
    simp [party_update_ne hqp, hs, LockStage.locking, LockStage.unlocking, hunl]

theorem Work.next {total : Nat} {s : Contention} (hi : s.Inv) (hw : s.Work total) (p : Nat) :
    (s.next p).Work total := by
  unfold Contention.next
  cases h : s.step p with
  | none => exact hw
  | some t => exact hw.step hi h

/-- **Every run keeps the workload's invariant.** -/
theorem Work.run {total : Nat} {s : Contention} (hi : s.Inv) (hw : s.Work total)
    (schedule : List Nat) : (s.run schedule).Work total := by
  induction schedule generalizing s with
  | nil => exact hw
  | cons p rest ih => exact ih (hi.next p) (hw.next hi p)

/-! ## 4. No deadlock -/

section Blocked

variable {s : Contention} {p : Nat}

/-- **When a party cannot step**: it is idle with nothing left to do, it waits for the
internal lock, or it sleeps with no wake delivered. -/
theorem blocked_of_step_eq_none (h : s.step p = none) :
    ((s.party p).stage = .idle ∧ (s.party p).program = []) ∨
      (((s.party p).stage = .slow ∨ (s.party p).stage = .handoff) ∧ s.inner ≠ none) ∨
      ((s.party p).stage = .sleep ∧ (s.party p).woken = false) := by
  cases hs : (s.party p).stage <;> simp only [Contention.step, hs] at h
  case idle =>
    left
    refine ⟨rfl, ?_⟩
    cases hprog : (s.party p).program with
    | nil => rfl
    | cons _ _ => simp [hprog] at h
  case slow =>
    split at h
    · cases h
    · rename_i hnone
      exact Or.inr (Or.inl ⟨Or.inl rfl, fun h' => hnone (by simp [h'])⟩)
  case handoff =>
    split at h
    · cases h
    · rename_i hnone
      exact Or.inr (Or.inl ⟨Or.inr rfl, fun h' => hnone (by simp [h'])⟩)
  case sleep =>
    refine Or.inr (Or.inr ⟨rfl, ?_⟩)
    cases hw : (s.party p).woken
    · rfl
    · obtain ⟨x', hx'⟩ := Contender.consume_of_woken hw
      simp [hx'] at h
  -- every other stage steps unconditionally
  all_goals first
    | (simp at h)
    | (split at h <;> simp at h)

end Blocked

/-- **A stuck state is finished.** Were some party left, its wait would lead to one that can
step: nobody holds the internal lock, as its holder could go on; a claimed sleeper has a wake
delivered or its claimer can go on; an unclaimed sleeper has a leader, and a leader holds a
guard with a round to finish or hands the mutex over. -/
theorem stuck_finished {total : Nat} {s : Contention} (hi : s.Inv) (hw : s.Work total)
    (hstuck : s.stuck) : s.finished = true := by
  have hb := fun p => blocked_of_step_eq_none (hstuck p)
  -- a blocked party holds no internal lock and carries no wake
  have hnot_inner : ∀ p, (s.party p).stage.holdsInner = false := fun p => by
    rcases hb p with ⟨hs, -⟩ | ⟨hs | hs, -⟩ | ⟨hs, -⟩ <;> simp [hs, LockStage.holdsInner]
  have hin : s.inner = none := by
    cases h : s.inner with
    | none => rfl
    | some r => simpa [hnot_inner r] using hi.inner_holds r h
  have hno_carry : ∀ p q, ¬ s.carries p q := fun p q hc => by
    rcases hb p with ⟨hs, -⟩ | ⟨hs | hs, -⟩ | ⟨hs, -⟩ <;> rcases hc with hc | hc <;>
      simp [hs] at hc
  have hno_claimed : ∀ q, (s.party q).stage = .sleep → q ∉ s.claimed := fun q hs hcl => by
    rcases hi.claimed_sleeper q hs hcl with ⟨p, hc⟩ | hwk
    · exact hno_carry p q hc
    · rcases hb q with ⟨hs', -⟩ | ⟨hs' | hs', -⟩ | ⟨-, hwk'⟩ <;> simp_all
  -- so nobody leads: a guard holder could step, and so could a party handing over
  have hno_lead : ∀ l, ¬ s.leads l := fun l hl => by
    rcases hl with ho | ⟨hs, hcl⟩ | hs | hs
    · obtain ⟨hst, hprog⟩ := (hw.shape l).stage_of_owns ho
      rcases hb l with ⟨hs', hp'⟩ | ⟨hs' | hs', -⟩ | ⟨hs', -⟩ <;>
        rcases hst with hst | hst <;> simp_all
    · exact hno_claimed l hs hcl
    · rcases hb l with ⟨hs', -⟩ | ⟨-, hin'⟩ | ⟨hs', -⟩ <;> simp_all
    · simpa [hs, LockStage.holdsInner] using hnot_inner l
  -- and nobody waits, as a waiter has a leader
  have hidle : ∀ p, (s.party p).stage = .idle ∧ (s.party p).program = [] := fun p => by
    rcases hb p with h | ⟨hs | hs, hin'⟩ | ⟨hs, -⟩
    · exact h
    · exact absurd hin hin'
    · exact absurd hin hin'
    · obtain ⟨l, hl⟩ := hi.waits_led p (Or.inr (Or.inr ⟨hs, hno_claimed p hs⟩))
      exact absurd hl (hno_lead l)
  unfold finished
  rw [List.all_eq_true]
  intro x hx
  obtain ⟨p, hp, rfl⟩ := List.getElem_of_mem hx
  have hparty : s.party p = s.parties[p] := by
    simp [party, List.getD_eq_getElem?_getD, List.getElem?_eq_getElem hp]
  obtain ⟨hs, hprog⟩ := hidle p
  simp only [← hparty, hs, hprog, List.isEmpty_nil, Bool.true_and]
  rfl

/-! ## 5. The total -/

section Total

variable {programs : List (Bool × List MutexOp)} {r : Nat}

theorem party_start (programs : List (Bool × List MutexOp)) (h : r < programs.length) :
    (start programs).party r = { fiber := programs[r].1, program := programs[r].2 } := by
  simp [start, party, List.getD_eq_getElem?_getD, List.getElem?_eq_getElem h]

@[simp] theorem length_start : (start programs).parties.length = programs.length := by
  simp [start]

/-- At the start every party is between rounds with all its rounds to go. -/
theorem Work.start (kinds : List Bool) (K : Nat) :
    (Contention.start (kinds.map (·, rounds K))).Work (kinds.length * K) := by
  have hparty : ∀ r (h : r < kinds.length),
      (Contention.start (kinds.map (·, rounds K))).party r = { fiber := kinds[r], program := rounds K } :=
    fun r h => by simp [party_start (kinds.map (·, rounds K)) (by simpa using h)]
  refine ⟨?_, fun r => ?_⟩
  · have hpend : (Contention.start (kinds.map (·, rounds K))).pending = kinds.length * K := by
      unfold pending
      rw [Finset.sum_congr rfl (g := fun _ => K) (fun r hr => by
        rw [hparty r (by simpa using hr)]
        exact count_write_rounds K)]
      simp
    simp [hpend]
  · by_cases h : r < kinds.length
    · rw [hparty r h]
      exact .between K rfl rfl (Or.inl rfl)
    · rw [party_eq_default (by simpa using Nat.le_of_not_lt h)]
      exact .between 0 rfl rfl (Or.inl rfl)

/-- When every program has run to its end, the value is the total. -/
theorem Work.value_of_finished {total : Nat} {s : Contention} (hw : s.Work total)
    (hf : s.finished = true) : s.mutex.value = total := by
  have hdone : ∀ p, p < s.parties.length → (s.party p).program = [] := fun p hp => by
    have hparty : s.party p = s.parties[p] := by
      simp [party, List.getD_eq_getElem?_getD, List.getElem?_eq_getElem hp]
    have := List.all_eq_true.mp hf _ (List.getElem_mem hp)
    simp only [Bool.and_eq_true, List.isEmpty_iff] at this
    rw [hparty]
    exact this.1
  have hpend : s.pending = 0 :=
    Finset.sum_eq_zero (fun p hp => by rw [hdone p (Finset.mem_range.mp hp)]; rfl)
  have := hw.value_eq
  rw [hpend] at this
  simpa using this

end Total

/-! ## 6. The mutex's contract -/

/-- **The mutex admits one owner at a time, keeps an exact count, and hands itself over in
queue order.** Over every schedule of fibers and threads running any programs of locks,
tries, guard drops, reads and writes: at most one party owns the mutex; the count is the
owners plus the parties counted in behind them; during a hand-off nobody owns it and the
count stays positive; the claim finds an unclaimed waiter at the head of the queue and
makes it the owner; the queue only grows at its tail and shrinks at its head; and while
anybody is queued, a try and a lock's fast path take nothing. And parties running `K`
rounds of lock, read, yield, write the value read plus one, unlock, never deadlock, and
leave the value at the number of parties times `K`. -/
theorem mutex_exclusive_fifo :
    (∀ (programs : List (Bool × List MutexOp)) (schedule : List Nat),
      let s := (start programs).run schedule
      (∀ p q, s.owner p → s.owner q → p = q) ∧
      s.mutex.count = s.census s.owner + s.census s.waits ∧
      (∀ p, (s.party p).stage = .handoff ∨ (s.party p).stage = .pop →
        (∀ q, ¬ s.owner q) ∧ 1 ≤ s.mutex.count) ∧
      (∀ p, (s.party p).stage = .pop →
        ∃ q rest, s.mutex.waiters.queue = q :: rest ∧ s.waits q ∧
          ∃ t, s.step p = some t ∧ t.mutex.waiters.queue = rest ∧ t.owner q ∧ t.carries p q) ∧
      (∀ p t, s.step p = some t →
        t.mutex.waiters.queue = s.mutex.waiters.queue ∨
          t.mutex.waiters.queue = s.mutex.waiters.queue ++ [p] ∨
          ∃ q, s.mutex.waiters.queue = q :: t.mutex.waiters.queue ∧ t.owner q) ∧
      (s.mutex.waiters.queue ≠ [] → ∀ p rest,
        s.begin p .tryLock rest = s.update p (fun x => { x with program := rest }) ∧
          s.begin p .lock rest =
            (s.update p (fun x => { x with program := rest })).setStage p .slow)) ∧
    (∀ (kinds : List Bool) (K : Nat) (schedule : List Nat),
      let s := (start (kinds.map (·, rounds K))).run schedule
      (s.stuck → s.finished = true) ∧ (s.finished = true → s.mutex.value = kinds.length * K)) := by
  refine ⟨fun programs schedule => ?_, fun kinds K schedule => ?_⟩
  · have hi := inv_run_start programs schedule
    refine ⟨fun _ _ => hi.owner_unique, hi.count_eq_census, fun _ hs => hi.handoff_unowned hs,
      fun _ hs => hi.pop_passes hs, fun _ _ h => hi.queue_step h, fun hq _ rest => ?_⟩
    have hpos := hi.count_pos_of_queued hq
    exact ⟨begin_tryLock_of_pos hpos rest, begin_lock_of_pos hpos rest⟩
  · have hi := inv_run_start (kinds.map (·, rounds K)) schedule
    have hw := (Work.start kinds K).run Inv.start schedule
    exact ⟨stuck_finished hi hw, hw.value_of_finished⟩

end Contention

end Fibers
