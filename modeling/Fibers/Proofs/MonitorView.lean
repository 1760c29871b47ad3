import Mathlib
import Fibers.Sync.Monitor
import Fibers.Proofs.WaitQueue
import Fibers.Proofs.MutexRounds
/-!
# What the invariant of a wait reads

The invariant of `Fibers.Proofs.MonitorInvariant` is a condition on each party alone, read
through the party's *view*: its side, its operation on the user mutex, whether its block is
queued and claimed, and how many wakes the notifiers still owe it. This module gives the
pieces that condition is made of, and how each kind of step changes views:

* the stages of a wait that keep its block linked, and those in which a delivered wake is
  not consumed yet;
* what a notification claims: the first unclaimed block queued, or every one
  (`Notify.apply_woken`), the claims after it, and which blocks leave the queue;
* the wakes owed to a party, counted over the notifiers' lists (`Monitor.owed`);
* the user mutex under a wait: another party's step changes at most a party's wake-up
  (`Contention.party_step_ne`), and a party's own steps carry the dropping and the retaking
  of its guard through to their end (`Contender.Dropping.step`, `Contender.Retaking.step`).
-/

namespace Fibers

/-! ## 1. Stages of a wait, and pending wakes -/

namespace WaitStage

/-- The stages from the queueing of the block to the end of the wait. -/
def waiting : WaitStage → Bool
  | .release true | .sleep | .retract | .drain | .gone | .disarm | .withdraw => true
  | _ => false

/-- The waiting stages in which a delivered wake is not consumed yet. -/
def awake : WaitStage → Bool
  | .release true | .sleep | .retract | .drain => true
  | _ => false

/-- A fiber's stages after its timed wait was resumed. -/
def resumed : WaitStage → Bool
  | .gone | .disarm | .withdraw => true
  | _ => false

/-- The parties a notifier still has to wake. -/
def pending : WaitStage → List Nat
  | .wake ws => ws
  | _ => []

/-- A linked stage not yet resumed awaits a wake. -/
theorem awake_of_waiting {k : WaitStage} (hw : k.waiting = true) (hr : k.resumed = false) :
    k.awake = true := by
  cases k
  case release b => cases b <;> simp_all [waiting, awake]
  all_goals simp_all [waiting, resumed, awake]

/-- A linked stage of a fiber not yet resumed: queued and about to sleep, or asleep. -/
theorem eq_of_waiting {k : WaitStage} (hw : k.waiting = true) (hr : k.resumed = false)
    (hrd : k ≠ .retract ∧ k ≠ .drain) : k = .release true ∨ k = .sleep := by
  cases k
  case release b => cases b <;> simp_all [waiting]
  all_goals simp_all [waiting, resumed]

end WaitStage

namespace Wakeup

/-- The wake-up of a waiter with a delivered wake pending, or with none. -/
def holding (fiber : Bool) : Bool → Wakeup
  | true => ({} : Wakeup).deliver fiber
  | false => {}

variable {fiber : Bool}

@[simp] theorem holding_false : holding fiber false = {} := rfl

@[simp] theorem woken_holding (b : Bool) : (holding fiber b).woken fiber = b := by
  cases b <;> simp [holding]

@[simp] theorem deliver_empty : ({} : Wakeup).deliver fiber = holding fiber true := rfl

theorem consume_holding_true : (holding fiber true).consume fiber = some {} := by
  cases fiber <;> rfl

theorem consume_holding_false : (holding fiber false).consume fiber = none := by
  cases fiber <;> rfl

end Wakeup

/-! ## 2. What a notification claims -/

namespace Notify

/-- The blocks a notification claims: the first unclaimed block queued, or every one. -/
def chosen : Notify → List Nat → List Nat → List Nat
  | .one, queue, claimed => (queue.find? (fun x => !decide (x ∈ claimed))).toList
  | _, queue, claimed => queue.filter (fun x => !decide (x ∈ claimed))

variable (kind : Notify) {w : Waitable} {c l : List Nat} {q : Nat}

/-- A block chosen is queued and unclaimed. -/
theorem mem_chosen (h : q ∈ kind.chosen l c) : q ∈ l ∧ q ∉ c := by
  cases kind
  case one =>
    have hf : l.find? (fun x => !decide (x ∈ c)) = some q := by
      simpa [chosen] using h
    exact ⟨List.mem_of_find?_eq_some hf, by simpa using List.find?_some hf⟩
  all_goals simpa [chosen] using h

/-- No block is chosen twice. -/
theorem chosen_nodup (hl : l.Nodup) : (kind.chosen l c).Nodup := by
  cases kind
  case one =>
    cases h : l.find? (fun x => !decide (x ∈ c)) <;> simp [chosen, h]
  all_goals exact hl.filter _

/-- **A notification claims the blocks it chooses**: the first unclaimed one queued, or all. -/
theorem apply_woken (hl : w.queue.Nodup) : (kind.apply w c).2.2 = kind.chosen w.queue c := by
  cases kind
  case one => simp [apply, Waitable.wakeOne, chosen, Waitable.popClaim_found]
  all_goals simp [apply, Waitable.wakeAll, Waitable.persist, chosen, Waitable.claimAll_eq hl]

/-- The claims grow by the blocks chosen. -/
theorem apply_claimed (hl : w.queue.Nodup) :
    (kind.apply w c).2.1 = (kind.chosen w.queue c).reverse ++ c := by
  cases kind
  case one =>
    simp only [apply, Waitable.wakeOne]
    rw [Waitable.popClaim_claims, Waitable.popClaim_found]
    cases h : w.queue.find? (fun x => !decide (x ∈ c)) <;> simp [chosen, h]
  all_goals simp [apply, Waitable.wakeAll, Waitable.persist, chosen, Waitable.claimAll_eq hl]

/-- What stays queued is the end of the queue. -/
theorem apply_queue_suffix : (kind.apply w c).1.queue <:+ w.queue := by
  cases kind
  case one => simpa [apply, Waitable.wakeOne] using Waitable.popClaim_suffix c w.queue
  all_goals simp [apply, Waitable.wakeAll, Waitable.persist]

/-- A block taken off the queue was claimed already, or is chosen. -/
theorem apply_dropped (hq : q ∈ w.queue) (hr : q ∉ (kind.apply w c).1.queue) :
    q ∈ c ∨ q ∈ kind.chosen w.queue c := by
  cases kind
  case one =>
    simp only [apply, Waitable.wakeOne] at hr
    rcases Waitable.popClaim_dropped hq hr with h | h
    · exact Or.inl h
    · rw [Waitable.popClaim_found] at h
      simp [chosen, h]
  all_goals
    by_cases hc : q ∈ c
    · exact Or.inl hc
    · exact Or.inr (by simp [chosen, hq, hc])

/-- A chosen block leaves the queue, when no block is queued twice. -/
theorem apply_not_queued (hl : w.queue.Nodup) (hq : q ∈ kind.chosen w.queue c) :
    q ∉ (kind.apply w c).1.queue := by
  cases kind
  case one =>
    have hf : w.queue.find? (fun x => !decide (x ∈ c)) = some q := by
      simpa [chosen] using hq
    simp only [apply, Waitable.wakeOne]
    exact Waitable.popClaim_found_not_mem hl (by rw [Waitable.popClaim_found, hf])
  all_goals simp [apply, Waitable.wakeAll, Waitable.persist]

/-- Only a notification for good awakens the waitable for good. -/
theorem apply_persistent :
    (kind.apply w c).1.persistent = (decide (kind = .forever) || w.persistent) := by
  cases kind <;> simp [apply, Waitable.wakeOne, Waitable.wakeAll, Waitable.persist]

end Notify

/-! ## 3. The wakes owed to a party -/

namespace Monitor

/-- The wakes the notifiers still owe party `q`. -/
def owed (m : Monitor) (q : Nat) : Nat :=
  ∑ r ∈ Finset.range m.sides.length, (m.side r).stage.pending.count q

section Owed

variable {m : Monitor} {p : Nat} {f : Side → Side}

@[simp] theorem owed_setLock (l : Contention) : (m.setLock l).owed = m.owed := rfl
@[simp] theorem owed_setWaitable (w : Waitable) : (m.setWaitable w).owed = m.owed := rfl
@[simp] theorem owed_setInner (o : Option Nat) : (m.setInner o).owed = m.owed := rfl
@[simp] theorem owed_setClaimed (c : List Nat) : (m.setClaimed c).owed = m.owed := rfl
@[simp] theorem owed_give (op : MutexOp) : (m.give p op).owed = m.owed := rfl

/-- Steps that move no party's stage leave the wakes owed alone. -/
theorem owed_of_stages {m' : Monitor} (hlen : m'.sides.length = m.sides.length)
    (h : ∀ r, (m'.side r).stage = (m.side r).stage) : m'.owed = m.owed := by
  funext q
  unfold owed
  rw [hlen]
  exact Finset.sum_congr rfl (fun r _ => by rw [h r])

/-- Changing one party's side changes the wakes owed by what its own list holds. -/
theorem owed_updateSide (hp : p < m.sides.length) (q : Nat) :
    (m.updateSide p f).owed q + (m.side p).stage.pending.count q =
      m.owed q + (f (m.side p)).stage.pending.count q := by
  have hmem := Finset.mem_range.mpr hp
  unfold owed
  rw [length_updateSide, ← Finset.add_sum_erase _ _ hmem, ← Finset.add_sum_erase _ _ hmem]
  have hrest : ∑ r ∈ (Finset.range m.sides.length).erase p,
      ((m.updateSide p f).side r).stage.pending.count q =
      ∑ r ∈ (Finset.range m.sides.length).erase p, (m.side r).stage.pending.count q :=
    Finset.sum_congr rfl (fun r hr => by rw [side_updateSide_ne (Finset.ne_of_mem_erase hr)])
  rw [hrest, side_updateSide_self hp]
  omega

/-- A change to a side that keeps its list of parties to wake keeps the wakes owed. -/
theorem owed_updateSide_of_pending (hf : (f (m.side p)).stage.pending = (m.side p).stage.pending) :
    (m.updateSide p f).owed = m.owed := by
  by_cases hp : p < m.sides.length
  · funext q
    have h := owed_updateSide (f := f) hp q
    rw [hf] at h
    omega
  · simp [updateSide, List.modify_eq_self (Nat.le_of_not_lt hp)]

/-- Claims move no stage. -/
@[simp] theorem stage_claimAll (ws : List Nat) (q : Nat) :
    ((m.claimAll ws).side q).stage = (m.side q).stage := by
  rw [side_claimAll]
  split <;> rfl

@[simp] theorem owed_claimAll (ws : List Nat) : (m.claimAll ws).owed = m.owed :=
  owed_of_stages (by simp) (stage_claimAll ws)

@[simp] theorem owed_deliver (q : Nat) : (m.deliver q).owed = m.owed :=
  owed_updateSide_of_pending rfl

end Owed

end Monitor

/-! ## 4. Views -/

/-- What the invariant reads of one party. -/
@[ext] structure View where
  side : Side
  /-- The party's operation on the user mutex, its wake-up aside. -/
  contender : Contender
  queued : Bool
  claimed : Bool
  /-- The wakes the notifiers still owe it. -/
  owed : Nat

namespace Monitor

/-- Party `q`'s view. -/
def view (m : Monitor) (q : Nat) : View where
  side := m.side q
  contender := { m.lock.party q with wakeup := {} }
  queued := decide (q ∈ m.waitable.queue)
  claimed := decide (q ∈ m.claimed)
  owed := m.owed q

section Views

variable {m m' : Monitor} {p q : Nat}

@[simp] theorem side_view : (m.view q).side = m.side q := rfl
@[simp] theorem fiber_view : (m.view q).contender.fiber = m.fiber q := rfl
@[simp] theorem queued_view : (m.view q).queued = decide (q ∈ m.waitable.queue) := rfl
@[simp] theorem claimed_view : (m.view q).claimed = decide (q ∈ m.claimed) := rfl
@[simp] theorem owed_view : (m.view q).owed = m.owed q := rfl

/-- Two states show a party alike when they agree on everything its view reads. -/
theorem view_congr (hs : m'.side q = m.side q)
    (hc : { m'.lock.party q with wakeup := {} } = { m.lock.party q with wakeup := {} })
    (hq : q ∈ m'.waitable.queue ↔ q ∈ m.waitable.queue) (hcl : q ∈ m'.claimed ↔ q ∈ m.claimed)
    (ho : m'.owed q = m.owed q) : m'.view q = m.view q := by
  simp only [view, hs, hc, ho, hq, hcl]

@[simp] theorem view_setInner (o : Option Nat) : (m.setInner o).view q = m.view q := rfl

theorem view_setWaitable (w : Waitable) :
    (m.setWaitable w).view q = { m.view q with queued := decide (q ∈ w.queue) } := rfl

theorem view_setClaimed (c : List Nat) :
    (m.setClaimed c).view q = { m.view q with claimed := decide (q ∈ c) } := rfl

variable {f : Side → Side} {op : MutexOp}

theorem view_updateSide_ne (hq : q ≠ p)
    (hf : (f (m.side p)).stage.pending = (m.side p).stage.pending) :
    (m.updateSide p f).view q = m.view q :=
  view_congr (side_updateSide_ne hq) rfl Iff.rfl Iff.rfl (by rw [owed_updateSide_of_pending hf])

theorem view_updateSide_self (hp : p < m.sides.length)
    (hf : (f (m.side p)).stage.pending = (m.side p).stage.pending) :
    (m.updateSide p f).view p = { m.view p with side := f (m.side p) } := by
  rw [view, view, side_updateSide_self hp, owed_updateSide_of_pending hf]
  rfl

theorem view_give_ne (hq : q ≠ p) : (m.give p op).view q = m.view q :=
  view_congr rfl (by simp [hq]) Iff.rfl Iff.rfl rfl

theorem view_give_self (hp : p < m.lock.parties.length) :
    (m.give p op).view p =
      { m.view p with contender := { (m.view p).contender with program := [op] } } := by
  rw [view, view, lock_give, Contention.party_update_self hp]
  rfl

end Views

end Monitor

/-! ## 5. The user mutex under a wait -/

namespace Contender

/-- Dropping the guard: the unlock is handed over, or has run past its count-out. -/
def Dropping (x : Contender) : Prop :=
  (x.program = [.unlock] ∧ x.stage = .idle) ∨
    (x.program = [] ∧ x.owns = false ∧ (x.stage = .idle ∨ x.stage.unlocking = true))

/-- Retaking the guard: the lock is handed over, is on its way, or has taken the mutex. -/
def Retaking (x : Contender) : Prop :=
  (x.program = [.lock] ∧ x.stage = .idle) ∨ (x.program = [] ∧ x.stage.locking = true) ∨
    (x.program = [] ∧ x.owns = true ∧ (x.stage = .enter ∨ x.stage = .idle))

end Contender

namespace Contention

variable {s t : Contention} {p q : Nat}

@[simp] theorem length_begin (op : MutexOp) (rest : List MutexOp) :
    (s.begin p op rest).parties.length = s.parties.length := by
  cases op <;> simp only [Contention.begin] <;> (try split_ifs) <;> simp

theorem party_begin_ne (hq : q ≠ p) (op : MutexOp) (rest : List MutexOp) :
    (s.begin p op rest).party q = s.party q := by
  have hs : ∀ (s : Contention) (k : LockStage), (s.setStage p k).party q = s.party q := by
    intro s k
    simp [setStage, hq]
  cases op <;> simp only [Contention.begin] <;> (try split_ifs) <;> simp [hq, hs]

@[simp] theorem party_setStage_ne {k : LockStage} (hq : q ≠ p) : (s.setStage p k).party q = s.party q := by
  simp [setStage, hq]

/-- A step keeps the number of parties. -/
theorem length_step (h : s.step p = some t) : t.parties.length = s.parties.length := by
  cases hs : (s.party p).stage <;> simp only [Contention.step, hs] at h
  all_goals
    repeat' split at h
    all_goals
      first
      | (simp only [Option.some.injEq] at h; subst h; simp)
      | (simp at h)

/-- **Another party's step changes at most a party's wake-up**: it delivers a wake, or
leaves the party alone. -/
theorem party_step_ne (h : s.step p = some t) (hq : q ≠ p) :
    t.party q = s.party q ∨ t.party q = (s.party q).deliver := by
  cases hs : (s.party p).stage <;> simp only [Contention.step, hs] at h
  case idle =>
    split at h
    · simp at h
    · simp only [Option.some.injEq] at h
      subst h
      exact Or.inl (party_begin_ne hq _ _)
  case wake r =>
    simp only [Option.some.injEq] at h
    subst h
    rw [party_setStage_ne hq, party_update]
    by_cases hr : q = r ∧ r < s.parties.length
    · obtain ⟨rfl, hlt⟩ := hr
      simp [hlt]
    · simp [hr]
  all_goals
    repeat' split at h
    all_goals
      first
      | (simp only [Option.some.injEq] at h; subst h; simp [hq])
      | (simp at h)

/-- Consuming a wake keeps the party's kind. -/
theorem fiber_consume {x x' : Contender} (h : x.consume = some x') : x'.fiber = x.fiber := by
  unfold Contender.consume at h
  obtain ⟨w, -, rfl⟩ := Option.map_eq_some_iff.mp h
  rfl

/-- A party's own step keeps its kind. -/
theorem fiber_step_self (h : s.step p = some t) : (t.party p).fiber = (s.party p).fiber := by
  have hp := lt_of_step h
  cases hs : (s.party p).stage <;> simp only [Contention.step, hs] at h
  case idle =>
    split at h
    · simp at h
    · rename_i op rest _
      simp only [Option.some.injEq] at h
      subst h
      cases op <;> simp only [Contention.begin] <;> (try split_ifs) <;>
        simp (disch := simpa using hp) [party_setStage]
  case sleep =>
    split at h
    · rename_i x' hc
      simp only [Option.some.injEq] at h
      subst h
      simpa [hp] using fiber_consume hc
    · simp at h
  case wake r =>
    simp only [Option.some.injEq] at h
    subst h
    simp (disch := simpa using hp) only [party_setStage, if_true, party_update]
    split_ifs with hr
    · obtain ⟨rfl, -⟩ := hr
      rfl
    · rfl
  all_goals
    repeat' split at h
    all_goals
      first
      | (simp only [Option.some.injEq] at h; subst h
         simp (disch := simpa using hp) [party_setStage])
      | (simp at h)

/-- What starting an unlock does to the party: the guard goes, and a hand-off starts when
others are counted in. -/
theorem party_begin_unlock (hp : p < s.parties.length) (rest : List MutexOp) :
    (s.begin p .unlock rest).party p =
      { s.party p with
        program := rest, owns := false,
        stage := (if (s.party p).owns ∧ s.mutex.count ≠ 1 then .handoff else (s.party p).stage) } := by
  simp only [Contention.begin]
  by_cases ho : (s.party p).owns = true
  · by_cases h1 : s.mutex.count = 1
    · simp (disch := simpa using hp) [ho, h1]
    · simp (disch := simpa using hp) [ho, h1, party_setStage]
  · have ho' : (s.party p).owns = false := by simpa using ho
    simp (disch := simpa using hp) [ho']

/-- What starting a lock does to the party: the fast path takes the mutex, or the slow path
starts. -/
theorem party_begin_lock (hp : p < s.parties.length) (rest : List MutexOp) :
    (s.begin p .lock rest).party p =
      if s.mutex.count = 0 then { s.party p with program := rest, owns := true }
      else { s.party p with program := rest, stage := .slow } := by
  by_cases h0 : s.mutex.count = 0 <;> simp (disch := simpa using hp) [Contention.begin, h0, party_setStage]

/-- **Only an unlock ends ownership**: a party's step that leaves it without the mutex it
owned starts an unlock of its program. -/
theorem unlock_of_owns_step (h : s.step p = some t) (ho : (s.party p).owns = true)
    (ho' : (t.party p).owns = false) :
    (s.party p).stage = .idle ∧ ∃ rest, (s.party p).program = .unlock :: rest := by
  have hp := lt_of_step h
  cases hs : (s.party p).stage <;> simp only [Contention.step, hs] at h
  case idle =>
    split at h
    · simp at h
    · rename_i op rest hprog
      simp only [Option.some.injEq] at h
      subst h
      refine ⟨rfl, ?_⟩
      cases op
      case unlock => exact ⟨rest, hprog⟩
      -- every other operation keeps the mutex, or takes it
      all_goals
        exfalso
        simp only [Contention.begin] at ho'
        (try split_ifs at ho') <;> simp (disch := simpa using hp) [party_setStage, ho] at ho'
  case wake r =>
    -- a wake it delivers, even to itself, leaves ownership alone
    simp only [Option.some.injEq] at h
    subst h
    simp (disch := simpa using hp) only [party_setStage, if_true, party_update] at ho'
    split_ifs at ho' with hr
    · obtain ⟨rfl, -⟩ := hr
      simp [ho] at ho'
    · simp [ho] at ho'
  -- past the start of an operation, ownership only grows
  all_goals
    exfalso
    repeat' split at h
    all_goals
      first
      | (simp only [Option.some.injEq] at h; subst h
         simp (disch := simpa using hp) [party_setStage, ho] at ho')
      | (simp at h)

end Contention

namespace Contender

variable {s t : Contention} {p : Nat}

/-- **A party's own steps carry the dropping of its guard on**, to the end of the unlock. -/
theorem Dropping.step (hx : (s.party p).Dropping) (h : s.step p = some t) : (t.party p).Dropping := by
  have hp := Contention.lt_of_step h
  rcases hx with ⟨hprog, hst⟩ | ⟨hprog, hown, hst⟩
  · -- the unlock itself
    simp only [Contention.step, hst, hprog, Option.some.injEq] at h
    subst h
    rw [Contention.party_begin_unlock hp]
    refine Or.inr ⟨rfl, rfl, ?_⟩
    split_ifs <;> simp [hst, LockStage.unlocking]
  · -- the steps of the hand-off after the count-out
    right
    cases hs : (s.party p).stage <;> simp [hs, LockStage.unlocking] at hst <;>
      simp only [Contention.step, hs] at h
    case idle => simp [hprog] at h
    case wake r =>
      -- the wake goes to the waiter claimed: only a wake-up changes, whoever that is
      simp only [Option.some.injEq] at h
      subst h
      simp (disch := simpa using hp) only [Contention.party_setStage, if_true, Contention.party_update]
      split_ifs with hr
      · obtain ⟨rfl, -⟩ := hr
        simp [hprog, hown]
      · simp [hprog, hown]
    all_goals
      repeat' split at h
      all_goals
        first
        | (simp only [Option.some.injEq] at h; subst h
           simp (disch := simpa using hp) [Contention.party_setStage, hprog, hown, LockStage.unlocking])
        | (simp at h)

/-- **A party's own steps carry the retaking of its guard on**, until it holds the mutex. -/
theorem Retaking.step (hx : (s.party p).Retaking) (h : s.step p = some t) : (t.party p).Retaking := by
  have hp := Contention.lt_of_step h
  rcases hx with ⟨hprog, hst⟩ | ⟨hprog, hst⟩ | ⟨hprog, hown, hst⟩
  · -- the lock itself: the fast path, or the slow one
    simp only [Contention.step, hst, hprog, Option.some.injEq] at h
    subst h
    rw [Contention.party_begin_lock hp]
    split_ifs
    · exact Or.inr (Or.inr ⟨rfl, rfl, Or.inr hst⟩)
    · exact Or.inr (Or.inl ⟨rfl, rfl⟩)
  · -- on the slow path
    cases hs : (s.party p).stage <;> simp [hs, LockStage.locking] at hst <;>
      simp only [Contention.step, hs] at h
    case sleep =>
      split at h
      · rename_i x' hc
        simp only [Option.some.injEq] at h
        subst h
        refine Or.inr (Or.inr ⟨?_, ?_, Or.inr ?_⟩) <;>
          simp (disch := simpa using hp) [(Contender.consume_keeps hc).1, hprog]
      · simp at h
    all_goals
      repeat' split at h
      all_goals
        first
        | (simp only [Option.some.injEq] at h; subst h
           simp (disch := simpa using hp) [Contention.party_setStage, hprog, Retaking,
             LockStage.locking])
        | (simp at h)
  · -- holding the mutex, on its way out of the slow lock's critical section
    rcases hst with hst | hst
    · simp only [Contention.step, hst, Option.some.injEq] at h
      subst h
      simp (disch := simpa using hp) [Contention.party_setStage, Retaking, hprog, hown]
    · simp [Contention.step, hst, hprog] at h

end Contender

end Fibers
